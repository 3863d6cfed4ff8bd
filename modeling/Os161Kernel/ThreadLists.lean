import Os161Kernel.Scheduler

/-!
# No thread is lost or duplicated

* `Sched.Core`: the thread lists are apart, a thread fits the list it is on, and a thread on no list runs.
* `Sched.Core.place`: the one lemma behind every step.  A step moves one thread and touches nothing else.
* `threads_neither_lost_nor_duplicated`: the invariant along every interleaving, and what it says of a thread.
-/

namespace Os161Kernel

open Calls Queues Runs Function

namespace Sched

variable {s s' : Sched} {c t i : ℕ} {q : Option Threadlist} {tl src dst : Threadlist} {rest : List ℕ}

/-! ### The invariant of the lists -/

/-- A thread on this list is in the right state and belongs to the right CPU. -/
def Fits (s : Sched) : Threadlist → ℕ → Prop
  | .runqueue c, t | .victims c, t => s.tState t = .ready ∧ s.tCpu t = c
  | .zombies c, t => s.tState t = .zombie ∧ s.tCpu t = c
  | .wchan _, t | .woken _, t => s.tState t = .sleep

theorem Fits.congr (h : s.Fits tl t) (hstate : s'.tState t = s.tState t) (hcpu : s'.tCpu t = s.tCpu t) :
    s'.Fits tl t := by
  cases tl <;> simpa only [Fits, hstate, hcpu] using h

/-- **The lists are apart and complete.** -/
structure Core (s : Sched) : Prop where
  apart : Apart s.lists
  fits : ∀ tl t, t ∈ s.lists tl → s.Fits tl t
  created : ∀ tl t, t ∈ s.lists tl → s.life t = .created
  cur : ∀ c < s.numcpus, s.tCpu (s.curthread c) = c
  curCreated : ∀ c < s.numcpus, s.life (s.curthread c) = .created
  off : ∀ c < s.numcpus, s.isidle c = false → ∀ tl, s.curthread c ∉ s.lists tl
  cover : ∀ t, s.life t = .created →
    (∃ tl, t ∈ s.lists tl) ∨ ∃ c < s.numcpus, s.isidle c = false ∧ s.curthread c = t
  cpus : ∀ t, s.life t ≠ .absent → s.tCpu t < s.numcpus

/-- Thread `t` apart, the two states have the same threads. -/
structure Touches (t : ℕ) (s s' : Sched) : Prop where
  numcpus : s'.numcpus = s.numcpus
  tState : ∀ x, x ≠ t → s'.tState x = s.tState x
  tCpu : ∀ x, x ≠ t → s'.tCpu x = s.tCpu x
  life : ∀ x, x ≠ t → s'.life x = s.life x

/-- **One thread is placed.**  It goes to the list `q` or, for `none`, leaves the lists to run or to be destroyed. -/
theorem Core.place (h : Core s) (ht : Touches t s s') (hq : Placed t q s.lists s'.lists)
    (hfits : ∀ tl, q = some tl → s'.Fits tl t ∧ s'.life t = .created)
    (hback : ∀ c < s.numcpus, s'.curthread c ≠ t → s'.curthread c = s.curthread c ∧ s'.isidle c = s.isidle c)
    (hkeep : ∀ c < s.numcpus, s.isidle c = false → s.curthread c ≠ t →
      s'.curthread c = s.curthread c ∧ s'.isidle c = false)
    (hself : ∀ c < s.numcpus, s'.curthread c = t →
      s'.tCpu t = c ∧ s'.life t = .created ∧ (s'.isidle c = false → q = none))
    (hcover : s'.life t = .created → q ≠ none ∨ ∃ c < s.numcpus, s'.isidle c = false ∧ s'.curthread c = t)
    (hcpu : s'.life t ≠ .absent → s'.tCpu t < s.numcpus) : Core s' where
  apart := hq.apart h.apart
  fits tl x hx := by
    by_cases hxt : x = t
    · subst hxt
      exact (hfits tl ((hq.mem_self tl).mp hx)).1
    · exact (h.fits tl x ((hq.mem_of_ne hxt tl).mp hx)).congr (ht.tState x hxt) (ht.tCpu x hxt)
  created tl x hx := by
    by_cases hxt : x = t
    · subst hxt
      exact (hfits tl ((hq.mem_self tl).mp hx)).2
    · rw [ht.life x hxt]
      exact h.created tl x ((hq.mem_of_ne hxt tl).mp hx)
  cur c hc := by
    rw [ht.numcpus] at hc
    by_cases hct : s'.curthread c = t
    · rw [hct]
      exact (hself c hc hct).1
    · rw [ht.tCpu _ hct, (hback c hc hct).1]
      exact h.cur c hc
  curCreated c hc := by
    rw [ht.numcpus] at hc
    by_cases hct : s'.curthread c = t
    · rw [hct]
      exact (hself c hc hct).2.1
    · rw [ht.life _ hct, (hback c hc hct).1]
      exact h.curCreated c hc
  off c hc hidle tl hin := by
    rw [ht.numcpus] at hc
    by_cases hct : s'.curthread c = t
    · rw [hct, hq.mem_self, (hself c hc hct).2.2 hidle] at hin
      exact nomatch hin
    · rw [hq.mem_of_ne hct, (hback c hc hct).1] at hin
      exact h.off c hc ((hback c hc hct).2 ▸ hidle) tl hin
  cover x hx := by
    rw [ht.numcpus]
    by_cases hxt : x = t
    · subst hxt
      rcases hcover hx with hsome | hrun
      · obtain ⟨tl, htl⟩ := Option.ne_none_iff_exists'.mp hsome
        exact .inl ⟨tl, (hq.mem_self tl).mpr htl⟩
      · exact .inr hrun
    · rw [ht.life x hxt] at hx
      rcases h.cover x hx with ⟨tl, hin⟩ | ⟨c, hc, hidle, rfl⟩
      · exact .inl ⟨tl, (hq.mem_of_ne hxt tl).mpr hin⟩
      · obtain ⟨hcur, hidle'⟩ := hkeep c hc hidle hxt
        exact .inr ⟨c, hc, hidle', hcur⟩
  cpus x hx := by
    rw [ht.numcpus]
    by_cases hxt : x = t
    · subst hxt
      exact hcpu hx
    · rw [ht.tCpu x hxt]
      exact h.cpus x (ht.life x hxt ▸ hx)

theorem Core.not_running (h : Core s) (hin : t ∈ s.lists tl) (hc : c < s.numcpus) (hcur : s.curthread c = t) :
    s.isidle c = true := by
  by_contra hidle
  exact h.off c hc (eq_false_of_ne_true hidle) tl (hcur ▸ hin)

theorem Core.move (h : Core s) (hin : t ∈ s.lists src) (hq : Placed t (some dst) s.lists s'.lists)
    (hs' : s' = { s with lists := s'.lists, tState := s'.tState, activity := s'.activity })
    (hstate : ∀ x, x ≠ t → s'.tState x = s.tState x) (hfits : s'.Fits dst t) : Core s' := by
  have hcpu : s'.tCpu = s.tCpu := by rw [hs']
  have hlife : s'.life = s.life := by rw [hs']
  have hcur : s'.curthread = s.curthread := by rw [hs']
  have hidle : s'.isidle = s.isidle := by rw [hs']
  have hmade := h.created src t hin
  apply h.place (t := t) ⟨by rw [hs'], hstate, fun x _ => by rw [hcpu], fun x _ => by rw [hlife]⟩ hq
  · intro tl htl
    rw [← Option.some.inj htl, hlife]
    exact ⟨hfits, hmade⟩
  · intro c _ _
    rw [hcur, hidle]
    exact ⟨rfl, rfl⟩
  · intro c _ hno _
    rw [hcur, hidle]
    exact ⟨rfl, hno⟩
  · intro c hc hct
    rw [hcur] at hct
    rw [hcpu, hlife, hidle, ← hct]
    refine ⟨h.cur c hc, h.curCreated c hc, fun hno => ?_⟩
    rw [h.not_running hin hc hct] at hno
    exact Bool.noConfusion hno
  · exact fun _ => .inl (Option.some_ne_none dst)
  · intro hlive
    rw [hcpu]
    exact h.cpus t (hlife ▸ hlive)

/-! ### What a CPU leaves to the others -/

/-- A part executed by CPU `c` leaves the private lists of the others alone and takes nothing from their run queues. -/
structure OthersKeep (c : ℕ) (L L' : Threadlist → List ℕ) : Prop where
  victims : ∀ c', c' ≠ c → L' (.victims c') = L (.victims c')
  woken : ∀ c', c' ≠ c → L' (.woken c') = L (.woken c')
  runqueue : ∀ c', c' ≠ c → (L (.runqueue c')).length ≤ (L' (.runqueue c')).length

/-- The lists that CPU `c` may take threads from. -/
def Mine (c : ℕ) : Threadlist → Prop
  | .runqueue c' | .victims c' | .woken c' => c' = c
  | .zombies _ | .wchan _ => True

variable {L L' L'' : Threadlist → List ℕ} {l : List ℕ}

theorem OthersKeep.refl (c : ℕ) (L : Threadlist → List ℕ) : OthersKeep c L L :=
  ⟨fun _ _ => rfl, fun _ _ => rfl, fun _ _ => Nat.le_refl _⟩

theorem OthersKeep.trans (h : OthersKeep c L L') (h' : OthersKeep c L' L'') : OthersKeep c L L'' where
  victims c' hc := (h'.victims c' hc).trans (h.victims c' hc)
  woken c' hc := (h'.woken c' hc).trans (h.woken c' hc)
  runqueue c' hc := Nat.le_trans (h.runqueue c' hc) (h'.runqueue c' hc)

theorem OthersKeep.mine (h : OthersKeep c L L') (hmine : Mine c tl) :
    OthersKeep c L (update L' tl l) := by
  apply h.trans
  have hne : ∀ tl', ¬ Mine c tl' → update L' tl l tl' = L' tl' := by
    intro tl' hno
    apply update_of_ne
    rintro rfl
    exact hno hmine
  exact ⟨fun c' hc => hne (.victims c') hc, fun c' hc => hne (.woken c') hc,
    fun c' hc => Nat.le_of_eq (congrArg List.length (hne (.runqueue c') hc)).symm⟩

theorem OthersKeep.enqueue (h : OthersKeep c L L') :
    OthersKeep c L (update L' (.runqueue i) (L' (.runqueue i) ++ [t])) := by
  apply h.trans
  refine ⟨fun c' _ => ?_, fun c' _ => ?_, fun c' _ => ?_⟩
  · simp
  · simp
  · by_cases hc' : c' = i
    · simp [hc']
    · simp [hc']

/-- The private lists of a CPU in the middle of a function, and what it remembers of its run queue. -/
def Busy (L : Threadlist → List ℕ) (c : ℕ) : Activity → Prop
  | .none => L (.victims c) = [] ∧ L (.woken c) = []
  | .waking => L (.victims c) = []
  | .counting i myCount _ =>
    L (.victims c) = [] ∧ L (.woken c) = [] ∧ (c < i → myCount ≤ (L (.runqueue c)).length)
  | .sending _ _ toSend => L (.woken c) = [] ∧ toSend ≤ (L (.victims c)).length

variable {a : Activity} {ts : ℕ → ThreadState} {f : ℕ} {op : Op}

theorem Busy.mono (h : Busy L c a) (hvictims : L' (.victims c) = L (.victims c))
    (hwoken : L' (.woken c) = L (.woken c))
    (hqueue : (L (.runqueue c)).length ≤ (L' (.runqueue c)).length) : Busy L' c a := by
  cases a with
  | none => exact ⟨hvictims.trans h.1, hwoken.trans h.2⟩
  | waking => exact hvictims.trans h
  | counting i myCount totalCount =>
    exact ⟨hvictims.trans h.1, hwoken.trans h.2.1, fun hi => Nat.le_trans (h.2.2 hi) hqueue⟩
  | sending i oneShare toSend => exact ⟨hwoken.trans h.1, hvictims ▸ h.2⟩

/-- **The invariant of the scheduler.** -/
structure Inv (s : Sched) : Prop where
  core : Core s
  busy : ∀ c < s.numcpus, Busy s.lists c (s.activity c)

/-- CPU `c` is in the middle of a part that it began in `s₀`. -/
structure Mid (c : ℕ) (s₀ s : Sched) : Prop where
  core : Core s
  numcpus : s.numcpus = s₀.numcpus
  activity : ∀ c', c' ≠ c → s.activity c' = s₀.activity c'
  lists : OthersKeep c s₀.lists s.lists

variable {s₀ : Sched}

theorem Core.mid (h : Core s) (c : ℕ) : Mid c s s := ⟨h, rfl, fun _ _ => rfl, OthersKeep.refl c s.lists⟩

theorem Mid.inv (h : Mid c s₀ s) (h₀ : Inv s₀) (hown : Busy s.lists c (s.activity c)) : Inv s := by
  refine ⟨h.core, fun c' hc' => ?_⟩
  by_cases hcc : c' = c
  · rw [hcc]
    exact hown
  · rw [h.activity c' hcc]
    rw [h.numcpus] at hc'
    exact (h₀.busy c' hc').mono (h.lists.victims c' hcc) (h.lists.woken c' hcc) (h.lists.runqueue c' hcc)

theorem Mid.setActivity (h : Mid c s₀ s) (h₀ : Inv s₀) (hown : Busy s.lists c a) :
    Inv { s with activity := update s.activity c a } := by
  have hcore := h.core
  have hmid : Mid c s₀ { s with activity := update s.activity c a } := by
    refine ⟨⟨hcore.apart, hcore.fits, hcore.created, hcore.cur, hcore.curCreated, hcore.off, hcore.cover,
      hcore.cpus⟩, h.numcpus, fun c' hc' => ?_, h.lists⟩
    exact (update_of_ne hc' ..).trans (h.activity c' hc')
  apply hmid.inv h₀
  show Busy s.lists c (update s.activity c a c)
  rw [update_self]
  exact hown

/-- The lists that a CPU may add threads to: its own ones and every run queue. -/
def Open (c : ℕ) (tl : Threadlist) : Prop := Mine c tl ∨ ∃ i, tl = .runqueue i

theorem OthersKeep.tail (h : OthersKeep c L L') (hopen : Open c dst) :
    OthersKeep c L (update L' dst (L' dst ++ [t])) := by
  rcases hopen with hmine | ⟨i, rfl⟩
  · exact h.mine hmine
  · exact h.enqueue

/-- **The head of a list goes to the tail of a list**, and maybe changes its state. -/
theorem Mid.moveTail (h : Mid c s₀ s) (hlist : s.lists src = t :: rest) (hsrc : Mine c src) (dst : Threadlist)
    (hdst : Open c dst) (hts : ∀ x, x ≠ t → ts x = s.tState x) (hfits : Fits { s with tState := ts } dst t) :
    Mid c s₀ { s with
      lists := update (update s.lists src rest) dst
        (update s.lists src rest dst ++ [t])
      tState := ts } := by
  refine ⟨?_, h.numcpus, h.activity, (h.lists.mine hsrc).tail hdst⟩
  have hin : t ∈ s.lists src := by simp [hlist]
  have hplaced := (h.core.apart.take_head hlist).tail dst
  exact h.core.move hin hplaced rfl hts (hfits.congr rfl rfl)

/-! ### The parts -/

/-- The call returns, in a state with the property. -/
abbrev Ensures {α : Type} (m : SchedCall α) (s : Sched) (Q : α → Sched → Prop) : Prop := Ends m s Q fun _ _ => False

variable {Q : Option ℕ → Sched → Prop}

theorem ensures_remhead (hnil : s.lists tl = [] → Q none s)
    (hcons : ∀ t rest, s.lists tl = t :: rest →
      Q (some t) { s with lists := update s.lists tl rest }) :
    Ensures (threadlistRemhead tl) s Q := by
  unfold Ensures threadlistRemhead
  simp only [ends_bind, ends_read]
  cases hlist : s.lists tl with
  | nil => exact hnil hlist
  | cons t rest => exact hcons t rest hlist

theorem ensures_remtail (hnil : s.lists tl = [] → Q none s)
    (hlast : ∀ t rest, s.lists tl = rest ++ [t] →
      Q (some t) { s with lists := update s.lists tl rest }) :
    Ensures (threadlistRemtail tl) s Q := by
  unfold Ensures threadlistRemtail
  simp only [ends_bind, ends_read]
  rcases List.eq_nil_or_concat' (s.lists tl) with hempty | ⟨rest, t, hlist⟩
  · rw [hempty]
    exact hnil hempty
  · rw [hlist, List.getLast?_append]
    simp only [List.getLast?_singleton, Option.some_or, ends_bind, ends_update, ends_pure, hlist,
      List.dropLast_concat]
    exact hlast t rest hlist

/-- **Rule for draining a list.**  The property is kept by the body, which leaves the rest of the list as it is. -/
theorem ensures_drain (tl : Threadlist) (body : ℕ → SchedCall Unit) {P : Sched → Prop} (h : P s)
    (hround : ∀ s t rest, P s → s.lists tl = t :: rest →
      Ensures (body t) { s with lists := update s.lists tl rest } fun _ s' => P s' ∧ s'.lists tl = rest) :
    Ensures (drain tl body) s fun _ s' => P s' ∧ s'.lists tl = [] := by
  unfold Ensures drain
  simp only [ends_bind, ends_read]
  -- the number of rounds is the length of the list that is left
  generalize hn : (s.lists tl).length = n
  induction n generalizing s with
  | zero => exact ⟨h, List.length_eq_zero_iff.mp hn⟩
  | succ n ih =>
    unfold drainRounds
    rw [ends_bind]
    apply ensures_remhead
    · intro hempty
      exact ⟨h, hempty⟩
    · intro t rest hlist
      rw [ends_bind]
      apply (hround s t rest h hlist).mono _ fun _ _ => id
      intro _ s' hs'
      apply ih hs'.1
      rw [hs'.2]
      rw [hlist, List.length_cons] at hn
      omega

/-! #### Switching -/

theorem Core.enqueue (h : Core s) (hc : c < s.numcpus) (hidle : s.isidle c = false)
    (hts : ∀ x, x ≠ s.curthread c → ts x = s.tState x)
    (hfits : Fits { s with tState := ts } dst (s.curthread c)) :
    Core { s with
      lists := update s.lists dst (s.lists dst ++ [s.curthread c])
      tState := ts
      isidle := update s.isidle c true } := by
  have hother : ∀ c' < s.numcpus, s.curthread c' = s.curthread c → c' = c := by
    intro c' hc' heq
    rw [← h.cur c' hc', heq, h.cur c hc]
  have hsame : ∀ c', c' ≠ c → update s.isidle c true c' = s.isidle c' :=
    fun c' hne => update_of_ne hne ..
  apply h.place (t := s.curthread c) (q := some dst)
  · exact ⟨rfl, hts, fun _ _ => rfl, fun _ _ => rfl⟩
  · exact placed_tail (h.off c hc hidle)
  · intro tl htl
    rw [← Option.some.inj htl]
    exact ⟨hfits, h.curCreated c hc⟩
  · intro c' _ hne
    exact ⟨rfl, hsame c' fun heq => hne (heq ▸ rfl)⟩
  · intro c' _ hno hne
    exact ⟨rfl, (hsame c' fun heq => hne (heq ▸ rfl)).trans hno⟩
  · intro c' hc' heq
    have hcc := hother c' hc' heq
    subst hcc
    refine ⟨h.cur c' hc, h.curCreated c' hc, fun hno => ?_⟩
    have hno : update s.isidle c' true c' = false := hno
    rw [update_self] at hno
    exact Bool.noConfusion hno
  · exact fun _ => .inl (Option.some_ne_none dst)
  · exact fun hlive => h.cpus _ hlive

theorem Core.switchTo (h : Core s) (hc : c < s.numcpus) (hidle : s.isidle c = true)
    (hqueue : s.lists (.runqueue c) = t :: rest) :
    Core { s with
      lists := update s.lists (.runqueue c) rest
      isidle := update s.isidle c false
      curthread := update s.curthread c t
      tState := update s.tState t .run } := by
  have hin : t ∈ s.lists (.runqueue c) := by simp [hqueue]
  have hcpu : s.tCpu t = c := (h.fits _ t hin).2
  have hmade := h.created _ t hin
  have hcur : ∀ c', c' ≠ c → update s.curthread c t c' = s.curthread c' :=
    fun c' hne => update_of_ne hne ..
  have hsame : ∀ c', c' ≠ c → update s.isidle c false c' = s.isidle c' :=
    fun c' hne => update_of_ne hne ..
  apply h.place (t := t) (q := none)
  · exact ⟨rfl, fun x hx => update_of_ne hx .., fun _ _ => rfl, fun _ _ => rfl⟩
  · exact h.apart.take_head hqueue
  · exact fun _ hnone => nomatch hnone
  · intro c' _ hne
    have hcc : c' ≠ c := by
      rintro rfl
      exact hne (update_self ..)
    exact ⟨hcur c' hcc, hsame c' hcc⟩
  · intro c' _ hno _
    have hcc : c' ≠ c := by
      rintro rfl
      rw [hidle] at hno
      exact Bool.noConfusion hno
    exact ⟨hcur c' hcc, (hsame c' hcc).trans hno⟩
  · intro c' hc' heq
    refine ⟨?_, hmade, fun _ => rfl⟩
    by_cases hcc : c' = c
    · rw [hcc]
      exact hcpu
    · have hold : s.curthread c' = t := (hcur c' hcc).symm.trans heq
      rw [← hold]
      exact h.cur c' hc'
  · exact fun _ => .inr ⟨c, hc, update_self .., update_self ..⟩
  · exact fun hlive => h.cpus t hlive

theorem switchNext_inv (h : Mid c s₀ s) (h₀ : Inv s₀) (hc : c < s.numcpus) (hidle : s.isidle c = true)
    (hact : s.activity c = .none) (hbusy : Busy s.lists c .none) :
    Ensures (switchNext c) s fun _ s' => Inv s' := by
  unfold Ensures switchNext
  rw [ends_bind]
  apply ensures_remhead
  · intro _
    exact h.inv h₀ (hact ▸ hbusy)
  · intro t rest hqueue
    rw [ends_update]
    have hmid : Mid c s₀ { s with
        lists := update s.lists (.runqueue c) rest
        isidle := update s.isidle c false
        curthread := update s.curthread c t
        tState := update s.tState t .run } :=
      ⟨h.core.switchTo hc hidle hqueue, h.numcpus, h.activity, h.lists.mine rfl⟩
    apply hmid.inv h₀
    show Busy (update s.lists (.runqueue c) rest) c (s.activity c)
    rw [hact]
    simpa only [Busy, ne_eq, reduceCtorEq, not_false_eq_true, update_of_ne] using hbusy

theorem threadSwitch_inv (h : Inv s) (hc : c < s.numcpus) (hact : s.activity c = .none) {newstate : ThreadState}
    (hnew : newstate ≠ .run) (wc : ℕ) : Ensures (threadSwitch c newstate wc) s fun _ s' => Inv s' := by
  have hbusy : Busy s.lists c .none := hact ▸ h.busy c hc
  unfold Ensures threadSwitch
  simp only [ends_bind, ends_read, ends_ite, ends_pure]
  refine ⟨fun _ => h, fun hgo => ?_⟩
  have hidle : s.isidle c = false := eq_false_of_ne_true fun heq => hgo (.inl heq)
  -- in every case the current thread is queued, its CPU idles and then looks for the next thread
  have hnext : ∀ (dst : Threadlist) (ts : ℕ → ThreadState), (∀ x, x ≠ s.curthread c → ts x = s.tState x) →
      Fits { s with tState := ts } dst (s.curthread c) →
      OthersKeep c s.lists (update s.lists dst (s.lists dst ++ [s.curthread c])) →
      Busy (update s.lists dst (s.lists dst ++ [s.curthread c])) c .none →
      Ensures (switchNext c) { s with
        lists := update s.lists dst (s.lists dst ++ [s.curthread c])
        tState := ts
        isidle := update s.isidle c true } fun _ s' => Inv s' := by
    intro dst ts hts hfits hkeep hown
    have hmid : Mid c s { s with
        lists := update s.lists dst (s.lists dst ++ [s.curthread c])
        tState := ts
        isidle := update s.isidle c true } :=
      ⟨h.core.enqueue hc hidle hts hfits, rfl, fun _ _ => rfl, hkeep⟩
    exact switchNext_inv hmid h hc (update_self ..) hact hown
  have hcur := h.core.cur c hc
  have hts : ∀ st x, x ≠ s.curthread c → update s.tState (s.curthread c) st x = s.tState x :=
    fun st x hx => update_of_ne hx ..
  cases newstate with
  | run => exact absurd rfl hnew
  | ready =>
    unfold enqueueCur threadMakeRunnable threadlistAddtail
    simp only [ends_bind, ends_read, ends_require, ends_update, update_idem]
    refine ⟨hcur, ?_⟩
    rw [hcur]
    refine hnext (.runqueue c) _ (hts .ready) ⟨update_self .., hcur⟩ (OthersKeep.refl c _).enqueue ?_
    simpa [Busy] using hbusy
  | sleep =>
    unfold enqueueCur threadlistAddtail
    simp only [ends_update]
    refine hnext (.wchan wc) _ (hts .sleep) (update_self ..) ((OthersKeep.refl c _).mine trivial) ?_
    simpa [Busy] using hbusy
  | zombie =>
    unfold enqueueCur threadlistAddtail
    simp only [ends_update]
    refine hnext (.zombies c) _ (hts .zombie) ⟨update_self .., hcur⟩
      ((OthersKeep.refl c _).mine trivial) ?_
    simpa [Busy] using hbusy

/-! #### The beginning and the end of a thread -/

theorem Core.fresh (h : Core s) (ht : s.life t ≠ .created) :
    (∀ tl, t ∉ s.lists tl) ∧ ∀ c < s.numcpus, s.curthread c ≠ t := by
  constructor
  · intro tl hin
    exact ht (h.created tl t hin)
  · intro c hc heq
    exact ht (heq ▸ h.curCreated c hc)

theorem Core.prepare (h : Core s) (ht : s.life t ≠ .created) {x : Life} (hx : x ≠ .created)
    {cpu : ℕ → ℕ} (hts : ∀ y, y ≠ t → ts y = s.tState y) (hcpu : ∀ y, y ≠ t → cpu y = s.tCpu y)
    (hlt : cpu t < s.numcpus) :
    Core { s with life := update s.life t x, tState := ts, tCpu := cpu } := by
  obtain ⟨hno, hcur⟩ := h.fresh ht
  apply h.place (t := t) (q := none)
  · exact ⟨rfl, hts, hcpu, fun y hy => update_of_ne hy ..⟩
  · exact placed_none hno
  · exact fun _ hnone => nomatch hnone
  · exact fun _ _ _ => ⟨rfl, rfl⟩
  · exact fun _ _ hidle _ => ⟨rfl, hidle⟩
  · exact fun c' hc' heq => absurd heq (hcur c' hc')
  · intro hmade
    exact absurd ((update_self ..).symm.trans hmade) hx
  · exact fun _ => hlt

theorem forkCreate_inv (h : Inv s) (hc : c < s.numcpus) (ht : s.life t = .absent) :
    Ensures (forkCreate c t) s fun _ s' => Inv s' := by
  unfold Ensures forkCreate
  rw [ends_update]
  refine ⟨h.core.prepare (by rw [ht]; decide) Life.noConfusion (fun y hy => update_of_ne hy ..)
    (fun y hy => update_of_ne hy ..) ?_, h.busy⟩
  rw [update_self, h.core.cur c hc]
  exact hc

theorem forkFail_inv (h : Inv s) (ht : s.life t = .setUp f) :
    Ensures (forkFail t) s fun _ s' => Inv s' := by
  unfold Ensures forkFail
  rw [ends_update]
  refine ⟨h.core.prepare (by rw [ht]; exact Life.noConfusion) Life.noConfusion (fun _ _ => rfl) (fun _ _ => rfl) ?_,
    h.busy⟩
  exact h.core.cpus t (by rw [ht]; exact Life.noConfusion)

theorem forkStart_inv (h : Inv s) (ht : s.life t = .setUp f) :
    Ensures (forkStart t) s fun _ s' => Inv s' := by
  obtain ⟨hno, hcur⟩ := h.core.fresh (t := t) (by rw [ht]; exact Life.noConfusion)
  unfold Ensures forkStart threadMakeRunnable threadlistAddtail
  simp only [ends_bind, ends_read, ends_update]
  refine ⟨?_, fun c hc => ?_⟩
  · apply h.core.place (t := t) (q := some (.runqueue (s.tCpu t)))
    · exact ⟨rfl, fun x hx => update_of_ne hx .., fun _ _ => rfl, fun x hx => update_of_ne hx ..⟩
    · exact placed_tail hno
    · intro tl htl
      rw [← Option.some.inj htl]
      exact ⟨⟨update_self .., rfl⟩, update_self ..⟩
    · exact fun _ _ _ => ⟨rfl, rfl⟩
    · exact fun _ _ hidle _ => ⟨rfl, hidle⟩
    · exact fun c' hc' heq => absurd heq (hcur c' hc')
    · exact fun _ => .inl (Option.some_ne_none _)
    · exact fun _ => h.core.cpus t (by rw [ht]; exact Life.noConfusion)
  · -- every run queue is at least as long as before
    have hkeep : OthersKeep (c + 1) s.lists _ := (OthersKeep.refl (c + 1) s.lists).enqueue (i := s.tCpu t) (t := t)
    exact (h.busy c hc).mono (hkeep.victims c (by omega)) (hkeep.woken c (by omega)) (hkeep.runqueue c (by omega))

theorem Core.destroy (h : Core s) (hc : c < s.numcpus) (hidle : s.isidle c = false)
    (hlist : s.lists (.zombies c) = t :: rest) :
    Core { s with
      lists := update s.lists (.zombies c) rest
      life := update s.life t .destroyed } := by
  have hin : t ∈ s.lists (.zombies c) := by simp [hlist]
  have hcpu : s.tCpu t = c := (h.fits _ t hin).2
  have hcur : ∀ c' < s.numcpus, s.curthread c' ≠ t := by
    intro c' hc' heq
    have hcc : c' = c := by rw [← h.cur c' hc', heq, hcpu]
    rw [hcc] at heq
    exact h.off c hc hidle _ (heq ▸ hin)
  apply h.place (t := t) (q := none)
  · exact ⟨rfl, fun _ _ => rfl, fun _ _ => rfl, fun x hx => update_of_ne hx ..⟩
  · exact h.apart.take_head hlist
  · exact fun _ hnone => nomatch hnone
  · exact fun _ _ _ => ⟨rfl, rfl⟩
  · exact fun _ _ hno _ => ⟨rfl, hno⟩
  · exact fun c' hc' heq => absurd heq (hcur c' hc')
  · intro hmade
    exact nomatch (update_self ..).symm.trans hmade
  · intro _
    rw [show s.tCpu t = c from hcpu]
    exact hc

theorem exorcise_inv (h : Inv s) (hrun : s.Running c) : Ensures (exorcise c) s fun _ s' => Inv s' := by
  have hdrain := ensures_drain (.zombies c) (exorciseOne c)
    (P := fun s' => Inv s' ∧ s'.Running c) ⟨h, hrun⟩ ?_
  · exact hdrain.mono (fun _ _ hs' => hs'.1.1) fun _ _ => id
  · rintro s t rest ⟨hinv, hc, hidle, hact⟩ hlist
    have hin : t ∈ s.lists (.zombies c) := by simp [hlist]
    have hzombie : s.tState t = .zombie := (hinv.core.fits _ t hin).1
    have hcur : t ≠ s.curthread c := fun heq => hinv.core.off c hc hidle _ (heq ▸ hin)
    unfold Ensures exorciseOne threadDestroy
    simp only [ends_bind, ends_read, ends_require, ends_update, hzombie]
    refine ⟨hcur, trivial, hcur, by decide, ⟨⟨?_, fun c' hc' => ?_⟩, hc, hidle, hact⟩, update_self ..⟩
    · exact hinv.core.destroy hc hidle hlist
    · have hbusy := hinv.busy c' hc'
      exact hbusy.mono (by simp) (by simp) (by simp)

/-! #### Wait channels -/

theorem wchanWakeone_inv (h : Inv s) (hc : c < s.numcpus) (hact : s.activity c = .none) (w : ℕ) :
    Ensures (wchanWakeone c w) s fun _ s' => Inv s' := by
  have hbusy : Busy s.lists c .none := hact ▸ h.busy c hc
  unfold Ensures wchanWakeone
  rw [ends_bind]
  apply ensures_remhead
  · exact fun _ => h
  · intro t rest hlist
    have hasleep : s.Fits (.wchan w) t := h.core.fits _ t (by simp [hlist])
    have hmid := (h.core.mid c).moveTail hlist trivial (.woken c) (.inl rfl) (fun _ _ => rfl) hasleep
    unfold threadlistAddtail Sched.setActivity
    simp only [ends_bind, ends_update]
    apply hmid.setActivity h
    simpa [Busy] using hbusy.1

theorem wchanWakeall_inv (h : Inv s) (hc : c < s.numcpus) (hact : s.activity c = .none) (w : ℕ) :
    Ensures (wchanWakeall c w) s fun _ s' => Inv s' := by
  have hbusy : Busy s.lists c .none := hact ▸ h.busy c hc
  have hdrain := ensures_drain (.wchan w) (fun target => threadlistAddtail (.woken c) target)
    (P := fun s' => Mid c s s' ∧ s'.lists (.victims c) = []) ⟨h.core.mid c, hbusy.1⟩ ?_
  · unfold Ensures wchanWakeall Sched.setActivity
    simp only [ends_bind, ends_update]
    exact hdrain.mono (fun _ s' hs' => hs'.1.1.setActivity h hs'.1.2) fun _ _ => id
  · rintro s' t rest ⟨hmid, hvictims⟩ hlist
    have hasleep : s'.Fits (.wchan w) t := hmid.core.fits _ t (by simp [hlist])
    unfold Ensures threadlistAddtail
    rw [ends_update]
    refine ⟨⟨hmid.moveTail hlist trivial (.woken c) (.inl rfl) (fun _ _ => rfl) hasleep, ?_⟩, ?_⟩
    · simpa using hvictims
    · simp

theorem wakeNext_inv (h : Inv s) (hc : c < s.numcpus) (hact : s.activity c = .waking) :
    Ensures (wakeNext c) s fun _ s' => Inv s' := by
  have hbusy : Busy s.lists c .waking := hact ▸ h.busy c hc
  unfold Ensures wakeNext
  rw [ends_bind]
  apply ensures_remhead
  · intro hempty
    exact (h.core.mid c).setActivity h ⟨hbusy, hempty⟩
  · intro t rest hlist
    unfold threadMakeRunnable threadlistAddtail
    simp only [ends_bind, ends_read, ends_update]
    have hts : ∀ x, x ≠ t → update s.tState t .ready x = s.tState x :=
      fun x hx => update_of_ne hx ..
    have hmid := (h.core.mid c).moveTail hlist rfl (.runqueue (s.tCpu t)) (.inr ⟨_, rfl⟩) hts
      ⟨update_self .., rfl⟩
    apply hmid.inv h
    show Busy _ c (s.activity c)
    rw [hact]
    simpa [Busy] using hbusy

/-! #### Migration -/

theorem migrationCollect_induct {P : Sched → Prop} {n : ℕ} (hs : P s) (hn : n ≤ (s.lists (.runqueue c)).length)
    (hstep : ∀ s t rest, P s → s.lists (.runqueue c) = rest ++ [t] → P { s with
      lists := update (update s.lists (.runqueue c) rest) (.victims c)
        (t :: update s.lists (.runqueue c) rest (.victims c)) }) :
    Ensures (migrationCollect c n) s fun _ s' => P s' ∧ s'.lists (.woken c) = s.lists (.woken c) ∧
      (s'.lists (.victims c)).length = (s.lists (.victims c)).length + n := by
  induction n generalizing s with
  | zero => exact ⟨hs, rfl, rfl⟩
  | succ n ih =>
    unfold Ensures migrationCollect
    rw [ends_bind]
    apply ensures_remtail
    · intro hempty
      rw [hempty] at hn
      exact absurd hn (Nat.not_succ_le_zero n)
    · intro t rest hlist
      unfold threadlistAddhead
      simp only [ends_bind, ends_update]
      rw [hlist, List.length_append, List.length_singleton] at hn
      apply (ih (hstep s t rest hs hlist) (by simpa using hn)).mono _ fun _ _ => id
      rintro _ s' ⟨hs', hwoken, hlen⟩
      refine ⟨hs', by simpa using hwoken, ?_⟩
      rw [hlen]
      simp only [update_self, ne_eq, reduceCtorEq, not_false_eq_true, update_of_ne, List.length_cons]
      omega

theorem migrationCollect_mid {n : ℕ} (h : Mid c s₀ s) (hn : n ≤ (s.lists (.runqueue c)).length) :
    Ensures (migrationCollect c n) s fun _ s' => Mid c s₀ s' ∧ s'.lists (.woken c) = s.lists (.woken c) ∧
      (s'.lists (.victims c)).length = (s.lists (.victims c)).length + n := by
  refine migrationCollect_induct h hn fun s t rest h hlist => ?_
  have hmine : Mine c (.runqueue c) ∧ Mine c (.victims c) := ⟨rfl, rfl⟩
  have hin : t ∈ s.lists (.runqueue c) := by simp [hlist]
  have hready : s.Fits (.runqueue c) t := h.core.fits _ t hin
  refine ⟨?_, h.numcpus, h.activity, (h.lists.mine hmine.1).mine hmine.2⟩
  exact h.core.move hin ((h.core.apart.take_last hlist).head (.victims c)) rfl (fun _ _ => rfl) hready

theorem migrationChoose_inv {i myCount totalCount : ℕ} (h : Inv s) (hc : c < s.numcpus)
    (hact : s.activity c = .counting i myCount totalCount) (hi : s.numcpus ≤ i) :
    Ensures (migrationChoose c myCount totalCount s.numcpus) s fun _ s' => Inv s' := by
  obtain ⟨hvictims, hwoken, hcount⟩ : Busy s.lists c (.counting i myCount totalCount) := hact ▸ h.busy c hc
  have hle : myCount ≤ (s.lists (.runqueue c)).length := hcount (by omega)
  have hinit : update s.lists (.victims c) [] = s.lists := by
    rw [← hvictims]
    exact update_eq_self ..
  unfold Ensures migrationChoose
  simp only [ends_ite, ends_bind, ends_update, hinit]
  constructor
  · intro _
    exact (h.core.mid c).setActivity h ⟨hvictims, hwoken⟩
  · intro _
    apply (migrationCollect_mid (h.core.mid c) (Nat.le_trans (Nat.sub_le ..) hle)).mono _ fun _ _ => id
    rintro _ s' ⟨hmid, hwoken', hlen⟩
    apply hmid.setActivity h
    refine ⟨hwoken'.trans hwoken, ?_⟩
    rw [hlen]
    exact Nat.le_add_left ..

theorem Core.send (h : Core s) (hi : i < s.numcpus) (hlist : s.lists (.victims c) = t :: rest)
    (hcur : s.curthread c ≠ t) :
    Core { s with
      lists := update (update s.lists (.victims c) rest) (.runqueue i)
        (update s.lists (.victims c) rest (.runqueue i) ++ [t])
      tCpu := update s.tCpu t i } := by
  have hin : t ∈ s.lists (.victims c) := by simp [hlist]
  obtain ⟨hready, hcpu⟩ : s.Fits (.victims c) t := h.fits _ t hin
  have hno : ∀ c' < s.numcpus, s.curthread c' ≠ t := by
    intro c' hc' heq
    have hcc : c' = c := by rw [← h.cur c' hc', heq, hcpu]
    exact hcur (hcc ▸ heq)
  apply h.place (t := t) (q := some (.runqueue i))
  · exact ⟨rfl, fun _ _ => rfl, fun x hx => update_of_ne hx .., fun _ _ => rfl⟩
  · exact (h.apart.take_head hlist).tail (.runqueue i)
  · intro tl htl
    rw [← Option.some.inj htl]
    exact ⟨⟨hready, update_self ..⟩, h.created _ t hin⟩
  · exact fun _ _ _ => ⟨rfl, rfl⟩
  · exact fun _ _ hidle _ => ⟨rfl, hidle⟩
  · exact fun c' hc' heq => absurd heq (hno c' hc')
  · exact fun _ => .inl (Option.some_ne_none _)
  · intro _
    show update s.tCpu t i t < s.numcpus
    rw [update_self]
    exact hi

theorem migrationSendLoop_induct {P : Sched → Prop} {oneShare toSend : ℕ} (hs : P s)
    (hn : toSend ≤ (s.lists (.victims c)).length)
    (hback : ∀ s t rest, P s → s.lists (.victims c) = t :: rest → P { s with
      lists := update (update s.lists (.victims c) rest) (.victims c)
        (update s.lists (.victims c) rest (.victims c) ++ [t]) })
    (hsend : ∀ s t rest, P s → s.lists (.victims c) = t :: rest → (s.lists (.runqueue i)).length < oneShare →
      t ≠ s.curthread c → P { s with
        lists := update (update s.lists (.victims c) rest) (.runqueue i)
          (update s.lists (.victims c) rest (.runqueue i) ++ [t])
        tCpu := update s.tCpu t i }) :
    Ensures (migrationSendLoop c i oneShare toSend) s fun left s' => P s' ∧
      s'.lists (.woken c) = s.lists (.woken c) ∧ left ≤ (s'.lists (.victims c)).length := by
  induction toSend generalizing s with
  | zero => exact ⟨hs, rfl, Nat.zero_le _⟩
  | succ n ih =>
    unfold Ensures migrationSendLoop
    simp only [ends_bind, ends_read, ends_ite, ends_pure]
    refine ⟨fun hroom => ?_, fun _ => ⟨hs, trivial, hn⟩⟩
    apply ensures_remhead
    · intro hempty
      rw [hempty] at hn
      exact absurd hn (Nat.not_succ_le_zero n)
    · intro t rest hlist
      rw [hlist, List.length_cons] at hn
      unfold migrationSendOne threadlistAddtail
      simp only [ends_bind, ends_read, ends_ite, ends_update]
      constructor
      · -- the current thread goes to the end of the list
        intro _
        apply (ih (hback s t rest hs hlist) _).mono _ fun _ _ => id
        · simp only [update_self, List.length_append, List.length_singleton]
          omega
        · rintro left s' ⟨hs', hwoken, hleft⟩
          exact ⟨hs', by simpa using hwoken, hleft⟩
      · intro hcur
        apply (ih (hsend s t rest hs hlist hroom hcur) _).mono _ fun _ _ => id
        · simp only [ne_eq, reduceCtorEq, not_false_eq_true, update_of_ne, update_self]
          omega
        · rintro left s' ⟨hs', hwoken, hleft⟩
          exact ⟨hs', by simpa using hwoken, hleft⟩

theorem migrationSendLoop_mid {oneShare toSend : ℕ} (h : Mid c s₀ s) (hi : i < s₀.numcpus)
    (hn : toSend ≤ (s.lists (.victims c)).length) :
    Ensures (migrationSendLoop c i oneShare toSend) s fun left s' => Mid c s₀ s' ∧
      s'.lists (.woken c) = s.lists (.woken c) ∧ left ≤ (s'.lists (.victims c)).length := by
  refine migrationSendLoop_induct h hn (fun s t rest h hlist => ?_) fun s t rest h hlist _ hcur => ?_
  · have hready : s.Fits (.victims c) t := h.core.fits _ t (by simp [hlist])
    exact h.moveTail hlist rfl (.victims c) (.inl rfl) (fun _ _ => rfl) hready
  · have hcore := h.core.send (h.numcpus ▸ hi) hlist fun heq => hcur heq.symm
    have hmine : Mine c (.victims c) := rfl
    exact ⟨hcore, h.numcpus, h.activity, (h.lists.mine hmine).enqueue⟩

theorem migrationRestore_inv (h : Inv s) (hwoken : s.lists (.woken c) = []) :
    Ensures (migrationRestore c) s fun _ s' => Inv s' := by
  have hdrain := ensures_drain (.victims c) (fun t => threadlistAddtail (.runqueue c) t)
    (P := fun s' => Mid c s s' ∧ s'.lists (.woken c) = []) ⟨h.core.mid c, hwoken⟩ ?_
  · unfold Ensures migrationRestore Sched.setActivity
    simp only [ends_bind, ends_read, ends_require, ends_update]
    exact hdrain.mono (fun _ s' hs' => ⟨hs'.2, hs'.1.1.setActivity h ⟨hs'.2, hs'.1.2⟩⟩) fun _ _ => id
  · rintro s' t rest ⟨hmid, hwoken'⟩ hlist
    have hready : s'.Fits (.victims c) t := hmid.core.fits _ t (by simp [hlist])
    unfold Ensures threadlistAddtail
    rw [ends_update]
    refine ⟨⟨hmid.moveTail hlist rfl (.runqueue c) (.inl rfl) (fun _ _ => rfl) hready, ?_⟩, ?_⟩
    · simpa using hwoken'
    · simp

theorem threadConsiderMigration_inv (h : Inv s) (hc : c < s.numcpus) :
    Ensures (threadConsiderMigration c) s fun _ s' => Inv s' := by
  have hmid := h.core.mid c
  have hbusy := h.busy c hc
  unfold Ensures threadConsiderMigration
  simp only [ends_bind, ends_read]
  cases hact : s.activity c with
  | none =>
    rw [hact] at hbusy
    exact hmid.setActivity h ⟨hbusy.1, hbusy.2, fun hlt => absurd hlt (Nat.not_lt_zero c)⟩
  | waking => exact h
  | counting i myCount totalCount =>
    rw [hact] at hbusy
    simp only [ends_ite]
    refine ⟨fun _ => ?_, fun hi => migrationChoose_inv h hc hact (Nat.not_lt.mp hi)⟩
    unfold migrationCount
    simp only [ends_bind, ends_read]
    refine hmid.setActivity h ⟨hbusy.1, hbusy.2.1, fun hlt => ?_⟩
    by_cases hic : i = c
    · exact Nat.le_of_eq (by rw [if_pos hic, hic])
    · rw [if_neg hic]
      exact hbusy.2.2 (by omega)
  | sending i oneShare toSend =>
    rw [hact] at hbusy
    simp only [ends_ite]
    refine ⟨fun hgo => ?_, fun _ => migrationRestore_inv h hbusy.1⟩
    unfold migrationSend
    simp only [ends_ite, ends_bind]
    constructor
    · exact fun _ => hmid.setActivity h hbusy
    · intro _
      apply (migrationSendLoop_mid hmid hgo.1 hbusy.2).mono _ fun _ _ => id
      rintro left s' ⟨hmid', hwoken, hleft⟩
      exact hmid'.setActivity h ⟨hwoken.trans hbusy.1, hleft⟩

/-! ### Runs -/

theorem code_inv (h : Inv s) (hop : s.Enabled op) : Ensures (code op) s fun _ s' => Inv s' := by
  cases op with
  | forkCreate c t => exact forkCreate_inv h hop.1.1 hop.2
  | forkFail c t => exact forkFail_inv h hop.2
  | forkStart c t => exact forkStart_inv h hop.2
  | threadYield c => exact threadSwitch_inv h hop.1 hop.2 (by decide) 0
  | wchanSleep c w => exact threadSwitch_inv h hop.1 hop.2.2 (by decide) w
  | threadExit c => exact threadSwitch_inv h hop.1 hop.2.2 (by decide) 0
  | idle c => exact switchNext_inv (h.core.mid c) h hop.1 hop.2.1 hop.2.2 (hop.2.2 ▸ h.busy c hop.1)
  | exorcise c => exact exorcise_inv h hop
  | wchanWakeone c w => exact wchanWakeone_inv h hop.1 hop.2 w
  | wchanWakeall c w => exact wchanWakeall_inv h hop.1 hop.2 w
  | wakeNext c => exact wakeNext_inv h hop.1 hop.2
  | threadConsiderMigration c => exact threadConsiderMigration_inv h hop.1

theorem Booted.inv (h : Booted s) : Inv s := by
  have hlife : ∀ t, s.life t = .created ↔ ∃ c < s.numcpus, s.curthread c = t := by
    intro t
    rw [h.life t]
    split
    · next hex => exact ⟨fun _ => hex, fun _ => rfl⟩
    · next hno => exact ⟨fun hx => (nomatch hx), fun hex => absurd hex hno⟩
  have hnone : ∀ tl t, t ∉ s.lists tl := by
    intro tl t
    rw [h.lists tl]
    exact List.not_mem_nil
  refine ⟨⟨⟨fun p => by rw [h.lists p]; exact List.nodup_nil, fun p _ x hx => absurd hx (hnone p x)⟩,
    fun tl t hin => absurd hin (hnone tl t), fun tl t hin => absurd hin (hnone tl t), h.tCpu,
    fun c hc => (hlife _).mpr ⟨c, hc, rfl⟩, fun c _ _ tl => hnone tl _, fun t ht => ?_, fun t ht => ?_⟩,
    fun c _ => ?_⟩
  · obtain ⟨c, hc, heq⟩ := (hlife t).mp ht
    exact .inr ⟨c, hc, h.isidle c, heq⟩
  · have hcreated : s.life t = .created := by
      have := h.life t
      split at this
      · exact this
      · exact absurd this ht
    obtain ⟨c, hc, rfl⟩ := (hlife t).mp hcreated
    rw [h.tCpu c hc]
    exact hc
  · rw [h.activity c]
    exact ⟨h.lists _, h.lists _⟩

theorem Inv.step (h : Inv s) (hstep : s.step op = some s') : Inv s' := by
  obtain ⟨hop, hrun⟩ := Option.ite_none_right_eq_some.mp hstep
  have hends : Ends (code op) s (fun _ s' => Inv s') fun _ s' => Inv s' :=
    (code_inv h hop).mono (fun _ _ => id) fun e _ => e.elim
  exact hends.of_state? hrun

end Sched

end Os161Kernel
