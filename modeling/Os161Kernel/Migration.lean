import Mathlib.Algebra.BigOperators.Group.Finset.Piecewise
import Mathlib.Algebra.Order.BigOperators.Group.Multiset
import Mathlib.Tactic.Abel
import Os161Kernel.ThreadLists

/-!
# A whole call of `thread_consider_migration`

The parts of `thread_consider_migration` are executed one after the other on one CPU, with nothing in between.  The
counts that the first loop adds up are then those of the run queues that the later loops work on, so a CPU that receives
threads is filled up to its share and no further.  The current thread goes round the list of victims and back to its own
run queue, at the price of one thread that stays as well.
-/

namespace Os161Kernel

open Calls Queues Function

namespace Sched

variable {s s₀ s' : Sched} {c i j t n share : ℕ} {L L' : Threadlist → List ℕ} {rest : List ℕ}

/-! ### The call -/

/-- The parts of `thread_consider_migration` on CPU `c`, until it is done. -/
def migrationParts (c : ℕ) : ℕ → SchedCall Unit
  | 0 => .stop "thread_consider_migration does not return"
  | n + 1 => do
    threadConsiderMigration c
    let activity ← .read fun s => s.activity c
    if activity = .none then pure () else migrationParts c n

/-- `thread_consider_migration` on CPU `c` as one call. -/
def considerMigration (c : ℕ) : SchedCall Unit := do
  let numcpus ← .read Sched.numcpus
  migrationParts c (2 * numcpus + 3)

/-- The threads on the run queues. -/
def runThreads (s : Sched) : Multiset ℕ := ∑ j ∈ Finset.range s.numcpus, (s.lists (.runqueue j) : Multiset ℕ)

/-- `DIVROUNDUP(total_count, numcpus)`. -/
def fairShare (s : Sched) : ℕ := (s.runThreads.card + s.numcpus - 1) / s.numcpus

/-! ### Where the threads are -/

/-- The threads on the run queues of the other CPUs. -/
def elsewhere (c n : ℕ) (L : Threadlist → List ℕ) : Multiset ℕ :=
  ∑ j ∈ (Finset.range n).erase c, (L (.runqueue j) : Multiset ℕ)

/-- The threads that CPU `c` still has. -/
def own (c : ℕ) (L : Threadlist → List ℕ) : Multiset ℕ := (L (.runqueue c) : Multiset ℕ) + (L (.victims c) : Multiset ℕ)

theorem elsewhere_add_runqueue (hc : c < s.numcpus) :
    elsewhere c s.numcpus s.lists + (s.lists (.runqueue c) : Multiset ℕ) = s.runThreads :=
  Finset.sum_erase_add _ _ (Finset.mem_range.mpr hc)

theorem mem_elsewhere (hj : j < n) (hjc : j ≠ c) (ht : t ∈ L (.runqueue j)) : t ∈ elsewhere c n L :=
  Multiset.mem_sum.mpr ⟨j, Finset.mem_erase.mpr ⟨hjc, Finset.mem_range.mpr hj⟩, ht⟩

theorem elsewhere_congr (h : ∀ j < n, j ≠ c → L' (.runqueue j) = L (.runqueue j)) :
    elsewhere c n L' = elsewhere c n L := by
  apply Finset.sum_congr rfl
  intro j hj
  obtain ⟨hjc, hjn⟩ := Finset.mem_erase.mp hj
  rw [h j (Finset.mem_range.mp hjn) hjc]

theorem elsewhere_send (hi : i < n) (hic : i ≠ c) (hself : L' (.runqueue i) = L (.runqueue i) ++ [t])
    (hne : ∀ j ≠ i, L' (.runqueue j) = L (.runqueue j)) : elsewhere c n L' = elsewhere c n L + {t} := by
  have hmem : i ∈ (Finset.range n).erase c := Finset.mem_erase.mpr ⟨hic, Finset.mem_range.mpr hi⟩
  have hpoint : ∀ j, (L' (.runqueue j) : Multiset ℕ) = (L (.runqueue j) : Multiset ℕ) + if j = i then {t} else 0 := by
    intro j
    by_cases hji : j = i
    · rw [hji, hself, if_pos rfl]
      rfl
    · rw [hne j hji, if_neg hji, add_zero]
  unfold elsewhere
  rw [Finset.sum_congr rfl fun j _ => hpoint j, Finset.sum_add_distrib, Finset.sum_ite_eq', if_pos hmem]

/-! ### Moving -/

/-- **What has become of the run queues** since `s₀`, where no thread was queued twice: every thread is still on a run
queue or a victim; another CPU has got only threads of CPU `c`, not its current thread, and only up to the share. -/
structure Moved (c share : ℕ) (s₀ s : Sched) : Prop where
  numcpus : s.numcpus = s₀.numcpus
  curthread : s.curthread = s₀.curthread
  threads : elsewhere c s₀.numcpus s.lists + own c s.lists = s₀.runThreads
  own : own c s.lists ≤ (s₀.lists (.runqueue c) : Multiset ℕ)
  sent : ∀ j < s₀.numcpus, j ≠ c → ∃ new, s.lists (.runqueue j) = s₀.lists (.runqueue j) ++ new ∧
    (∀ t ∈ new, s.tCpu t = j ∧ t ≠ s₀.curthread c ∧ t ∈ s₀.lists (.runqueue c)) ∧
    (new = [] ∨ (s.lists (.runqueue j)).length ≤ share)
  kept : ∀ t, s.tCpu t = s₀.tCpu t ∨
    ∃ j < s₀.numcpus, j ≠ c ∧ t ∈ s.lists (.runqueue j) ∧ t ∉ s₀.lists (.runqueue j)

theorem Moved.rearrange (h : Moved c share s₀ s) (hnum : s'.numcpus = s.numcpus) (hcur : s'.curthread = s.curthread)
    (hcpu : s'.tCpu = s.tCpu) (hown : Sched.own c s'.lists = Sched.own c s.lists)
    (hothers : ∀ j ≠ c, s'.lists (.runqueue j) = s.lists (.runqueue j)) : Moved c share s₀ s' where
  numcpus := hnum.trans h.numcpus
  curthread := hcur.trans h.curthread
  threads := by
    rw [hown, elsewhere_congr fun j _ hjc => hothers j hjc]
    exact h.threads
  own := by
    rw [hown]
    exact h.own
  sent j hj hjc := by
    rw [hothers j hjc, hcpu]
    exact h.sent j hj hjc
  kept t := by
    rw [hcpu]
    refine (h.kept t).imp_right fun ⟨j, hj, hjc, hmem, hnew⟩ => ⟨j, hj, hjc, ?_, hnew⟩
    rw [hothers j hjc]
    exact hmem

theorem Moved.refl (hc : c < s₀.numcpus) (hvictims : s₀.lists (.victims c) = []) (share : ℕ) :
    Moved c share s₀ s₀ where
  numcpus := rfl
  curthread := rfl
  threads := by
    rw [Sched.own, hvictims, Multiset.coe_nil, add_zero]
    exact elsewhere_add_runqueue hc
  own := by
    rw [Sched.own, hvictims]
    exact le_of_eq (add_zero _)
  sent j _ _ := ⟨[], (List.append_nil _).symm, nofun, .inl rfl⟩
  kept t := .inl rfl

theorem Moved.notMem (h : Moved c share s₀ s) (hdistinct : s₀.runThreads.Nodup) (hj : j < s₀.numcpus) (hjc : j ≠ c)
    (ht : t ∈ Sched.own c s.lists) : t ∉ s.lists (.runqueue j) := by
  intro hmem
  rw [← h.threads, Multiset.nodup_add] at hdistinct
  exact Multiset.disjoint_left.mp hdistinct.2.2 (mem_elsewhere hj hjc hmem) ht

theorem notMem_of_own (hdistinct : s₀.runThreads.Nodup) (hc : c < s₀.numcpus) (hj : j < s₀.numcpus) (hjc : j ≠ c)
    (ht : t ∈ s₀.lists (.runqueue c)) : t ∉ s₀.lists (.runqueue j) := by
  intro hmem
  rw [← elsewhere_add_runqueue hc, Multiset.nodup_add] at hdistinct
  exact Multiset.disjoint_left.mp hdistinct.2.2 (mem_elsewhere hj hjc hmem) ht

/-- `s'` is `s` with the victim `t` on the run queue of CPU `i`. -/
structure Sends (c i t : ℕ) (s s' : Sched) : Prop where
  numcpus : s'.numcpus = s.numcpus
  curthread : s'.curthread = s.curthread
  tCpu : s'.tCpu = update s.tCpu t i
  victims : s.lists (.victims c) = t :: s'.lists (.victims c)
  receives : s'.lists (.runqueue i) = s.lists (.runqueue i) ++ [t]
  others : ∀ j ≠ i, s'.lists (.runqueue j) = s.lists (.runqueue j)

theorem Sends.own (h : Sends c i t s s') (hic : i ≠ c) : Sched.own c s.lists = Sched.own c s'.lists + {t} := by
  unfold Sched.own
  rw [h.others c (Ne.symm hic), h.victims, ← Multiset.cons_coe, ← Multiset.singleton_add]
  abel

theorem Sends.mem (h : Sends c i t s s') {x : ℕ} (hx : x ∈ s.lists (.runqueue j)) : x ∈ s'.lists (.runqueue j) := by
  by_cases hji : j = i
  · subst hji
    rw [h.receives]
    exact List.mem_append_left _ hx
  · rw [h.others j hji]
    exact hx

theorem Moved.send (h : Moved c share s₀ s) (hs : Sends c i t s s') (hdistinct : s₀.runThreads.Nodup)
    (hc : c < s₀.numcpus) (hi : i < s₀.numcpus) (hic : i ≠ c) (hroom : (s.lists (.runqueue i)).length < share)
    (hcur : t ≠ s.curthread c) : Moved c share s₀ s' := by
  have hmine : t ∈ Sched.own c s.lists := by
    rw [hs.own hic]
    exact Multiset.mem_add.mpr (.inr (Multiset.mem_singleton_self t))
  have hfrom : t ∈ s₀.lists (.runqueue c) := Multiset.mem_of_le h.own hmine
  refine ⟨hs.numcpus.trans h.numcpus, hs.curthread.trans h.curthread, ?_, ?_, ?_, ?_⟩
  · rw [← h.threads, hs.own hic, elsewhere_send hi hic hs.receives hs.others]
    abel
  · refine le_trans ?_ h.own
    rw [hs.own hic]
    exact Multiset.le_add_right _ _
  · intro j hj hjc
    obtain ⟨new, hqueue, hnew, hlen⟩ := h.sent j hj hjc
    -- the threads that were sent before are other ones
    have hother : ∀ x ∈ new, s'.tCpu x = j := by
      intro x hx
      have hxt : x ≠ t := by
        intro heq
        apply h.notMem hdistinct hj hjc hmine
        rw [hqueue, ← heq]
        exact List.mem_append_right _ hx
      rw [hs.tCpu, update_of_ne hxt]
      exact (hnew x hx).1
    by_cases hji : j = i
    · subst hji
      refine ⟨new ++ [t], ?_, ?_, .inr ?_⟩
      · rw [hs.receives, hqueue, List.append_assoc]
      · intro x hx
        rcases List.mem_append.mp hx with hold | hlast
        · exact ⟨hother x hold, (hnew x hold).2⟩
        · obtain rfl := List.mem_singleton.mp hlast
          rw [hs.tCpu, ← h.curthread]
          exact ⟨update_self .., hcur, hfrom⟩
      · rw [hs.receives, List.length_append, List.length_singleton]
        exact hroom
    · rw [hs.others j hji]
      exact ⟨new, hqueue, fun x hx => ⟨hother x hx, (hnew x hx).2⟩, hlen⟩
  · intro x
    by_cases hxt : x = t
    · subst hxt
      refine .inr ⟨i, hi, hic, ?_, notMem_of_own hdistinct hc hi hic hfrom⟩
      rw [hs.receives]
      exact List.mem_append_right _ (List.mem_singleton_self x)
    · rw [hs.tCpu, update_of_ne hxt]
      exact (h.kept x).imp_right fun ⟨j, hj, hjc, hmem, hnot⟩ => ⟨j, hj, hjc, hs.mem hmem, hnot⟩

/-! ### The loops -/

theorem Moved.setActivity (h : Moved c share s₀ s) (a : Activity) :
    Moved c share s₀ { s with activity := update s.activity c a } :=
  h.rearrange rfl rfl rfl rfl fun _ _ => rfl

theorem own_of_perm (h : (L' (.runqueue c) ++ L' (.victims c)).Perm (L (.runqueue c) ++ L (.victims c))) :
    Sched.own c L' = Sched.own c L := by
  unfold Sched.own
  rw [Multiset.coe_add, Multiset.coe_add]
  exact Multiset.coe_eq_coe.mpr h

theorem migrationCollect_moved (h : Moved c share s₀ s) (hn : n ≤ (s.lists (.runqueue c)).length) :
    Ensures (migrationCollect c n) s fun _ s' => Moved c share s₀ s' ∧ s'.lists (.woken c) = s.lists (.woken c) ∧
      (s'.lists (.victims c)).length = (s.lists (.victims c)).length + n := by
  refine migrationCollect_induct h hn fun s t rest h hlist => ?_
  refine h.rearrange rfl rfl rfl (own_of_perm ?_) fun j hjc => by simp [hjc]
  simp [hlist]

theorem migrationSendLoop_moved {toSend : ℕ} (h : Moved c share s₀ s) (hdistinct : s₀.runThreads.Nodup)
    (hc : c < s₀.numcpus) (hi : i < s₀.numcpus) (hic : i ≠ c) (hn : toSend ≤ (s.lists (.victims c)).length) :
    Ensures (migrationSendLoop c i share toSend) s fun left s' => Moved c share s₀ s' ∧
      s'.lists (.woken c) = s.lists (.woken c) ∧ left ≤ (s'.lists (.victims c)).length := by
  refine migrationSendLoop_induct h hn (fun s t rest h hlist => ?_) fun s t rest h hlist hroom hcur => ?_
  · refine h.rearrange rfl rfl rfl (own_of_perm ?_) fun j hjc => by simp
    have hperm := (List.perm_append_singleton t rest).append_left (s.lists (.runqueue c))
    simpa [hlist] using hperm
  · refine h.send (t := t) ⟨rfl, rfl, rfl, ?_, ?_, fun j hji => ?_⟩ hdistinct hc hi hic hroom hcur
    · simp [hlist]
    · simp
    · simp [hji]

theorem migrationRestore_moved (h : Moved c share s₀ s) :
    Ensures (migrationRestore c) s fun _ s' => Moved c share s₀ s' ∧ s'.lists (.victims c) = [] ∧
      s'.activity c = .none := by
  have hdrain := ensures_drain (.victims c) (fun t => threadlistAddtail (.runqueue c) t)
    (P := Moved c share s₀) h ?_
  · unfold Ensures migrationRestore Sched.setActivity
    simp only [ends_bind, ends_read, ends_require, ends_update]
    exact hdrain.mono (fun _ s' hs' => ⟨hs'.2, hs'.1.setActivity .none, hs'.2, update_self ..⟩) fun _ _ => id
  · intro s' t rest hmoved hlist
    unfold Ensures threadlistAddtail
    rw [ends_update]
    refine ⟨hmoved.rearrange rfl rfl rfl (own_of_perm ?_) fun j hjc => by simp [hjc], by simp⟩
    simp [hlist]

/-! ### The whole call -/

/-- The call is done: nothing is left on the list of victims. -/
def Finished (c share : ℕ) (s₀ s : Sched) : Prop := Moved c share s₀ s ∧ s.lists (.victims c) = []

theorem migrationParts_succ {Q : Unit → Sched → Prop}
    (h : Ensures (threadConsiderMigration c) s fun _ s' =>
      (s'.activity c = .none → Q () s') ∧ (s'.activity c ≠ .none → Ensures (migrationParts c n) s' Q)) :
    Ensures (migrationParts c (n + 1)) s Q := by
  unfold Ensures migrationParts
  simp only [ends_bind, ends_read, ends_ite, ends_pure]
  exact h

theorem sending_finished {toSend : ℕ} (h : Moved c share s₀ s) (hdistinct : s₀.runThreads.Nodup) (hc : c < s₀.numcpus)
    (hact : s.activity c = .sending i share toSend) (hn : toSend ≤ (s.lists (.victims c)).length)
    (hparts : s₀.numcpus + 1 ≤ n + i) (hpos : n ≠ 0) :
    Ensures (migrationParts c n) s fun _ s' => Finished c share s₀ s' := by
  induction n generalizing s i toSend with
  | zero => exact absurd rfl hpos
  | succ n ih =>
    apply migrationParts_succ
    unfold Ensures threadConsiderMigration
    simp only [ends_bind, ends_read, hact, ends_ite, h.numcpus]
    constructor
    · rintro ⟨hi, -⟩
      have hnext : ∀ {s' : Sched} {left : ℕ}, Moved c share s₀ s' → left ≤ (s'.lists (.victims c)).length →
          Ensures (migrationParts c n)
            { s' with activity := update s'.activity c (.sending (i + 1) share left) }
            fun _ s' => Finished c share s₀ s' := by
        intro s' left hmoved hleft
        exact ih (hmoved.setActivity _) (update_self ..) hleft (by omega) (by omega)
      unfold migrationSend Sched.setActivity
      simp only [ends_ite, ends_bind, ends_update]
      constructor
      · exact fun _ => ⟨fun hnone => by simp at hnone, fun _ => hnext h hn⟩
      · intro hic
        apply (migrationSendLoop_moved h hdistinct hc hi hic hn).mono _ fun _ _ => id
        rintro left s' ⟨hmoved, -, hleft⟩
        exact ⟨fun hnone => by simp at hnone, fun _ => hnext hmoved hleft⟩
    · intro _
      apply (migrationRestore_moved h).mono _ fun _ _ => id
      rintro _ s' ⟨hmoved, hvictims, hnone⟩
      exact ⟨fun _ => ⟨hmoved, hvictims⟩, fun hbusy => absurd hnone hbusy⟩

/-- What the first loop has added up before CPU `i`. -/
def counted (s : Sched) (i : ℕ) : ℕ := ∑ j ∈ Finset.range i, (s.lists (.runqueue j)).length

theorem counted_succ (s : Sched) (i : ℕ) : s.counted (i + 1) = s.counted i + (s.lists (.runqueue i)).length :=
  Finset.sum_range_succ _ i

theorem counted_numcpus (s : Sched) : s.counted s.numcpus = s.runThreads.card := by
  unfold counted runThreads
  rw [Multiset.card_sum]
  rfl

theorem counting_finished {m : ℕ} (hdistinct : s₀.runThreads.Nodup) (hc : c < s₀.numcpus)
    (hvictims : s₀.lists (.victims c) = [])
    (hs : s = { s₀ with activity := update s₀.activity c (.counting i m (s₀.counted i)) })
    (hi : i ≤ s₀.numcpus) (hmine : c < i → m = (s₀.lists (.runqueue c)).length)
    (hparts : 2 * s₀.numcpus + 2 ≤ n + i) :
    Ensures (migrationParts c n) s fun _ s' => Finished c s₀.fairShare s₀ s' := by
  induction n generalizing s i m with
  | zero => omega
  | succ n ih =>
    apply migrationParts_succ
    have hmoved : Moved c s₀.fairShare s₀ s := by
      rw [hs]
      exact (Moved.refl hc hvictims s₀.fairShare).setActivity _
    have hact : s.activity c = .counting i m (s₀.counted i) := by
      rw [hs]
      exact update_self ..
    have hlists : s.lists = s₀.lists := by rw [hs]
    unfold Ensures threadConsiderMigration
    simp only [ends_bind, ends_read, hact, ends_ite, hmoved.numcpus]
    constructor
    · -- one more run queue is counted
      intro hlt
      unfold migrationCount Sched.setActivity
      simp only [ends_bind, ends_read, ends_update, hlists]
      refine ⟨fun hnone => by simp at hnone, fun _ => ?_⟩
      apply ih (m := if i = c then (s₀.lists (.runqueue i)).length else m) _ hlt _ (by omega)
      · rw [hs, counted_succ, update_idem]
      · intro hci
        by_cases hic : i = c
        · rw [if_pos hic, hic]
        · rw [if_neg hic]
          exact hmine (by omega)
    · intro hge
      obtain rfl : i = s₀.numcpus := by omega
      have hshare : (s₀.counted s₀.numcpus + s₀.numcpus - 1) / s₀.numcpus = s₀.fairShare := by
        rw [counted_numcpus]
        rfl
      have hcount := hmine hc
      unfold migrationChoose Sched.setActivity
      simp only [hshare, ends_ite, ends_bind, ends_update]
      constructor
      · intro _
        refine ⟨fun _ => ⟨hmoved.setActivity _, ?_⟩, fun hbusy => absurd (update_self ..) hbusy⟩
        show s.lists (.victims c) = []
        rw [hlists, hvictims]
      · intro _
        have hinit : update s.lists (.victims c) [] = s.lists := by
          rw [hlists, ← hvictims]
          exact update_eq_self ..
        rw [hinit]
        apply (migrationCollect_moved hmoved _).mono _ fun _ _ => id
        · rw [hlists, hcount]
          exact Nat.sub_le ..
        · rintro _ s' ⟨hmoved', -, hlen⟩
          refine ⟨fun hnone => by simp at hnone, fun _ => ?_⟩
          have hall : m - s₀.fairShare ≤ (s'.lists (.victims c)).length := by
            rw [hlen]
            exact Nat.le_add_left ..
          apply sending_finished (hmoved'.setActivity _) hdistinct hc (update_self ..) hall
          · omega
          · omega

theorem considerMigration_finished (hdistinct : s.runThreads.Nodup) (hc : c < s.numcpus)
    (hact : s.activity c = .none) (hvictims : s.lists (.victims c) = []) :
    Ensures (considerMigration c) s fun _ s' => Finished c s.fairShare s s' := by
  unfold Ensures considerMigration
  simp only [ends_bind, ends_read]
  apply migrationParts_succ
  unfold Ensures threadConsiderMigration Sched.setActivity
  simp only [ends_bind, ends_read, hact, ends_update]
  refine ⟨fun hnone => by simp at hnone, fun _ => ?_⟩
  have hnone : c < 0 → 0 = (s.lists (.runqueue c)).length := fun hlt => absurd hlt (Nat.not_lt_zero c)
  exact counting_finished hdistinct hc hvictims rfl (Nat.zero_le _) hnone (Nat.le_refl _)

/-- **Migration moves only surplus threads.**  The call returns, so that no list of victims ran empty under it.  The run
queues hold the same threads as before.  A thread that has come to another run queue is not the current one and comes
from the CPU's own run queue, and its `t_cpu` says where it is now; all others keep their `t_cpu`.  No CPU has got more
than its share, and no victim is left over. -/
theorem migration_moves_only_surplus (hc : c < s.numcpus) (hact : s.activity c = .none)
    (hvictims : s.lists (.victims c) = []) (hdistinct : s.runThreads.Nodup) :
    ∃ s', considerMigration c s = .ok () s' ∧ s'.runThreads = s.runThreads ∧
      (∀ j < s.numcpus, ∀ t ∈ s'.lists (.runqueue j), t ∉ s.lists (.runqueue j) →
        t ≠ s.curthread c ∧ t ∈ s.lists (.runqueue c) ∧ s'.tCpu t = j) ∧
      (∀ t, (∀ j < s.numcpus, t ∈ s'.lists (.runqueue j) → t ∈ s.lists (.runqueue j)) → s'.tCpu t = s.tCpu t) ∧
      (∀ j < s.numcpus, (s'.lists (.runqueue j)).length ≤
        max ((s.runThreads.card + s.numcpus - 1) / s.numcpus) (s.lists (.runqueue j)).length) ∧
      s'.lists (.victims c) = [] := by
  obtain ⟨⟨⟩, s', hrun, hmoved, hempty⟩ := (considerMigration_finished hdistinct hc hact hvictims).exists_ok
  have hown : (s'.lists (.runqueue c) : Multiset ℕ) ≤ (s.lists (.runqueue c) : Multiset ℕ) := by
    have hle := hmoved.own
    rwa [Sched.own, hempty, Multiset.coe_nil, add_zero] at hle
  refine ⟨s', hrun, ?_, ?_, ?_, ?_, hempty⟩
  · have hall := hmoved.threads
    rw [Sched.own, hempty, Multiset.coe_nil, add_zero, ← hmoved.numcpus] at hall
    rw [← hall]
    exact (elsewhere_add_runqueue (hmoved.numcpus.symm ▸ hc)).symm
  · intro j hj t ht hnew
    by_cases hjc : j = c
    · subst hjc
      exact absurd (Multiset.mem_of_le hown ht) hnew
    · obtain ⟨new, hqueue, hsent, -⟩ := hmoved.sent j hj hjc
      rw [hqueue] at ht
      obtain ⟨hcpu, hcur, hfrom⟩ := hsent t ((List.mem_append.mp ht).resolve_left hnew)
      exact ⟨hcur, hfrom, hcpu⟩
  · intro t hstays
    rcases hmoved.kept t with hkept | ⟨j, hj, -, hmem, hnot⟩
    · exact hkept
    · exact absurd (hstays j hj hmem) hnot
  · intro j hj
    by_cases hjc : j = c
    · subst hjc
      exact Nat.le_trans (Multiset.card_le_card hown) (Nat.le_max_right ..)
    · obtain ⟨new, hqueue, -, hlen⟩ := hmoved.sent j hj hjc
      rcases hlen with rfl | hle
      · rw [hqueue, List.append_nil]
        exact Nat.le_max_right ..
      · exact Nat.le_trans hle (Nat.le_max_left ..)

/-- Four threads on the run queue of CPU 0, the last of them still its current thread, and none on that of CPU 1. -/
def unbalanced : Sched where
  numcpus := 2
  lists tl := if tl = .runqueue 0 then [2, 3, 4, 0] else []
  tState _ := .ready
  tCpu t := if t = 1 then 1 else 0
  life _ := .created
  curthread c := c
  isidle _ := true
  activity _ := .none

/-- Two threads are surplus; one of them is the current thread and stays. -/
theorem migration_keeps_current_thread :
    ∃ s', considerMigration 0 unbalanced = .ok () s' ∧ s'.lists (.runqueue 0) = [2, 3, 0] ∧
      s'.lists (.runqueue 1) = [4] ∧ s'.tCpu 4 = 1 ∧ s'.runThreads = unbalanced.runThreads := by
  have hdistinct : unbalanced.runThreads.Nodup := by decide
  have hcpu : 0 < unbalanced.numcpus := by decide
  obtain ⟨s', hrun, hthreads, -⟩ := migration_moves_only_surplus hcpu rfl rfl hdistinct
  have hcheck : (considerMigration 0 unbalanced).returnedIn (fun _ s' =>
      decide (s'.lists (.runqueue 0) = [2, 3, 0] ∧ s'.lists (.runqueue 1) = [4] ∧ s'.tCpu 4 = 1)) = true := by
    decide +kernel
  rw [hrun] at hcheck
  obtain ⟨hown, hsent, hcpu⟩ := of_decide_eq_true hcheck
  exact ⟨s', hrun, hown, hsent, hcpu, hthreads⟩

end Sched

end Os161Kernel
