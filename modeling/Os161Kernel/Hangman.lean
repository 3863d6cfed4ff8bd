import Os161Kernel.Lib.Chains
import Os161Kernel.Lib.Runs
import Os161Kernel.Lib.StateProg

/-!
# The deadlock detector

An actor waits for at most one lockable and a lockable is held by at most one actor, so the waits-for graph has one way
out of every node.  `hangman_check` follows it from a lockable and keeps no record of where it has been: whether it comes
back depends on the graph.

* `Hangman.Inv`: every chain of the graph ends.  `hangman_wait` adds an arrow only after the walk has shown that it does
  not lead back; `hangman_acquire` turns an arrow of an actor around, and that actor then waits for nothing.
* `hangman_exact`: so the walk ends in every state reached, and it finds the actor exactly when waiting would close a
  cycle.

The calls hold `hangman_lock`, so each is one step.  Calls about the lockable of `hangman_lock` itself do nothing.
-/

namespace Os161Kernel

open StateProg Runs Chains Relation Function

/-- The fields `a_waiting` of the actors and `l_holding` of the lockables. -/
structure Hangman (A L : Type) where
  waiting : A → Option L
  holding : L → Option A

/-- Why a call of the detector does not return; `running` is a walk that has not come to its end yet. -/
inductive HangmanStop where
  | panic (message : String)
  | running
deriving DecidableEq

namespace Hangman

variable {A L : Type}

/-! ### The waits-for graph -/

/-- `HANGMAN_ACTORINIT` and `HANGMAN_LOCKABLEINIT`. -/
def init : Hangman A L where
  waiting _ := none
  holding _ := none

/-- The way out of an actor or of a lockable. -/
def next (s : Hangman A L) : A ⊕ L → Option (A ⊕ L)
  | .inl a => (s.waiting a).map .inr
  | .inr l => (s.holding l).map .inl

/-- The waits-for graph has a cycle. -/
def Deadlocked (s : Hangman A L) : Prop := Cyclic s.next

/-- Every chain ends, and nobody holds the lockable of the detector's own lock. -/
structure Inv (hangmanLock : L) (s : Hangman A L) : Prop where
  ending : Ending s.next
  free : s.holding hangmanLock = none

variable {s s' : Hangman A L} {a t : A} {l hangmanLock : L}

theorem inv_init : Inv hangmanLock (init : Hangman A L) := by
  refine ⟨?_, rfl⟩
  apply ending_none.of_fewer
  rintro (a | l) y hy
  · exact nomatch hy
  · exact nomatch hy

theorem leads_of_arrow {x y : A ⊕ L} (hne : x ≠ .inl t) (hxy : Arrow s.next x y) :
    ReflTransGen (Arrow s.next) x (.inl t) ↔ ReflTransGen (Arrow s.next) y (.inl t) := by
  rw [ReflTransGen.cases_head_iff]
  constructor
  · rintro (heq | ⟨z, hxz, hz⟩)
    · exact absurd heq hne
    · rwa [Option.some.inj (hxy.symm.trans hxz)]
  · exact fun hy => .inr ⟨y, hxy, hy⟩

theorem not_leads_of_none {x : A ⊕ L} (hne : x ≠ .inl t) (hx : s.next x = none) :
    ¬ ReflTransGen (Arrow s.next) x (.inl t) := by
  rw [ReflTransGen.cases_head_iff]
  rintro (heq | ⟨y, hxy, -⟩)
  · exact hne heq
  · exact nomatch hx.symm.trans hxy

/-! ### The walk -/

variable [DecidableEq A]

/-- At most `n` rounds of the loop of `hangman_check`: was `target` met? -/
def walk (s : Hangman A L) (target : A) : ℕ → Option A → Option Bool
  | 0, _ => none
  | _ + 1, none => some false
  | n + 1, some cur =>
    if cur = target then some true
    else match s.waiting cur with
      | none => some false
      | some l => s.walk target n (s.holding l)

/-- The walk as it goes on from a node of the graph. -/
def walkFrom (s : Hangman A L) (target : A) (n : ℕ) : A ⊕ L → Option Bool
  | .inl a => s.walk target n (some a)
  | .inr l => s.walk target n (s.holding l)

theorem walkFrom_ends {x : A ⊕ L} (hx : Acc (fun y x => Arrow s.next x y) x) :
    ∃ n, ∀ m ≥ n, ∃ r, s.walkFrom t m x = some r ∧
      (r = true ↔ ReflTransGen (Arrow s.next) x (.inl t)) := by
  induction hx with
  | intro x _ ih =>
    cases x with
    | inl cur =>
      by_cases hcur : cur = t
      · refine ⟨1, fun m hm => ⟨true, ?_, ?_⟩⟩
        · obtain ⟨m, rfl⟩ := Nat.exists_eq_add_of_le' hm
          simp [walkFrom, walk, hcur]
        · simp only [hcur, true_iff]
          exact .refl
      · have hne : (Sum.inl cur : A ⊕ L) ≠ .inl t := fun h => hcur (Sum.inl.inj h)
        cases hw : s.waiting cur with
        | none =>
          refine ⟨1, fun m hm => ⟨false, ?_, ?_⟩⟩
          · obtain ⟨m, rfl⟩ := Nat.exists_eq_add_of_le' hm
            simp [walkFrom, walk, hcur, hw]
          · simp only [Bool.false_eq_true, false_iff]
            exact not_leads_of_none hne (congrArg (Option.map Sum.inr) hw)
        | some l =>
          have harrow : Arrow s.next (.inl cur) (.inr l) := by simp [Arrow, next, hw]
          obtain ⟨n, hn⟩ := ih (.inr l) harrow
          refine ⟨n + 1, fun m hm => ?_⟩
          obtain ⟨m, rfl⟩ := Nat.exists_eq_add_of_le' (Nat.le_trans (Nat.le_add_left 1 n) hm)
          obtain ⟨r, hr, hiff⟩ := hn m (Nat.le_of_succ_le_succ hm)
          refine ⟨r, ?_, hiff.trans (leads_of_arrow hne harrow).symm⟩
          simpa [walkFrom, walk, hcur, hw] using hr
    | inr l =>
      have hne : (Sum.inr l : A ⊕ L) ≠ .inl t := Sum.inr_ne_inl
      cases hh : s.holding l with
      | none =>
        refine ⟨1, fun m hm => ⟨false, ?_, ?_⟩⟩
        · obtain ⟨m, rfl⟩ := Nat.exists_eq_add_of_le' hm
          simp [walkFrom, walk, hh]
        · simp only [Bool.false_eq_true, false_iff]
          exact not_leads_of_none hne (congrArg (Option.map Sum.inl) hh)
      | some b =>
        have harrow : Arrow s.next (.inr l) (.inl b) := by simp [Arrow, next, hh]
        obtain ⟨n, hn⟩ := ih (.inl b) harrow
        refine ⟨n, fun m hm => ?_⟩
        obtain ⟨r, hr, hiff⟩ := hn m hm
        refine ⟨r, ?_, hiff.trans (leads_of_arrow hne harrow).symm⟩
        simpa [walkFrom, hh] using hr

variable {r : Bool} {n : ℕ}

theorem walk_add {cur : Option A} (k : ℕ) (h : s.walk t n cur = some r) :
    s.walk t (n + k) cur = some r := by
  induction n generalizing cur with
  | zero => exact nomatch h
  | succ n ih =>
    rw [Nat.add_right_comm]
    cases cur with
    | none => exact h
    | some cur =>
      simp only [walk] at h ⊢
      by_cases hcur : cur = t
      · simpa [hcur] using h
      · rw [if_neg hcur] at h ⊢
        cases hw : s.waiting cur with
        | none => simpa [hw] using h
        | some l =>
          simp only [hw] at h
          exact ih h

/-! ### The calls -/

abbrev HangmanProg (A L : Type) := Prog HangmanStop (Hangman A L)

/-- `hangman_check`. -/
def hangmanCheck (n : ℕ) (start : L) (target : A) : HangmanProg A L Unit := do
  match ← .read fun s => s.walk target n (s.holding start) with
  | none => .stop .running
  | some false => pure ()
  | some true => .stop (.panic "Deadlock.\n")

theorem hangmanCheck_ne_running (h : s.walk a n (s.holding l) = some r) :
    hangmanCheck n l a s ≠ .stop .running := by
  simp only [hangmanCheck, bind_apply, read_apply, h]
  cases r with
  | false => exact nofun
  | true => exact nofun

variable [DecidableEq L]

section

variable (hangmanLock : L)

/-- `hangman_wait`. -/
def hangmanWait (n : ℕ) (a : A) (l : L) : HangmanProg A L Unit :=
  .when (l ≠ hangmanLock) do
    let waiting ← .read fun s => s.waiting a
    .require (waiting = none) (.panic "hangman_wait: already waiting for something?\n")
    hangmanCheck n l a
    .update fun s => { s with waiting := update s.waiting a (some l) }

/-- `hangman_acquire`. -/
def hangmanAcquire (a : A) (l : L) : HangmanProg A L Unit :=
  .when (l ≠ hangmanLock) do
    let waiting ← .read fun s => s.waiting a
    .require (waiting = some l) (.panic "hangman_acquire: not waiting for lock %s (%p)\n")
    let holding ← .read fun s => s.holding l
    .require (holding = none) (.panic "hangman_acquire: lock %s (%p) still held by %s (%p)\n")
    .update fun s => { s with
      holding := update s.holding l (some a)
      waiting := update s.waiting a none }

/-- `hangman_release`. -/
def hangmanRelease (a : A) (l : L) : HangmanProg A L Unit :=
  .when (l ≠ hangmanLock) do
    let waiting ← .read fun s => s.waiting a
    .require (waiting = none) (.panic "hangman_release: waiting for something?\n")
    let holding ← .read fun s => s.holding l
    .require (holding = some a) (.panic "hangman_release: not the holder\n")
    .update fun s => { s with holding := update s.holding l none }

/-! ### Runs -/

inductive Op (A L : Type) where
  | wait (a : A) (l : L)
  | acquire (a : A) (l : L)
  | release (a : A) (l : L)

def Op.call (n : ℕ) : Op A L → HangmanProg A L Unit
  | .wait a l => hangmanWait hangmanLock n a l
  | .acquire a l => hangmanAcquire hangmanLock a l
  | .release a l => hangmanRelease hangmanLock a l

/-- A call that returns, after however many rounds. -/
def Step (s : Hangman A L) (op : Op A L) (s' : Hangman A L) : Prop := ∃ n, op.call hangmanLock n s = .ok () s'

end

/-! ### Arrows added and taken away -/

/-- The graph with an arrow from `a` to `l`. -/
def waitFor (s : Hangman A L) (a : A) (l : L) : Hangman A L :=
  { s with waiting := update s.waiting a (some l) }

/-- The graph with an arrow from `l` to `a` and none from `a`. -/
def hold (s : Hangman A L) (a : A) (l : L) : Hangman A L :=
  { s with holding := update s.holding l (some a), waiting := update s.waiting a none }

/-- The graph with no arrow from `l`. -/
def release (s : Hangman A L) (l : L) : Hangman A L := { s with holding := update s.holding l none }

/-- **What a call is for**: the actor waits for the lockable, or has stopped waiting for it and holds it, or holds it no
more.  The lockable of the detector's own lock is passed over. -/
def after (hangmanLock : L) (s : Hangman A L) : Op A L → Hangman A L
  | .wait a l => if l = hangmanLock then s else s.waitFor a l
  | .acquire a l => if l = hangmanLock then s else s.hold a l
  | .release _ l => if l = hangmanLock then s else s.release l

theorem next_waiting (o : Option L) :
    { s with waiting := update s.waiting a o }.next =
      update s.next (.inl a) (o.map .inr) := by
  funext x
  cases x with
  | inl b =>
    by_cases hb : b = a
    · rw [hb]
      simp [next]
    · have hne : (Sum.inl b : A ⊕ L) ≠ .inl a := fun h => hb (Sum.inl.inj h)
      rw [update_of_ne hne]
      simp [next, hb]
  | inr l => rw [update_of_ne Sum.inr_ne_inl, next, next]

theorem next_holding (o : Option A) :
    { s with holding := update s.holding l o }.next =
      update s.next (.inr l) (o.map .inl) := by
  funext x
  cases x with
  | inl b => rw [update_of_ne Sum.inl_ne_inr, next, next]
  | inr k =>
    by_cases hk : k = l
    · rw [hk]
      simp [next]
    · have hne : (Sum.inr k : A ⊕ L) ≠ .inr l := fun h => hk (Sum.inr.inj h)
      rw [update_of_ne hne]
      simp [next, hk]

theorem ending_update_none {x : A ⊕ L} (h : Ending s.next) : Ending (update s.next x none) := by
  apply h.of_fewer
  intro y z hyz
  by_cases hy : y = x
  · rw [hy, Arrow, update_self] at hyz
    cases hyz
  · exact (arrow_update_of_ne hy).mp hyz

theorem walk_exact (hend : Ending s.next) (ha : s.waiting a = none)
    (h : s.walk a n (s.holding l) = some r) : r = true ↔ (s.waitFor a l).Deadlocked := by
  obtain ⟨k, hk⟩ := walkFrom_ends (t := a) (hend (.inr l))
  obtain ⟨r', hr', hiff⟩ := hk (n + k) (Nat.le_add_left k n)
  have heq : r = r' := Option.some.inj ((walk_add k h).symm.trans hr')
  have hnone : s.next (.inl a) = none := congrArg (Option.map Sum.inr) ha
  rw [heq, hiff, Deadlocked, waitFor, next_waiting]
  exact (hend.cyclic_update_iff hnone).symm

/-! ### The invariant -/

theorem hangmanWait_lock : hangmanWait hangmanLock n a hangmanLock s = .ok () s := by
  rw [hangmanWait, Prog.when, if_neg (not_not_intro rfl)]
  rfl

theorem hangmanWait_apply (hl : l ≠ hangmanLock) (ha : s.waiting a = none) :
    hangmanWait hangmanLock n a l s = match s.walk a n (s.holding l) with
      | none => .stop .running
      | some false => .ok () (s.waitFor a l)
      | some true => .stop (.panic "Deadlock.\n") := by
  rw [hangmanWait, Prog.when, if_pos hl]
  simp only [hangmanCheck, bind_apply, read_apply, require_of ha, Prog.pure_apply]
  cases s.walk a n (s.holding l) with
  | none => rfl
  | some r =>
    cases r with
    | false => rfl
    | true => rfl

theorem hangmanWait_ok (hl : l ≠ hangmanLock) (h : hangmanWait hangmanLock n a l s = .ok () s') :
    s.waiting a = none ∧ s.walk a n (s.holding l) = some false ∧ s' = s.waitFor a l := by
  by_cases ha : s.waiting a = none
  · rw [hangmanWait_apply hl ha] at h
    cases hw : s.walk a n (s.holding l) with
    | none => simp [hw] at h
    | some r =>
      cases r with
      | false =>
        simp only [hw, Outcome.ok.injEq, true_and] at h
        exact ⟨ha, rfl, h.symm⟩
      | true => simp [hw] at h
  · rw [hangmanWait, Prog.when, if_pos hl, bind_apply, read_apply] at h
    simp only [require_of_not ha] at h
    exact nomatch h

theorem Inv.wait (hs : Inv hangmanLock s) (h : hangmanWait hangmanLock n a l s = .ok () s') :
    Inv hangmanLock s' := by
  by_cases hl : l = hangmanLock
  · rw [hl, hangmanWait_lock, Outcome.ok.injEq] at h
    exact h.2 ▸ hs
  · obtain ⟨ha, hw, rfl⟩ := hangmanWait_ok hl h
    refine ⟨?_, hs.free⟩
    have hno : ¬ (s.waitFor a l).Deadlocked := fun hd => nomatch (walk_exact hs.ending ha hw).mpr hd
    have hnone : s.next (.inl a) = none := congrArg (Option.map Sum.inr) ha
    rw [Deadlocked, waitFor, next_waiting] at hno
    rw [waitFor, next_waiting]
    exact hs.ending.update fun hlead => hno ((hs.ending.cyclic_update_iff hnone).mpr hlead)

theorem hangmanAcquire_ok (h : hangmanAcquire hangmanLock a l s = .ok () s') :
    (l ≠ hangmanLock ∧ s.waiting a = some l ∧ s.holding l = none ∧ s' = s.hold a l) ∨ (l = hangmanLock ∧ s' = s) := by
  simp only [hangmanAcquire, when_ok_iff, bind_ok_iff, read_ok_iff, require_ok_iff,
    update_ok_iff] at h
  obtain ⟨hl, _, _, ⟨rfl, rfl⟩, _, _, ⟨hwait, rfl⟩, _, _, ⟨rfl, rfl⟩, _, _, ⟨hhold, rfl⟩, rfl⟩ | ⟨hl, rfl⟩ := h
  · exact .inl ⟨hl, hwait, hhold, rfl⟩
  · exact .inr ⟨not_not.mp hl, rfl⟩

theorem hangmanRelease_ok (h : hangmanRelease hangmanLock a l s = .ok () s') :
    (l ≠ hangmanLock ∧ s.waiting a = none ∧ s.holding l = some a ∧ s' = s.release l) ∨
      (l = hangmanLock ∧ s' = s) := by
  simp only [hangmanRelease, when_ok_iff, bind_ok_iff, read_ok_iff, require_ok_iff,
    update_ok_iff] at h
  obtain ⟨hl, _, _, ⟨rfl, rfl⟩, _, _, ⟨hwait, rfl⟩, _, _, ⟨rfl, rfl⟩, _, _, ⟨hhold, rfl⟩, rfl⟩ | ⟨hl, rfl⟩ := h
  · exact .inl ⟨hl, hwait, hhold, rfl⟩
  · exact .inr ⟨not_not.mp hl, rfl⟩

theorem Inv.acquire (hs : Inv hangmanLock s) (h : hangmanAcquire hangmanLock a l s = .ok () s') :
    Inv hangmanLock s' := by
  obtain ⟨hl, -, -, rfl⟩ | ⟨-, rfl⟩ := hangmanAcquire_ok h
  · refine ⟨?_, (update_of_ne hl.symm ..).trans hs.free⟩
    -- the arrow of the actor goes first, so that the new one leads to a node without a way out
    have hgone : Ending { s with waiting := update s.waiting a none }.next := by
      rw [next_waiting]
      exact ending_update_none hs.ending
    have hnext := next_holding (s := { s with waiting := update s.waiting a none }) (l := l) (some a)
    rw [hold, hnext]
    refine hgone.update ?_
    rw [ReflTransGen.cases_head_iff]
    rintro (heq | ⟨y, hy, -⟩)
    · exact nomatch heq
    · simp [Arrow, next] at hy
  · exact hs

theorem Inv.release (hs : Inv hangmanLock s) (h : hangmanRelease hangmanLock a l s = .ok () s') :
    Inv hangmanLock s' := by
  obtain ⟨hl, -, -, rfl⟩ | ⟨-, rfl⟩ := hangmanRelease_ok h
  · refine ⟨?_, (update_of_ne (Ne.symm hl) ..).trans hs.free⟩
    rw [release, next_holding]
    exact ending_update_none hs.ending
  · exact hs

theorem Inv.not_deadlocked_lock (hs : Inv hangmanLock s) (ha : s.waiting a = none) :
    ¬ (s.waitFor a hangmanLock).Deadlocked := by
  have hnone : s.next (.inl a) = none := congrArg (Option.map Sum.inr) ha
  rw [Deadlocked, waitFor, next_waiting, Option.map_some, hs.ending.cyclic_update_iff hnone]
  exact not_leads_of_none Sum.inr_ne_inl (congrArg (Option.map Sum.inl) hs.free)

variable {op : Op A L}

theorem Inv.step (hs : Inv hangmanLock s) (h : Step hangmanLock s op s') : Inv hangmanLock s' := by
  obtain ⟨n, h⟩ := h
  cases op with
  | wait a l => exact hs.wait h
  | acquire a l => exact hs.acquire h
  | release a l => exact hs.release h

theorem step_after (h : Step hangmanLock s op s') : s' = s.after hangmanLock op := by
  obtain ⟨n, h⟩ := h
  cases op with
  | wait a l =>
    by_cases hl : l = hangmanLock
    · have hrun : hangmanWait hangmanLock n a l s = .ok () s := by rw [hl, hangmanWait_lock]
      rw [after, if_pos hl]
      exact (Outcome.ok.inj (h.symm.trans hrun)).2
    · rw [after, if_neg hl]
      exact (hangmanWait_ok hl h).2.2
  | acquire a l =>
    obtain ⟨hl, -, -, rfl⟩ | ⟨hl, rfl⟩ := hangmanAcquire_ok h
    · exact (if_neg hl).symm
    · exact (if_pos hl).symm
  | release a l =>
    obtain ⟨hl, -, -, rfl⟩ | ⟨hl, rfl⟩ := hangmanRelease_ok h
    · exact (if_neg hl).symm
    · exact (if_pos hl).symm

/-- **The detector is exact and always returns.**  In every state that calls without a panic reach, the waits-for graph
has no cycle and the walk of `hangman_check` ends, whatever it looks for.  A call of `hangman_wait` by an actor that
waits for nothing then ends too, with the report of a deadlock exactly if the new arrow closes a cycle.  A call that
returns changes the graph as it should. -/
theorem hangman_exact (hs : Reaches (Step hangmanLock) (· = (init : Hangman A L)) s) :
    ¬ s.Deadlocked ∧
    (∀ (l : L) (a : A), ∃ n, ∀ m ≥ n, hangmanCheck m l a s ≠ .stop .running) ∧
    (∀ (a : A) (l : L), s.waiting a = none → ∃ n, ∀ m ≥ n,
      hangmanWait hangmanLock m a l s ≠ .stop .running ∧
      (hangmanWait hangmanLock m a l s = .stop (.panic "Deadlock.\n") ↔ (s.waitFor a l).Deadlocked)) ∧
    ∀ op s', Step hangmanLock s op s' → s' = s.after hangmanLock op := by
  have hi : Inv hangmanLock s := hs.invariant (fun _ heq => heq ▸ inv_init) fun _ _ _ hi h => hi.step h
  refine ⟨hi.ending.not_cyclic, fun l a => ?_, fun a l ha => ?_, fun _ _ => step_after⟩
  · obtain ⟨n, hn⟩ := walkFrom_ends (t := a) (hi.ending (.inr l))
    refine ⟨n, fun m hm => ?_⟩
    obtain ⟨r, hr, -⟩ := hn m hm
    exact hangmanCheck_ne_running hr
  · by_cases hl : l = hangmanLock
    · rw [hl]
      refine ⟨0, fun m _ => ⟨?_, ?_⟩⟩
      · rw [hangmanWait_lock]
        exact nofun
      · rw [hangmanWait_lock]
        simp only [reduceCtorEq, false_iff]
        exact hi.not_deadlocked_lock ha
    · obtain ⟨n, hn⟩ := walkFrom_ends (t := a) (hi.ending (.inr l))
      refine ⟨n, fun m hm => ?_⟩
      obtain ⟨r, hr, -⟩ := hn m hm
      rw [← walk_exact hi.ending ha hr, hangmanWait_apply hl ha, show s.walk a m (s.holding l) = some r from hr]
      cases r with
      | false => simp
      | true => simp

/-- Two actors hold a lockable each and one waits for the other's: the second one's wait is reported. -/
theorem hangman_exact_two_locks :
    ∃ s : Hangman ℕ ℕ, Reaches (Step 2) (· = (init : Hangman ℕ ℕ)) s ∧
      ∃ n, ∀ m ≥ n, hangmanWait 2 m 1 0 s = .stop (.panic "Deadlock.\n") := by
  have h₀ : Reaches (Step 2) (· = (init : Hangman ℕ ℕ)) init := .start rfl
  have h₁ := h₀.next (i := .wait 0 0) ⟨1, rfl⟩
  have h₂ := h₁.next (i := .acquire 0 0) ⟨0, rfl⟩
  have h₃ := h₂.next (i := .wait 1 1) ⟨1, rfl⟩
  have h₄ := h₃.next (i := .acquire 1 1) ⟨0, rfl⟩
  have h₅ := h₄.next (i := .wait 0 1) ⟨1, rfl⟩
  refine ⟨_, h₅, ?_⟩
  obtain ⟨n, hn⟩ := (hangman_exact h₅).2.2.1 1 0 rfl
  refine ⟨n, fun m hm => (hn m hm).2.mpr ⟨.inl 0, ?_⟩⟩
  exact .head (show Arrow _ _ (.inr 1) from rfl) <| .head (show Arrow _ _ (.inl 1) from rfl) <|
    .head (show Arrow _ _ (.inr 0) from rfl) <| .single rfl

end Hangman

end Os161Kernel
