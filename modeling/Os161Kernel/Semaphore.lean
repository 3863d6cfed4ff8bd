import Mathlib.Data.Set.Card
import Os161Kernel.Lib.StateProg
import Os161Kernel.Lib.Runs

/-!
# Semaphores

`P` and `V` run under `sem_lock`.  A `P` that finds the count at zero queues its thread on the wait channel, where
`wchan_sleep` gives the lock up; a thread that was woken takes the lock again later and tests the count once more.  In
between, a newcomer may have taken the count, so the count and the wakeups drift apart.
-/

namespace Os161Kernel

open StateProg Runs Function

/-- Where a thread stands in `P`. -/
inductive SemPhase where
  | outside
  | asleep
  | woken
deriving DecidableEq

/-- `struct semaphore` with the threads that use it. -/
structure Semaphore where
  semCount : BitVec 32
  wcThreads : List ℕ
  phase : ℕ → SemPhase

namespace Semaphore

/-- Programs on a semaphore stop with the text of a failed `KASSERT`. -/
abbrev SemProg := Prog String Semaphore

/-! ### The code -/

/-- `sem_create`. -/
def semCreate (initialCount : BitVec 32) : Semaphore where
  semCount := initialCount
  wcThreads := []
  phase _ := .outside

/-- `wchan_sleep` up to the release of the lock in `thread_switch`. -/
def wchanSleep (t : ℕ) : SemProg Unit :=
  .update fun s => { s with
    wcThreads := s.wcThreads ++ [t]
    phase := update s.phase t .asleep }

/-- `wchan_wakeone`. -/
def wchanWakeone : SemProg Unit := do
  match ← .read Semaphore.wcThreads with
  | [] => pure ()
  | target :: rest =>
    .update fun s => { s with wcThreads := rest, phase := update s.phase target .woken }

/-- `P` from the test of the count on, with the lock held: the thread goes to sleep, or takes one and comes back. -/
def testCount (t : ℕ) : SemProg Bool := do
  let count ← .read semCount
  if count = 0 then do
    wchanSleep t
    pure false
  else do
    .require (0 < count) "sem->sem_count > 0"
    .update fun s => { s with semCount := count - 1, phase := update s.phase t .outside }
    pure true

/-- `V`. -/
def V : SemProg Unit := do
  .update fun s => { s with semCount := s.semCount + 1 }
  let count ← .read semCount
  .require (0 < count) "sem->sem_count > 0"
  wchanWakeone

/-! ### Runs -/

/-- A thread calls `P`, a woken thread has the lock again, or somebody calls `V`, an interrupt handler perhaps. -/
inductive Op where
  | P (t : ℕ)
  | resume (t : ℕ)
  | V

/-- A semaphore in use, with the number of calls of `V` and of calls of `P` that came back. -/
structure Used extends Semaphore where
  posted : ℕ
  completed : ℕ

/-- The semaphore when it is created. -/
def Used.start (c : BitVec 32) : Used := ⟨semCreate c, 0, 0⟩

/-- One call of `P`, from its start or from a wakeup on. -/
def Used.testCount (u : Used) (t : ℕ) : Option Used :=
  match Semaphore.testCount t u.toSemaphore with
  | .ok back s => some ⟨s, u.posted, u.completed + back.toNat⟩
  | .stop _ => none

def step (u : Used) : Op → Option Used
  | .P t => if u.phase t = .outside then u.testCount t else none
  | .resume t => if u.phase t = .woken then u.testCount t else none
  | .V => (V u.toSemaphore).state?.map fun s => ⟨s, u.posted + 1, u.completed⟩

variable {s s' : Semaphore} {t : ℕ} {c : BitVec 32}

theorem testCount_eq (t : ℕ) (s : Semaphore) : testCount t s =
    if s.semCount = 0 then
      .ok false { s with wcThreads := s.wcThreads ++ [t], phase := update s.phase t .asleep }
    else .ok true { s with semCount := s.semCount - 1, phase := update s.phase t .outside } := by
  unfold testCount
  rw [bind_of_ok (read_apply ..)]
  by_cases hzero : s.semCount = 0
  · rw [if_pos hzero, if_pos hzero]
    rfl
  · have hpos : 0 < s.semCount := by bv_omega
    rw [if_neg hzero, require_of hpos, if_neg hzero]
    rfl

theorem testCount_returns (t : ℕ) (s : Semaphore) : ∃ back s', testCount t s = .ok back s' := by
  rw [testCount_eq]
  split
  · exact ⟨_, _, rfl⟩
  · exact ⟨_, _, rfl⟩

theorem V_ok {u : Unit} (h : V s = .ok u s') : s'.semCount.toNat = s.semCount.toNat + 1 ∧
    ((s.wcThreads = [] ∧ s'.wcThreads = [] ∧ s'.phase = s.phase) ∨
      ∃ target, s.wcThreads = target :: s'.wcThreads ∧ s'.phase = update s.phase target .woken) := by
  unfold V wchanWakeone at h
  simp only [bind_ok_iff, read_ok_iff, update_ok_iff, require_ok_iff] at h
  obtain ⟨_, _, rfl, _, _, ⟨rfl, rfl⟩, _, _, ⟨hpos, rfl⟩, list, _, ⟨hlist, rfl⟩, hwake⟩ := h
  have hcount : (s.semCount + 1).toNat = s.semCount.toNat + 1 := by
    have hpos : 0 < s.semCount + 1 := hpos
    bv_omega
  cases list with
  | nil =>
    rw [← (pure_ok_iff.mp hwake).2]
    exact ⟨hcount, .inl ⟨hlist, hlist, rfl⟩⟩
  | cons target rest =>
    rw [← update_ok_iff.mp hwake]
    exact ⟨hcount, .inr ⟨target, hlist, rfl⟩⟩

/-- `V` stops only where the count would wrap around. -/
theorem V_returns_iff (s : Semaphore) : (∃ s', V s = .ok () s') ↔ s.semCount.toNat + 1 < 2 ^ 32 := by
  refine ⟨fun ⟨s', hs'⟩ => (V_ok hs').1 ▸ s'.semCount.isLt, fun h => ?_⟩
  have hpos : 0 < s.semCount + 1 := by bv_omega
  have hread : (0 : BitVec 32) < Semaphore.semCount { s with semCount := s.semCount + 1 } := hpos
  unfold V wchanWakeone
  rw [bind_of_ok (Prog.update_apply ..), bind_of_ok (read_apply ..), require_of hread]
  cases s.wcThreads with
  | nil => simp [bind_apply]
  | cons target rest => simp [bind_apply]

variable {u u' : Used}

theorem Used.testCount_cases (h : u.testCount t = some u') :
    (u.semCount = 0 ∧
      u' = { u with wcThreads := u.wcThreads ++ [t], phase := update u.phase t .asleep }) ∨
    (u.semCount ≠ 0 ∧ u' = { u with
      semCount := u.semCount - 1
      phase := update u.phase t .outside
      completed := u.completed + 1 }) := by
  unfold Used.testCount at h
  rw [testCount_eq] at h
  by_cases hzero : u.semCount = 0
  · rw [if_pos hzero] at h
    exact .inl ⟨hzero, (Option.some.inj h).symm⟩
  · rw [if_neg hzero] at h
    exact .inr ⟨hzero, (Option.some.inj h).symm⟩

/-! ### The invariant -/

/-- The threads that were woken and have not looked at the count since. -/
def woken (s : Semaphore) : Set ℕ := { t | s.phase t = .woken }

/-- **The invariant of a semaphore** that was created with count `c`. -/
structure Inv (c : BitVec 32) (s : Used) : Prop where
  count : s.semCount.toNat + s.completed = c.toNat + s.posted
  asleep : ∀ t, t ∈ s.wcThreads ↔ s.phase t = .asleep
  nodup : s.wcThreads.Nodup
  finite : s.woken.Finite
  pending : s.wcThreads ≠ [] → s.semCount.toNat ≤ s.woken.ncard

theorem inv_start (c : BitVec 32) : Inv c (.start c) where
  count := rfl
  asleep t := by simp [Used.start, semCreate]
  nodup := List.nodup_nil
  finite := by simp [woken, Used.start, semCreate]
  pending h := absurd rfl h

theorem woken_update (s : Semaphore) (t : ℕ) {x : SemPhase} (hx : x ≠ .woken) :
    { r | update s.phase t x r = .woken } = s.woken \ {t} := by
  ext r
  by_cases hr : r = t
  · subst hr
    simp [hx]
  · simp [hr, woken]

theorem woken_update_woken (s : Semaphore) (t : ℕ) :
    { r | update s.phase t .woken r = .woken } = insert t s.woken := by
  ext r
  by_cases hr : r = t
  · subst hr
    simp
  · simp [hr, woken]

theorem Inv.testCount {s s' : Used} (h : Inv c s) (ht : s.phase t ≠ .asleep) (hstep : s.testCount t = some s') :
    Inv c s' := by
  have hmem : t ∉ s.wcThreads := fun hin => ht ((h.asleep t).mp hin)
  rcases Used.testCount_cases hstep with ⟨hzero, rfl⟩ | ⟨hpos, rfl⟩
  · refine ⟨h.count, fun r => ?_, ?_, ?_, fun _ => ?_⟩
    · by_cases hr : r = t
      · subst hr
        simp
      · simp [hr, h.asleep r]
    · exact h.nodup.append (List.nodup_singleton t) (by simpa using hmem)
    · unfold woken
      rw [woken_update s.toSemaphore t (by decide)]
      exact h.finite.sdiff
    · -- nobody can take a count of zero
      show s.semCount.toNat ≤ _
      rw [hzero]
      exact Nat.zero_le _
  · have hcount : (s.semCount - 1).toNat = s.semCount.toNat - 1 := by bv_omega
    have hnat : s.semCount.toNat ≠ 0 := by bv_omega
    refine ⟨?_, fun r => ?_, h.nodup, ?_, fun hsome => ?_⟩
    · have := h.count
      show (s.semCount - 1).toNat + (s.completed + 1) = c.toNat + s.posted
      omega
    · by_cases hr : r = t
      · subst hr
        simp [hmem]
      · simp [hr, h.asleep r]
    · unfold woken
      rw [woken_update s.toSemaphore t (by decide)]
      exact h.finite.sdiff
    · -- the taker covered at most one of the count
      have hle := h.pending hsome
      have hdiff := Set.pred_ncard_le_ncard_sdiff_singleton s.woken t
      unfold woken
      rw [woken_update s.toSemaphore t (by decide)]
      show (s.semCount - 1).toNat ≤ _
      omega

theorem Inv.V {s : Used} {x : Unit} (h : Inv c s) (hstep : V s.toSemaphore = .ok x s') :
    Inv c ⟨s', s.posted + 1, s.completed⟩ := by
  obtain ⟨hcount, hwake⟩ := V_ok hstep
  have hsum : s'.semCount.toNat + s.completed = c.toNat + (s.posted + 1) := by
    have := h.count
    omega
  rcases hwake with ⟨hnil, hnil', hphase⟩ | ⟨target, hlist, hphase⟩
  · have hwoken : s'.woken = s.woken := by
      unfold woken
      rw [hphase]
    refine ⟨hsum, fun t => ?_, ?_, ?_, fun hsome => absurd hnil' hsome⟩
    · rw [hphase, hnil', ← hnil]
      exact h.asleep t
    · rw [hnil']
      exact List.nodup_nil
    · rw [hwoken]
      exact h.finite
  · have hnodup : (target :: s'.wcThreads).Nodup := hlist ▸ h.nodup
    have hasleep : s.phase target = .asleep := (h.asleep target).mp (by simp [hlist])
    have hwoken : s'.woken = insert target s.woken := by
      unfold woken
      rw [hphase]
      exact woken_update_woken s.toSemaphore target
    have hnew : target ∉ s.woken := by
      intro hin
      rw [show s.phase target = .woken from hin] at hasleep
      exact SemPhase.noConfusion hasleep
    refine ⟨hsum, fun t => ?_, (List.nodup_cons.mp hnodup).2, ?_, fun _ => ?_⟩
    · rw [hphase]
      by_cases ht : t = target
      · subst ht
        simp [(List.nodup_cons.mp hnodup).1]
      · rw [update_of_ne ht, ← h.asleep t, hlist, List.mem_cons]
        exact ⟨.inr, fun hin => hin.resolve_left ht⟩
    · rw [hwoken]
      exact h.finite.insert target
    · have hle := h.pending (by simp [hlist])
      show s'.semCount.toNat ≤ s'.woken.ncard
      rw [hwoken, Set.ncard_insert_of_notMem hnew h.finite]
      omega

theorem Inv.step {op : Op} (h : Inv c u) (hstep : step u op = some u') : Inv c u' := by
  cases op with
  | P t =>
    obtain ⟨hphase, hrun⟩ := Option.ite_none_right_eq_some.mp hstep
    exact h.testCount (by rw [hphase]; decide) hrun
  | resume t =>
    obtain ⟨hphase, hrun⟩ := Option.ite_none_right_eq_some.mp hstep
    exact h.testCount (by rw [hphase]; decide) hrun
  | V =>
    obtain ⟨s', hs', rfl⟩ := Option.map_eq_some_iff.mp hstep
    exact h.V (state?_eq_some.mp hs')

end Semaphore

/-- **Semaphores lose no wakeup.**  In every state that threads reach from `sem_create` with count `c`, the count is
`c` plus the calls of `V` minus the calls of `P` that came back; while a thread is asleep, the count is at most the
number of woken threads that still have to look at it; and if there is none of those and the count is positive, nobody
sleeps.  No `P` stops, and no `V` but one that would take the count to `2 ^ 32`. -/
theorem semaphore_loses_no_wakeup {c : BitVec 32} {s : Semaphore.Used}
    (h : Reaches (StepOf Semaphore.step) (· = .start c) s) :
    s.semCount.toNat + s.completed = c.toNat + s.posted ∧
    ((∃ t, s.phase t = .asleep) → s.semCount.toNat ≤ { t | s.phase t = .woken }.ncard) ∧
    (0 < s.semCount.toNat → (∀ t, s.phase t ≠ .woken) → ∀ t, s.phase t ≠ .asleep) ∧
    (∀ t, ∃ back s', Semaphore.testCount t s.toSemaphore = .ok back s') ∧
    ((∃ s', Semaphore.V s.toSemaphore = .ok () s') ↔ s.semCount.toNat + 1 < 2 ^ 32) := by
  have hinv : Semaphore.Inv c s := by
    apply h.invariant (P := Semaphore.Inv c)
    · intro s hs
      rw [hs]
      exact Semaphore.inv_start c
    · intro s op s' hs hstep
      exact hs.step hstep
  have hpending : (∃ t, s.phase t = .asleep) → s.semCount.toNat ≤ s.woken.ncard := by
    rintro ⟨t, ht⟩
    exact hinv.pending (List.ne_nil_of_mem ((hinv.asleep t).mpr ht))
  refine ⟨hinv.count, hpending, fun hpos hnone t ht => ?_, fun t => Semaphore.testCount_returns t _,
    Semaphore.V_returns_iff _⟩
  have hempty : s.woken = ∅ := Set.eq_empty_of_forall_notMem hnone
  have hle := hpending ⟨t, ht⟩
  rw [hempty, Set.ncard_empty] at hle
  omega

/-- Two threads wait, one is woken: its wakeup covers the count. -/
theorem semaphore_loses_no_wakeup_two_waiters :
    ∃ s, Reaches (StepOf Semaphore.step) (· = .start 0) s ∧ s.semCount = 1 ∧ s.phase 1 = .woken ∧
      s.phase 2 = .asleep ∧ s.semCount.toNat ≤ { t | s.phase t = .woken }.ncard := by
  have hrun : ∃ s, follow Semaphore.step [.P 1, .P 2, .V] (.start 0) = some s ∧ s.semCount = 1 ∧
      s.phase 1 = .woken ∧ s.phase 2 = .asleep := ⟨_, rfl, rfl, rfl, rfl⟩
  obtain ⟨s, hs, hcount, hwoken, hasleep⟩ := hrun
  have hreach : Reaches (StepOf Semaphore.step) (· = .start 0) s :=
    Reaches.of_follow _ (.start rfl) hs
  exact ⟨s, hreach, hcount, hwoken, hasleep, (semaphore_loses_no_wakeup hreach).2.1 ⟨2, hasleep⟩⟩

end Os161Kernel
