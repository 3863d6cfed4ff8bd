import Mathlib.Data.Set.Card
import Os161Kernel.Lib.Calls
import Os161Kernel.Lib.Runs

/-!
# Interrupt levels: `spl.c` and the level side of `spinlock.c`

A thread has interrupts off because it asked for it with the `spl` calls, and once more for every spinlock that it
holds.  The two need not nest, so `t_iplhigh_count` counts the reasons; interrupts go off on the first one and come back
with the last.

The thread is running, so there is a current CPU.  Other CPUs take and give back spinlocks in the meantime; a call that
waits for one of them returns after it has been given back.  A spinlock takes up memory, so the counts stay far from the
ends of an `int`.
-/

namespace Os161Kernel

open Calls Runs Function

/-- Why a call does not return. -/
inductive SplStop where
  | kassert (condition : String)
  /-- `panic("Deadlock on spinlock %p\n", splk)` -/
  | deadlock
  /-- The lock is with another CPU. -/
  | spins
deriving DecidableEq

/-- What the calls of one thread work on: its own fields, the interrupt flag and `c_spinlocks` of its CPU, and the lock
word and holder of every spinlock. -/
structure IrqState (L C : Type) where
  curspl : ℤ
  iplhighCount : ℤ
  irq : Bool
  spinlocks : ℕ
  lock : L → Bool
  holder : L → Option C

abbrev SplCall (L C : Type) := Call SplStop Empty (IrqState L C)

namespace IrqState

variable {L C : Type}

/-- `IPL_NONE`. -/
def iplNone : ℤ := 0

/-- `IPL_HIGH`. -/
def iplHigh : ℤ := 1

/-! ### The code -/

def cpuIrqoff : SplCall L C Unit := .update fun s => { s with irq := false }

def cpuIrqon : SplCall L C Unit := .update fun s => { s with irq := true }

/-- `splraise(oldspl, newspl)`. -/
def splraise (oldspl newspl : ℤ) : SplCall L C Unit := do
  .require (oldspl = iplNone) (.kassert "oldspl == IPL_NONE")
  .require (newspl = iplHigh) (.kassert "newspl == IPL_HIGH")
  let count ← .read IrqState.iplhighCount
  .when (count = 0) cpuIrqoff
  .update fun s => { s with iplhighCount := s.iplhighCount + 1 }

/-- `spllower(oldspl, newspl)`. -/
def spllower (oldspl newspl : ℤ) : SplCall L C Unit := do
  .require (oldspl = iplHigh) (.kassert "oldspl == IPL_HIGH")
  .require (newspl = iplNone) (.kassert "newspl == IPL_NONE")
  .update fun s => { s with iplhighCount := s.iplhighCount - 1 }
  let count ← .read IrqState.iplhighCount
  .when (count = 0) cpuIrqon

/-- `splx(spl)`. -/
def splx (spl : ℤ) : SplCall L C ℤ := do
  let cur ← .read IrqState.curspl
  if cur < spl then do
    -- turning interrupts off
    splraise cur spl
    let ret ← .read IrqState.curspl
    .update fun s => { s with curspl := spl }
    pure ret
  else if spl < cur then do
    -- turning interrupts on
    let ret ← .read IrqState.curspl
    .update fun s => { s with curspl := spl }
    spllower ret spl
    pure ret
  else
    pure spl

def spl0 : SplCall L C ℤ := splx iplNone

def splhigh : SplCall L C ℤ := splx iplHigh

section Spinlocks

variable [DecidableEq L] [DecidableEq C]

/-- `spinlock_acquire(splk)` on the CPU `mycpu`. -/
def spinlockAcquire (mycpu : C) (splk : L) : SplCall L C Unit := do
  splraise iplNone iplHigh
  let splkHolder ← .read fun s => s.holder splk
  .require (splkHolder ≠ some mycpu) .deadlock
  .update fun s => { s with spinlocks := s.spinlocks + 1 }
  let word ← .read fun s => s.lock splk
  .require (word = false) .spins
  .update fun s => { s with
    lock := update s.lock splk true
    holder := update s.holder splk (some mycpu) }

/-- `spinlock_release(splk)` on the CPU `mycpu`. -/
def spinlockRelease (mycpu : C) (splk : L) : SplCall L C Unit := do
  let splkHolder ← .read fun s => s.holder splk
  .require (splkHolder = some mycpu) (.kassert "splk->splk_holder == curcpu->c_self")
  let spinlocks ← .read IrqState.spinlocks
  .require (0 < spinlocks) (.kassert "curcpu->c_spinlocks > 0")
  .update fun s => { s with
    spinlocks := s.spinlocks - 1
    lock := update s.lock splk false
    holder := update s.holder splk none }
  spllower iplHigh iplNone

end Spinlocks

/-! ### What the calls do -/

variable {s t : IrqState L C} {me : C} {l : L} {spl : ℤ}

/-- One more reason for interrupts to be off. -/
def raised (s : IrqState L C) : IrqState L C :=
  { s with irq := if s.iplhighCount = 0 then false else s.irq, iplhighCount := s.iplhighCount + 1 }

/-- One reason less. -/
def lowered (s : IrqState L C) : IrqState L C :=
  { s with irq := if s.iplhighCount - 1 = 0 then true else s.irq, iplhighCount := s.iplhighCount - 1 }

theorem splraise_eq (s : IrqState L C) : splraise iplNone iplHigh s = .ok () s.raised := by
  have hends : Ends (splraise iplNone iplHigh) s (fun _ t => t = s.raised) fun _ _ => False := by
    unfold splraise cpuIrqoff raised
    by_cases hcount : s.iplhighCount = 0
    · simp [ends_when, hcount]
    · simp [ends_when, hcount]
  obtain ⟨⟨⟩, t, hrun, rfl⟩ := hends.exists_ok
  exact hrun

theorem spllower_eq (s : IrqState L C) : spllower iplHigh iplNone s = .ok () s.lowered := by
  have hends : Ends (spllower iplHigh iplNone) s (fun _ t => t = s.lowered) fun _ _ => False := by
    unfold spllower cpuIrqon lowered
    by_cases hcount : s.iplhighCount - 1 = 0
    · simp [ends_when, hcount]
    · simp [ends_when, hcount]
  obtain ⟨⟨⟩, t, hrun, rfl⟩ := hends.exists_ok
  exact hrun

theorem splx_same (hcur : s.curspl = spl) : splx spl s = .ok spl s := by
  have hends : Ends (splx spl) s (fun v t => v = spl ∧ t = s) fun _ _ => False := by
    simp [splx, hcur]
  obtain ⟨v, t, hrun, rfl, rfl⟩ := hends.exists_ok
  exact hrun

theorem splx_raises (hcur : s.curspl = iplNone) :
    splx iplHigh s = .ok iplNone { s.raised with curspl := iplHigh } := by
  have hlt : iplNone < iplHigh := by decide
  have hends : Ends (splx iplHigh) s (fun v t => v = iplNone ∧ t = { s.raised with curspl := iplHigh })
      fun _ _ => False := by
    unfold splx
    rw [ends_bind, ends_read, hcur, if_pos hlt, ends_bind, ends_of_ok_iff (splraise_eq s)]
    exact ⟨hcur, rfl⟩
  obtain ⟨v, t, hrun, rfl, rfl⟩ := hends.exists_ok
  exact hrun

theorem splx_lowers (hcur : s.curspl = iplHigh) :
    splx iplNone s = .ok iplHigh { s.lowered with curspl := iplNone } := by
  have hlt : iplNone < iplHigh := by decide
  have hends : Ends (splx iplNone) s (fun v t => v = iplHigh ∧ t = { s.lowered with curspl := iplNone })
      fun _ _ => False := by
    unfold splx
    rw [ends_bind, ends_read, hcur, if_neg (by decide), if_pos hlt]
    simp only [ends_bind, ends_read, ends_update, hcur]
    rw [ends_of_ok_iff (spllower_eq _)]
    exact ⟨rfl, rfl⟩
  obtain ⟨v, t, hrun, rfl, rfl⟩ := hends.exists_ok
  exact hrun

/-! ### The count -/

/-- The spinlocks that the CPU holds. -/
def held (me : C) (s : IrqState L C) : Set L := { l | s.holder l = some me }

/-- Interrupts are on exactly when there is no reason for them to be off. -/
def Masks (s : IrqState L C) : Prop := 0 ≤ s.iplhighCount ∧ (s.irq = true ↔ s.iplhighCount = 0)

theorem Masks.raised (h : s.Masks) : s.raised.Masks := by
  obtain ⟨hnonneg, hirq⟩ := h
  refine ⟨show 0 ≤ s.iplhighCount + 1 by omega, ?_⟩
  show (if s.iplhighCount = 0 then false else s.irq) = true ↔ s.iplhighCount + 1 = 0
  by_cases hcount : s.iplhighCount = 0
  · rw [if_pos hcount]
    exact ⟨nofun, fun h => by omega⟩
  · rw [if_neg hcount, hirq]
    omega

theorem Masks.lowered (h : s.Masks) (hpos : 1 ≤ s.iplhighCount) : s.lowered.Masks := by
  obtain ⟨-, hirq⟩ := h
  refine ⟨show 0 ≤ s.iplhighCount - 1 by omega, ?_⟩
  show (if s.iplhighCount - 1 = 0 then true else s.irq) = true ↔ s.iplhighCount - 1 = 0
  by_cases hcount : s.iplhighCount - 1 = 0
  · rw [if_pos hcount]
    exact ⟨fun _ => hcount, fun _ => rfl⟩
  · rw [if_neg hcount, hirq]
    omega

/-- **The reasons are counted**: one for each spinlock held, and one for the level. -/
structure Consistent (me : C) (s : IrqState L C) : Prop where
  level : s.curspl = iplNone ∨ s.curspl = iplHigh
  finite : (held me s).Finite
  spinlocks : s.spinlocks = (held me s).ncard
  count : s.iplhighCount = (held me s).ncard + if s.curspl = iplHigh then 1 else 0
  masks : s.Masks

theorem Consistent.splx (h : s.Consistent me) (hspl : spl = iplNone ∨ spl = iplHigh) :
    ∃ v t, splx spl s = .ok v t ∧ t.Consistent me ∧ (v = iplNone ∨ v = iplHigh) ∧ t.holder = s.holder ∧
      t.curspl = spl := by
  by_cases hcur : s.curspl = spl
  · exact ⟨spl, s, splx_same hcur, h, hspl, rfl, hcur⟩
  · have hcount := h.count
    rcases hspl with rfl | rfl
    · have hhigh : s.curspl = iplHigh := h.level.resolve_left hcur
      rw [if_pos hhigh] at hcount
      refine ⟨_, _, splx_lowers hhigh, ⟨.inl rfl, h.finite, h.spinlocks, ?_, ?_⟩, .inr rfl, rfl, rfl⟩
      · show s.iplhighCount - 1 = (held me s).ncard + if iplNone = iplHigh then 1 else 0
        rw [if_neg (by decide), hcount]
        omega
      · exact h.masks.lowered (by omega)
    · have hnone : s.curspl = iplNone := h.level.resolve_right hcur
      rw [if_neg hcur] at hcount
      refine ⟨_, _, splx_raises hnone, ⟨.inr rfl, h.finite, h.spinlocks, ?_, h.masks.raised⟩, .inl rfl, rfl, rfl⟩
      show s.iplhighCount + 1 = (held me s).ncard + if iplHigh = iplHigh then 1 else 0
      rw [if_pos rfl, hcount]
      omega

/-! ### Spinlocks -/

section Locks

variable [DecidableEq L]

/-- The lock has been taken. -/
def acquired (s : IrqState L C) (me : C) (l : L) : IrqState L C :=
  { s.raised with
    spinlocks := s.spinlocks + 1
    lock := update s.lock l true
    holder := update s.holder l (some me) }

/-- The lock has been given back. -/
def released (s : IrqState L C) (l : L) : IrqState L C :=
  { s.lowered with
    spinlocks := s.spinlocks - 1
    lock := update s.lock l false
    holder := update s.holder l none }

theorem held_acquired : held me (s.acquired me l) = insert l (held me s) := by
  ext l'
  show update s.holder l (some me) l' = some me ↔ l' = l ∨ s.holder l' = some me
  by_cases heq : l' = l
  · rw [heq, update_self]
    exact ⟨fun _ => .inl rfl, fun _ => rfl⟩
  · rw [update_of_ne heq]
    exact ⟨.inr, fun h => h.resolve_left heq⟩

theorem held_released : held me (s.released l) = held me s \ {l} := by
  ext l'
  show update s.holder l none l' = some me ↔ s.holder l' = some me ∧ l' ≠ l
  by_cases heq : l' = l
  · rw [heq, update_self]
    exact ⟨nofun, fun h => absurd rfl h.2⟩
  · rw [update_of_ne heq]
    exact ⟨fun h => ⟨h, heq⟩, And.left⟩

theorem Consistent.acquired (h : s.Consistent me) (hmine : s.holder l ≠ some me) : (s.acquired me l).Consistent me := by
  have hcard : (held me (s.acquired me l)).ncard = (held me s).ncard + 1 := by
    rw [held_acquired]
    exact Set.ncard_insert_of_notMem hmine h.finite
  refine ⟨h.level, ?_, ?_, ?_, h.masks.raised⟩
  · rw [held_acquired]
    exact h.finite.insert l
  · rw [hcard, ← h.spinlocks]
    rfl
  · show s.iplhighCount + 1 = (held me (s.acquired me l)).ncard + if s.curspl = iplHigh then 1 else 0
    have hcount := h.count
    rw [hcard]
    omega

theorem Consistent.released (h : s.Consistent me) (hmine : s.holder l = some me) : (s.released l).Consistent me := by
  have hcard : (held me (s.released l)).ncard + 1 = (held me s).ncard := by
    rw [held_released]
    exact Set.ncard_sdiff_singleton_add_one hmine h.finite
  have hcount := h.count
  refine ⟨h.level, ?_, ?_, ?_, h.masks.lowered (by split at hcount <;> omega)⟩
  · rw [held_released]
    exact h.finite.sdiff
  · show s.spinlocks - 1 = _
    rw [h.spinlocks]
    omega
  · show s.iplhighCount - 1 = (held me (s.released l)).ncard + if s.curspl = iplHigh then 1 else 0
    omega

variable [DecidableEq C]

theorem spinlockAcquire_ok_iff :
    spinlockAcquire me l s = .ok () t ↔ s.holder l ≠ some me ∧ s.lock l = false ∧ t = s.acquired me l := by
  unfold spinlockAcquire
  rw [bind_of_ok (splraise_eq s)]
  simp only [bind_ok_iff, require_ok_iff, read_apply, Reply.ok.injEq]
  constructor
  · rintro ⟨_, _, ⟨rfl, rfl⟩, _, _, ⟨hmine, rfl⟩, _, _, hcount, _, _, ⟨rfl, rfl⟩, _, _, ⟨hfree, rfl⟩, htake⟩
    obtain ⟨-, rfl⟩ := Reply.ok.inj hcount
    obtain ⟨-, rfl⟩ := Reply.ok.inj htake
    exact ⟨hmine, hfree, rfl⟩
  · rintro ⟨hmine, hfree, rfl⟩
    exact ⟨_, _, ⟨rfl, rfl⟩, (), _, ⟨hmine, rfl⟩, _, _, rfl, _, _, ⟨rfl, rfl⟩, (), _, ⟨hfree, rfl⟩, rfl⟩

theorem spinlockRelease_eq (hmine : s.holder l = some me) (hpos : 0 < s.spinlocks) :
    spinlockRelease me l s = .ok () (s.released l) := by
  have hends : Ends (spinlockRelease me l) s (fun _ t => t = s.released l) fun _ _ => False := by
    unfold spinlockRelease
    simp only [ends_bind, ends_read, ends_require, ends_update]
    refine ⟨hmine, hpos, ?_⟩
    rw [ends_of_ok_iff (spllower_eq _)]
    rfl
  obtain ⟨⟨⟩, t, hrun, rfl⟩ := hends.exists_ok
  exact hrun

end Locks

/-! ### Runs -/

/-- What can happen to the thread: a call of its own, or a change that other CPUs make to the locks. -/
inductive SplOp (L C : Type) where
  | splhigh
  | spl0
  | splx (s : ℤ)
  | acquire (splk : L)
  | release (splk : L)
  | others (lock : L → Bool) (holder : L → Option C)

/-- The calls that the thread may make: it passes to `splx` what an `spl` call has returned, and gives back only locks
that it holds.  Other CPUs leave its locks alone, and take none in its name. -/
def Allowed (me : C) (s : IrqState L C) (returned : List ℤ) : SplOp L C → Prop
  | .splx v => v ∈ returned
  | .release splk => s.holder splk = some me
  | .others lock holder =>
    (∀ l, s.holder l = some me → lock l = s.lock l) ∧ ∀ l, holder l = some me ↔ s.holder l = some me
  | .splhigh | .spl0 | .acquire _ => True

/-- What a call is for: the locks that the CPU holds after it, and the level. -/
structure Does (me : C) (op : SplOp L C) (s t : IrqState L C) : Prop where
  held : IrqState.held me t = match op with
    | .acquire splk => insert splk (IrqState.held me s)
    | .release splk => IrqState.held me s \ {splk}
    | .splhigh | .spl0 | .splx _ | .others _ _ => IrqState.held me s
  level : t.curspl = match op with
    | .splhigh => iplHigh
    | .spl0 => iplNone
    | .splx v => v
    | .acquire _ | .release _ | .others _ _ => s.curspl

/-- A thread and what its `spl` calls have returned. -/
structure SplRun (L C : Type) where
  state : IrqState L C
  returned : List ℤ

/-- A thread as `thread_create` leaves it, before its first call. -/
def Created (me : C) (r : SplRun L C) : Prop :=
  r.state.curspl = iplHigh ∧ r.state.iplhighCount = 1 ∧ r.state.irq = false ∧ r.state.spinlocks = 0 ∧
    (∀ l, r.state.holder l ≠ some me) ∧ r.returned = []

/-- The invariant of a run. -/
structure Inv (me : C) (r : SplRun L C) : Prop where
  consistent : r.state.Consistent me
  returned : ∀ v ∈ r.returned, v = iplNone ∨ v = iplHigh

variable {r r' : SplRun L C} {op : SplOp L C}

theorem Created.inv (h : Created me r) : Inv me r := by
  obtain ⟨hcur, hcount, hirq, hlocks, hholder, hreturned⟩ := h
  have hempty : held me r.state = ∅ := Set.eq_empty_of_forall_notMem hholder
  refine ⟨⟨.inr hcur, ?_, ?_, ?_, ?_, ?_⟩, ?_⟩
  · rw [hempty]
    exact Set.finite_empty
  · rw [hempty, Set.ncard_empty, hlocks]
  · rw [hempty, Set.ncard_empty, if_pos hcur, hcount]
    rfl
  · omega
  · rw [hirq, hcount]
    exact ⟨nofun, nofun⟩
  · rw [hreturned]
    exact nofun

/-- The call is waiting for nothing: a lock that it takes is free. -/
def Attainable (me : C) (s : IrqState L C) : SplOp L C → Prop
  | .acquire splk => s.holder splk ≠ some me ∧ s.lock splk = false
  | .splhigh | .spl0 | .splx _ | .release _ | .others _ _ => True

theorem Inv.splx (h : Inv me r) (hspl : spl = iplNone ∨ spl = iplHigh) :
    ∃ vs t, (do return [← IrqState.splx spl] : SplCall L C (List ℤ)) r.state = .ok vs t ∧
      Inv me ⟨t, vs ++ r.returned⟩ ∧ held me t = held me r.state ∧ t.curspl = spl := by
  obtain ⟨v, t, hrun, hcons, hv, hholder, hlevel⟩ := h.consistent.splx hspl
  refine ⟨[v], t, ?_, ⟨hcons, ?_⟩, ?_, hlevel⟩
  · rw [bind_of_ok hrun]
    rfl
  · intro v' hv'
    rcases List.mem_cons.mp hv' with rfl | hold
    · exact hv
    · exact h.returned v' hold
  · unfold held
    rw [hholder]

variable [DecidableEq L] [DecidableEq C]

/-- The call; the result lists what it returned. -/
def call (me : C) : SplOp L C → SplCall L C (List ℤ)
  | .splhigh => do return [← IrqState.splhigh]
  | .spl0 => do return [← IrqState.spl0]
  | .splx s => do return [← IrqState.splx s]
  | .acquire splk => do
    spinlockAcquire me splk
    return []
  | .release splk => do
    spinlockRelease me splk
    return []
  | .others lock holder => do
    .update fun s => { s with lock := lock, holder := holder }
    return []

/-- A call that returns. -/
def Step (me : C) (r : SplRun L C) (op : SplOp L C) (r' : SplRun L C) : Prop :=
  Allowed me r.state r.returned op ∧
    ∃ vs t, call me op r.state = .ok vs t ∧ r' = ⟨t, vs ++ r.returned⟩

theorem Inv.call (h : Inv me r) (hallowed : Allowed me r.state r.returned op) (hattain : Attainable me r.state op) :
    ∃ vs t, call me op r.state = .ok vs t ∧ Inv me ⟨t, vs ++ r.returned⟩ ∧ Does me op r.state t := by
  cases op with
  | splhigh =>
    obtain ⟨vs, t, hrun, hinv, hheld, hlevel⟩ := h.splx (.inr rfl)
    exact ⟨vs, t, hrun, hinv, hheld, hlevel⟩
  | spl0 =>
    obtain ⟨vs, t, hrun, hinv, hheld, hlevel⟩ := h.splx (.inl rfl)
    exact ⟨vs, t, hrun, hinv, hheld, hlevel⟩
  | splx v =>
    obtain ⟨vs, t, hrun, hinv, hheld, hlevel⟩ := h.splx (h.returned v hallowed)
    exact ⟨vs, t, hrun, hinv, hheld, hlevel⟩
  | acquire splk =>
    obtain ⟨hmine, hfree⟩ := hattain
    refine ⟨[], _, ?_, ⟨h.consistent.acquired hmine, h.returned⟩, held_acquired, rfl⟩
    show (spinlockAcquire me splk >>= fun _ => pure []) r.state = _
    rw [bind_of_ok (spinlockAcquire_ok_iff.mpr ⟨hmine, hfree, rfl⟩)]
    rfl
  | release splk =>
    have hpos : 0 < r.state.spinlocks := by
      rw [h.consistent.spinlocks]
      exact (Set.ncard_pos h.consistent.finite).mpr ⟨splk, hallowed⟩
    refine ⟨[], _, ?_, ⟨h.consistent.released hallowed, h.returned⟩, held_released, rfl⟩
    show (spinlockRelease me splk >>= fun _ => pure []) r.state = _
    rw [bind_of_ok (spinlockRelease_eq hallowed hpos)]
    rfl
  | others lock holder =>
    have hheld : held me { r.state with lock := lock, holder := holder } = held me r.state := Set.ext hallowed.2
    refine ⟨[], _, rfl, ⟨⟨h.consistent.level, ?_, ?_, ?_, h.consistent.masks⟩, h.returned⟩, hheld, rfl⟩
    · rw [hheld]
      exact h.consistent.finite
    · rw [hheld]
      exact h.consistent.spinlocks
    · rw [hheld]
      exact h.consistent.count

theorem attainable_of_ok {vs : List ℤ} (hrun : call me op s = .ok vs t) : Attainable me s op := by
  cases op with
  | acquire splk =>
    obtain ⟨⟨⟩, u, hacquire, -⟩ := bind_ok_iff.mp hrun
    obtain ⟨hmine, hfree, -⟩ := spinlockAcquire_ok_iff.mp hacquire
    exact ⟨hmine, hfree⟩
  | splhigh => trivial
  | spl0 => trivial
  | splx v => trivial
  | release splk => trivial
  | others lock holder => trivial

theorem Inv.step (h : Inv me r) (hstep : Step me r op r') : Inv me r' := by
  obtain ⟨hallowed, vs, t, hrun, rfl⟩ := hstep
  obtain ⟨vs', t', hrun', hinv, -⟩ := h.call hallowed (attainable_of_ok hrun)
  obtain ⟨rfl, rfl⟩ := Reply.ok.inj (hrun.symm.trans hrun')
  exact hinv

/-- **Interrupts follow the `spl` calls and the spinlocks**, however the two are interleaved: in every state of the
thread, `t_iplhigh_count` is the number of spinlocks it holds, plus one if its level is high, and interrupts are on
exactly when that is nothing.  No assertion fails on the way: every call returns unless it waits for a lock, and then
does what it is for. -/
theorem interrupts_follow_spl_and_spinlocks (h : Reaches (Step me) (Created me) r) :
    (held me r.state).Finite ∧
      r.state.iplhighCount = (held me r.state).ncard + (if r.state.curspl = iplHigh then 1 else 0) ∧
      (r.state.irq = true ↔ r.state.iplhighCount = 0) ∧
      ∀ op, Allowed me r.state r.returned op → Attainable me r.state op →
        ∃ vs t, call me op r.state = .ok vs t ∧ Does me op r.state t := by
  have hinv : Inv me r := Reaches.invariant (P := Inv me) (fun _ => Created.inv) (fun _ _ _ => Inv.step) h
  refine ⟨hinv.consistent.finite, hinv.consistent.count, hinv.consistent.masks.2, fun op hallowed hattain => ?_⟩
  obtain ⟨vs, t, hrun, -, hdoes⟩ := hinv.call hallowed hattain
  exact ⟨vs, t, hrun, hdoes⟩

/-- A new thread on a machine with two spinlocks, red and blue. -/
def newThread : SplRun Bool Unit := ⟨⟨iplHigh, 1, false, 0, fun _ => false, fun _ => none⟩, []⟩

/-- The example of `spl.c`: with red given back and the level restored, blue alone keeps interrupts off. -/
theorem interrupts_follow_red_and_blue :
    ∃ r, Reaches (Step ()) (Created ()) r ∧ r.state.curspl = iplNone ∧ r.state.holder true = none ∧
      r.state.holder false = some () ∧ r.state.irq = false ∧ r.state.iplhighCount = (held () r.state).ncard + 0 := by
  have hcreated : Reaches (Step ()) (Created ()) newThread := .start ⟨rfl, rfl, rfl, rfl, nofun, rfl⟩
  have hspl0 := hcreated.next (i := SplOp.spl0) ⟨trivial, _, _, rfl, rfl⟩
  have hred := hspl0.next (i := SplOp.acquire true) ⟨trivial, _, _, rfl, rfl⟩
  have hhigh := hred.next (i := SplOp.splhigh) ⟨trivial, _, _, rfl, rfl⟩
  have hblue := hhigh.next (i := SplOp.acquire false) ⟨trivial, _, _, rfl, rfl⟩
  have hrestored := hblue.next (i := SplOp.splx 0) ⟨List.mem_cons_self, _, _, rfl, rfl⟩
  have hreleased := hrestored.next (i := SplOp.release true) ⟨rfl, _, _, rfl, rfl⟩
  exact ⟨_, hreleased, rfl, rfl, rfl, rfl, (interrupts_follow_spl_and_spinlocks hreleased).2.1⟩

end IrqState

end Os161Kernel
