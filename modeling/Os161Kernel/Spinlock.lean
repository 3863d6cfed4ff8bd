import Mathlib.Logic.Function.Basic
import Os161Kernel.Lib.Runs

/-!
# Spinlocks between CPUs

`spinlock_acquire` reads the lock word until it is 0 and then tries a test-and-set, which is an `LL` and an `SC`.  The
holder is written after the word on the way in and cleared before the word on the way out, and it is read without any
lock: by `spinlock_do_i_hold`, by `spinlock_acquire` and by the assertion of `spinlock_release`.

Every access to memory is a step here, and the steps of any number of CPUs interleave in any way.  A store to the word
takes the marks that the `LL`s of other CPUs have set; an `SC` stores only with its mark, and may fail at any time, as it
does after a trap.
-/

namespace Os161Kernel

open Runs

/-- Where a CPU stands with a spinlock: before which access. -/
inductive SpinPc where
  | outside
  | get
  | ll
  /-- `x` has been loaded. -/
  | sc (x : ℕ)
  | setHolder
  | inside
  | clearHolder
  | clearLock
deriving DecidableEq

/-- From the `SC` that won to the store that frees the word. -/
def SpinPc.owning : SpinPc → Bool
  | .setHolder | .inside | .clearHolder | .clearLock => true
  | _ => false

/-- `struct spinlock`, with the CPUs and the marks of their `LL`s. -/
structure Spinlock where
  lock : ℕ
  holder : Option ℕ
  pc : ℕ → SpinPc
  mark : ℕ → Bool

namespace Spinlock

/-- A call by a CPU in neither function, or the next access of a CPU; an `SC` may have lost its mark to a trap. -/
inductive Op where
  | acquire (c : ℕ)
  | release (c : ℕ)
  | next (c : ℕ) (trapped : Bool)

def goto (s : Spinlock) (c : ℕ) (p : SpinPc) : Spinlock := { s with pc := Function.update s.pc c p }

/-- `spinlock_data_set`. -/
def dataSet (s : Spinlock) (c val : ℕ) : Spinlock := { s with
  lock := val
  mark := fun d => s.mark d && d == c }

/-- `spinlock_do_i_hold`. -/
def doIHold (s : Spinlock) (c : ℕ) : Bool := s.holder = some c

/-- The CPU runs its own code. -/
def Running (s : Spinlock) (c : ℕ) : Prop := s.pc c = .outside ∨ s.pc c = .inside

instance (s : Spinlock) (c : ℕ) : Decidable (s.Running c) := inferInstanceAs (Decidable (_ ∨ _))

def step (s : Spinlock) : Op → Option Spinlock
  -- otherwise: Deadlock on spinlock
  | .acquire c => if s.Running c ∧ s.holder ≠ some c then some (s.goto c .get) else none
  -- KASSERT(splk->splk_holder == curcpu->c_self)
  | .release c => if s.Running c ∧ s.holder = some c then some (s.goto c .clearHolder) else none
  | .next c trapped =>
    match s.pc c with
    | .get => some (if s.lock ≠ 0 then s else s.goto c .ll)
    | .ll => some ({ s with mark := fun d => s.mark d || d == c }.goto c (.sc s.lock))
    | .sc x =>
      -- on failure, testandset pretends that the lock was held
      if trapped = false ∧ s.mark c = true then some ((s.dataSet c 1).goto c (if x = 0 then .setHolder else .get))
      else some (s.goto c .get)
    | .setHolder => some ({ s with holder := some c }.goto c .inside)
    | .clearHolder => some ({ s with holder := none }.goto c .clearLock)
    | .clearLock => some ((s.dataSet c 0).goto c .outside)
    | .outside | .inside => none

/-- `spinlock_init`. -/
def spinlockInit : Spinlock := ⟨0, none, fun _ => .outside, fun _ => false⟩

/-! ### The invariant -/

/-- The CPU has the lock, or is about to say so or to give it up. -/
def Owns (s : Spinlock) (c : ℕ) : Prop := (s.pc c).owning = true

/-- **The owner**, if there is one. -/
structure Inv (o : Option ℕ) (s : Spinlock) : Prop where
  free : s.lock = 0 ↔ o = none
  owner : ∀ c, s.Owns c ↔ o = some c
  holder : ∀ c, s.holder = some c ↔ s.pc c = .inside ∨ s.pc c = .clearHolder
  linked : ∀ c x, s.pc c = .sc x → s.mark c = true → s.lock = x

variable {s s' : Spinlock} {c d : ℕ} {p : SpinPc} {o : Option ℕ}

@[simp, grind =] theorem pc_goto : (s.goto c p).pc d = if d = c then p else s.pc d := Function.update_apply ..

@[simp, grind =] theorem pc_dataSet {val : ℕ} : (s.dataSet c val).pc d = s.pc d := rfl

theorem inv_init : Inv none spinlockInit where
  free := by simp [spinlockInit]
  owner c := by simp [spinlockInit, Owns, SpinPc.owning]
  holder c := by simp [spinlockInit]
  linked c x h := by simp [spinlockInit] at h

theorem Inv.holder_iff (h : Inv o s) (hc : s.Running c) : s.holder = some c ↔ s.pc c = .inside := by
  rw [h.holder c]
  rcases hc with hc | hc <;> simp [hc]

theorem Inv.step {op : Op} (h : Inv o s) (hstep : s.step op = some s') : ∃ o', Inv o' s' := by
  obtain ⟨hfree, hown, hholder, hlinked⟩ := h
  simp only [Owns] at hown
  cases op with
  | acquire c | release c =>
    simp only [Spinlock.step] at hstep
    refine ⟨o, ?_, fun d => ?_, fun d => ?_, fun d x => ?_⟩ <;> grind [goto, Running, Owns, SpinPc.owning]
  | next c trapped =>
    simp only [Spinlock.step] at hstep
    have ho := hown c
    cases hpc : s.pc c with
    | outside | inside => simp [hpc] at hstep
    | get | ll | setHolder | clearHolder =>
      refine ⟨o, ?_, fun d => ?_, fun d => ?_, fun d x => ?_⟩ <;> grind [goto, Owns, SpinPc.owning]
    | sc x =>
      -- the mark is still set, so the word holds what was loaded: the CPU wins exactly if that is 0
      by_cases hwins : s.lock = 0 ∧ trapped = false ∧ s.mark c = true
      · refine ⟨some c, ?_, fun d => ?_, fun d => ?_, fun d x => ?_⟩ <;> grind [goto, dataSet, Owns, SpinPc.owning]
      · refine ⟨o, ?_, fun d => ?_, fun d => ?_, fun d x => ?_⟩ <;> grind [goto, dataSet, Owns, SpinPc.owning]
    | clearLock =>
      obtain rfl : (s.dataSet c 0).goto c .outside = s' := by simpa [hpc] using hstep
      refine ⟨none, by simp [goto, dataSet], fun d => ?_, fun d => ?_, fun d x => ?_⟩
      · have hd := hown d
        grind [Owns, SpinPc.owning]
      all_goals grind [goto, dataSet]

/-- **Spinlocks exclude.**  However the accesses of any number of CPUs interleave and whichever `SC`s fail, at most one
CPU has the lock, the word is free exactly when none has it, and `spinlock_do_i_hold` tells a CPU that is in neither
function whether it has the lock: `spinlock_acquire` calls it a deadlock exactly when it has, and `spinlock_release`
fails its assertion exactly when it has not. -/
theorem spinlock_excludes (h : Reaches (StepOf step) (· = spinlockInit) s) :
    (∀ c d, s.Owns c → s.Owns d → c = d) ∧ (s.lock = 0 ↔ ∀ c, ¬ s.Owns c) ∧
    ∀ c, s.Running c → (s.doIHold c = true ↔ s.pc c = .inside) ∧ (s.step (.acquire c) = none ↔ s.pc c = .inside) ∧
      (s.step (.release c) = none ↔ s.pc c = .outside) := by
  obtain ⟨o, hinv⟩ := h.invariant (P := fun s => ∃ o, Inv o s) (by rintro _ rfl; exact ⟨none, inv_init⟩)
    fun _ _ _ hs hstep => hs.choose_spec.step hstep
  refine ⟨fun c d hc hd => ?_, ?_, fun c hc => ?_⟩
  · simpa [(hinv.owner c).mp hc] using (hinv.owner d).mp hd
  · simp only [hinv.free, hinv.owner]
    cases o <;> simp
  have hholder := hinv.holder_iff hc
  refine ⟨by simp [doIHold, hholder], by simp [Spinlock.step, hc, hholder], ?_⟩
  rcases hc with hpc | hpc <;> simp [Spinlock.step, Running, hholder, hpc]

/-- Two CPUs have loaded 0; one of them has got in. -/
theorem spinlock_excludes_second : ∃ s, Reaches (StepOf step) (· = spinlockInit) s ∧
    s.pc 1 = .inside ∧ s.pc 2 = .get ∧ s.step (.acquire 1) = none := by
  obtain ⟨s, hs, hp⟩ := exists_reaches_of_follow step (· = spinlockInit) spinlockInit
    [.acquire 1, .acquire 2, .next 1 false, .next 2 false, .next 1 false, .next 2 false, .next 1 false, .next 2 false,
      .next 1 false] (fun s => decide (s.pc 1 = .inside ∧ s.pc 2 = .get)) rfl (by decide)
  have hpc := of_decide_eq_true hp
  exact ⟨s, hs, hpc.1, hpc.2, ((spinlock_excludes hs).2.2 1 (.inr hpc.1)).2.1.mpr hpc.1⟩

end Spinlock
end Os161Kernel
