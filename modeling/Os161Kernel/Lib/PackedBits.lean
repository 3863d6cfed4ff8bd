import Mathlib.Algebra.Group.Nat.Defs
import Mathlib.Data.List.Basic
import Mathlib.Tactic.Common

/-!
# Bits packed into bytes

Bit `i` of a sequence of bytes is bit `i % 8` of byte `i / 8`, counted from the least significant one.  A bit is set and
cleared with a mask; the lemmas say what that does to every bit of the sequence.
-/

namespace PackedBits

variable {v : List (BitVec 8)} {w : BitVec 8} {i j o k : ℕ} {x : Bool}

/-- The byte with only bit `o` set. -/
def mask (o : ℕ) : BitVec 8 := 1#8 <<< o

/-- Bit `i` of the sequence; there are only zeros behind its end. -/
def bitAt (v : List (BitVec 8)) (i : ℕ) : Bool := (v.getD (i / 8) 0#8).getLsbD (i % 8)

theorem getLsbD_mask (ho : o < 8) (j : ℕ) : (mask o).getLsbD j = decide (j = o) := by
  unfold mask
  rw [BitVec.getLsbD_shiftLeft, BitVec.getLsbD_one]
  by_cases hj : j = o
  · simp [hj, ho]
  · have hsub : j < o ∨ j - o ≠ 0 := by omega
    rcases hsub with hlt | hne
    · simp [hj, hlt]
    · simp [hj, hne]

theorem and_mask_eq_zero_iff (ho : o < 8) : w &&& mask o = 0#8 ↔ w.getLsbD o = false := by
  constructor
  · intro h
    have hbit : (w &&& mask o).getLsbD o = false := by rw [h, BitVec.getLsbD_zero]
    rw [BitVec.getLsbD_and, getLsbD_mask ho] at hbit
    simpa using hbit
  · intro h
    apply BitVec.eq_of_getLsbD_eq
    intro j _
    rw [BitVec.getLsbD_and, getLsbD_mask ho, BitVec.getLsbD_zero]
    by_cases hj : j = o
    · rw [hj, h, Bool.false_and]
    · simp [hj]

/-- A byte is `0xff` when all its bits are set. -/
theorem eq_ff_iff : w = 0xff#8 ↔ ∀ o < 8, w.getLsbD o = true := by
  constructor
  · rintro rfl
    decide
  · intro h
    apply BitVec.eq_of_getLsbD_eq
    intro o ho
    have hff : ∀ o < 8, (0xff#8).getLsbD o = true := by decide
    rw [h o ho, hff o ho]

theorem bitAt_eq (hw : v[k]? = some w) (ho : o < 8) : bitAt v (8 * k + o) = w.getLsbD o := by
  have hdiv : (8 * k + o) / 8 = k := by omega
  have hmod : (8 * k + o) % 8 = o := by omega
  unfold bitAt
  rw [hdiv, hmod, List.getD_eq_getElem?_getD, hw, Option.getD_some]

/-- A byte is replaced by one that differs in one bit. -/
theorem bitAt_set {w' : BitVec 8} (hw : v[k]? = some w) (ho : o < 8)
    (hw' : ∀ p < 8, w'.getLsbD p = if p = o then x else w.getLsbD p) :
    bitAt (v.set k w') j = if j = 8 * k + o then x else bitAt v j := by
  have hk : k < v.length := (List.getElem?_eq_some_iff.mp hw).1
  by_cases hjk : j / 8 = k
  · have hj : j = 8 * k + j % 8 := by omega
    have hset : (v.set k w')[k]? = some w' := by rw [List.getElem?_set_self hk]
    have hp : j % 8 < 8 := Nat.mod_lt j (by decide)
    rw [hj, bitAt_eq hset hp, bitAt_eq hw hp, hw' _ hp]
    have hiff : 8 * k + j % 8 = 8 * k + o ↔ j % 8 = o := Nat.add_left_cancel_iff
    simp only [hiff]
  · have hne : j ≠ 8 * k + o := by omega
    unfold bitAt
    rw [if_neg hne, List.getD_eq_getElem?_getD, List.getElem?_set_ne fun h => hjk h.symm, ← List.getD_eq_getElem?_getD]

/-- **A bit is set.** -/
theorem bitAt_set_or (hw : v[k]? = some w) (ho : o < 8) :
    bitAt (v.set k (w ||| mask o)) j = if j = 8 * k + o then true else bitAt v j := by
  refine bitAt_set hw ho fun p _ => ?_
  rw [BitVec.getLsbD_or, getLsbD_mask ho]
  by_cases hp : p = o
  · simp [hp]
  · simp [hp]

/-- **A bit is cleared.** -/
theorem bitAt_set_and_not (hw : v[k]? = some w) (ho : o < 8) :
    bitAt (v.set k (w &&& ~~~ mask o)) j = if j = 8 * k + o then false else bitAt v j := by
  refine bitAt_set hw ho fun p hlt => ?_
  rw [BitVec.getLsbD_and, BitVec.getLsbD_not, getLsbD_mask ho]
  by_cases hp : p = o
  · simp [hp]
  · simp [hp, hlt]

end PackedBits
