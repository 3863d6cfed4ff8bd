import Mathlib.Algebra.Group.Nat.Defs
import Mathlib.Tactic.Common
import Mathlib.Tactic.IntervalCases

/-!
# Words and their bytes

A word is known by its bytes, counted from the least significant one.  Code that rearranges bytes selects one with a
mask, shifts it to its place and joins the results; the rules below read such terms off byte by byte.

* `raised`, `lowered`: a byte selected by a mask and shifted.
* `byte_or`, `byte_raised`, `byte_lowered`, `byte_append`: the bytes of a term.
* `ext_byte`: words with the same bytes are equal.
* `Reverses`: the bytes of one word are those of the other in the opposite order.
-/

namespace ByteWords

variable {m w n : ℕ} {v v' r : BitVec w} {a i j k : ℕ}

/-- Byte `i` of a word, from the least significant. -/
def byte (v : BitVec w) (i : ℕ) : BitVec 8 := v.extractLsb' (8 * i) 8

theorem getLsbD_byte (v : BitVec w) (i : ℕ) (hj : j < 8) : (byte v i).getLsbD j = v.getLsbD (8 * i + j) := by
  unfold byte
  rw [BitVec.getLsbD_extractLsb', decide_eq_true hj, Bool.true_and]

theorem byte_or (v v' : BitVec w) (i : ℕ) : byte (v ||| v') i = byte v i ||| byte v' i := by
  refine BitVec.eq_of_getLsbD_eq fun j hj => ?_
  rw [BitVec.getLsbD_or, getLsbD_byte _ _ hj, getLsbD_byte _ _ hj, getLsbD_byte _ _ hj, BitVec.getLsbD_or]

/-- Byte `a` selected by a mask and shifted to the left by `k` bytes. -/
def raised (v : BitVec w) (a k : ℕ) : BitVec w := (v &&& 0xff#w <<< (8 * a)) <<< (8 * k)

/-- Byte `a` selected by a mask and shifted to the right by `k` bytes. -/
def lowered (v : BitVec w) (a k : ℕ) : BitVec w := (v &&& 0xff#w <<< (8 * a)) >>> (8 * k)

theorem getLsbD_mask (ha : 8 * a + 8 ≤ w) (j : ℕ) :
    (0xff#w <<< (8 * a)).getLsbD j = decide (8 * a ≤ j ∧ j < 8 * a + 8) := by
  have hones : ∀ x, Nat.testBit 255 x = decide (x < 8) := fun x => Nat.testBit_two_pow_sub_one 8 x
  rw [BitVec.getLsbD_shiftLeft, BitVec.getLsbD_ofNat, hones]
  simp only [← decide_not, ← Bool.decide_and, decide_eq_decide]
  omega

theorem byte_raised (ha : 8 * a + 8 ≤ w) (hi : 8 * i + 8 ≤ w) :
    byte (raised v a k) i = if i = a + k then byte v a else 0 := by
  refine BitVec.eq_of_getLsbD_eq fun j hj => ?_
  rw [getLsbD_byte _ _ hj, raised, BitVec.getLsbD_shiftLeft, BitVec.getLsbD_and, getLsbD_mask ha]
  by_cases hik : i = a + k
  · have hlow : ¬ 8 * i + j < 8 * k := by omega
    have hin : 8 * a ≤ 8 * i + j - 8 * k ∧ 8 * i + j - 8 * k < 8 * a + 8 := by omega
    rw [if_pos hik, getLsbD_byte _ _ hj, decide_eq_true (show 8 * i + j < w by omega), decide_eq_false hlow,
      decide_eq_true hin, show 8 * i + j - 8 * k = 8 * a + j by omega]
    simp
  · rw [if_neg hik]
    by_cases hlow : 8 * i + j < 8 * k
    · simp [hlow]
    · have hout : ¬ (8 * a ≤ 8 * i + j - 8 * k ∧ 8 * i + j - 8 * k < 8 * a + 8) := by omega
      rw [decide_eq_false hout]
      simp

theorem byte_lowered (ha : 8 * a + 8 ≤ w) : byte (lowered v a k) i = if i + k = a then byte v a else 0 := by
  refine BitVec.eq_of_getLsbD_eq fun j hj => ?_
  rw [getLsbD_byte _ _ hj, lowered, BitVec.getLsbD_ushiftRight, BitVec.getLsbD_and, getLsbD_mask ha]
  by_cases hik : i + k = a
  · have hin : 8 * a ≤ 8 * k + (8 * i + j) ∧ 8 * k + (8 * i + j) < 8 * a + 8 := by omega
    rw [if_pos hik, getLsbD_byte _ _ hj, decide_eq_true hin, Bool.and_true,
      show 8 * k + (8 * i + j) = 8 * a + j by omega]
  · have hout : ¬ (8 * a ≤ 8 * k + (8 * i + j) ∧ 8 * k + (8 * i + j) < 8 * a + 8) := by omega
    rw [if_neg hik, decide_eq_false hout]
    simp

theorem append_eq (x : BitVec m) (y : BitVec w) :
    x ++ y = (x.setWidth (m + w) <<< w) ||| y.setWidth (m + w) := by
  refine BitVec.eq_of_getLsbD_eq fun j hj => ?_
  rw [BitVec.getLsbD_append, BitVec.getLsbD_or, BitVec.getLsbD_shiftLeft, BitVec.getLsbD_setWidth,
    BitVec.getLsbD_setWidth]
  by_cases hlow : j < w
  · simp [hlow, hj]
  · have hhigh : j - w < m + w := by omega
    simp [hlow, hj, hhigh, BitVec.getLsbD_of_ge y j (by omega)]

theorem upper_append (x : BitVec m) (y : BitVec w) : ((x ++ y) >>> w).setWidth m = x := by
  refine BitVec.eq_of_getLsbD_eq fun j hj => ?_
  rw [BitVec.getLsbD_setWidth, BitVec.getLsbD_ushiftRight, BitVec.getLsbD_append, if_neg (by omega),
    Nat.add_sub_cancel_left, decide_eq_true hj, Bool.true_and]

/-- The bytes of two words joined: those of the lower one first. -/
theorem byte_append (x : BitVec m) (y : BitVec w) (hw : w = 8 * n) (i : ℕ) :
    byte (x ++ y) i = if i < n then byte y i else byte x (i - n) := by
  refine BitVec.eq_of_getLsbD_eq fun j hj => ?_
  rw [getLsbD_byte _ _ hj, BitVec.getLsbD_append]
  by_cases hin : i < n
  · rw [if_pos (show 8 * i + j < w by omega), if_pos hin, getLsbD_byte _ _ hj]
  · rw [if_neg (show ¬ 8 * i + j < w by omega), if_neg hin, getLsbD_byte _ _ hj,
      show 8 * (i - n) + j = 8 * i + j - w by omega]

/-- **Words with the same bytes are equal.** -/
theorem ext_byte (hw : w = 8 * n) (h : ∀ i < n, byte v i = byte v' i) : v = v' := by
  refine BitVec.eq_of_getLsbD_eq fun x hx => ?_
  have hbyte := congrArg (fun b : BitVec 8 => b.getLsbD (x % 8)) (h (x / 8) (by omega))
  have hmod : x % 8 < 8 := Nat.mod_lt x (by decide)
  simp only [getLsbD_byte _ _ hmod, Nat.div_add_mod] at hbyte
  exact hbyte

/-- The bytes of `r` are the `n` bytes of `v` in the opposite order. -/
def Reverses (n : ℕ) (v r : BitVec w) : Prop := ∀ i < n, byte r i = byte v (n - 1 - i)

instance (n : ℕ) (v r : BitVec w) : Decidable (Reverses n v r) := inferInstanceAs (Decidable (∀ i < n, _))

theorem Reverses.symm (h : Reverses n v r) : Reverses n r v := by
  intro i hi
  rw [h (n - 1 - i) (by omega), show n - 1 - (n - 1 - i) = i by omega]

/-- There is only one word with the bytes of `v` in the opposite order. -/
theorem Reverses.unique {r' : BitVec w} (hw : w = 8 * n) (h : Reverses n v r) (h' : Reverses n v r') : r = r' :=
  ext_byte hw fun i hi => (h i hi).trans (h' i hi).symm

end ByteWords
