import Mathlib.Algebra.Group.Nat.Defs
import Mathlib.Tactic.Common

/-!
# Byte-addressed memory

A memory is a total function from addresses to bytes and every write is one `overlay`: clearing a
page, filling a block with a pattern and copying a buffer differ only in the bytes they lay over a range.
Words are big-endian.
-/

namespace Memory

/-- A memory, or the contents of a file. -/
abbrev Bytes := ℕ → UInt8

/-- `m` with the `n` bytes from address `a` on replaced by `src 0, …, src (n - 1)`. -/
@[irreducible] def overlay (m : Bytes) (a n : ℕ) (src : ℕ → UInt8) : Bytes := fun x =>
  if a ≤ x ∧ x < a + n then src (x - a) else m x

/-- Byte `i` (from the most significant) of a 32-bit word. -/
def byteOf (w i : ℕ) : UInt8 := UInt8.ofNat (w / 256 ^ (3 - i))

/-- The big-endian word at `a`. -/
def load32 (m : Bytes) (a : ℕ) : ℕ :=
  (m a).toNat * 2 ^ 24 + (m (a + 1)).toNat * 2 ^ 16 + (m (a + 2)).toNat * 2 ^ 8 + (m (a + 3)).toNat

/-- The big-endian half word at `a`. -/
def load16 (m : Bytes) (a : ℕ) : ℕ := (m a).toNat * 2 ^ 8 + (m (a + 1)).toNat

/-- Store a big-endian word. -/
def store32 (m : Bytes) (a w : ℕ) : Bytes := overlay m a 4 (byteOf w)

/-- Store a big-endian half word. -/
def store16 (m : Bytes) (a w : ℕ) : Bytes := overlay m a 2 fun i => byteOf w (i + 2)

variable {m m' : Bytes} {a n x : ℕ} {src : ℕ → UInt8}

theorem overlay_inside (h : a ≤ x) (h' : x < a + n) : overlay m a n src x = src (x - a) := by
  unfold overlay
  exact if_pos ⟨h, h'⟩

theorem overlay_at {k : ℕ} (h : k < n) : overlay m a n src (a + k) = src k := by
  rw [overlay_inside (Nat.le_add_right a k) (Nat.add_lt_add_left h a), Nat.add_sub_cancel_left]

theorem overlay_outside (h : x < a ∨ a + n ≤ x) : overlay m a n src x = m x := by
  unfold overlay
  exact if_neg (by omega)

/-- An overlay depends on the bytes that are laid over. -/
theorem overlay_congr_src {src' : ℕ → UInt8} (h : ∀ k < n, src k = src' k) :
    overlay m a n src = overlay m a n src' := by
  funext x
  by_cases hx : a ≤ x ∧ x < a + n
  · rw [overlay_inside hx.1 hx.2, overlay_inside hx.1 hx.2]
    exact h (x - a) (by omega)
  · rw [overlay_outside (by omega), overlay_outside (by omega)]

theorem overlay_zero : overlay m a 0 src = m := funext fun _ => overlay_outside (by omega)

theorem overlay_overlay_append {k : ℕ} (f : ℕ → UInt8) :
    overlay (overlay m a n f) (a + n) k (fun i => f (n + i)) = overlay m a (n + k) f := by
  funext x
  by_cases hlow : x < a + n
  · rw [overlay_outside (.inl hlow)]
    by_cases ha : a ≤ x
    · rw [overlay_inside ha hlow, overlay_inside ha (by omega)]
    · rw [overlay_outside (by omega), overlay_outside (by omega)]
  · by_cases hk : x < a + n + k
    · rw [overlay_inside (by omega) hk, overlay_inside (by omega) (by omega)]
      congr 1
      omega
    · rw [overlay_outside (by omega), overlay_outside (by omega), overlay_outside (by omega)]

theorem load32_lt (m : Bytes) (a : ℕ) : load32 m a < 2 ^ 32 := by
  have h0 := (m a).toNat_lt
  have h1 := (m (a + 1)).toNat_lt
  have h2 := (m (a + 2)).toNat_lt
  have h3 := (m (a + 3)).toNat_lt
  unfold load32
  omega

theorem load32_congr {a' : ℕ} (h : ∀ k < 4, m (a + k) = m' (a' + k)) : load32 m a = load32 m' a' := by
  unfold load32
  rw [show m a = m' a' from h 0 (by omega), h 1 (by omega), h 2 (by omega), h 3 (by omega)]

theorem load16_congr {a' : ℕ} (h : ∀ k < 2, m (a + k) = m' (a' + k)) : load16 m a = load16 m' a' := by
  unfold load16
  rw [show m a = m' a' from h 0 (by omega), h 1 (by omega)]

theorem load32_overlay_outside (h : a + 4 ≤ x ∨ x + n ≤ a) : load32 (overlay m x n src) a = load32 m a :=
  load32_congr fun _ _ => overlay_outside (by omega)

theorem load16_overlay_outside (h : a + 2 ≤ x ∨ x + n ≤ a) : load16 (overlay m x n src) a = load16 m a :=
  load16_congr fun _ _ => overlay_outside (by omega)

theorem byteOf_toNat (w i : ℕ) : (byteOf w i).toNat = w / 256 ^ (3 - i) % 256 := by
  unfold byteOf
  rw [UInt8.toNat_ofNat']

theorem load32_store32 (m : Bytes) (a w : ℕ) : load32 (store32 m a w) a = w % 2 ^ 32 := by
  have hbyte : ∀ k < 4, store32 m a w (a + k) = byteOf w k := fun k hk => overlay_at hk
  unfold load32
  rw [show store32 m a w a = byteOf w 0 from hbyte 0 (by omega), hbyte 1 (by omega), hbyte 2 (by omega),
    hbyte 3 (by omega)]
  simp only [byteOf_toNat]
  omega

theorem load16_store16 (m : Bytes) (a w : ℕ) : load16 (store16 m a w) a = w % 2 ^ 16 := by
  have hbyte : ∀ k < 2, store16 m a w (a + k) = byteOf w (k + 2) := fun k hk => overlay_at hk
  unfold load16
  rw [show store16 m a w a = byteOf w 2 from hbyte 0 (by omega), hbyte 1 (by omega)]
  simp only [byteOf_toNat]
  omega

theorem load32_store32_of_disjoint {w : ℕ} (h : a + 4 ≤ x ∨ x + 4 ≤ a) :
    load32 (store32 m x w) a = load32 m a :=
  load32_overlay_outside h

theorem load16_store32_of_disjoint {w : ℕ} (h : a + 2 ≤ x ∨ x + 4 ≤ a) :
    load16 (store32 m x w) a = load16 m a :=
  load16_overlay_outside h

theorem load32_store16_of_disjoint {w : ℕ} (h : a + 4 ≤ x ∨ x + 2 ≤ a) :
    load32 (store16 m x w) a = load32 m a :=
  load32_overlay_outside h

theorem load16_store16_of_disjoint {w : ℕ} (h : a + 2 ≤ x ∨ x + 2 ≤ a) :
    load16 (store16 m x w) a = load16 m a :=
  load16_overlay_outside h

end Memory
