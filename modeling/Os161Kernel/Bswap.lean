import Os161Kernel.Lib.ByteWords

/-!
# Byte order: `bswap.c`

Each swap is written out as one term for every byte: the byte is selected by a mask and shifted to its place.  In
`bswap64` the two terms for bytes 4 and 5 are shifted to the left, like those for bytes 2 and 3.  Byte 4 ends up on top
of byte 2, byte 5 is shifted out, and bytes 2 and 3 of the result are 0.

The platform is big-endian, where the network conversions are empty and nothing calls the swaps.  `join32to64` and
`split64to32` are written for either byte order.
-/

namespace Os161Kernel

open ByteWords

/-- `_BYTE_ORDER`. -/
inductive ByteOrder where
  | bigEndian
  | littleEndian
deriving DecidableEq

/-- `bswap16(val)`. -/
def bswap16 (val : BitVec 16) : BitVec 16 :=
  ((val &&& 0x00ff#16) <<< 8)
    ||| ((val &&& 0xff00#16) >>> 8)

/-- `bswap32(val)`. -/
def bswap32 (val : BitVec 32) : BitVec 32 :=
  ((val &&& 0x000000ff#32) <<< 24)
    ||| ((val &&& 0x0000ff00#32) <<< 8)
    ||| ((val &&& 0x00ff0000#32) >>> 8)
    ||| ((val &&& 0xff000000#32) >>> 24)

/-- `bswap64(val)`. -/
def bswap64 (val : BitVec 64) : BitVec 64 :=
  ((val &&& 0x00000000000000ff#64) <<< 56)
    ||| ((val &&& 0x000000000000ff00#64) <<< 40)
    ||| ((val &&& 0x0000000000ff0000#64) <<< 24)
    ||| ((val &&& 0x00000000ff000000#64) <<< 8)
    ||| ((val &&& 0x000000ff00000000#64) <<< 8)
    ||| ((val &&& 0x0000ff0000000000#64) <<< 24)
    ||| ((val &&& 0x00ff000000000000#64) >>> 40)
    ||| ((val &&& 0xff00000000000000#64) >>> 56)

/-- `join32to64(x1, x2, &y)`: the words are given in the order in which they stand in memory. -/
def join32to64 (order : ByteOrder) (x1 x2 : BitVec 32) : BitVec 64 :=
  match order with
  | .bigEndian => (x1.setWidth 64 <<< 32) ||| x2.setWidth 64
  | .littleEndian => x1.setWidth 64 ||| (x2.setWidth 64 <<< 32)

/-- `split64to32(x, &y1, &y2)`. -/
def split64to32 (order : ByteOrder) (x : BitVec 64) : BitVec 32 × BitVec 32 :=
  match order with
  | .bigEndian => ((x >>> 32).setWidth 32, (x &&& 0xffffffff#64).setWidth 32)
  | .littleEndian => ((x &&& 0xffffffff#64).setWidth 32, (x >>> 32).setWidth 32)

/-- The word that `join32to64` puts into the upper half. -/
def highWord (order : ByteOrder) (x1 x2 : BitVec 32) : BitVec 32 :=
  match order with
  | .bigEndian => x1
  | .littleEndian => x2

/-- The word that `join32to64` puts into the lower half. -/
def lowWord (order : ByteOrder) (x1 x2 : BitVec 32) : BitVec 32 :=
  match order with
  | .bigEndian => x2
  | .littleEndian => x1

/-! ### The bytes of a swapped value -/

theorem bswap16_reverses (v : BitVec 16) : Reverses 2 v (bswap16 v) := by
  have hterms : bswap16 v = raised v 0 1 ||| lowered v 1 1 := rfl
  intro i hi
  interval_cases i <;> simp [hterms, byte_or, byte_raised, byte_lowered]

theorem bswap32_reverses (v : BitVec 32) : Reverses 4 v (bswap32 v) := by
  have hterms : bswap32 v = raised v 0 3 ||| raised v 1 1 ||| lowered v 2 1 ||| lowered v 3 3 := rfl
  intro i hi
  interval_cases i <;> simp [hterms, byte_or, byte_raised, byte_lowered]

theorem bytes_bswap64 (v : BitVec 64) :
    byte (bswap64 v) 0 = byte v 7 ∧ byte (bswap64 v) 1 = byte v 6 ∧ byte (bswap64 v) 2 = 0 ∧ byte (bswap64 v) 3 = 0 ∧
      byte (bswap64 v) 4 = byte v 3 ∧ byte (bswap64 v) 5 = byte v 2 ||| byte v 4 ∧ byte (bswap64 v) 6 = byte v 1 ∧
      byte (bswap64 v) 7 = byte v 0 := by
  have hterms : bswap64 v = raised v 0 7 ||| raised v 1 5 ||| raised v 2 3 ||| raised v 3 1 ||| raised v 4 1
      ||| raised v 5 3 ||| lowered v 6 5 ||| lowered v 7 7 := rfl
  refine ⟨?_, ?_, ?_, ?_, ?_, ?_, ?_, ?_⟩ <;> simp [hterms, byte_or, byte_raised, byte_lowered]

theorem bswap64_reverses_iff (v : BitVec 64) : Reverses 8 v (bswap64 v) ↔ byte v 4 = 0 ∧ byte v 5 = 0 := by
  obtain ⟨h0, h1, h2, h3, h4, h5, h6, h7⟩ := bytes_bswap64 v
  constructor
  · intro h
    exact ⟨(h 3 (by decide)).symm.trans h3, (h 2 (by decide)).symm.trans h2⟩
  · rintro ⟨hfour, hfive⟩ i hi
    have h5' : byte (bswap64 v) 5 = byte v 2 := by rw [h5, hfour]; exact BitVec.or_zero
    interval_cases i
    · exact h0
    · exact h1
    · exact h2.trans hfive.symm
    · exact h3.trans hfour.symm
    · exact h4
    · exact h5'
    · exact h6
    · exact h7

theorem bswap64_bswap64_iff (v : BitVec 64) :
    bswap64 (bswap64 v) = v ↔ byte v 2 = 0 ∧ byte v 3 = 0 ∧ byte v 4 = 0 ∧ byte v 5 = 0 := by
  obtain ⟨h0, h1, h2, h3, h4, h5, h6, h7⟩ := bytes_bswap64 v
  obtain ⟨k0, k1, k2, k3, k4, k5, k6, k7⟩ := bytes_bswap64 (bswap64 v)
  have k5' : byte (bswap64 (bswap64 v)) 5 = byte v 3 := by rw [k5, h2, h4]; exact BitVec.zero_or
  constructor
  · intro h
    rw [h] at k2 k3 k4 k5'
    exact ⟨k2, k3, k4.trans h3, k5'.trans k3⟩
  · rintro ⟨b2, b3, b4, b5⟩
    refine ext_byte (n := 8) rfl fun i hi => ?_
    interval_cases i
    · exact k0.trans h7
    · exact k1.trans h6
    · exact k2.trans b2.symm
    · exact k3.trans b3.symm
    · exact k4.trans (h3.trans b4.symm)
    · exact k5'.trans (b3.trans b5.symm)
    · exact k6.trans h1
    · exact k7.trans h0

/-! ### Joined words -/

theorem join32to64_eq (order : ByteOrder) (x1 x2 : BitVec 32) :
    join32to64 order x1 x2 = highWord order x1 x2 ++ lowWord order x1 x2 := by
  cases order with
  | bigEndian => exact (append_eq x1 x2).symm
  | littleEndian => exact (BitVec.or_comm _ _).trans (append_eq x2 x1).symm

theorem split64to32_join32to64 (order : ByteOrder) (x1 x2 : BitVec 32) :
    split64to32 order (join32to64 order x1 x2) = (x1, x2) := by
  have hlower : ∀ x y : BitVec 32, ((x ++ y) &&& 0xffffffff#64).setWidth 32 = y := by
    intro x y
    have hmask : (0xffffffff#64).setWidth 32 = BitVec.allOnes 32 := rfl
    rw [BitVec.setWidth_and, hmask, BitVec.and_allOnes]
    exact BitVec.setWidth_append_eq_right
  rw [join32to64_eq]
  cases order with
  | bigEndian => exact Prod.ext (upper_append x1 x2) (hlower x1 x2)
  | littleEndian => exact Prod.ext (hlower x2 x1) (upper_append x2 x1)

theorem join32to64_reverses (order : ByteOrder) (x1 x2 : BitVec 32) :
    Reverses 8 (join32to64 order x1 x2) (join32to64 order (bswap32 x2) (bswap32 x1)) := by
  have hhigh : highWord order (bswap32 x2) (bswap32 x1) = bswap32 (lowWord order x1 x2) := by cases order <;> rfl
  have hlow : lowWord order (bswap32 x2) (bswap32 x1) = bswap32 (highWord order x1 x2) := by cases order <;> rfl
  intro i hi
  rw [join32to64_eq, join32to64_eq, hhigh, hlow, byte_append (n := 4) _ _ rfl, byte_append (n := 4) _ _ rfl]
  by_cases hin : i < 4
  · rw [if_pos hin, if_neg (show ¬ 8 - 1 - i < 4 by omega), bswap32_reverses _ i hin]
    congr 1
    omega
  · rw [if_neg hin, if_pos (show 8 - 1 - i < 4 by omega), bswap32_reverses _ (i - 4) (by omega)]
    congr 1
    omega

theorem bswap64_join32to64_iff (order : ByteOrder) (x1 x2 : BitVec 32) :
    bswap64 (join32to64 order x1 x2) = join32to64 order (bswap32 x2) (bswap32 x1) ↔
      byte (highWord order x1 x2) 0 = 0 ∧ byte (highWord order x1 x2) 1 = 0 := by
  have hrev := join32to64_reverses order x1 x2
  have hbytes : ∀ i, byte (join32to64 order x1 x2) (4 + i) = byte (highWord order x1 x2) i := by
    intro i
    rw [join32to64_eq, byte_append (n := 4) _ _ rfl, if_neg (by omega), Nat.add_sub_cancel_left]
  rw [← hbytes 0, ← hbytes 1, ← bswap64_reverses_iff]
  constructor
  · intro h
    rw [h]
    exact hrev
  · intro h
    exact h.unique rfl hrev

/-- **Which bytes the swaps reverse.**  `bswap16` and `bswap32` reverse every value.  `bswap64` reverses a value exactly
if its bytes 4 and 5 are 0, it is its own inverse exactly on the values whose bytes 2 to 5 are 0, and of two words that
are joined it is the join of the swapped ones exactly if the lower two bytes of the upper word are 0.  Splitting gives
back the words that were joined. -/
theorem byte_swaps_reverse_iff (u : BitVec 16) (v : BitVec 32) (w : BitVec 64) (order : ByteOrder)
    (x1 x2 : BitVec 32) :
    (Reverses 2 u (bswap16 u) ∧ bswap16 (bswap16 u) = u) ∧ (Reverses 4 v (bswap32 v) ∧ bswap32 (bswap32 v) = v) ∧
      (Reverses 8 w (bswap64 w) ↔ byte w 4 = 0 ∧ byte w 5 = 0) ∧
      (bswap64 (bswap64 w) = w ↔ byte w 2 = 0 ∧ byte w 3 = 0 ∧ byte w 4 = 0 ∧ byte w 5 = 0) ∧
      (bswap64 (join32to64 order x1 x2) = join32to64 order (bswap32 x2) (bswap32 x1) ↔
        byte (highWord order x1 x2) 0 = 0 ∧ byte (highWord order x1 x2) 1 = 0) ∧
      split64to32 order (join32to64 order x1 x2) = (x1, x2) := by
  refine ⟨⟨bswap16_reverses u, ?_⟩, ⟨bswap32_reverses v, ?_⟩, bswap64_reverses_iff w, bswap64_bswap64_iff w,
    bswap64_join32to64_iff order x1 x2, split64to32_join32to64 order x1 x2⟩
  · exact (bswap16_reverses _).unique rfl (bswap16_reverses u).symm
  · exact (bswap32_reverses _).unique rfl (bswap32_reverses v).symm

/-- **Byte 4 goes up instead of down.**  The value with 1 in byte 4 should give the value with 1 in byte 3. -/
theorem bswap64_misplaces_byte :
    bswap64 0x0000000100000000#64 = 0x0000010000000000#64 ∧
      ¬ Reverses 8 0x0000000100000000#64 (bswap64 0x0000000100000000#64) := by
  decide

end Os161Kernel
