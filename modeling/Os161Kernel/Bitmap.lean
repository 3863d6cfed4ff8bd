import Os161Kernel.Lib.Calls
import Os161Kernel.Lib.PackedBits
import Os161Kernel.Kmalloc
import Mathlib.Data.Finset.Basic

/-!
# Bitmaps: `bitmap.c`

A bitmap of `nbits` bits is kept in bytes; the bits of the last byte that are not part of the bitmap are marked when it
is created and stay marked, so that `bitmap_alloc` never hands them out.  What it stands for is a finite set of indices
below `nbits`, and `bitmap_alloc` takes the smallest index that is not in the set.

The number of bytes is computed in 32 bits.  For the last seven values of `nbits` the sum in `DIVROUNDUP` wraps around
and the bitmap has no bytes at all.
-/

namespace Os161Kernel

open Calls PackedBits Search

/-- `struct bitmap`. -/
structure Bitmap where
  nbits : ℕ
  v : List (BitVec 8)

/-- Whether `bitmap_create` gets memory for the structure and for its bytes. -/
structure BitmapMemory where
  bitmap : Bool
  v : Bool

def BitmapMemory.plenty : BitmapMemory := ⟨true, true⟩

inductive BitmapStop where
  | kassert (condition : String)
  | outOfBounds

abbrev BitmapCall := Call BitmapStop Errno Bitmap

namespace Bitmap

/-! ### The code -/

/-- `DIVROUNDUP(nbits, BITS_PER_WORD)`, in 32 bits. -/
def words (nbits : ℕ) : ℕ := (nbits + 8 - 1) % 2 ^ 32 / 8

/-- Read a byte of the bitmap. -/
def word (ix : ℕ) : BitmapCall (BitVec 8) := do
  let v ← .read Bitmap.v
  match v[ix]? with
  | some w => pure w
  | none => .stop .outOfBounds

/-- Write a byte of the bitmap. -/
def setWord (ix : ℕ) (w : BitVec 8) : BitmapCall Unit := .update fun b => { b with v := b.v.set ix w }

/-- `bitmap_create` once it has its memory. -/
def init (nbits : ℕ) : BitmapCall Unit := do
  .update fun _ => ⟨nbits, List.replicate (words nbits) 0#8⟩
  .when (nbits / 8 < words nbits) do
    let ix := words nbits - 1
    let overbits := nbits - ix * 8
    .require (nbits / 8 = ix) (.kassert "nbits / BITS_PER_WORD == words-1")
    .require (0 < overbits ∧ overbits < 8) (.kassert "overbits > 0 && overbits < BITS_PER_WORD")
    .loopBelow (fun j _ => do
      let w ← word ix
      setWord ix (w ||| mask (overbits + j))) (8 - overbits) ()

/-- `bitmap_create(nbits)`; `false` is `NULL`.  `kmalloc` stops when it is asked for ten pages. -/
def create (nbits : ℕ) (memory : BitmapMemory) : BitmapCall Bool :=
  if memory.bitmap = false then pure false
  else do
    .require (kmallocPages (words nbits) < 10) (.kassert "npages < MAX_PAGES_ALLOC")
    if memory.v = false then pure false
    else do
      init nbits
      pure true

/-- The loop of `bitmap_alloc`, over the `k` bytes from `ix` on. -/
def allocFrom : ℕ → ℕ → BitmapCall ℕ
  | 0, _ => .fail .enospc
  | k + 1, ix => do
    let w ← word ix
    if w ≠ 0xff#8 then
      match firstBelow (fun offset => w &&& mask offset = 0#8) 8 with
      | some offset => do
        setWord ix (w ||| mask offset)
        let nbits ← .read Bitmap.nbits
        .require (ix * 8 + offset < nbits) (.kassert "*index < b->nbits")
        pure (ix * 8 + offset)
      | none => .stop (.kassert "0")
    else allocFrom k (ix + 1)

/-- `bitmap_alloc(b, &index)`. -/
def alloc : BitmapCall ℕ := do
  let nbits ← .read Bitmap.nbits
  allocFrom (words nbits) 0

/-- `bitmap_mark(b, index)`. -/
def mark (index : ℕ) : BitmapCall Unit := do
  let nbits ← .read Bitmap.nbits
  .require (index < nbits) (.kassert "index < b->nbits")
  let w ← word (index / 8)
  .require (w &&& PackedBits.mask (index % 8) = 0#8) (.kassert "(b->v[ix] & mask)==0")
  setWord (index / 8) (w ||| PackedBits.mask (index % 8))

/-- `bitmap_unmark(b, index)`. -/
def unmark (index : ℕ) : BitmapCall Unit := do
  let nbits ← .read Bitmap.nbits
  .require (index < nbits) (.kassert "index < b->nbits")
  let w ← word (index / 8)
  .require (w &&& PackedBits.mask (index % 8) ≠ 0#8) (.kassert "(b->v[ix] & mask)!=0")
  setWord (index / 8) (w &&& ~~~ PackedBits.mask (index % 8))

/-- `bitmap_isset(b, index)`. -/
def isset (index : ℕ) : BitmapCall Bool := do
  let w ← word (index / 8)
  pure (decide (w &&& PackedBits.mask (index % 8) ≠ 0#8))

/-! ### The set -/

/-- **The bitmap stands for the set `M` of marked indices below `n`**; the bits from `n` on are set. -/
structure Represents (n : ℕ) (M : Finset ℕ) (b : Bitmap) : Prop where
  nbits : b.nbits = n
  length : b.v.length = (n + 7) / 8
  bits : ∀ i < 8 * b.v.length, bitAt b.v i = decide (i ∈ M ∨ n ≤ i)
  below : ∀ i ∈ M, i < n

variable {n nbits index ix k : ℕ} {M : Finset ℕ} {b : Bitmap} {E : Errno → Bitmap → Prop}

theorem words_eq (h : nbits + 7 < 2 ^ 32) : words nbits = (nbits + 7) / 8 := by
  unfold words
  omega

theorem ends_word {Q : BitVec 8 → Bitmap → Prop} (hlt : ix < b.v.length) (h : ∀ w, b.v[ix]? = some w → Q w b) :
    Ends (word ix) b Q E := by
  unfold word
  rw [ends_bind, ends_read, List.getElem?_eq_getElem hlt, ends_pure]
  exact h _ (List.getElem?_eq_getElem hlt)

theorem Represents.lt_length (h : Represents n M b) (hi : index < n) : index / 8 < b.v.length := by
  rw [h.length]
  omega

theorem Represents.test_iff (h : Represents n M b) (hi : index < n) {w : BitVec 8} (hw : b.v[index / 8]? = some w) :
    w &&& PackedBits.mask (index % 8) = 0#8 ↔ index ∉ M := by
  have hbit := bitAt_eq hw (Nat.mod_lt index (by decide : 0 < 8))
  have hindex : 8 * (index / 8) + index % 8 = index := Nat.div_add_mod index 8
  have hlt := h.lt_length hi
  rw [hindex, h.bits index (by omega)] at hbit
  rw [and_mask_eq_zero_iff (Nat.mod_lt index (by decide)), ← hbit, decide_eq_false_iff_not]
  simp only [Nat.not_le.mpr hi, or_false]

theorem Represents.write (h : Represents n M b) (hi : index < n) {v : List (BitVec 8)} {M' : Finset ℕ}
    (hlength : v.length = b.v.length) {x : Bool}
    (hv : ∀ j, bitAt v j = if j = index then x else bitAt b.v j)
    (hM : ∀ j, j ∈ M' ↔ if j = index then x = true else j ∈ M) : Represents n M' { b with v := v } where
  nbits := h.nbits
  length := hlength.trans h.length
  bits j hj := by
    rw [hv j]
    by_cases hindex : j = index
    · have hmem := hM j
      rw [if_pos hindex] at hmem ⊢
      have hlt : ¬ n ≤ j := by omega
      simp only [hmem, hlt, or_false]
      cases x <;> rfl
    · have hmem := hM j
      have hold := h.bits j (hlength ▸ hj)
      rw [if_neg hindex] at hmem ⊢
      rw [hold]
      simp only [hmem]
  below j hj := by
    have hmem := (hM j).mp hj
    by_cases hindex : j = index
    · omega
    · rw [if_neg hindex] at hmem
      exact h.below j hmem

/-! ### The operations on the set -/

theorem isset_ends (h : Represents n M b) (hi : index < n) :
    Ends (isset index) b (fun r b' => r = decide (index ∈ M) ∧ b' = b) E := by
  unfold isset
  rw [ends_bind]
  apply ends_word (h.lt_length hi)
  intro w hw
  rw [ends_pure]
  have htest := h.test_iff hi hw
  simp only [ne_eq, htest, not_not, and_self]

theorem mark_ends (h : Represents n M b) (hi : index < n) (hnot : index ∉ M) :
    Ends (mark index) b (fun _ b' => Represents n (insert index M) b') E := by
  unfold mark
  rw [ends_bind, ends_read, ends_bind, ends_require, h.nbits]
  refine ⟨hi, ?_⟩
  rw [ends_bind]
  apply ends_word (h.lt_length hi)
  intro w hw
  rw [ends_bind, ends_require]
  refine ⟨(h.test_iff hi hw).mpr hnot, ?_⟩
  show Represents n (insert index M) { b with v := b.v.set _ _ }
  refine h.write hi (List.length_set) (x := true) (fun j => ?_) fun j => ?_
  · rw [bitAt_set_or hw (Nat.mod_lt _ (by decide)), Nat.div_add_mod]
  · rw [Finset.mem_insert]
    by_cases hj : j = index
    · simp [hj]
    · simp [hj]

theorem unmark_ends (h : Represents n M b) (hmem : index ∈ M) :
    Ends (unmark index) b (fun _ b' => Represents n (M.erase index) b') E := by
  have hi := h.below index hmem
  unfold unmark
  rw [ends_bind, ends_read, ends_bind, ends_require, h.nbits]
  refine ⟨hi, ?_⟩
  rw [ends_bind]
  apply ends_word (h.lt_length hi)
  intro w hw
  rw [ends_bind, ends_require]
  refine ⟨fun hzero => (h.test_iff hi hw).mp hzero hmem, ?_⟩
  show Represents n (M.erase index) { b with v := b.v.set _ _ }
  refine h.write hi (List.length_set) (x := false) (fun j => ?_) fun j => ?_
  · rw [bitAt_set_and_not hw (Nat.mod_lt _ (by decide)), Nat.div_add_mod]
  · rw [Finset.mem_erase]
    by_cases hj : j = index
    · simp [hj]
    · simp [hj]

theorem allocFrom_ends (h : Represents n M b) (hk : ix + k = b.v.length) (hfull : ∀ j < 8 * ix, bitAt b.v j = true) :
    Ends (allocFrom k ix) b
      (fun i b' => firstBelow (fun i => i ∉ M) n = some i ∧ Represents n (insert i M) b')
      fun e b' => e = .enospc ∧ b' = b ∧ firstBelow (fun i => i ∉ M) n = none := by
  induction k generalizing ix with
  | zero =>
    unfold allocFrom
    rw [ends_fail]
    refine ⟨rfl, rfl, firstBelow_eq_none.mpr fun i hi hnot => ?_⟩
    have hlt := h.lt_length hi
    have hbit := h.bits i (by omega)
    rw [hfull i (by omega)] at hbit
    have hor := of_decide_eq_true hbit.symm
    exact hor.elim hnot (Nat.not_le.mpr hi)
  | succ k ih =>
    unfold allocFrom
    rw [ends_bind]
    apply ends_word (by omega)
    intro w hw
    have hbit : ∀ o < 8, bitAt b.v (8 * ix + o) = w.getLsbD o := fun o ho => bitAt_eq hw ho
    by_cases hff : w = 0xff#8
    · -- a full byte is passed over
      rw [if_neg (not_not.mpr hff)]
      refine ih (by omega) fun j hj => ?_
      by_cases hlow : j < 8 * ix
      · exact hfull j hlow
      · have hj' : j = 8 * ix + (j - 8 * ix) := by omega
        rw [hj', hbit _ (by omega)]
        exact eq_ff_iff.mp hff _ (by omega)
    · rw [if_pos hff]
      cases hfirst : firstBelow (fun offset => w &&& PackedBits.mask offset = 0#8) 8 with
      | none =>
        -- some bit is not set
        refine absurd (eq_ff_iff.mpr fun o ho => ?_) hff
        have hset := firstBelow_eq_none.mp hfirst o ho
        rw [and_mask_eq_zero_iff ho, Bool.not_eq_false] at hset
        exact hset
      | some o =>
        obtain ⟨ho, hzero, hleast⟩ := firstBelow_eq_some.mp hfirst
        have hclear : bitAt b.v (8 * ix + o) = false := by
          rw [hbit o ho]
          exact (and_mask_eq_zero_iff ho).mp hzero
        have hrep := h.bits (8 * ix + o) (by omega)
        rw [hclear] at hrep
        have hnot := of_decide_eq_false hrep.symm
        rw [not_or, Nat.not_le] at hnot
        have hbefore : ∀ j < 8 * ix + o, ¬ (j ∉ M) := by
          intro j hj hjM
          have hset : bitAt b.v j = true := by
            by_cases hlow : j < 8 * ix
            · exact hfull j hlow
            · have hj' : j = 8 * ix + (j - 8 * ix) := by omega
              have hnz := hleast (j - 8 * ix) (by omega)
              rw [and_mask_eq_zero_iff (by omega), Bool.not_eq_false] at hnz
              rw [hj', hbit _ (by omega)]
              exact hnz
          rw [h.bits j (by omega)] at hset
          exact (of_decide_eq_true hset).elim hjM (by omega)
        simp only [ends_bind, setWord, ends_update, ends_read, ends_require, ends_pure, h.nbits]
        rw [Nat.mul_comm ix 8]
        have hwritten : Represents n (insert (8 * ix + o) M) { b with v := b.v.set ix (w ||| PackedBits.mask o) } := by
          refine h.write hnot.2 (List.length_set) (x := true) (fun j => bitAt_set_or hw ho) fun j => ?_
          rw [Finset.mem_insert]
          by_cases hj : j = 8 * ix + o
          · simp [hj]
          · simp [hj]
        rw [h.nbits] at hwritten
        exact ⟨hnot.2, firstBelow_eq_some.mpr ⟨hnot.2, hnot.1, hbefore⟩, hwritten⟩

theorem alloc_ends (h : Represents n M b) (hn : n + 7 < 2 ^ 32) :
    Ends alloc b (fun i b' => firstBelow (fun i => i ∉ M) n = some i ∧ Represents n (insert i M) b')
      fun e b' => e = .enospc ∧ b' = b ∧ firstBelow (fun i => i ∉ M) n = none := by
  unfold alloc
  rw [ends_bind, ends_read, h.nbits, words_eq hn, ← h.length]
  exact allocFrom_ends h (Nat.zero_add _) fun j hj => absurd hj (Nat.not_lt_zero j)

/-! ### Creation -/

theorem bitAt_replicate (k j : ℕ) : bitAt (List.replicate k 0#8) j = false := by
  unfold bitAt
  rw [List.getD_eq_getElem?_getD, List.getElem?_replicate]
  split
  · rw [Option.getD_some, BitVec.getLsbD_zero]
  · rw [Option.getD_none, BitVec.getLsbD_zero]

theorem init_ends (h : nbits + 7 < 2 ^ 32) :
    Ends (init nbits) b (fun _ b' => Represents nbits ∅ b') fun _ _ => False := by
  unfold init
  rw [ends_bind, ends_update, words_eq h, ends_when]
  constructor
  · intro hpad
    have hix : (nbits + 7) / 8 - 1 = nbits / 8 := by omega
    rw [hix, ends_bind, ends_require]
    refine ⟨rfl, ?_⟩
    rw [ends_bind, ends_require]
    refine ⟨by omega, ?_⟩
    -- after `j` rounds the first `j` bits behind the bitmap are set
    apply (ends_loopBelow (P := fun j _ b' => b'.nbits = nbits ∧ b'.v.length = (nbits + 7) / 8 ∧
      ∀ i, bitAt b'.v i = decide (nbits ≤ i ∧ i < nbits + j)) ?_ ?_).mono
    · rintro _ b' ⟨hnbits, hlength, hbits⟩
      refine ⟨hnbits, hlength, fun i hi => ?_, nofun⟩
      have hiff : (nbits ≤ i ∧ i < nbits + (8 - (nbits - nbits / 8 * 8))) ↔ (i ∈ (∅ : Finset ℕ) ∨ nbits ≤ i) := by
        simp only [Finset.notMem_empty, false_or]
        omega
      rw [hbits i, decide_eq_decide]
      exact hiff
    · exact fun _ _ hfalse => hfalse
    · refine ⟨rfl, List.length_replicate, fun i => (bitAt_replicate _ i).trans ?_⟩
      exact (decide_eq_false (by omega)).symm
    · rintro j hj _ b' ⟨hnbits, hlength, hbits⟩
      rw [ends_bind]
      apply ends_word (by omega)
      intro w hw
      refine ⟨hnbits, List.length_set.trans hlength, fun i => ?_⟩
      rw [bitAt_set_or hw (by omega), hbits i]
      have hindex : 8 * (nbits / 8) + (nbits - nbits / 8 * 8 + j) = nbits + j := by omega
      rw [hindex]
      split
      · exact (decide_eq_true (by omega)).symm
      · rw [decide_eq_decide]
        omega
  · intro hpad
    refine ⟨rfl, List.length_replicate, fun i hi => ?_, nofun⟩
    rw [List.length_replicate] at hi
    refine (bitAt_replicate _ i).trans (decide_eq_false ?_).symm
    simp only [Finset.notMem_empty, false_or]
    omega

/-! ### Sequences of operations -/

inductive Op where
  | mark (index : ℕ)
  | unmark (index : ℕ)
  | alloc

/-- An operation with its result: the index that was allocated, if any. -/
def call : Op → BitmapCall (Option ℕ)
  | .mark index => do
    mark index
    pure none
  | .unmark index => do
    unmark index
    pure none
  | .alloc => do
    match ← .attempt alloc with
    | .ok index => pure (some index)
    | .error _ => pure none

/-- The operations in a row, with their results. -/
def calls : List Op → BitmapCall (List (Option ℕ))
  | [] => pure []
  | op :: ops => do
    let r ← call op
    let rs ← calls ops
    pure (r :: rs)

/-- **The operations on a set of indices below `n`.**  Marking takes an index that is not in the set, unmarking one that
is; allocation takes the smallest that is not, if there is one. -/
def setStep (n : ℕ) (M : Finset ℕ) : Op → Option (Option ℕ × Finset ℕ)
  | .mark index => if index < n ∧ index ∉ M then some (none, insert index M) else none
  | .unmark index => if index ∈ M then some (none, M.erase index) else none
  | .alloc =>
    match firstBelow (fun i => i ∉ M) n with
    | some index => some (some index, insert index M)
    | none => some (none, M)

def setSteps (n : ℕ) (M : Finset ℕ) : List Op → Option (List (Option ℕ) × Finset ℕ)
  | [] => some ([], M)
  | op :: ops => do
    let (r, M') ← setStep n M op
    let (rs, M'') ← setSteps n M' ops
    pure (r :: rs, M'')

theorem call_ends {op : Op} {r : Option ℕ} {M' : Finset ℕ} (h : Represents n M b) (hn : n + 7 < 2 ^ 32)
    (hstep : setStep n M op = some (r, M')) :
    Ends (call op) b (fun x b' => x = r ∧ Represents n M' b') fun _ _ => False := by
  cases op with
  | mark index =>
    simp only [setStep] at hstep
    by_cases hpre : index < n ∧ index ∉ M
    · rw [if_pos hpre] at hstep
      obtain ⟨rfl, rfl⟩ := Prod.mk.inj (Option.some.inj hstep)
      unfold call
      rw [ends_bind]
      refine (mark_ends h hpre.1 hpre.2).mono (fun _ b' hb' => ?_) fun _ _ hfalse => hfalse
      rw [ends_pure]
      exact ⟨rfl, hb'⟩
    · rw [if_neg hpre] at hstep
      exact nomatch hstep
  | unmark index =>
    simp only [setStep] at hstep
    by_cases hpre : index ∈ M
    · rw [if_pos hpre] at hstep
      obtain ⟨rfl, rfl⟩ := Prod.mk.inj (Option.some.inj hstep)
      unfold call
      rw [ends_bind]
      refine (unmark_ends h hpre).mono (fun _ b' hb' => ?_) fun _ _ hfalse => hfalse
      rw [ends_pure]
      exact ⟨rfl, hb'⟩
    · rw [if_neg hpre] at hstep
      exact nomatch hstep
  | alloc =>
    unfold setStep at hstep
    unfold call
    rw [ends_bind, ends_attempt]
    refine (alloc_ends h hn).mono (fun i b' hb' => ?_) fun e b' hb' => ?_
    · rw [ends_pure]
      rw [hb'.1] at hstep
      obtain ⟨rfl, rfl⟩ := Prod.mk.inj (Option.some.inj hstep)
      exact ⟨rfl, hb'.2⟩
    · rw [ends_pure]
      rw [hb'.2.2] at hstep
      obtain ⟨rfl, rfl⟩ := Prod.mk.inj (Option.some.inj hstep)
      exact ⟨rfl, hb'.2.1 ▸ h⟩

theorem calls_ends {ops : List Op} {R : List (Option ℕ)} {M' : Finset ℕ} (h : Represents n M b) (hn : n + 7 < 2 ^ 32)
    (hsteps : setSteps n M ops = some (R, M')) :
    Ends (calls ops) b (fun rs b' => rs = R ∧ Represents n M' b') fun _ _ => False := by
  induction ops generalizing M b R with
  | nil =>
    obtain ⟨rfl, rfl⟩ := Prod.mk.inj (Option.some.inj hsteps)
    exact ⟨rfl, h⟩
  | cons op ops ih =>
    unfold setSteps at hsteps
    obtain ⟨⟨r, M₁⟩, hstep, hrest⟩ := Option.bind_eq_some_iff.mp hsteps
    obtain ⟨⟨rs, M₂⟩, hsteps', hlast⟩ := Option.bind_eq_some_iff.mp hrest
    obtain ⟨rfl, rfl⟩ := Prod.mk.inj (Option.some.inj hlast)
    unfold calls
    rw [ends_bind]
    refine (call_ends h hn hstep).mono (fun x b₁ hb₁ => ?_) fun _ _ hfalse => hfalse
    obtain ⟨rfl, hrep⟩ := hb₁
    rw [ends_bind]
    refine (ih hrep hsteps').mono (fun xs b₂ hb₂ => ?_) fun _ _ hfalse => hfalse
    obtain ⟨rfl, hrep'⟩ := hb₂
    rw [ends_pure]
    exact ⟨rfl, hrep'⟩

/-- The bitmap shows the set: `bitmap_isset` tells membership below `n`, and the bits behind are set. -/
def Shows (n : ℕ) (M : Finset ℕ) (b : Bitmap) : Prop :=
  (∀ i < n, isset i b = .ok (decide (i ∈ M)) b) ∧ ∀ i, n ≤ i → i < 8 * b.v.length → bitAt b.v i = true

theorem Represents.shows (h : Represents n M b) : Shows n M b := by
  constructor
  · intro i hi
    obtain ⟨r, b', hrun, rfl, rfl⟩ := (isset_ends (E := fun _ _ => False) h hi).exists_ok
    exact hrun
  · intro i hn hi
    rw [h.bits i hi]
    exact decide_eq_true (.inr hn)

theorem words_of_wrap (hlow : nbits < 2 ^ 32) (hwrap : 2 ^ 32 ≤ nbits + 7) : words nbits = 0 := by
  unfold words
  omega

theorem create_of_wrap (hlow : nbits < 2 ^ 32) (hwrap : 2 ^ 32 ≤ nbits + 7) (b : Bitmap) :
    create nbits .plenty b = .ok true ⟨nbits, []⟩ := by
  have hends : Ends (create nbits .plenty) b (fun r b' => r = true ∧ b' = ⟨nbits, []⟩) fun _ _ => False := by
    unfold create init
    rw [if_neg (by decide), ends_bind, ends_require, words_of_wrap hlow hwrap]
    refine ⟨by decide, ?_⟩
    rw [if_neg (by decide), ends_bind, ends_bind, ends_update, ends_when]
    exact ⟨fun h => absurd h (Nat.not_lt_zero _), fun _ => ends_pure.mpr ⟨rfl, rfl⟩⟩
  obtain ⟨_, b', hrun, rfl, rfl⟩ := hends.exists_ok
  exact hrun

theorem alloc_of_wrap (hlow : nbits < 2 ^ 32) (hwrap : 2 ^ 32 ≤ nbits + 7) :
    alloc ⟨nbits, []⟩ = .fail .enospc ⟨nbits, []⟩ := by
  unfold alloc
  rw [bind_of_ok (read_apply _ _), words_of_wrap hlow hwrap]
  rfl

/-- Either `bitmap_create` does not get its memory, or `P` holds of the bitmap that it returns. -/
def Created (nbits : ℕ) (b₀ : Bitmap) (P : Bitmap → Prop) (memory : BitmapMemory) : Prop :=
  if memory.bitmap = true ∧ 10 ≤ kmallocPages (words nbits) then
    create nbits memory b₀ = .stop (.kassert "npages < MAX_PAGES_ALLOC")
  else if memory.bitmap = true ∧ memory.v = true then ∃ b, create nbits memory b₀ = .ok true b ∧ P b
  else create nbits memory b₀ = .ok false b₀

theorem created_of_init {P : Bitmap → Prop} (hinit : ∃ b, init nbits b₀ = .ok () b ∧ P b) (memory : BitmapMemory) :
    Created nbits b₀ P memory := by
  obtain ⟨b, hrun, hP⟩ := hinit
  obtain ⟨mb, mv⟩ := memory
  unfold Created create
  cases mb with
  | false => rfl
  | true =>
    by_cases hten : 10 ≤ kmallocPages (words nbits)
    · rw [if_pos ⟨rfl, hten⟩]
      unfold Call.require
      rw [if_neg (Nat.not_lt.mpr hten)]
      rfl
    · have hfew : Call.require (kmallocPages (words nbits) < 10) (BitmapStop.kassert "npages < MAX_PAGES_ALLOC") b₀ =
          (.ok () b₀ : Reply _ Errno _ _) := require_ok_iff.mpr ⟨Nat.not_le.mp hten, rfl⟩
      rw [if_neg fun h => hten h.2]
      cases mv with
      | false => exact bind_of_ok hfew
      | true => exact ⟨b, (bind_of_ok hfew).trans (bind_of_ok hrun), hP⟩

/-- **The bitmap is a finite set with first-fit allocation** exactly when its number of bytes is computed without
wraparound: then every sequence of operations within their preconditions has the results it has on the set, none of the
assertions fails, and the bitmap shows the set.  This is for a bitmap that is created; `kmalloc` may have no memory, and
does not come back for ten pages. -/
theorem bitmap_refines_set_iff (hpos : 1 ≤ nbits) (hlow : nbits < 2 ^ 32) (b₀ : Bitmap) :
    (∀ memory ops R M, setSteps nbits ∅ ops = some (R, M) →
      Created nbits b₀ (fun b => ∃ b', calls ops b = .ok R b' ∧ Shows nbits M b') memory) ↔ nbits + 7 < 2 ^ 32 := by
  constructor
  · intro h
    by_contra hno
    have hwrap : 2 ^ 32 ≤ nbits + 7 := Nat.not_lt.mp hno
    -- the first allocation should take index 0
    have hfirst : firstBelow (fun i => i ∉ (∅ : Finset ℕ)) nbits = some 0 :=
      firstBelow_eq_some.mpr ⟨hpos, Finset.notMem_empty 0, fun j hj => absurd hj (Nat.not_lt_zero j)⟩
    have hset : setSteps nbits ∅ [.alloc] = some ([some 0], {0}) := by
      simp only [setSteps, setStep, hfirst]
      rfl
    have hcreated := h .plenty _ _ _ hset
    unfold Created at hcreated
    rw [if_neg (by rw [words_of_wrap hlow hwrap]; decide), if_pos (by decide), create_of_wrap hlow hwrap] at hcreated
    obtain ⟨b, hcreate, b', hcalls, -⟩ := hcreated
    obtain ⟨-, rfl⟩ := Reply.ok.inj hcreate
    have hends : Ends (calls [.alloc]) ⟨nbits, []⟩ (fun rs _ => rs = [none]) fun _ _ => False := by
      simp only [calls, call, ends_bind, ends_attempt, ends_of_fail_iff (alloc_of_wrap hlow hwrap), ends_pure]
    cases hends.of_ok hcalls
  · intro hn memory ops R M hsteps
    obtain ⟨⟨⟩, b, hinit, hrep⟩ := (init_ends (b := b₀) hn).exists_ok
    obtain ⟨rs, b', hcalls, rfl, hrep'⟩ := (calls_ends hrep hn hsteps).exists_ok
    exact created_of_init ⟨b, hinit, b', hcalls, hrep'.shows⟩ memory

/-- Ten bits: two allocations around a marked index, and the first one given back. -/
theorem bitmap_refines_set_ten : 1 ≤ 10 ∧ 10 < 2 ^ 32 ∧
    ∃ b, create 10 .plenty ⟨0, []⟩ = .ok true b ∧
      ∃ b', calls [.alloc, .mark 1, .alloc, .unmark 0] b = .ok [some 0, none, some 2, none] b' ∧ Shows 10 {1, 2} b' :=
  ⟨by decide, by decide, (bitmap_refines_set_iff (by decide : 1 ≤ 10) (by decide) ⟨0, []⟩).mpr (by decide) .plenty
    [.alloc, .mark 1, .alloc, .unmark 0] [some 0, none, some 2, none] {1, 2} (by decide)⟩

/-- **A bitmap with 2³² - 1 bits and no bytes**: nothing is marked and nothing can be allocated. -/
theorem bitmap_without_bytes : create (2 ^ 32 - 1) .plenty ⟨0, []⟩ = .ok true ⟨2 ^ 32 - 1, []⟩ ∧
    alloc ⟨2 ^ 32 - 1, []⟩ = .fail .enospc ⟨2 ^ 32 - 1, []⟩ :=
  ⟨create_of_wrap (by decide) (by decide) _, alloc_of_wrap (by decide) (by decide)⟩

end Bitmap

end Os161Kernel
