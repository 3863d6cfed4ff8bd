import Os161Kernel.Lib.Calls
import Os161Kernel.Kmalloc

/-!
# Resizable arrays: `array.c`

`array_preallocate` doubles a 32-bit capacity until it reaches the request, asks the heap for four bytes an element,
copies the elements and frees the old block.  The heap is known here only by what it promises to its callers, and by
what `kmalloc.c` does with ten pages and more: it stops the machine.

Neither the doubling nor the byte size is checked.  From 2^30 elements on the size wraps around, so that the block is
smaller than the capacity says.  When the capacity itself wraps around it starts again from 0, and no power of two
reaches a request above 2^31: the loop does not end.
-/

namespace Os161Kernel

open Calls Memory

-- Specifications are used through their rules; unfolding them would run the loop.
attribute [local irreducible] Ends

/-- `struct array`. -/
structure PtrArray where
  v : ℕ
  num : UInt32
  max : UInt32

/-- The heap as its callers see it; 0 is `NULL`, and `none` a call of `kmalloc` that stops the machine. -/
structure KHeap where
  kmalloc : UInt32 → Bytes → Option (ℕ × Bytes)
  kfree : ℕ → Bytes → Bytes

/-- An array in memory, and the size that was last passed to `kmalloc`. -/
structure ArrayState where
  array : PtrArray
  mem : Bytes
  asked : Option UInt32

inductive ArrayStop where
  | outOfFuel
  | kmalloc

abbrev ArrayCall := Call ArrayStop Errno ArrayState

/-! ### The code -/

/-- `array_init(a)`. -/
def arrayInit : PtrArray := ⟨0, 0, 0⟩

/-- `while (num > newmax) { newmax = newmax ? newmax*2 : 4; }` -/
def newmaxFrom (num : UInt32) : ℕ → UInt32 → Option UInt32
  | 0, _ => none
  | fuel + 1, newmax =>
    if newmax < num then newmaxFrom num fuel (if newmax ≠ 0 then newmax * 2 else 4) else some newmax

/-- `memcpy(dst, src, len)`. -/
def memcpy (dst src : ℕ) (len : UInt32) : ArrayCall Unit := .update fun s =>
  { s with mem := overlay s.mem dst len.toNat fun k => s.mem (src + k) }

/-- `array_preallocate(a, num)`. -/
def arrayPreallocate (heap : KHeap) (fuel : ℕ) (num : UInt32) : ArrayCall Unit := do
  let a ← .read ArrayState.array
  .when (a.max < num) do
    match newmaxFrom num fuel a.max with
    | none => .stop .outOfFuel
    | some newmax => do
      match ← .read fun s => heap.kmalloc (newmax * 4) s.mem with
      | none => .stop .kmalloc
      | some block => do
        .update fun s => { s with mem := block.2, asked := some (newmax * 4) }
        if block.1 = 0 then .fail .enomem
        else do
          memcpy block.1 a.v (a.num * 4)
          .update fun s => { s with mem := heap.kfree a.v s.mem }
          .update fun s => { s with array := ⟨block.1, a.num, newmax⟩ }

/-- `array_setsize(a, num)`. -/
def arraySetsize (heap : KHeap) (fuel : ℕ) (num : UInt32) : ArrayCall Unit := do
  arrayPreallocate heap fuel num
  .update fun s => { s with array := { s.array with num := num } }

/-- `array_add(a, val, &index)`. -/
def arrayAdd (heap : KHeap) (fuel : ℕ) (val : UInt32) : ArrayCall UInt32 := do
  let a ← .read ArrayState.array
  let index := a.num
  arraySetsize heap fuel (index + 1)
  .update fun s => { s with mem := store32 s.mem (s.array.v + 4 * index.toNat) val.toNat }
  pure index

/-! ### What growing an array is for -/

/-- `a->v[i]`. -/
def PtrArray.element (a : PtrArray) (m : Bytes) (i : ℕ) : ℕ := load32 m (a.v + 4 * i)

/-- **What the heap promises to the owner of an array.**  A new block does not overlap the array's, and the array's is
left alone.  Freeing the array's block leaves the new one alone, whatever has been written to it.  No block has ten
pages. -/
structure KHeap.Serves (heap : KHeap) (a : PtrArray) (m : Bytes) : Prop where
  keeps : ∀ {size p m'}, heap.kmalloc size m = some (p, m') → ∀ x, a.v ≤ x → x < a.v + 4 * a.max.toNat → m' x = m x
  apart : ∀ {size p m'}, heap.kmalloc size m = some (p, m') → p ≠ 0 →
    p + size.toNat ≤ a.v ∨ a.v + 4 * a.max.toNat ≤ p
  frees : ∀ {size p m'}, heap.kmalloc size m = some (p, m') → p ≠ 0 → ∀ m'' : Bytes,
    (∀ x, x < p ∨ p + size.toNat ≤ x → m'' x = m' x) →
    ∀ x, p ≤ x → x < p + size.toNat → heap.kfree a.v m'' x = m'' x
  limit : ∀ {size : UInt32}, 10 ≤ kmallocPages size.toNat → heap.kmalloc size m = none

/-- The memory behind the kernel's addresses. -/
def Kernel.seen (s : Kernel) : Bytes := fun a => s.ram (a - kseg0)

/-- `heap.kmalloc` is `kmalloc` of `kmalloc.c` in the state `s`. -/
structure KHeap.OfKernel (heap : KHeap) (d : ℕ) (s : Kernel) : Prop where
  ok : ∀ {size : UInt32} {p t}, Os161Kernel.kmalloc d size.toNat s = .ok p t → heap.kmalloc size s.seen = some (p, t.seen)
  stop : ∀ {size : UInt32} {e}, Os161Kernel.kmalloc d size.toNat s = .stop e → heap.kmalloc size s.seen = none

variable {size max : UInt32} {k p : ℕ} {Q : Unit → ArrayState → Prop} {E : Errno → ArrayState → Prop} {m' : Bytes}

/-- The heap of the kernel keeps the promise that no block has ten pages. -/
theorem KHeap.OfKernel.limit {heap : KHeap} {d : ℕ} {s : Kernel} (h : heap.OfKernel d s)
    (hten : 10 ≤ kmallocPages size.toNat) : heap.kmalloc size s.seen = none := by
  obtain ⟨e, he⟩ := kmalloc_ten_pages (d := d) size.toNat_lt hten s
  exact h.stop he

/-- The array has room for `num` elements, in a block whose size did not wrap around, and still has its elements. -/
structure Preallocated (a : PtrArray) (m : Bytes) (num : UInt32) (t : ArrayState) : Prop where
  room : num ≤ t.array.max
  size : ∀ size, t.asked = some size → size.toNat = t.array.max.toNat * 4
  num_eq : t.array.num = a.num
  elements : ∀ i < a.num.toNat, t.array.element t.mem i = a.element m i

/-- The call failed for lack of memory and the array is as it was. -/
structure OutOfMemory (a : PtrArray) (m : Bytes) (e : Errno) (t : ArrayState) : Prop where
  code : e = .enomem
  array_eq : t.array = a
  elements : ∀ i < a.num.toNat, a.element t.mem i = a.element m i

/-- The new capacity is found, and `kmalloc` stops at its size. -/
def KmallocStops (heap : KHeap) (fuel : ℕ) (num : UInt32) (a : PtrArray) (m : Bytes) : Prop :=
  ∃ n, newmaxFrom num fuel a.max = some n ∧ heap.kmalloc (n * 4) m = none

/-- **Growing terminates and suffices**, with every heap that keeps its promises, unless `kmalloc` stops. -/
def Suffices (a : PtrArray) (num : UInt32) : Prop :=
  ∀ (heap : KHeap) (m : Bytes), heap.Serves a m →
    ∃ fuel, Ends (arrayPreallocate heap fuel num) ⟨a, m, none⟩ (fun _ => Preallocated a m num) (OutOfMemory a m) ∨
      KmallocStops heap fuel num a m ∧ arrayPreallocate heap fuel num ⟨a, m, none⟩ = .stop .kmalloc

/-- The capacity that is doubled. -/
def firstMax (max : UInt32) : ℕ := if max = 0 then 4 else max.toNat

/-- **The capacity fits**: it is there already, or doubling reaches the request below 2^30. -/
def CapacityFits (a : PtrArray) (num : UInt32) : Prop :=
  num ≤ a.max ∨ ∃ k, num.toNat ≤ firstMax a.max * 2 ^ k ∧ firstMax a.max * 2 ^ k < 2 ^ 30

/-- Doubling ends, and the byte size, wrapped around or not, makes ten pages. -/
def AsksTenPages (a : PtrArray) (num : UInt32) : Prop :=
  ∃ fuel n, a.max < num ∧ newmaxFrom num fuel a.max = some n ∧ 10 ≤ kmallocPages (n * 4).toNat

/-! ### The loop -/

variable {a : PtrArray} {m : Bytes} {num newmax n : UInt32} {fuel : ℕ} {heap : KHeap}

theorem newmaxFrom_of_le (h : num ≤ newmax) : newmaxFrom num (fuel + 1) newmax = some newmax := by
  unfold newmaxFrom
  exact if_neg (UInt32.not_lt.mpr h)

theorem newmaxFrom_of_lt (h : newmax < num) (hne : newmax ≠ 0) :
    newmaxFrom num (fuel + 1) newmax = newmaxFrom num fuel (newmax * 2) := by
  rw [newmaxFrom, if_pos h, if_pos hne]

theorem newmaxFrom_zero (h : 0 < num) : newmaxFrom num (fuel + 1) 0 = newmaxFrom num fuel 4 := by
  rw [newmaxFrom, if_pos h, if_neg (not_not_intro rfl)]

theorem toNat_double (h : newmax.toNat < 2 ^ 31) : (newmax * 2).toNat = newmax.toNat * 2 := by
  rw [UInt32.toNat_mul]
  exact Nat.mod_eq_of_lt (show newmax.toNat * 2 < 2 ^ 32 by omega)

theorem toNat_size (h : n.toNat < 2 ^ 30) : (n * 4).toNat = n.toNat * 4 := by
  rw [UInt32.toNat_mul]
  exact Nat.mod_eq_of_lt (show n.toNat * 4 < 2 ^ 32 by omega)

theorem double_ne_zero (hne : newmax ≠ 0) (h : newmax.toNat < 2 ^ 31) : newmax * 2 ≠ 0 := by
  intro h0
  have hzero : newmax.toNat * 2 = 0 := by rw [← toNat_double h, h0, UInt32.toNat_zero]
  exact hne (UInt32.toNat_inj.mp (by rw [UInt32.toNat_zero]; omega))

theorem toNat_double_pow (h : newmax.toNat < 2 ^ 31) (k : ℕ) :
    (newmax * 2).toNat * 2 ^ k = newmax.toNat * 2 ^ (k + 1) := by
  rw [toNat_double h, Nat.pow_succ, Nat.mul_assoc, Nat.mul_comm 2]

theorem le_of_newmaxFrom (h : newmaxFrom num fuel newmax = some n) : num ≤ n := by
  induction fuel generalizing newmax with
  | zero => exact nomatch h
  | succ fuel ih =>
    unfold newmaxFrom at h
    split at h
    · exact ih h
    · next hle =>
      cases h
      exact UInt32.not_lt.mp hle

theorem newmaxFrom_double (hne : newmax ≠ 0) (h : newmaxFrom num fuel newmax = some n) (hn : n.toNat < 2 ^ 30) :
    ∃ k, n.toNat = newmax.toNat * 2 ^ k := by
  induction fuel generalizing newmax with
  | zero => exact nomatch h
  | succ fuel ih =>
    have hnum : num.toNat ≤ n.toNat := le_of_newmaxFrom h
    by_cases hlt : newmax < num
    · have hbelow : newmax.toNat < num.toNat := hlt
      have hsmall : newmax.toNat < 2 ^ 31 := by omega
      rw [newmaxFrom_of_lt hlt hne] at h
      obtain ⟨k, hk⟩ := ih (double_ne_zero hne hsmall) h
      exact ⟨k + 1, hk.trans (toNat_double_pow hsmall k)⟩
    · rw [newmaxFrom_of_le (UInt32.not_lt.mp hlt)] at h
      cases h
      exact ⟨0, (Nat.mul_one _).symm⟩

theorem newmaxFrom_of_double (hne : newmax ≠ 0) (hnum : num.toNat ≤ newmax.toNat * 2 ^ k)
    (hlt : newmax.toNat * 2 ^ k < 2 ^ 30) : ∃ fuel n, newmaxFrom num fuel newmax = some n ∧ n.toNat < 2 ^ 30 := by
  induction k generalizing newmax with
  | zero =>
    rw [Nat.pow_zero, Nat.mul_one] at hnum hlt
    exact ⟨1, newmax, newmaxFrom_of_le hnum, hlt⟩
  | succ k ih =>
    have hself : newmax.toNat < 2 ^ 30 := Nat.lt_of_le_of_lt (Nat.le_mul_of_pos_right _ (Nat.two_pow_pos (k + 1))) hlt
    by_cases hle : num ≤ newmax
    · exact ⟨1, newmax, newmaxFrom_of_le hle, hself⟩
    · have hsmall : newmax.toNat < 2 ^ 31 := by omega
      rw [← toNat_double_pow hsmall] at hnum hlt
      obtain ⟨fuel, n, hn, hend⟩ := ih (double_ne_zero hne hsmall) hnum hlt
      exact ⟨fuel + 1, n, (newmaxFrom_of_lt (UInt32.not_le.mp hle) hne).trans hn, hend⟩

theorem newmaxFrom_of_fits (hlt : max < num) (hnum : num.toNat ≤ firstMax max * 2 ^ k)
    (hbound : firstMax max * 2 ^ k < 2 ^ 30) : ∃ fuel n, newmaxFrom num fuel max = some n ∧ n.toNat < 2 ^ 30 := by
  unfold firstMax at hnum hbound
  by_cases h0 : max = 0
  · rw [if_pos h0] at hnum hbound
    have hfour : (4 : UInt32) ≠ 0 := by decide
    obtain ⟨fuel, n, hn, hend⟩ := newmaxFrom_of_double hfour hnum hbound
    exact ⟨fuel + 1, n, by rw [h0, newmaxFrom_zero (h0 ▸ hlt), hn], hend⟩
  · rw [if_neg h0] at hnum hbound
    exact newmaxFrom_of_double h0 hnum hbound

theorem fits_of_newmaxFrom (hlt : max < num) (h : newmaxFrom num fuel max = some n)
    (hn : n.toNat < 2 ^ 30) : ∃ k, num.toNat ≤ firstMax max * 2 ^ k ∧ firstMax max * 2 ^ k < 2 ^ 30 := by
  have hnum : num.toNat ≤ n.toNat := le_of_newmaxFrom h
  unfold firstMax
  by_cases h0 : max = 0
  · cases fuel with
    | zero => exact nomatch h
    | succ fuel =>
      rw [h0, newmaxFrom_zero (h0 ▸ hlt)] at h
      obtain ⟨k, hk⟩ := newmaxFrom_double (by decide) h hn
      rw [if_pos h0]
      exact ⟨k, hk ▸ hnum, hk ▸ hn⟩
  · obtain ⟨k, hk⟩ := newmaxFrom_double h0 h hn
    rw [if_neg h0]
    exact ⟨k, hk ▸ hnum, hk ▸ hn⟩

/-! ### The calls -/

theorem ends_preallocate_iff (hlt : a.max < num)
    (hn : newmaxFrom num fuel a.max = some n) (hp : heap.kmalloc (n * 4) m = some (p, m')) :
    Ends (arrayPreallocate heap fuel num) ⟨a, m, none⟩ Q E ↔
      if p = 0 then E .enomem ⟨a, m', some (n * 4)⟩
      else Q () ⟨⟨p, a.num, n⟩, heap.kfree a.v (overlay m' p (a.num * 4).toNat fun k => m' (a.v + k)),
        some (n * 4)⟩ := by
  unfold arrayPreallocate memcpy
  simp only [ends_bind, ends_read, Call.when, if_pos hlt, hn, hp, ends_update]
  split
  · exact ends_fail
  · simp only [ends_bind, ends_update]

theorem ends_preallocate_none (hlt : a.max < num) (hn : newmaxFrom num fuel a.max = none) :
    ¬ Ends (arrayPreallocate heap fuel num) ⟨a, m, none⟩ Q E := by
  unfold arrayPreallocate
  simp only [ends_bind, ends_read, Call.when, if_pos hlt, hn, ends_stop, not_false_eq_true]

theorem arrayPreallocate_stops (hlt : a.max < num) (h : KmallocStops heap fuel num a m) :
    arrayPreallocate heap fuel num ⟨a, m, none⟩ = .stop .kmalloc := by
  obtain ⟨n, hn, hnone⟩ := h
  unfold arrayPreallocate
  rw [bind_of_ok (read_apply _ _), Call.when, if_pos hlt, hn]
  show (match heap.kmalloc (n * 4) m with | none => _ | some block => _ : ArrayCall Unit) _ = _
  rw [hnone]
  rfl

theorem arrayPreallocate_of_le (hle : num ≤ a.max) :
    arrayPreallocate heap fuel num ⟨a, m, none⟩ = .ok () ⟨a, m, none⟩ := by
  have hnot : ¬ a.max < num := UInt32.not_lt.mpr hle
  unfold arrayPreallocate
  rw [bind_of_ok (read_apply _ _), Call.when, if_neg hnot]
  rfl

theorem KHeap.Serves.elements_kept (h : heap.Serves a m) (ha : a.num ≤ a.max)
    (hp : heap.kmalloc size m = some (p, m')) : ∀ i < a.num.toNat, a.element m' i = a.element m i := by
  have hnum : a.num.toNat ≤ a.max.toNat := ha
  intro i hi
  exact load32_congr fun k hk => h.keeps hp _ (by omega) (by omega)

theorem KHeap.Serves.elements_moved (h : heap.Serves a m) (ha : a.num ≤ a.max) (hnum : a.num.toNat ≤ n.toNat)
    (hn : n.toNat < 2 ^ 30) (hp : heap.kmalloc (n * 4) m = some (p, m')) (hne : p ≠ 0) :
    ∀ i < a.num.toNat, load32 (heap.kfree a.v (overlay m' p (a.num * 4).toNat fun k => m' (a.v + k))) (p + 4 * i) =
      a.element m i := by
  have hcopied : (a.num * 4).toNat = a.num.toNat * 4 := toNat_size (by omega)
  have hblock : (n * 4).toNat = n.toNat * 4 := toNat_size hn
  have hfrees := h.frees hp hne (overlay m' p (a.num * 4).toNat fun k => m' (a.v + k))
  have hkept := h.elements_kept ha hp
  intro i hi
  have hfree : ∀ k < 4, heap.kfree a.v (overlay m' p (a.num * 4).toNat fun k => m' (a.v + k)) (p + 4 * i + k) =
      m' (a.v + 4 * i + k) := by
    intro k hk
    rw [hfrees (fun x hx => overlay_outside (by omega)) _ (by omega) (by omega), overlay_inside (by omega) (by omega)]
    congr 1
    omega
  exact (load32_congr hfree).trans (hkept i hi)

theorem arrayPreallocate_ends (ha : a.num ≤ a.max) (hfits : CapacityFits a num) : Suffices a num := by
  intro heap m hserves
  by_cases hle : num ≤ a.max
  · exact ⟨0, .inl ((ends_of_ok_iff (arrayPreallocate_of_le hle)).mpr ⟨hle, nofun, rfl, fun _ _ => rfl⟩)⟩
  · have hlt : a.max < num := UInt32.not_le.mp hle
    obtain ⟨k, hnum, hbound⟩ := hfits.resolve_left hle
    obtain ⟨fuel, n, hn, hend⟩ := newmaxFrom_of_fits hlt hnum hbound
    have hroom : num ≤ n := le_of_newmaxFrom hn
    have hnum' : a.num.toNat ≤ n.toNat := UInt32.le_trans ha (UInt32.le_trans (UInt32.le_of_lt hlt) hroom)
    refine ⟨fuel, ?_⟩
    cases hp : heap.kmalloc (n * 4) m with
    | none =>
      have hstops : KmallocStops heap fuel num a m := ⟨n, hn, hp⟩
      exact .inr ⟨hstops, arrayPreallocate_stops hlt hstops⟩
    | some block =>
      obtain ⟨p, m'⟩ := block
      refine .inl ((ends_preallocate_iff hlt hn hp).mpr ?_)
      by_cases h0 : p = 0
      · rw [if_pos h0]
        exact ⟨rfl, rfl, hserves.elements_kept ha hp⟩
      · rw [if_neg h0]
        refine ⟨hroom, ?_, rfl, hserves.elements_moved ha hnum' hend hp h0⟩
        intro size hsize
        cases hsize
        exact toNat_size hend

theorem suffices_of_asksTenPages (h : AsksTenPages a num) : Suffices a num := by
  obtain ⟨fuel, n, hlt, hn, hten⟩ := h
  intro heap m hserves
  have hstops : KmallocStops heap fuel num a m := ⟨n, hn, hserves.limit hten⟩
  exact ⟨fuel, .inr ⟨hstops, arrayPreallocate_stops hlt hstops⟩⟩

theorem arrayAdd_ends (ha : a.num ≤ a.max) (hfits : CapacityFits a (a.num + 1)) (val : UInt32)
    (hserves : heap.Serves a m) :
    ∃ fuel, Ends (arrayAdd heap fuel val) ⟨a, m, none⟩
      (fun index t => index = a.num ∧ t.array.num = a.num + 1 ∧ t.array.element t.mem a.num.toNat = val.toNat ∧
        ∀ i < a.num.toNat, t.array.element t.mem i = a.element m i)
      (OutOfMemory a m) ∨ KmallocStops heap fuel (a.num + 1) a m ∧ arrayAdd heap fuel val ⟨a, m, none⟩ = .stop .kmalloc := by
  obtain ⟨fuel, hends | ⟨hstops, hstop⟩⟩ := arrayPreallocate_ends ha hfits heap m hserves
  · refine ⟨fuel, .inl ?_⟩
    unfold arrayAdd arraySetsize
    simp only [ends_bind, ends_read, ends_update, ends_pure]
    refine hends.mono (fun _ t ht => ⟨trivial, trivial, ?_, ?_⟩) fun _ _ => id
    · exact (load32_store32 _ _ _).trans (Nat.mod_eq_of_lt val.toNat_lt)
    · intro i hi
      exact (load32_store32_of_disjoint (by simp only; omega)).trans (ht.elements i hi)
  · refine ⟨fuel, .inr ⟨hstops, ?_⟩⟩
    unfold arrayAdd arraySetsize
    rw [bind_of_ok (read_apply _ _)]
    exact bind_of_stop (bind_of_stop hstop)

/-- The heap whose next block is at `p`. -/
def blockAt (p : ℕ) : KHeap :=
  ⟨fun size m => if kmallocPages size.toNat < 10 then some (p, m) else none, fun _ m => m⟩

theorem blockAt_kmalloc (h : kmallocPages size.toNat < 10) (m : Bytes) :
    (blockAt p).kmalloc size m = some (p, m) := if_pos h

theorem blockAt_serves (a : PtrArray) (m : Bytes) : (blockAt (a.v + 4 * a.max.toNat + 4)).Serves a m := by
  have hblock : ∀ {size p m'}, (blockAt (a.v + 4 * a.max.toNat + 4)).kmalloc size m = some (p, m') →
      p = a.v + 4 * a.max.toNat + 4 ∧ m' = m := by
    intro size p m' h
    obtain ⟨-, hsome⟩ := Option.ite_none_right_eq_some.mp h
    cases hsome
    exact ⟨rfl, rfl⟩
  refine ⟨fun h x _ _ => by rw [(hblock h).2], fun h _ => ?_, fun _ _ _ _ _ _ _ => rfl, fun hten => ?_⟩
  · rw [(hblock h).1]
    exact .inr (Nat.le_add_right _ _)
  · exact if_neg (Nat.not_lt.mpr hten)

/-- **Growing an array terminates and suffices exactly if the capacity fits**: the array has it already, or doubling
reaches the request below 2^30.  Beside that, doubling can end at a size of ten pages, where `kmalloc` stops. -/
theorem array_preallocate_suffices_iff (a : PtrArray) (ha : a.num ≤ a.max) (num : UInt32) :
    Suffices a num ↔ CapacityFits a num ∨ AsksTenPages a num := by
  refine ⟨fun h => ?_, fun h => h.elim (arrayPreallocate_ends ha) suffices_of_asksTenPages⟩
  by_cases hle : num ≤ a.max
  · exact .inl (.inl hle)
  · have hlt : a.max < num := UInt32.not_le.mp hle
    -- a heap that has a block for every size that the kernel can serve: nothing else hides the size
    obtain ⟨fuel, hends⟩ := h _ (fun _ => 0) (blockAt_serves a _)
    cases hn : newmaxFrom num fuel a.max with
    | none =>
      rcases hends with hends | ⟨⟨n, hn', -⟩, -⟩
      · exact absurd hends (ends_preallocate_none hlt hn)
      · exact nomatch hn.symm.trans hn'
    | some n =>
      by_cases hten : 10 ≤ kmallocPages (n * 4).toNat
      · exact .inr ⟨fuel, n, hlt, hn, hten⟩
      have hp := blockAt_kmalloc (p := a.v + 4 * a.max.toNat + 4) (Nat.not_le.mp hten) fun _ => 0
      rcases hends with hends | ⟨⟨n', hn', hnone⟩, -⟩
      · have hret := (ends_preallocate_iff hlt hn hp).mp hends
        rw [if_neg (Nat.succ_ne_zero _)] at hret
        have hsize : (n * 4).toNat = n.toNat * 4 := hret.size _ rfl
        have hfour : (n * 4).toNat < 2 ^ 32 := UInt32.toNat_lt _
        exact .inl (.inr (fits_of_newmaxFrom hlt hn (by omega)))
      · obtain rfl := Option.some.inj (hn.symm.trans hn')
        exact nomatch hp.symm.trans hnone

theorem array_preallocate_suffices_empty : arrayInit.num ≤ arrayInit.max ∧ Suffices arrayInit 10 :=
  ⟨by decide, (array_preallocate_suffices_iff arrayInit (by decide) 10).mpr (.inl (.inr ⟨2, by decide, by decide⟩))⟩

/-- The capacities of an array that starts empty: after 2^31 comes 0, and then 4 again. -/
def doubledMax : List UInt32 := 0 :: (List.range 32).map fun j => UInt32.ofNat (2 ^ j)

theorem newmaxFrom_doubledMax (fuel : ℕ) : ∀ x ∈ doubledMax, newmaxFrom 0x80000001 fuel x = none := by
  have hall : doubledMax.all (fun x => x < 0x80000001 ∧ (if x ≠ 0 then x * 2 else 4) ∈ doubledMax) = true := by decide
  induction fuel with
  | zero => exact fun _ _ => rfl
  | succ fuel ih =>
    intro x hx
    obtain ⟨hlt, hmem⟩ := of_decide_eq_true (List.all_eq_true.mp hall x hx)
    rw [newmaxFrom, if_pos hlt]
    exact ih _ hmem

/-- **Growing an empty array to 2^31 + 1 elements does not end**, and for 2^29 + 1 elements the block that is asked for
has no bytes. -/
theorem array_preallocate_wraps_around :
    (∀ heap m fuel, arrayPreallocate heap fuel 0x80000001 ⟨arrayInit, m, none⟩ = .stop .outOfFuel) ∧
      ∀ m, ∃ t, arrayPreallocate (blockAt 16) 30 0x20000001 ⟨arrayInit, m, none⟩ = .ok () t ∧
        t.array.max = 0x40000000 ∧ t.asked = some 0 := by
  have hlong : arrayInit.max < 0x80000001 := by decide
  have hshort : arrayInit.max < 0x20000001 := by decide
  have hcycle : arrayInit.max ∈ doubledMax := by decide
  have hnewmax : newmaxFrom 0x20000001 30 arrayInit.max = some 0x40000000 := by decide
  have hsize : (0x40000000 : UInt32) * 4 = 0 := by decide
  constructor
  · intro heap m fuel
    unfold arrayPreallocate
    rw [bind_of_ok (read_apply _ _), Call.when, if_pos hlong, newmaxFrom_doubledMax fuel _ hcycle]
    rfl
  · intro m
    have hends : Ends (arrayPreallocate (blockAt 16) 30 0x20000001) ⟨arrayInit, m, none⟩
        (fun _ t => t.array.max = 0x40000000 ∧ t.asked = some 0) fun _ _ => False := by
      have hsmall : kmallocPages (0x40000000 * 4 : UInt32).toNat < 10 := by
        rw [hsize]
        decide
      rw [ends_preallocate_iff hshort hnewmax (blockAt_kmalloc hsmall m), if_neg (by decide)]
      exact ⟨rfl, congrArg some hsize⟩
    obtain ⟨_, t, ht, hfields⟩ := hends.exists_ok
    exact ⟨t, ht, hfields⟩

/-! ### Arrays as lists -/

/-- `array_get(a, index)`; `none` is an assertion that fails. -/
def arrayGet (a : PtrArray) (m : Bytes) (index : UInt32) : Option ℕ :=
  if index < a.num then some (a.element m index.toNat) else none

/-- `array_set(a, index, val)`. -/
def arraySet (a : PtrArray) (m : Bytes) (index val : UInt32) : Option Bytes :=
  if index < a.num then some (store32 m (a.v + 4 * index.toNat) val.toNat) else none

/-- `array_remove(a, index)`. -/
def arrayRemove (a : PtrArray) (m : Bytes) (index : UInt32) : Option (PtrArray × Bytes) :=
  if a.num ≤ a.max ∧ index < a.num then
    let numToMove := a.num - (index + 1)
    some ({ a with num := a.num - 1 }, overlay m (a.v + 4 * index.toNat) (numToMove * 4).toNat fun k =>
      m (a.v + 4 * (index.toNat + 1) + k))
  else none

/-- The elements in order. -/
def PtrArray.toList (a : PtrArray) (m : Bytes) : List ℕ := (List.range a.num.toNat).map (a.element m)

@[simp] theorem PtrArray.length_toList (a : PtrArray) (m : Bytes) : (a.toList m).length = a.num.toNat := by
  simp [toList]

theorem PtrArray.getElem?_toList (a : PtrArray) (m : Bytes) (i : ℕ) :
    (a.toList m)[i]? = if i < a.num.toNat then some (a.element m i) else none := by
  by_cases h : i < a.num.toNat <;> simp [toList, h]

theorem toNat_succ (h : n.toNat < 2 ^ 30) : (n + 1).toNat = n.toNat + 1 := by
  rw [UInt32.toNat_add]
  exact Nat.mod_eq_of_lt (show n.toNat + 1 < 2 ^ 32 by omega)

theorem arrayRemove_element {index : UInt32} (hnum : a.num.toNat < 2 ^ 30) (hindex : index < a.num) (i : ℕ)
    (hi : i + 1 < a.num.toNat) :
    load32 (overlay m (a.v + 4 * index.toNat) ((a.num - (index + 1)) * 4).toNat fun k =>
      m (a.v + 4 * (index.toNat + 1) + k)) (a.v + 4 * i) =
      a.element m (if i < index.toNat then i else i + 1) := by
  have hlt : index.toNat < a.num.toNat := hindex
  have hsucc := toNat_succ (n := index) (by omega)
  have hmove : (a.num - (index + 1)).toNat = a.num.toNat - (index.toNat + 1) := by
    rw [UInt32.toNat_sub_of_le _ _ (show (index + 1).toNat ≤ a.num.toNat by omega), hsucc]
  rw [toNat_size (by omega), hmove]
  split
  · exact load32_overlay_outside (by omega)
  · refine load32_congr fun k hk => ?_
    rw [overlay_inside (by omega) (by omega)]
    congr 1
    omega

/-- **An array is a list.**  Reading, writing and removing an element do what they do to a list, and panic behind its
end; adding appends, or leaves the list alone for lack of memory, unless `kmalloc` stops. -/
theorem arrays_are_lists (ha : a.num ≤ a.max) (hmax : a.max.toNat < 2 ^ 30) (m : Bytes) :
    (∀ i, arrayGet a m i = (a.toList m)[i.toNat]?) ∧
    (∀ i val, (arraySet a m i val).map a.toList =
      if i.toNat < (a.toList m).length then some ((a.toList m).set i.toNat val.toNat) else none) ∧
    (∀ i, (arrayRemove a m i).map (fun r => r.1.toList r.2) =
      if i.toNat < (a.toList m).length then some ((a.toList m).eraseIdx i.toNat) else none) ∧
    ∀ (heap : KHeap) val, heap.Serves a m → CapacityFits a (a.num + 1) →
      ∃ fuel, Ends (arrayAdd heap fuel val) ⟨a, m, none⟩
        (fun index t => index = a.num ∧ t.array.toList t.mem = a.toList m ++ [val.toNat])
        (fun e t => e = .enomem ∧ t.array.toList t.mem = a.toList m) ∨
        KmallocStops heap fuel (a.num + 1) a m ∧ arrayAdd heap fuel val ⟨a, m, none⟩ = .stop .kmalloc := by
  have hnum : a.num.toNat < 2 ^ 30 := Nat.lt_of_le_of_lt ha hmax
  refine ⟨fun i => (a.getElem?_toList m i.toNat).symm, fun i val => ?_, fun i => ?_, fun heap val hserves hfits => ?_⟩
  · by_cases hi : i.toNat < a.num.toNat
    · have hset : ∀ j, a.element (store32 m (a.v + 4 * i.toNat) val.toNat) j =
          if i.toNat = j then val.toNat else a.element m j := fun j => by
        split
        · next hij => exact hij ▸ (load32_store32 _ _ _).trans (Nat.mod_eq_of_lt val.toNat_lt)
        · exact load32_store32_of_disjoint (by omega)
      simp only [arraySet, if_pos (UInt32.lt_iff_toNat_lt.mpr hi), Option.map_some, PtrArray.length_toList, if_pos hi]
      refine congrArg some (List.ext_getElem? fun j => ?_)
      simp only [PtrArray.getElem?_toList, List.getElem?_set, PtrArray.length_toList, hset]
      by_cases hij : i.toNat = j
      · simp [← hij, hi]
      · simp [hij]
    · simp [arraySet, UInt32.lt_iff_toNat_lt, hi]
  · by_cases hi : i.toNat < a.num.toNat
    · have hpred : (a.num - 1).toNat = a.num.toNat - 1 :=
        UInt32.toNat_sub_of_le _ _ (Nat.succ_le_of_lt (Nat.zero_lt_of_lt hi))
      simp only [arrayRemove, if_pos (And.intro ha (UInt32.lt_iff_toNat_lt.mpr hi)), Option.map_some,
        PtrArray.length_toList, if_pos hi]
      refine congrArg some (List.ext_getElem? fun j => ?_)
      have helement := arrayRemove_element (m := m) hnum hi j
      simp only [PtrArray.getElem?_toList, List.getElem?_eraseIdx, hpred, PtrArray.element]
      grind [PtrArray.element]
    · simp [arrayRemove, UInt32.lt_iff_toNat_lt, hi]
  · obtain ⟨fuel, hends⟩ := arrayAdd_ends ha hfits val hserves
    refine ⟨fuel, hends.imp_left fun hends => hends.mono (fun index t ht => ⟨ht.1, ?_⟩) fun e t ht => ⟨ht.code, ?_⟩⟩
    · have := toNat_succ hnum
      refine List.ext_getElem? fun j => ?_
      grind [PtrArray.getElem?_toList, PtrArray.length_toList]
    · rw [ht.array_eq]
      exact List.map_congr_left fun i hi => ht.elements i (List.mem_range.mp hi)

/-- A full array of two elements grows for the third. -/
theorem arrays_are_lists_third : ∃ fuel, Ends (arrayAdd (blockAt 12) fuel 7) ⟨⟨0, 2, 2⟩, fun _ => 0, none⟩
    (fun index t => index = 2 ∧ t.array.toList t.mem = [0, 0, 7])
    (fun e t => e = .enomem ∧ t.array.toList t.mem = [0, 0]) := by
  have hlists := arrays_are_lists (a := ⟨0, 2, 2⟩) (by decide) (by decide) fun _ => 0
  obtain ⟨fuel, hends | ⟨⟨n, hn, hnone⟩, -⟩⟩ :=
    hlists.2.2.2 _ 7 (blockAt_serves ⟨0, 2, 2⟩ _) (.inr ⟨1, by decide, by decide⟩)
  · exact ⟨fuel, hends⟩
  · have hfour : n = 4 := by
      rcases fuel with - | - | fuel
      · exact nomatch hn
      · exact nomatch hn
      · exact Option.some.inj (hn.symm.trans rfl)
    rw [hfour, blockAt_kmalloc (by decide)] at hnone
    exact nomatch hnone

end Os161Kernel
