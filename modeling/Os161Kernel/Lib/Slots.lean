import Mathlib.Data.List.Basic
import Mathlib.Logic.Function.Basic
import Mathlib.Tactic.Common

/-!
# Tables with slots that are used again

A table is an array whose entries may be empty.  A new entry goes to the first empty slot, and to the end of the array if
there is none; an entry is taken out by emptying its slot, so the indices of the others stay valid.
-/

namespace Slots

open Function

variable {α : Type} {t : List (Option α)} {i j : ℕ} {o : Option α} {a : α}

/-- The entry in a slot; there is none beyond the end. -/
def slotAt (t : List (Option α)) (i : ℕ) : Option α := t[i]?.join

/-- Overwrite a slot, or add one at the end. -/
def setSlot (t : List (Option α)) (i : ℕ) (o : Option α) : List (Option α) :=
  if i < t.length then t.set i o else t ++ [o]

/-- The first empty slot, or the end of the table. -/
def freeSlot (t : List (Option α)) : ℕ := t.findIdx Option.isNone

theorem slotAt_of_ge (h : t.length ≤ i) : slotAt t i = none := by
  unfold slotAt
  rw [List.getElem?_eq_none h]
  rfl

theorem lt_of_slotAt (h : slotAt t i = some a) : i < t.length := by
  by_contra hge
  exact nomatch (slotAt_of_ge (Nat.le_of_not_lt hge)).symm.trans h

theorem slotAt_setSlot_self (h : i ≤ t.length) : slotAt (setSlot t i o) i = o := by
  unfold slotAt setSlot
  by_cases hi : i < t.length
  · rw [if_pos hi, List.getElem?_set_self hi]
    rfl
  · obtain rfl : i = t.length := by omega
    rw [if_neg hi, List.getElem?_concat_length]
    rfl

theorem slotAt_setSlot_of_ne (hne : j ≠ i) (h : i ≤ t.length) : slotAt (setSlot t i o) j = slotAt t j := by
  unfold slotAt setSlot
  by_cases hi : i < t.length
  · rw [if_pos hi, List.getElem?_set_ne hne.symm]
  · obtain rfl : i = t.length := by omega
    rw [if_neg hi]
    by_cases hj : j < t.length
    · rw [List.getElem?_append_left hj]
    · have hend : (t ++ [o]).length ≤ j := by
        rw [List.length_append, List.length_singleton]
        omega
      rw [List.getElem?_eq_none hend, List.getElem?_eq_none (Nat.le_of_not_lt hj)]

/-- **Overwriting a slot changes that slot.** -/
theorem slotAt_setSlot (h : i ≤ t.length) : slotAt (setSlot t i o) = update (slotAt t) i o := by
  funext j
  by_cases hj : j = i
  · rw [hj, slotAt_setSlot_self h, update_self]
  · rw [slotAt_setSlot_of_ne hj h, update_of_ne hj]

theorem length_setSlot : (setSlot t i o).length = if i < t.length then t.length else t.length + 1 := by
  unfold setSlot
  split
  · exact List.length_set ..
  · exact List.length_append ..

theorem lt_length_setSlot (h : i ≤ t.length) : i < (setSlot t i o).length := by
  rw [length_setSlot]
  split
  · assumption
  · omega

theorem slotAt_setSlot_setSlot {o' : Option α} (h : i ≤ t.length) :
    slotAt (setSlot (setSlot t i o) i o') = update (slotAt t) i o' := by
  rw [slotAt_setSlot (Nat.le_of_lt (lt_length_setSlot h)), slotAt_setSlot h, update_idem]

theorem length_setSlot_setSlot {o' : Option α} (h : i ≤ t.length) :
    (setSlot (setSlot t i o) i o').length = (setSlot t i o).length := by
  have hlt := lt_length_setSlot (o := o) h
  generalize setSlot t i o = u at hlt ⊢
  rw [length_setSlot, if_pos hlt]

/-- An entry that is put into an empty slot and taken out again leaves no trace. -/
theorem slotAt_setSlot_undone (h : i ≤ t.length) (hi : slotAt t i = none) :
    slotAt (setSlot (setSlot t i o) i none) = slotAt t := by
  rw [slotAt_setSlot_setSlot h, ← hi, update_eq_self]

theorem freeSlot_le : freeSlot t ≤ t.length := List.findIdx_le_length

theorem slotAt_freeSlot : slotAt t (freeSlot t) = none := by
  by_cases h : freeSlot t < t.length
  · have hnone : (t[freeSlot t]).isNone = true := List.findIdx_getElem
    unfold slotAt
    rw [List.getElem?_eq_getElem h]
    exact Option.isNone_iff_eq_none.mp hnone
  · exact slotAt_of_ge (Nat.le_of_not_lt h)

end Slots
