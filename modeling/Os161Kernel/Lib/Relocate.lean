import Mathlib.Tactic.Common

/-!
# Items that move between places

A holding relation says which place holds which item with which contents.  One move takes whatever one place
holds to another place that held nothing, and leaves the rest.  Moves lose nothing, invent nothing and keep
an item in at most one place.
-/

namespace Relocate

variable {ι κ ν : Type}

/-- Each item is in at most one place. -/
def Unique (H : ι → κ → ν → Prop) : Prop :=
  ∀ {i j : ι} {k : κ} {v w : ν}, H i k v → H j k w → i = j

/-- The same items with the same contents, wherever they are. -/
def SameItems (H H' : ι → κ → ν → Prop) : Prop := ∀ k v, (∃ i, H' i k v) ↔ ∃ i, H i k v

theorem SameItems.refl (H : ι → κ → ν → Prop) : SameItems H H := fun _ _ => Iff.rfl

theorem SameItems.trans {H H' H'' : ι → κ → ν → Prop} (h : SameItems H H') (h' : SameItems H' H'') :
    SameItems H H'' := fun k v => (h' k v).trans (h k v)

/-- What place `a` held is at place `b`, which held nothing; the rest is where it was. -/
structure Moved (H H' : ι → κ → ν → Prop) (a b : ι) : Prop where
  rest : ∀ i, i ≠ a → i ≠ b → ∀ k v, H' i k v ↔ H i k v
  arrived : ∀ k v, H' b k v ↔ H a k v
  left : ∀ k v, ¬ H' a k v
  free : ∀ k v, ¬ H b k v

namespace Moved

variable {H H' : ι → κ → ν → Prop} {a b : ι}

/-- Where an item held after the move was before it. -/
theorem source (h : Moved H H' a b) {i : ι} {k : κ} {v : ν} (hi : H' i k v) :
    (i = b ∧ H a k v) ∨ (i ≠ a ∧ i ≠ b ∧ H i k v) := by
  by_cases hb : i = b
  · exact .inl ⟨hb, (h.arrived k v).mp (hb ▸ hi)⟩
  · have ha : i ≠ a := fun heq => h.left k v (heq ▸ hi)
    exact .inr ⟨ha, hb, (h.rest i ha hb k v).mp hi⟩

theorem sameItems (h : Moved H H' a b) : SameItems H H' := by
  intro k v
  constructor
  · rintro ⟨i, hi⟩
    rcases h.source hi with ⟨-, ha⟩ | ⟨-, -, hi⟩
    · exact ⟨a, ha⟩
    · exact ⟨i, hi⟩
  · rintro ⟨i, hi⟩
    by_cases ha : i = a
    · exact ⟨b, (h.arrived k v).mpr (ha ▸ hi)⟩
    · have hb : i ≠ b := fun heq => h.free k v (heq ▸ hi)
      exact ⟨i, (h.rest i ha hb k v).mpr hi⟩

theorem unique (h : Moved H H' a b) (hu : Unique H) : Unique H' := by
  intro i j k v w hi hj
  rcases h.source hi with ⟨rfl, hia⟩ | ⟨hia, -, hi⟩
  · rcases h.source hj with ⟨rfl, -⟩ | ⟨hja, -, hj⟩
    · rfl
    · exact absurd (hu hj hia) hja
  · rcases h.source hj with ⟨rfl, hja⟩ | ⟨-, -, hj⟩
    · exact absurd (hu hi hja) hia
    · exact hu hi hj

end Moved

end Relocate
