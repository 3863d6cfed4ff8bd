import Mathlib.Logic.Function.Basic
import Mathlib.Tactic.Common

/-!
# Ledgers

References own units of a resource.  A ledger says which unit a reference owns, if any; it is exact for a set of units
when it hands out every unit of the set, no others, and none twice.
-/

namespace Ledger

variable {R U : Type} {owns owns' : R → Option U} {used used' : U → Prop} {r : R} {u : U}

/-- The units in use are the ones owned, each by one reference. -/
structure Exact (owns : R → Option U) (used : U → Prop) : Prop where
  inj : ∀ r r' u, owns r = some u → owns r' = some u → r = r'
  used : ∀ u, used u ↔ ∃ r, owns r = some u

theorem Exact.congr (h : Exact owns used) (howns : ∀ r, owns' r = owns r) (hused : ∀ u, used' u ↔ used u) :
    Exact owns' used' where
  inj r r' u hr hr' := h.inj r r' u (howns r ▸ hr) (howns r' ▸ hr')
  used u := by
    rw [hused u, h.used u]
    exact exists_congr fun r => by rw [howns r]

theorem Exact.used_of_owns (h : Exact owns used) (hr : owns r = some u) : used u := (h.used u).mpr ⟨r, hr⟩

theorem Exact.ne_of_not_used (h : Exact owns used) (hu : ¬ used u) (r : R) : owns r ≠ some u :=
  fun hr => hu (h.used_of_owns hr)

/-- **A reference receives a unit** that was not in use. -/
theorem Exact.assign (h : Exact owns used) (hu : ¬ used u) (hr : owns r = none) (hself : owns' r = some u)
    (hother : ∀ r', r' ≠ r → owns' r' = owns r') (hused : ∀ v, used' v ↔ v = u ∨ used v) : Exact owns' used' where
  inj r₁ r₂ v h₁ h₂ := by
    by_cases hr₁ : r₁ = r
    · by_cases hr₂ : r₂ = r
      · rw [hr₁, hr₂]
      · subst hr₁
        rw [hself] at h₁
        rw [hother r₂ hr₂, ← Option.some.inj h₁] at h₂
        exact absurd h₂ (h.ne_of_not_used hu r₂)
    · rw [hother r₁ hr₁] at h₁
      by_cases hr₂ : r₂ = r
      · subst hr₂
        rw [hself] at h₂
        rw [← Option.some.inj h₂] at h₁
        exact absurd h₁ (h.ne_of_not_used hu r₁)
      · rw [hother r₂ hr₂] at h₂
        exact h.inj r₁ r₂ v h₁ h₂
  used v := by
    rw [hused v]
    constructor
    · rintro (rfl | hv)
      · exact ⟨r, hself⟩
      · obtain ⟨r', hr'⟩ := (h.used v).mp hv
        have hne : r' ≠ r := by
          rintro rfl
          rw [hr] at hr'
          exact nomatch hr'
        exact ⟨r', (hother r' hne).trans hr'⟩
    · rintro ⟨r', hr'⟩
      by_cases hrr : r' = r
      · rw [hrr, hself] at hr'
        exact .inl (Option.some.inj hr').symm
      · rw [hother r' hrr] at hr'
        exact .inr (h.used_of_owns hr')

/-- **A reference gives its unit back.** -/
theorem Exact.release (h : Exact owns used) (hr : owns r = some u) (hself : owns' r = none)
    (hother : ∀ r', r' ≠ r → owns' r' = owns r') (hused : ∀ v, used' v ↔ v ≠ u ∧ used v) : Exact owns' used' where
  inj r₁ r₂ v h₁ h₂ := by
    have hne : ∀ r', owns' r' = some v → r' ≠ r := by
      rintro r' hr' rfl
      rw [hself] at hr'
      exact nomatch hr'
    rw [hother r₁ (hne r₁ h₁)] at h₁
    rw [hother r₂ (hne r₂ h₂)] at h₂
    exact h.inj r₁ r₂ v h₁ h₂
  used v := by
    rw [hused v]
    constructor
    · rintro ⟨hvu, hv⟩
      obtain ⟨r', hr'⟩ := (h.used v).mp hv
      have hne : r' ≠ r := by
        rintro rfl
        rw [hr] at hr'
        exact hvu (Option.some.inj hr').symm
      exact ⟨r', (hother r' hne).trans hr'⟩
    · rintro ⟨r', hr'⟩
      have hne : r' ≠ r := by
        rintro rfl
        rw [hself] at hr'
        exact nomatch hr'
      rw [hother r' hne] at hr'
      refine ⟨?_, h.used_of_owns hr'⟩
      rintro rfl
      exact hne (h.inj r' r v hr' hr)

end Ledger
