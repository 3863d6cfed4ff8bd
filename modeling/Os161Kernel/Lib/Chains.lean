import Mathlib.Logic.Function.Basic
import Mathlib.Logic.Relation
import Mathlib.Tactic.Common

/-!
# Graphs with one way out of every node

A partial function is a graph in which every node has at most one successor; to follow it from a node is to walk a
chain.  `Ending f` says that every chain comes to an end, without a bound on its length and without counting the nodes.
A graph whose chains end has no cycle, and stays so under an arrow that does not lead back to its own source.
-/

namespace Chains

open Relation

variable {α : Type} {f g : α → Option α} {a b x y : α}

/-- There is an arrow from `x` to `y`. -/
def Arrow (f : α → Option α) (x y : α) : Prop := f x = some y

/-- Every chain of arrows comes to an end. -/
def Ending (f : α → Option α) : Prop := ∀ x, Acc (fun y x => Arrow f x y) x

/-- Some chain comes back to where it began. -/
def Cyclic (f : α → Option α) : Prop := ∃ x, TransGen (Arrow f) x x

theorem ending_none : Ending fun _ : α => none := fun _ => ⟨_, fun _ h => nomatch h⟩

/-- **Chains that end do not come back.** -/
theorem Ending.not_cyclic (h : Ending f) : ¬ Cyclic f := by
  rintro ⟨x, hx⟩
  induction h x with
  | intro x _ ih =>
    obtain ⟨y, hxy, hyx⟩ := TransGen.head'_iff.mp hx
    exact ih y hxy (TransGen.tail' hyx hxy)

/-- Taking arrows away leaves chains that end. -/
theorem Ending.of_fewer (h : Ending f) (hfew : ∀ x y, Arrow g x y → Arrow f x y) : Ending g := by
  intro x
  induction h x with
  | intro x _ ih => exact ⟨x, fun y hxy => ih y (hfew x y hxy)⟩

variable [DecidableEq α]

theorem arrow_update_of_ne (hne : x ≠ a) {o : Option α} : Arrow (Function.update f a o) x y ↔ Arrow f x y := by
  rw [Arrow, Function.update_of_ne hne]
  exact Iff.rfl

theorem arrow_update_self : Arrow (Function.update f a (some b)) a y ↔ y = b := by
  rw [Arrow, Function.update_self, Option.some.injEq, eq_comm]

/-- **A new arrow** from `a` to `b` lets chains end as before if `b` does not lead to `a`. -/
theorem Ending.update (h : Ending f) (hmiss : ¬ ReflTransGen (Arrow f) b a) :
    Ending (Function.update f a (some b)) := by
  -- the chain from `b` is the old one, so it ends
  have hb : ∀ z, Acc (fun y x => Arrow f x y) z → ¬ ReflTransGen (Arrow f) z a →
      Acc (fun y x => Arrow (Function.update f a (some b)) x y) z := by
    intro z hz
    induction hz with
    | intro z _ ih =>
      intro hza
      have hne : z ≠ a := fun heq => hza (heq ▸ .refl)
      refine ⟨z, fun y hzy => ?_⟩
      have hzy' := (arrow_update_of_ne hne).mp hzy
      exact ih y hzy' fun hya => hza (.head hzy' hya)
  intro x
  induction h x with
  | intro x _ ih =>
    refine ⟨x, fun y hxy => ?_⟩
    by_cases hx : x = a
    · rw [hx] at hxy
      rw [arrow_update_self.mp hxy]
      exact hb b (h b) hmiss
    · exact ih y ((arrow_update_of_ne hx).mp hxy)

/-- **When a new arrow closes a cycle**: exactly when its target led to its source. -/
theorem Ending.cyclic_update_iff (h : Ending f) (hnone : f a = none) :
    Cyclic (Function.update f a (some b)) ↔ ReflTransGen (Arrow f) b a := by
  constructor
  · intro hcyc
    by_contra hmiss
    exact (h.update hmiss).not_cyclic hcyc
  · intro hba
    have hold : ∀ x y, Arrow f x y → Arrow (Function.update f a (some b)) x y := by
      intro x y hxy
      have hne : x ≠ a := by
        rintro rfl
        exact nomatch hnone.symm.trans hxy
      exact (arrow_update_of_ne hne).mpr hxy
    exact ⟨a, TransGen.head' (arrow_update_self.mpr rfl) (ReflTransGen.mono hold _ _ hba)⟩

end Chains
