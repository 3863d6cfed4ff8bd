import Mathlib.Tactic.Common

/-!
# Runs of a labelled step relation

A system is a step relation between states, labelled by what was done.  `Reaches` collects the states of
its runs; a guard restricts a run to steps that meet a condition on the state before the step.  A system
given by a partial function can be run: `follow` executes a list of labels.
-/

namespace Runs

variable {σ ι : Type}

/-- The states that runs from `start` reach. -/
inductive Reaches (step : σ → ι → σ → Prop) (start : σ → Prop) : σ → Prop
  | start {s : σ} (h : start s) : Reaches step start s
  | next {s s' : σ} {i : ι} (hs : Reaches step start s) (h : step s i s') : Reaches step start s'

/-- The steps that meet a condition on the state before. -/
def Guarded (step : σ → ι → σ → Prop) (meets : σ → ι → Prop) : σ → ι → σ → Prop :=
  fun s i s' => meets s i ∧ step s i s'

variable {step : σ → ι → σ → Prop} {start P : σ → Prop}

/-- **Invariant rule.**  What holds at the start and is kept by every step holds in every state reached. -/
theorem Reaches.invariant (hstart : ∀ s, start s → P s) (hstep : ∀ s i s', P s → step s i s' → P s')
    {s : σ} (h : Reaches step start s) : P s := by
  induction h with
  | start h => exact hstart _ h
  | next _ h ih => exact hstep _ _ _ ih h

theorem Reaches.of_guarded {meets : σ → ι → Prop} {s : σ}
    (h : Reaches (Guarded step meets) start s) : Reaches step start s := by
  induction h with
  | start h => exact .start h
  | next _ h ih => exact .next ih h.2

/-- The step relation of a partial step function. -/
def StepOf (f : σ → ι → Option σ) : σ → ι → σ → Prop := fun s i s' => f s i = some s'

/-- Execute the labels in order. -/
def follow (f : σ → ι → Option σ) : List ι → σ → Option σ
  | [], s => some s
  | i :: is, s => (f s i).bind (follow f is)

theorem follow_append (f : σ → ι → Option σ) : ∀ (is js : List ι) (s : σ),
    follow f (is ++ js) s = (follow f is s).bind (follow f js) := by
  intro is js
  induction is with
  | nil => exact fun s => rfl
  | cons i is ih =>
    intro s
    show (f s i).bind (follow f (is ++ js)) = ((f s i).bind (follow f is)).bind (follow f js)
    rw [Option.bind_assoc]
    exact congrArg _ (funext ih)

/-- The step function that refuses a step outside the guard. -/
def restrict (f : σ → ι → Option σ) (meets : σ → ι → Prop) [∀ s i, Decidable (meets s i)] :
    σ → ι → Option σ :=
  fun s i => if meets s i then f s i else none

theorem stepOf_restrict (f : σ → ι → Option σ) (meets : σ → ι → Prop) [∀ s i, Decidable (meets s i)] :
    StepOf (restrict f meets) = Guarded (StepOf f) meets := by
  funext s i s'
  unfold StepOf Guarded restrict
  by_cases h : meets s i
  · simp only [h, if_true, true_and]
  · simp only [h, if_false, false_and, reduceCtorEq]

theorem Reaches.of_follow {f : σ → ι → Option σ} : ∀ (is : List ι) {s s' : σ},
    Reaches (StepOf f) start s → follow f is s = some s' → Reaches (StepOf f) start s' := by
  intro is
  induction is with
  | nil =>
    intro s s' hs h
    rw [← Option.some.inj h]
    exact hs
  | cons i is ih =>
    intro s s' hs h
    obtain ⟨t, ht, hrest⟩ := Option.bind_eq_some_iff.mp h
    exact ih (hs.next ht) hrest

/-- An executed run whose last state passes a test. -/
theorem exists_reaches_of_follow (f : σ → ι → Option σ) (start : σ → Prop) (s : σ) (is : List ι)
    (p : σ → Bool) (hs : start s) (h : (follow f is s).any p = true) :
    ∃ t, Reaches (StepOf f) start t ∧ p t = true := by
  obtain ⟨t, ht, hp⟩ := (Option.any_eq_true p _).mp h
  exact ⟨t, Reaches.of_follow is (.start hs) ht, hp⟩

end Runs
