import Mathlib.Data.List.Basic
import Mathlib.Data.List.Perm.Basic
import Mathlib.Tactic.Common

/-!
# Linear search from the bottom of a table

`firstBelow p n` is the loop `for (i = 0; i < n; i++) if (p i) return i;` over a table of `n` rows.  `leastBelow p key n`
is the loop that remembers the row with the smallest key and replaces it only for a smaller one.  A search through a
list in which at most one entry answers does not depend on the order of the list.
-/

namespace Search

variable {p q : ℕ → Prop} [DecidablePred p] [DecidablePred q] {n i : ℕ}

/-- The smallest index below `n` that satisfies `p`. -/
def firstBelow (p : ℕ → Prop) [DecidablePred p] (n : ℕ) : Option ℕ :=
  (List.range n).find? fun i => decide (p i)

theorem firstBelow_eq_some :
    firstBelow p n = some i ↔ i < n ∧ p i ∧ ∀ j < i, ¬ p j := by
  unfold firstBelow
  rw [List.find?_range_eq_some]
  simp only [decide_eq_true_eq, List.mem_range, Bool.not_eq_true', decide_eq_false_iff_not]
  tauto

theorem firstBelow_eq_none : firstBelow p n = none ↔ ∀ i < n, ¬ p i := by
  simp only [firstBelow, List.find?_eq_none, List.mem_range, decide_eq_true_eq]

theorem lt_of_firstBelow (h : firstBelow p n = some i) : i < n :=
  (firstBelow_eq_some.mp h).1

theorem prop_of_firstBelow (h : firstBelow p n = some i) : p i :=
  (firstBelow_eq_some.mp h).2.1

/-- The search finds something exactly when some row satisfies `p`. -/
theorem firstBelow_isSome : (firstBelow p n).isSome ↔ ∃ i < n, p i := by
  rw [← not_iff_not, Bool.not_eq_true, Option.isSome_eq_false_iff, Option.isNone_iff_eq_none,
    firstBelow_eq_none]
  push Not
  rfl

/-- When at most one row satisfies `p`, the search finds that row. -/
theorem firstBelow_eq_of_unique (hi : i < n) (hp : p i) (huniq : ∀ j < n, p j → j = i) :
    firstBelow p n = some i := by
  rw [firstBelow_eq_some]
  refine ⟨hi, hp, fun j hj hpj => ?_⟩
  have := huniq j (by omega) hpj
  omega

/-! ### The least key -/

section Least

variable {key : ℕ → ℕ} {v : ℕ}

/-- Row `i` has a smaller key than row `j`, or the same key and a lower index. -/
def Before (key : ℕ → ℕ) (i j : ℕ) : Prop := key i < key j ∨ (key i = key j ∧ i ≤ j)

/-- Remember row `i` if its key is smaller. -/
def keepLeast (key : ℕ → ℕ) (best : Option ℕ) (i : ℕ) : Option ℕ :=
  match best with
  | none => some i
  | some b => if key i < key b then some i else some b

/-- The row below `n` with the smallest key among those that satisfy `p`, the lowest of them on a tie. -/
def leastBelow (p : ℕ → Prop) [DecidablePred p] (key : ℕ → ℕ) (n : ℕ) : Option ℕ :=
  (List.range n).foldl (fun best i => if p i then keepLeast key best i else best) none

theorem leastBelow_succ : leastBelow p key (n + 1) =
    if p n then keepLeast key (leastBelow p key n) n else leastBelow p key n := by
  unfold leastBelow
  rw [List.range_succ, List.foldl_append]
  rfl

/-- **What the loop finds**, by induction on the rounds. -/
theorem leastBelow_cases (p : ℕ → Prop) [DecidablePred p] (key : ℕ → ℕ) (n : ℕ) :
    (leastBelow p key n = none ∧ ∀ i < n, ¬ p i) ∨
    ∃ v, leastBelow p key n = some v ∧ v < n ∧ p v ∧ ∀ j < n, p j → Before key v j := by
  induction n with
  | zero => exact .inl ⟨rfl, nofun⟩
  | succ n ih =>
    rw [leastBelow_succ]
    by_cases hn : p n
    · rw [if_pos hn]
      refine .inr ?_
      rcases ih with ⟨hnone, hno⟩ | ⟨v, hsome, hlt, hv, hleast⟩
      · refine ⟨n, by rw [hnone]; rfl, Nat.lt_succ_self n, hn, fun j hj hpj => ?_⟩
        rcases Nat.lt_succ_iff_lt_or_eq.mp hj with hjn | rfl
        · exact absurd hpj (hno j hjn)
        · exact .inr ⟨rfl, Nat.le_refl _⟩
      · rw [hsome]
        unfold keepLeast Before at *
        by_cases hkey : key n < key v
        · refine ⟨n, if_pos hkey, Nat.lt_succ_self n, hn, fun j hj hpj => ?_⟩
          rcases Nat.lt_succ_iff_lt_or_eq.mp hj with hjn | rfl
          · have := hleast j hjn hpj
            omega
          · exact .inr ⟨rfl, Nat.le_refl _⟩
        · refine ⟨v, if_neg hkey, Nat.lt_succ_of_lt hlt, hv, fun j hj hpj => ?_⟩
          rcases Nat.lt_succ_iff_lt_or_eq.mp hj with hjn | rfl
          · exact hleast j hjn hpj
          · omega
    · rw [if_neg hn]
      rcases ih with ⟨hnone, hno⟩ | ⟨v, hsome, hlt, hv, hleast⟩
      · refine .inl ⟨hnone, fun i hi hpi => ?_⟩
        rcases Nat.lt_succ_iff_lt_or_eq.mp hi with hin | rfl
        · exact hno i hin hpi
        · exact hn hpi
      · refine .inr ⟨v, hsome, Nat.lt_succ_of_lt hlt, hv, fun j hj hpj => ?_⟩
        rcases Nat.lt_succ_iff_lt_or_eq.mp hj with hjn | rfl
        · exact hleast j hjn hpj
        · exact absurd hpj hn

theorem leastBelow_eq_none : leastBelow p key n = none ↔ ∀ i < n, ¬ p i := by
  rcases leastBelow_cases p key n with ⟨hnone, hno⟩ | ⟨v, hsome, hlt, hv, -⟩
  · exact iff_of_true hnone hno
  · refine iff_of_false (fun hnone => nomatch hsome.symm.trans hnone) fun hno => hno v hlt hv

theorem leastBelow_eq_some : leastBelow p key n = some v ↔ v < n ∧ p v ∧ ∀ j < n, p j → Before key v j := by
  rcases leastBelow_cases p key n with ⟨hnone, hno⟩ | ⟨w, hsome, hlt, hw, hleast⟩
  · exact iff_of_false (fun hsome => nomatch hnone.symm.trans hsome) fun h => hno v h.1 h.2.1
  · rw [hsome, Option.some.injEq]
    constructor
    · rintro rfl
      exact ⟨hlt, hw, hleast⟩
    · rintro ⟨hvlt, hv, hvleast⟩
      have hwv := hleast v hvlt hv
      have hvw := hvleast w hlt hw
      unfold Before at hwv hvw
      omega

end Least

/-- **A search that one entry can answer** finds the same in any order. -/
theorem findSome?_perm {α β : Type} {f : α → Option β} {l l' : List α} (hp : l.Perm l')
    (hone : l.Pairwise fun x y => f x = none ∨ f y = none) : l.findSome? f = l'.findSome? f := by
  induction hp with
  | nil => rfl
  | cons x _ ih => rw [List.findSome?_cons, List.findSome?_cons, ih hone.of_cons]
  | swap x y l =>
    rw [List.findSome?_cons, List.findSome?_cons, List.findSome?_cons, List.findSome?_cons]
    rcases List.rel_of_pairwise_cons hone List.mem_cons_self with hx | hy
    · cases hy : f x with
      | none => simp [hx]
      | some r => simp [hx]
    · cases hx : f y with
      | none => simp [hy]
      | some r => simp [hy]
  | trans hp _ ih ih' => exact (ih hone).trans (ih' ((hp.pairwise_iff fun h => h.symm).mp hone))

end Search
