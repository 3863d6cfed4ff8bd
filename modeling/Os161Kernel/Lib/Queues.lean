import Mathlib.Data.List.Nodup
import Mathlib.Logic.Function.Basic
import Mathlib.Tactic.Common

/-!
# Families of queues

Elements wait in queues, one queue for each place.  `Apart` says that no element waits twice.  Whatever is done to one
element is a `Placed`: it is taken from wherever it was and put in at most one queue, and the other elements stay where
they are.
-/

namespace Queues

open Function

variable {ι α : Type} {L L' L'' : ι → List α} {p : ι} {q : Option ι} {t : α} {rest : List α}

/-- No element waits twice, in one queue or in two. -/
structure Apart (L : ι → List α) : Prop where
  nodup : ∀ p, (L p).Nodup
  disjoint : ∀ p p' x, x ∈ L p → x ∈ L p' → p = p'

/-- In `L'` the element `t` waits at `q` or, for `none`, nowhere; the others wait where they wait in `L`. -/
structure Placed (t : α) (q : Option ι) (L L' : ι → List α) : Prop where
  nodup : ∀ p, (L p).Nodup → (L' p).Nodup
  mem : ∀ p x, x ∈ L' p ↔ (x = t ∧ q = some p) ∨ (x ≠ t ∧ x ∈ L p)

theorem Placed.apart (h : Placed t q L L') (hL : Apart L) : Apart L' where
  nodup p := h.nodup p (hL.nodup p)
  disjoint p p' x hx hx' := by
    rcases (h.mem p x).mp hx with ⟨hxt, hq⟩ | ⟨hxt, hin⟩
    · rcases (h.mem p' x).mp hx' with ⟨-, hq'⟩ | ⟨hne, -⟩
      · rw [hq] at hq'
        exact Option.some.inj hq'
      · exact absurd hxt hne
    · rcases (h.mem p' x).mp hx' with ⟨heq, -⟩ | ⟨-, hin'⟩
      · exact absurd heq hxt
      · exact hL.disjoint p p' x hin hin'

theorem Placed.mem_of_ne {x : α} (h : Placed t q L L') (hx : x ≠ t) (p : ι) : x ∈ L' p ↔ x ∈ L p := by
  rw [h.mem p x]
  exact ⟨fun hor => hor.elim (fun ht => absurd ht.1 hx) And.right, fun hin => .inr ⟨hx, hin⟩⟩

theorem Placed.mem_self (h : Placed t q L L') (p : ι) : t ∈ L' p ↔ q = some p := by
  rw [h.mem p t]
  exact ⟨fun hor => hor.elim And.right fun ht => absurd rfl ht.1, fun hq => .inl ⟨rfl, hq⟩⟩

theorem Placed.trans (h : Placed t none L L') (h' : Placed t q L' L'') : Placed t q L L'' where
  nodup p hp := h'.nodup p (h.nodup p hp)
  mem p x := by
    rw [h'.mem p x]
    by_cases hx : x = t
    · simp [hx]
    · simp [hx, h.mem_of_ne hx p]

/-- Nothing happens to an element that waits nowhere. -/
theorem placed_none (hno : ∀ p, t ∉ L p) : Placed t none L L where
  nodup _ := id
  mem p x := by
    simp only [reduceCtorEq, and_false, false_or]
    exact ⟨fun hx => ⟨fun hxt => hno p (hxt ▸ hx), hx⟩, And.right⟩

variable [DecidableEq ι]

/-- A queue shrinks by one element that waits in no other. -/
theorem Apart.take (hL : Apart L) (hmem : t ∈ L p) (hnodup : rest.Nodup) (hrest : ∀ x, x ∈ rest ↔ x ≠ t ∧ x ∈ L p) :
    Placed t none L (update L p rest) where
  nodup p' hp' := by
    by_cases hpp : p' = p
    · subst hpp
      rw [update_self]
      exact hnodup
    · rw [update_of_ne hpp]
      exact hp'
  mem p' x := by
    by_cases hpp : p' = p
    · subst hpp
      rw [update_self, hrest x]
      simp
    · rw [update_of_ne hpp]
      have hne : x ∈ L p' → x ≠ t := by
        intro hx hxt
        subst hxt
        exact hpp (hL.disjoint p' p x hx hmem)
      simp only [reduceCtorEq, and_false, false_or]
      exact ⟨fun hx => ⟨hne hx, hx⟩, And.right⟩

theorem Apart.take_head (hL : Apart L) (h : L p = t :: rest) : Placed t none L (update L p rest) := by
  have hnodup := hL.nodup p
  rw [h, List.nodup_cons] at hnodup
  refine hL.take (by simp [h]) hnodup.2 fun x => ?_
  rw [h, List.mem_cons]
  constructor
  · intro hx
    exact ⟨fun hxt => hnodup.1 (hxt ▸ hx), .inr hx⟩
  · rintro ⟨hne, hx⟩
    exact hx.resolve_left hne

theorem Apart.take_last (hL : Apart L) (h : L p = rest ++ [t]) : Placed t none L (update L p rest) := by
  have hnodup := hL.nodup p
  rw [h, List.nodup_append_comm, List.singleton_append, List.nodup_cons] at hnodup
  refine hL.take (by simp [h]) hnodup.2 fun x => ?_
  rw [h, List.mem_append, List.mem_singleton]
  constructor
  · intro hx
    exact ⟨fun hxt => hnodup.1 (hxt ▸ hx), .inl hx⟩
  · rintro ⟨hne, hx⟩
    exact hx.resolve_right hne

/-- A queue grows by one element that waits nowhere. -/
theorem placed_put {l : List α} (hno : ∀ p, t ∉ L p) (hl : l.Perm (t :: L p)) :
    Placed t (some p) L (update L p l) where
  nodup p' hp' := by
    by_cases hpp : p' = p
    · subst hpp
      rw [update_self, hl.nodup_iff]
      exact List.nodup_cons.mpr ⟨hno p', hp'⟩
    · rw [update_of_ne hpp]
      exact hp'
  mem p' x := by
    have hne : x ∈ L p' → x ≠ t := fun hx hxt => hno p' (hxt ▸ hx)
    by_cases hpp : p' = p
    · subst hpp
      rw [update_self, hl.mem_iff, List.mem_cons]
      simp only [and_true]
      exact ⟨fun hx => hx.imp_right fun hin => ⟨hne hin, hin⟩, fun hx => hx.imp_right And.right⟩
    · rw [update_of_ne hpp]
      have hsome : some p ≠ some p' := fun heq => hpp (Option.some.inj heq).symm
      simp only [hsome, and_false, false_or]
      exact ⟨fun hx => ⟨hne hx, hx⟩, And.right⟩

theorem placed_tail (hno : ∀ p, t ∉ L p) : Placed t (some p) L (update L p (L p ++ [t])) :=
  placed_put hno (List.perm_append_singleton t (L p))

theorem placed_head (hno : ∀ p, t ∉ L p) : Placed t (some p) L (update L p (t :: L p)) :=
  placed_put hno (List.Perm.refl _)

theorem Placed.tail (h : Placed t none L L') (p : ι) : Placed t (some p) L (update L' p (L' p ++ [t])) :=
  h.trans (placed_tail fun p' hin => nomatch (h.mem_self p').mp hin)

theorem Placed.head (h : Placed t none L L') (p : ι) : Placed t (some p) L (update L' p (t :: L' p)) :=
  h.trans (placed_head fun p' hin => nomatch (h.mem_self p').mp hin)

end Queues
