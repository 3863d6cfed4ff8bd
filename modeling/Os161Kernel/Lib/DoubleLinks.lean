import Mathlib.Data.List.Chain
import Mathlib.Data.List.Nodup
import Mathlib.Logic.Function.Basic
import Mathlib.Tactic.Common

/-!
# Doubly linked nodes

Every node has a pointer to the previous node and one to the next.  `Linked` says that a list of nodes is what the
pointers give in both directions.  Putting a node between two neighbours and taking it out again change the pointers of
these three nodes; every other list keeps its own.
-/

namespace DoubleLinks

open Function

/-- The two pointers of every node. -/
structure Links (N : Type) where
  prev : N → Option N
  next : N → Option N

variable {N : Type} {l l' : Links N} {us vs ns : List N} {a b x : N}

/-- Each node of the list points to the one after it, which points back. -/
def Linked (l : Links N) (ns : List N) : Prop := ns.IsChain fun a b => l.next a = some b ∧ l.prev b = some a

theorem linked_append_cons_cons : Linked l (us ++ a :: b :: vs) ↔
    Linked l (us ++ [a]) ∧ (l.next a = some b ∧ l.prev b = some a) ∧ Linked l (b :: vs) :=
  List.isChain_append_cons_cons

/-- A list depends on the next pointers of all nodes but the last, and on the previous pointers of all but the first. -/
theorem Linked.congr (h : Linked l ns) (hnext : ∀ c ∈ ns.dropLast, l'.next c = l.next c)
    (hprev : ∀ c ∈ ns.tail, l'.prev c = l.prev c) : Linked l' ns := by
  unfold Linked at *
  induction h with
  | nil => exact .nil
  | singleton a => exact .singleton a
  | cons_cons hab _ ih =>
    refine .cons_cons ⟨?_, ?_⟩ (ih ?_ ?_)
    · rw [hnext _ (by simp)]
      exact hab.1
    · rw [hprev _ (by simp)]
      exact hab.2
    · intro c hc
      exact hnext c (by simp [hc])
    · intro c hc
      exact hprev c (by simp [List.mem_of_mem_tail hc])

/-- The pointers the other way round. -/
def Links.flip (l : Links N) : Links N := ⟨l.next, l.prev⟩

theorem Linked.reverse (h : Linked l ns) : Linked l.flip ns.reverse :=
  List.isChain_reverse.mpr (h.imp fun _ _ hab => ⟨hab.2, hab.1⟩)

/-- Only the three nodes `a`, `x` and `b` are concerned: `a` and `x` for the next pointer, `b` and `x` for the
previous one. -/
structure Touches (l l' : Links N) (a x b : N) : Prop where
  next : ∀ c, c ≠ a → c ≠ x → l'.next c = l.next c
  prev : ∀ c, c ≠ b → c ≠ x → l'.prev c = l.prev c

/-- A list without these nodes stays as it is. -/
theorem Touches.other (h : Touches l l' a x b) (hns : Linked l ns) (ha : a ∉ ns) (hx : x ∉ ns) (hb : b ∉ ns) :
    Linked l' ns := by
  refine hns.congr (fun c hc => ?_) fun c hc => ?_
  · have hmem := List.dropLast_subset ns hc
    exact h.next c (ne_of_mem_of_not_mem hmem ha) (ne_of_mem_of_not_mem hmem hx)
  · have hmem := List.mem_of_mem_tail hc
    exact h.prev c (ne_of_mem_of_not_mem hmem hb) (ne_of_mem_of_not_mem hmem hx)

/-- The two parts of a list on either side of the change stay as they are. -/
theorem Touches.ends (h : Touches l l' a x b) (hus : Linked l (us ++ [a])) (hvs : Linked l (b :: vs))
    (hnd : (us ++ a :: x :: b :: vs).Nodup) : Linked l' (us ++ [a]) ∧ Linked l' (b :: vs) := by
  simp only [List.nodup_append, List.nodup_cons, List.mem_cons, not_or] at hnd
  obtain ⟨-, ⟨⟨hax, hab, hav⟩, ⟨hxb, hxv⟩, hbv, -⟩, hdisj⟩ := hnd
  constructor
  · refine hus.congr (fun c hc => ?_) fun c hc => ?_
    · rw [List.dropLast_concat] at hc
      exact h.next c (hdisj c hc a (.inl rfl)) (hdisj c hc x (.inr (.inl rfl)))
    · rcases List.mem_append.mp (List.mem_of_mem_tail hc) with hin | hin
      · exact h.prev c (hdisj c hin b (.inr (.inr (.inl rfl)))) (hdisj c hin x (.inr (.inl rfl)))
      · rw [List.mem_singleton.mp hin]
        exact h.prev a hab hax
  · refine hvs.congr (fun c hc => ?_) fun c hc => ?_
    · rcases List.mem_cons.mp (List.dropLast_subset _ hc) with hin | hin
      · rw [hin]
        exact h.next b (Ne.symm hab) (Ne.symm hxb)
      · exact h.next c (ne_of_mem_of_not_mem hin hav) (ne_of_mem_of_not_mem hin hxv)
    · exact h.prev c (ne_of_mem_of_not_mem hc hbv) (ne_of_mem_of_not_mem hc hxv)

variable [DecidableEq N]

def Links.setPrev (l : Links N) (n : N) (p : Option N) : Links N := { l with prev := update l.prev n p }

def Links.setNext (l : Links N) (n : N) (p : Option N) : Links N := { l with next := update l.next n p }

/-- Put `x` between the neighbours `a` and `b`. -/
def Links.splice (l : Links N) (a x b : N) : Links N :=
  (((l.setPrev x (some a)).setNext x (some b)).setNext a (some x)).setPrev b (some x)

/-- Take `x` out from between `a` and `b`. -/
def Links.unsplice (l : Links N) (a x b : N) : Links N :=
  (((l.setNext a (some b)).setPrev b (some a)).setPrev x none).setNext x none

theorem touches_splice : Touches l (l.splice a x b) a x b where
  next _ ha hx := (update_of_ne ha _ _).trans (update_of_ne hx _ _)
  prev _ hb hx := (update_of_ne hb _ _).trans (update_of_ne hx _ _)

theorem touches_unsplice : Touches l (l.unsplice a x b) a x b where
  next _ ha hx := (update_of_ne hx _ _).trans (update_of_ne ha _ _)
  prev _ hb hx := (update_of_ne hx _ _).trans (update_of_ne hb _ _)

/-- **A node is put between two neighbours.** -/
theorem Linked.splice (h : Linked l (us ++ a :: b :: vs)) (hnd : (us ++ a :: x :: b :: vs).Nodup) :
    Linked (l.splice a x b) (us ++ a :: x :: b :: vs) := by
  obtain ⟨hus, -, hvs⟩ := linked_append_cons_cons.mp h
  obtain ⟨hus', hvs'⟩ := (touches_splice (x := x)).ends hus hvs hnd
  have hmid := hnd.of_append_right
  simp only [List.nodup_cons, List.mem_cons, not_or] at hmid
  obtain ⟨⟨hax, -, -⟩, ⟨hxb, -⟩, -⟩ := hmid
  refine linked_append_cons_cons.mpr ⟨hus', ⟨?_, ?_⟩, .cons_cons ⟨?_, ?_⟩ hvs'⟩
  · exact update_self ..
  · exact (update_of_ne hxb _ _).trans (update_self ..)
  · exact (update_of_ne (Ne.symm hax) _ _).trans (update_self ..)
  · exact update_self ..

/-- **A node is taken out**, and its neighbours become neighbours of each other. -/
theorem Linked.unsplice (h : Linked l (us ++ a :: x :: b :: vs)) (hnd : (us ++ a :: x :: b :: vs).Nodup) :
    Linked (l.unsplice a x b) (us ++ a :: b :: vs) := by
  obtain ⟨hus, -, hvs⟩ := linked_append_cons_cons.mp h
  obtain ⟨hus', hvs'⟩ := (touches_unsplice (x := x)).ends hus (List.IsChain.tail hvs) hnd
  have hmid := hnd.of_append_right
  simp only [List.nodup_cons, List.mem_cons, not_or] at hmid
  obtain ⟨⟨hax, -, -⟩, ⟨hxb, -⟩, -⟩ := hmid
  refine linked_append_cons_cons.mpr ⟨hus', ⟨?_, ?_⟩, hvs'⟩
  · exact (update_of_ne hax _ _).trans (update_self ..)
  · exact (update_of_ne (Ne.symm hxb) _ _).trans (update_self ..)

end DoubleLinks
