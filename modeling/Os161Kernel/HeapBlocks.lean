import Os161Kernel.FrameMoves
import Os161Kernel.HeapOwnership

/-!
# A block keeps its size

An address that a client owns is that of a block or of a whole page.  The allocator takes heap pages and gives them up;
the page of a block that somebody owns has to stay, cut into blocks of the same size.

That no call of the allocator does anything else is shown together with the heap invariant.
-/

namespace Os161Kernel

open StateProg Search Memory Function

theorem apart_of_dvd {k o o' : ℕ} (ho : k ∣ o) (ho' : k ∣ o') (hne : o ≠ o') : o + k ≤ o' ∨ o' + k ≤ o := by
  obtain ⟨i, rfl⟩ := ho
  obtain ⟨j, rfl⟩ := ho'
  rcases Nat.lt_trichotomy i j with hlt | rfl | hlt
  · exact .inl (Nat.mul_le_mul_left k hlt)
  · exact absurd rfl hne
  · exact .inr (Nat.mul_le_mul_left k hlt)

/-- The address lies in the heap page of pageref `p`. -/
def Kernel.InPage (s : Kernel) (ptr p : ℕ) : Prop :=
  kvaddr (s.pagerefs p).page ≤ ptr ∧ ptr < kvaddr (s.pagerefs p).page + pageSize

/-- Heap pages with an address of `L` in them stay as they are. -/
def Keeps (L : List ℕ) (s s' : Kernel) : Prop :=
  ∀ p ∈ s.allbase, ∀ x ∈ L, s.InPage x p → p ∈ s'.allbase ∧
    (s'.pagerefs p).page = (s.pagerefs p).page ∧ (s'.pagerefs p).blocktype = (s.pagerefs p).blocktype

namespace Keeps

variable {L L' : List ℕ} {s t u : Kernel}

theorem of_same (hall : t.allbase = s.allbase) (hrefs : t.pagerefs = s.pagerefs) : Keeps L s t := by
  intro p hp x _ _
  rw [hall, hrefs]
  exact ⟨hp, rfl, rfl⟩

theorem refl (s : Kernel) : Keeps L s s := of_same rfl rfl

theorem trans (hst : Keeps L s t) (htu : Keeps L t u) : Keeps L s u := by
  intro p hp x hx hin
  obtain ⟨hp', hpage, htype⟩ := hst p hp x hx hin
  have hin' : t.InPage x p := by
    unfold Kernel.InPage
    rw [hpage]
    exact hin
  obtain ⟨hp'', hpage', htype'⟩ := htu p hp' x hx hin'
  exact ⟨hp'', hpage'.trans hpage, htype'.trans htype⟩

theorem mono (h : Keeps L s t) (hsub : L' ⊆ L) : Keeps L' s t := fun p hp x hx => h p hp x (hsub hx)

theorem setPageref {p : ℕ} {pr : Pageref} (hall : t.allbase = s.allbase)
    (hrefs : t.pagerefs = update s.pagerefs p pr) (hpage : pr.page = (s.pagerefs p).page)
    (htype : pr.blocktype = (s.pagerefs p).blocktype) : Keeps L s t := by
  intro q hq x _ _
  rw [hall, hrefs]
  by_cases hqp : q = p
  · rw [hqp, update_self]
    exact ⟨hqp ▸ hq, hpage, htype⟩
  · rw [update_of_ne hqp]
    exact ⟨hq, rfl, rfl⟩

end Keeps

/-! ### The edits of the heap -/

section Edits

variable {L : List ℕ} {s s' : Kernel}

theorem doalloc_ok {p a : ℕ} (h : doalloc p s = .ok a s') :
    ∃ o rest, (s.pagerefs p).freelist = o :: rest ∧ a = kvaddr (s.pagerefs p).page + o ∧ o < pageSize ∧
      s' = s.setPageref p { s.pagerefs p with freelist := rest, nfree := (s.pagerefs p).nfree - 1 } := by
  unfold doalloc at h
  obtain ⟨_, _, hread, hrest⟩ := bind_ok_iff.mp h
  obtain ⟨rfl, rfl⟩ := read_ok_iff.mp hread
  cases hfl : (s.pagerefs p).freelist with
  | nil =>
    simp only [hfl] at hrest
    exact (stop_ok_iff.mp hrest).elim
  | cons o rest =>
    simp only [hfl, bind_ok_iff, kassert, require_ok_iff, update_ok_iff,
      pure_ok_iff] at hrest
    obtain ⟨_, _, ⟨ho, rfl⟩, _, _, ⟨-, rfl⟩, _, _, ⟨-, rfl⟩, _, _, ⟨-, rfl⟩, _, _, rfl, rfl, rfl⟩ := hrest
    exact ⟨o, rest, rfl, rfl, ho, rfl⟩

theorem doalloc_keeps {p a : ℕ} (h : doalloc p s = .ok a s') : Keeps L s s' := by
  obtain ⟨o, rest, -, -, -, rfl⟩ := doalloc_ok h
  exact .setPageref rfl rfl rfl rfl

theorem doalloc_inPage {p a : ℕ} (h : doalloc p s = .ok a s') :
    s'.InPage a p ∧ (s'.pagerefs p).blocktype = (s.pagerefs p).blocktype ∧ s'.allbase = s.allbase := by
  obtain ⟨o, rest, -, rfl, ho, rfl⟩ := doalloc_ok h
  have hrow : ((s.setPageref p { s.pagerefs p with freelist := rest, nfree := (s.pagerefs p).nfree - 1 }).pagerefs p) =
      { s.pagerefs p with freelist := rest, nfree := (s.pagerefs p).nfree - 1 } := update_self ..
  unfold Kernel.InPage
  rw [hrow]
  exact ⟨⟨Nat.le_add_right _ _, Nat.add_lt_add_left ho _⟩, rfl, rfl⟩

theorem newHeapPage_keeps {p prpage t : ℕ} (hp : p ∉ s.allbase) : Keeps L s (s.newHeapPage p prpage t) := by
  intro q hq x _ _
  have hqp : q ≠ p := fun heq => hp (heq ▸ hq)
  have hrow : (s.newHeapPage p prpage t).pagerefs q = s.pagerefs q := update_of_ne hqp ..
  rw [hrow]
  exact ⟨List.mem_cons_of_mem p hq, rfl, rfl⟩

end Edits

end Os161Kernel
