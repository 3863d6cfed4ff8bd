import Os161Kernel.Lib.Memory

/-!
# Lists threaded through memory

A free list is often kept in the free blocks themselves: the first word of each block is the address of the next one, and
the last one holds 0.  `Linked m a v l` says so of the blocks at the offsets `l` of a region.  The region is accessed at
`a` and the links are written with the address `v` it is known by.
-/

namespace Memory

variable {m m' : Bytes} {a v o : ℕ} {l : List ℕ}

/-- The address of the first block of a list. -/
def linkTo (v : ℕ) : List ℕ → ℕ
  | [] => 0
  | o :: _ => v + o

/-- The blocks at the offsets `l` are linked in this order. -/
def Linked (m : Bytes) (a v : ℕ) : List ℕ → Prop
  | [] => True
  | o :: rest => load32 m (a + o) = linkTo v rest ∧ Linked m a v rest

theorem Linked.congr (h : Linked m a v l) (hsame : ∀ o ∈ l, load32 m' (a + o) = load32 m (a + o)) :
    Linked m' a v l := by
  induction l with
  | nil => trivial
  | cons o rest ih =>
    refine ⟨?_, ih h.2 fun o' ho' => hsame o' (List.mem_cons_of_mem _ ho')⟩
    rw [hsame o List.mem_cons_self]
    exact h.1

/-- Blocks of one size that are linked from the last to the first. -/
theorem linked_countdown {size : ℕ} : ∀ {n : ℕ},
    (∀ k < n, load32 m (a + k * size) = if k = 0 then 0 else v + (k - 1) * size) →
    Linked m a v ((List.range n).reverse.map (· * size)) := by
  intro n
  induction n with
  | zero => exact fun _ => trivial
  | succ n ih =>
    intro hlinks
    rw [List.range_succ, List.reverse_append, List.reverse_singleton, List.singleton_append, List.map_cons]
    refine ⟨?_, ih fun k hk => hlinks k (Nat.lt_succ_of_lt hk)⟩
    rw [hlinks n (Nat.lt_succ_self n)]
    cases n with
    | zero => rfl
    | succ n =>
      rw [List.range_succ, List.reverse_append, List.reverse_singleton, List.singleton_append, List.map_cons]
      rfl

end Memory
