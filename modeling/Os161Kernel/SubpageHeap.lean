import Os161Kernel.Lib.LinkedBlocks
import Os161Kernel.Pagerefs

/-!
# The subpage allocator

`subpage_kmalloc` and `subpage_kfree` over page functions that hand out a frame nobody has, or none.
-/

namespace Os161Kernel

open StateProg Search Memory Function

/-- The subpage allocator's view of ownership.  The frame list has no part in it. -/
def Kernel.subpages (s : Kernel) : HeapView :=
  { s.heapView with held := fun f => s.Held f ∧ f < 2 ^ 17, nodes := [] }

theorem HeapView.livePage_kvaddr_iff {H : HeapView} {f : ℕ} :
    H.LivePage (kvaddr f) ↔ H.held f ∧ f ∉ H.pages ∧ ¬ H.IsRoot f := by
  constructor
  · intro ⟨f', heq, h⟩
    exact kvaddr_inj heq ▸ h
  · exact fun h => ⟨f, rfl, h⟩

/-! ### The page functions -/

/-- The subpage allocator's data are the same, and so are the frames the kernel holds, except for those in `X`. -/
structure Spares (X : Set ℕ) (s t : Kernel) : Prop where
  roots : t.kheaproots = s.kheaproots
  refs : t.pagerefs = s.pagerefs
  sized : t.sizebases = s.sizebases
  all : t.allbase = s.allbase
  held : ∀ g, g ∉ X → s.Held g → t.Held g
  bytes : ∀ g, g ∉ X → s.Held g → frameBytes t.ram g = frameBytes s.ram g

/-- `alloc_kpages(1)` returns a frame that was not held, or 0, and `free_kpages` takes back a frame. -/
structure Allocator.Serves (A : Allocator) : Prop where
  alloc : ∀ s, ∃ a t, A.alloc 1 s = .ok a t ∧ Spares ∅ s t ∧
    (a = 0 ∨ ∃ f < 2 ^ 17, a = kvaddr f ∧ ¬ s.Held f ∧ t.Held f)
  free : ∀ f s, s.Held f → ∃ t, A.free (kvaddr f) s = .ok () t ∧ Spares {f} s t

/-- The heap is consistent while clients own `L` and the pagerefs `V` are reserved: every block that is not free is
somebody's, the free lists are threaded through the free blocks, and the roots count their bits. -/
structure Subheap (L : List ℕ) (V : List (ℕ × ℕ)) (s : Kernel) : Prop where
  ok : HeapView.Ok L V s.subpages
  covered : ∀ p ∈ s.allbase, ∀ o < pageSize, sizes (s.pagerefs p).blocktype ∣ o → o ∉ (s.pagerefs p).freelist →
    kvaddr (s.pagerefs p).page + o ∈ L
  linked : ∀ p ∈ s.allbase,
    Linked s.ram ((s.pagerefs p).page * pageSize) (kvaddr (s.pagerefs p).page) (s.pagerefs p).freelist
  counted : ∀ w < 16, (s.kheaproots w).numinuse = (s.kheaproots w).used.card

/-- No page is there for nothing. -/
def Kernel.Occupied (s : Kernel) : Prop :=
  ∀ p ∈ s.allbase, (s.pagerefs p).nfree < blocksPerPage (s.pagerefs p).blocktype

theorem Kernel.Occupied.of_same {s t : Kernel} (h : s.Occupied) (hall : t.allbase = s.allbase)
    (hrefs : t.pagerefs = s.pagerefs) : t.Occupied := by
  unfold Kernel.Occupied
  rw [hall, hrefs]
  exact h

/-! ### Free lists -/

section FreeLists

variable {pr : Pageref} {f g o o' : ℕ} {m m' : Bytes}

theorem nfree_le (h : pr.Good) : pr.nfree ≤ blocksPerPage pr.blocktype := by
  have hsub : pr.freelist ⊆ (List.range (blocksPerPage pr.blocktype)).map (· * sizes pr.blocktype) := by
    intro o ho
    obtain ⟨hlt, k, rfl⟩ := h.blocks o ho
    refine List.mem_map.mpr ⟨k, List.mem_range.mpr ?_, Nat.mul_comm k _⟩
    rw [← blocksPerPage_mul h.blocktype, Nat.mul_comm (blocksPerPage pr.blocktype)] at hlt
    exact Nat.lt_of_mul_lt_mul_left hlt
  have hle := (List.subperm_of_subset h.nodup hsub).length_le
  rwa [List.length_map, List.length_range, ← h.nfree] at hle

theorem nfree_eq_of_all (h : pr.Good) (hall : ∀ o < pageSize, sizes pr.blocktype ∣ o → o ∈ pr.freelist) :
    pr.nfree = blocksPerPage pr.blocktype := by
  have hinj : ((List.range (blocksPerPage pr.blocktype)).map (· * sizes pr.blocktype)).Nodup :=
    List.nodup_range.map fun a b hab => Nat.eq_of_mul_eq_mul_right (sizes_pos _) hab
  have hsub : (List.range (blocksPerPage pr.blocktype)).map (· * sizes pr.blocktype) ⊆ pr.freelist := by
    intro o ho
    obtain ⟨k, hk, rfl⟩ := List.mem_map.mp ho
    refine hall _ ?_ (Nat.dvd_mul_left _ k)
    rw [← blocksPerPage_mul h.blocktype]
    exact Nat.mul_lt_mul_of_pos_right (List.mem_range.mp hk) (sizes_pos _)
  have hle := (List.subperm_of_subset hinj hsub).length_le
  rw [List.length_map, List.length_range, ← h.nfree] at hle
  exact Nat.le_antisymm (nfree_le h) hle

theorem sixteen_le_sizes (t : ℕ) : 16 ≤ sizes t := Nat.le_mul_of_pos_right 16 (Nat.two_pow_pos t)

theorem Pageref.Good.link_fits (h : pr.Good) (ho : o ∈ pr.freelist) : o + 4 ≤ pageSize := by
  obtain ⟨hlt, hdvd⟩ := h.blocks o ho
  have hfit := block_le h.blocktype hlt hdvd
  have hsize := sixteen_le_sizes pr.blocktype
  omega

theorem load32_of_frameBytes (h : frameBytes m' f = frameBytes m f) (ho : o + 4 ≤ pageSize) :
    load32 m' (f * pageSize + o) = load32 m (f * pageSize + o) := by
  refine load32_congr fun k hk => ?_
  have hlt : o + k < 4096 := by
    unfold pageSize at ho
    omega
  have hbyte := congrFun h ⟨o + k, hlt⟩
  rw [Nat.add_assoc]
  exact hbyte

theorem linked_of_frameBytes (h : Linked m (f * pageSize) (kvaddr f) pr.freelist) (hgood : pr.Good)
    (hbytes : frameBytes m' f = frameBytes m f) : Linked m' (f * pageSize) (kvaddr f) pr.freelist :=
  h.congr fun _ ho => load32_of_frameBytes hbytes (hgood.link_fits ho)

/-- The assertions of the loop that cuts page `prpage` into blocks: a block is not linked to itself, and the last one is
the head of the free list. -/
def CutAsserted (prpage ty : ℕ) (pr : Pageref) : Prop :=
  (∀ i, 1 ≤ i → i < pr.nfree → prpage + i * sizes ty ≠ prpage + (i - 1) * sizes ty) ∧
    pr.freelist.head? = some ((pr.nfree - 1) * sizes ty)

theorem newHeapPage_asserted {s : Kernel} {p prpage ty : ℕ} (hty : ty < 8) :
    CutAsserted prpage ty ((s.newHeapPage p prpage ty).pagerefs p) := by
  have hpos : 0 < blocksPerPage ty :=
    Nat.div_pos (Nat.le_of_dvd (by decide) (sizes_dvd_pageSize hty)) (sizes_pos ty)
  have hself : (s.newHeapPage p prpage ty).pagerefs p = ⟨frameIndex prpage, ty,
      (List.range (blocksPerPage ty)).reverse.map (· * sizes ty), blocksPerPage ty⟩ := update_self ..
  rw [hself]
  constructor
  · intro i hi _ heq
    have hlt : (i - 1) * sizes ty < i * sizes ty :=
      Nat.mul_lt_mul_of_pos_right (Nat.sub_lt hi Nat.one_pos) (sizes_pos ty)
    omega
  · show ((List.range (blocksPerPage ty)).reverse.map (· * sizes ty)).head? = _
    obtain ⟨n, hn⟩ := Nat.exists_eq_add_of_lt hpos
    rw [hn, Nat.zero_add, List.range_succ, List.reverse_append]
    rfl

end FreeLists

namespace Subheap

variable {L : List ℕ} {V : List (ℕ × ℕ)} {X : Set ℕ} {s t : Kernel} {f p o : ℕ}

theorem good (h : Subheap L V s) (hp : p ∈ s.allbase) : (s.pagerefs p).Good := h.ok.good p hp

theorem page_held (h : Subheap L V s) (hp : p ∈ s.allbase) : s.Held (s.pagerefs p).page := (h.ok.page_held p hp).1

theorem page_lt (h : Subheap L V s) (hp : p ∈ s.allbase) : (s.pagerefs p).page < 2 ^ 17 := (h.ok.page_held p hp).2

/-! ### Frames -/

/-- The rest of the kernel does something with frames that are neither the heap's nor a client's. -/
theorem spares (h : Subheap L V s) (hst : Spares X s t)
    (hX : ∀ f ∈ X, f ∉ s.subpages.pages ∧ ¬ s.subpages.IsRoot f ∧ kvaddr f ∉ L) : Subheap L V t := by
  have hview : t.subpages = { s.subpages with held := fun f => t.Held f ∧ f < 2 ^ 17 } := by
    unfold Kernel.subpages Kernel.heapView
    rw [hst.roots, hst.refs, hst.sized, hst.all]
  have hpage : ∀ p ∈ s.allbase, (s.pagerefs p).page ∉ X := fun p hp hmem =>
    (hX _ hmem).1 (List.mem_map_of_mem hp)
  refine ⟨?_, ?_, ?_, ?_⟩
  · rw [hview]
    exact { h.ok with
      held_lt := fun f hf => hf.2
      page_held := fun p hp => ⟨hst.held _ (hpage p hp) (h.page_held hp), h.page_lt hp⟩
      root_held := by
        intro f hf
        obtain ⟨⟨hheld, hlt⟩, hno⟩ := h.ok.root_held f hf
        exact ⟨⟨hst.held f (fun hmem => (hX f hmem).2.1 hf) hheld, hlt⟩, hno⟩
      live := by
        intro x hx
        refine (h.ok.live x hx).imp id ?_
        intro ⟨f, hxf, ⟨hheld, hlt⟩, hno, hroot⟩
        exact ⟨f, hxf, ⟨hst.held f (fun hmem => (hX f hmem).2.2 (hxf ▸ hx)) hheld, hlt⟩, hno, hroot⟩ }
  · rw [hst.all, hst.refs]
    exact h.covered
  · rw [hst.all, hst.refs]
    intro p hp
    exact linked_of_frameBytes (h.linked p hp) (h.good hp) (hst.bytes _ (hpage p hp) (h.page_held hp))
  · rw [hst.roots]
    exact h.counted

theorem spares_none (h : Subheap L V s) (hst : Spares ∅ s t) : Subheap L V t :=
  h.spares hst fun f hf => absurd hf (Set.notMem_empty f)

theorem own (h : Subheap L V s) (hst : Spares ∅ s t) (hlt : f < 2 ^ 17) (hnew : ¬ s.Held f) (hheld : t.Held f) :
    Subheap (kvaddr f :: L) V t ∧ t.subpages.LivePage (kvaddr f) := by
  have hview := h.spares_none hst
  have hpages : f ∉ s.subpages.pages := by
    intro hmem
    obtain ⟨p, hp, hpf⟩ := List.mem_map.mp hmem
    exact hnew (hpf ▸ h.page_held hp)
  have hroot : ¬ s.subpages.IsRoot f := fun hr => hnew (h.ok.root_held f hr).1.1
  have hlive : t.subpages.LivePage (kvaddr f) := by
    refine ⟨f, rfl, ⟨hheld, hlt⟩, ?_, ?_⟩
    · show f ∉ t.allbase.map fun p => (t.pagerefs p).page
      rw [hst.all, hst.refs]
      exact hpages
    · show ¬ ∃ w < 16, (t.kheaproots w).page = some f
      rw [hst.roots]
      exact hroot
  have hnone : kvaddr f ∉ L := fun hmem =>
    h.ok.not_live_of_not_held (fun hf => hnew hf.1) (List.mem_append_right _ hmem)
  refine ⟨⟨hview.ok.own hlive hnone, ?_, hview.linked, hview.counted⟩, hlive⟩
  exact fun p hp o ho hdvd hfree => List.mem_cons_of_mem _ (hview.covered p hp o ho hdvd hfree)

theorem forgetPage (h : Subheap (kvaddr f :: L) V s) (hpages : f ∉ s.subpages.pages) : Subheap L V s := by
  refine ⟨h.ok.forget, fun p hp o ho hdvd hfree => ?_, h.linked, h.counted⟩
  refine (List.mem_cons.mp (h.covered p hp o ho hdvd hfree)).resolve_left fun heq => hpages ?_
  obtain ⟨rfl, -⟩ := kvaddr_add_inj ho (show 0 < pageSize by decide) heq
  exact List.mem_map_of_mem hp

theorem perm {L' : List ℕ} (h : Subheap L V s) (hp : L.Perm L') : Subheap L' V s :=
  ⟨h.ok.perm hp, fun p hp' o ho hdvd hfree => hp.mem_iff.mp (h.covered p hp' o ho hdvd hfree), h.linked, h.counted⟩

theorem giveBack (h : Subheap (kvaddr f :: L) V s) (hlive : s.subpages.LivePage (kvaddr f)) (hst : Spares {f} s t) :
    Subheap L V t := by
  obtain ⟨-, hpages, hroot⟩ := HeapView.livePage_kvaddr_iff.mp hlive
  refine (h.forgetPage hpages).spares hst fun g hg => ?_
  obtain rfl := Set.mem_singleton_iff.mp hg
  exact ⟨hpages, hroot, fun hmem => h.ok.not_mem_of_cons (List.mem_append_right _ hmem)⟩

/-! ### Blocks -/

theorem allocBlock {rest : List ℕ} (h : Subheap L V s) (hp : p ∈ s.allbase)
    (hfl : (s.pagerefs p).freelist = o :: rest) :
    Subheap ((kvaddr (s.pagerefs p).page + o) :: L) V
      (s.setPageref p { s.pagerefs p with freelist := rest, nfree := (s.pagerefs p).nfree - 1 }) := by
  refine ⟨(h.ok.allocBlock hp hfl).1, fun q hq => ?_, fun q hq => ?_, h.counted⟩
  · show ∀ o' < pageSize, sizes (update s.pagerefs p _ q).blocktype ∣ o' →
      o' ∉ (update s.pagerefs p _ q).freelist → kvaddr (update s.pagerefs p _ q).page + o' ∈ _
    intro o' ho' hdvd hfree
    by_cases hqp : q = p
    · rw [hqp, update_self] at hdvd hfree ⊢
      by_cases hoo : o' = o
      · rw [hoo]
        exact List.mem_cons_self
      · refine List.mem_cons_of_mem _ (h.covered p hp o' ho' hdvd ?_)
        rw [hfl, List.mem_cons]
        exact fun hmem => hmem.elim hoo hfree
    · rw [update_of_ne hqp] at hdvd hfree ⊢
      exact List.mem_cons_of_mem _ (h.covered q hq o' ho' hdvd hfree)
  · show Linked s.ram ((update s.pagerefs p _ q).page * pageSize)
      (kvaddr (update s.pagerefs p _ q).page) (update s.pagerefs p _ q).freelist
    by_cases hqp : q = p
    · rw [hqp, update_self]
      have hlinked := h.linked p hp
      rw [hfl] at hlinked
      exact hlinked.2
    · rw [update_of_ne hqp]
      exact h.linked q hq

theorem linkTo_lt (h : Subheap L V s) (hp : p ∈ s.allbase) :
    linkTo (kvaddr (s.pagerefs p).page) (s.pagerefs p).freelist < 2 ^ 32 := by
  have hlt := h.page_lt hp
  cases hfl : (s.pagerefs p).freelist with
  | nil => exact Nat.two_pow_pos 32
  | cons o rest =>
    have ho := ((h.good hp).blocks o (hfl ▸ List.mem_cons_self)).1
    show kvaddr (s.pagerefs p).page + o < 2 ^ 32
    unfold kvaddr kseg0
    unfold pageSize at *
    omega

theorem freeBlock (h : Subheap ((kvaddr (s.pagerefs p).page + o) :: L) V s) (hp : p ∈ s.allbase) (ho : o < pageSize) :
    Subheap L V (s.freeBlock p o) := by
  have hmem : kvaddr (s.pagerefs p).page + o ∈ s.subpages.nodes ++ (kvaddr (s.pagerefs p).page + o) :: L :=
    List.mem_append_right _ List.mem_cons_self
  obtain ⟨hdvd, hfree⟩ := h.ok.live_in_page hp hmem ho rfl
  have hfit : o + sizes (s.pagerefs p).blocktype ≤ pageSize := block_le (h.good hp).blocktype ho hdvd
  have hsize := sixteen_le_sizes (s.pagerefs p).blocktype
  -- the words outside the block are not written
  have hword : ∀ a, a + 4 ≤ (s.pagerefs p).page * pageSize + o ∨
      (s.pagerefs p).page * pageSize + o + sizes (s.pagerefs p).blocktype ≤ a →
      load32 (s.freeBlock p o).ram a = load32 s.ram a := by
    intro a ha
    show load32 (store32 (overlay s.ram _ _ _) _ _) a = _
    rw [load32_store32_of_disjoint (by omega), load32_overlay_outside (by omega)]
  obtain ⟨-, hok⟩ := HeapView.Ok.freeBlock (H := s.subpages) (p := p) (o := o) h.ok hp ho
  refine ⟨hok, fun q hq => ?_, fun q hq => ?_, h.counted⟩
  · show ∀ o' < pageSize, sizes (update s.pagerefs p _ q).blocktype ∣ o' →
      o' ∉ (update s.pagerefs p _ q).freelist → kvaddr (update s.pagerefs p _ q).page + o' ∈ _
    intro o' ho' hdvd' hfree'
    by_cases hqp : q = p
    · rw [hqp, update_self] at hdvd' hfree' ⊢
      have hold : o' ∉ (s.pagerefs p).freelist := fun hin => hfree' (List.mem_cons_of_mem _ hin)
      refine (List.mem_cons.mp (h.covered p hp o' ho' hdvd' hold)).resolve_left fun heq => hfree' ?_
      obtain ⟨-, rfl⟩ := kvaddr_add_inj ho' ho heq
      exact List.mem_cons_self
    · rw [update_of_ne hqp] at hdvd' hfree' ⊢
      refine (List.mem_cons.mp (h.covered q hq o' ho' hdvd' hfree')).resolve_left fun heq => hqp ?_
      exact h.ok.page_inj q hq p hp (kvaddr_add_inj ho' ho heq).1
  · show Linked _ ((update s.pagerefs p _ q).page * pageSize)
      (kvaddr (update s.pagerefs p _ q).page) (update s.pagerefs p _ q).freelist
    by_cases hqp : q = p
    · rw [hqp, update_self]
      refine ⟨?_, (h.linked p hp).congr fun o' ho' => hword _ ?_⟩
      · have hlink : load32 (s.freeBlock p o).ram ((s.pagerefs p).page * pageSize + o) =
            linkTo (kvaddr (s.pagerefs p).page) (s.pagerefs p).freelist % 2 ^ 32 := by
          show load32 (store32 _ _ _) _ = _
          rw [load32_store32]
          cases (s.pagerefs p).freelist <;> rfl
        rw [hlink, Nat.mod_eq_of_lt (h.linkTo_lt hp)]
      · have hne : o' ≠ o := fun heq => hfree (heq ▸ ho')
        have hapart := apart_of_dvd ((h.good hp).blocks o' ho').2 hdvd hne
        omega
    · rw [update_of_ne hqp]
      have hframe : (s.pagerefs q).page ≠ (s.pagerefs p).page := fun heq => hqp (h.ok.page_inj q hq p hp heq)
      refine (h.linked q hq).congr fun o' ho' => hword _ ?_
      have hlink := (h.good hq).link_fits ho'
      unfold pageSize at *
      omega

/-! ### Pages -/

theorem newHeapPage_link {ty k : ℕ} (hlt : f < 2 ^ 17) (hty : ty < 8) (hk : k < blocksPerPage ty) :
    load32 (s.newHeapPage p (kvaddr f) ty).ram (f * pageSize + k * sizes ty) =
      if k = 0 then 0 else kvaddr f + (k - 1) * sizes ty := by
  have hsize := sixteen_le_sizes ty
  have hend : k * sizes ty + sizes ty ≤ pageSize := by
    rw [← blocksPerPage_mul hty, ← Nat.succ_mul]
    exact Nat.mul_le_mul_right _ hk
  set link := if k = 0 then 0 else kvaddr f + (k - 1) * sizes ty with hlink
  have hbytes : ∀ i < 4, (s.newHeapPage p (kvaddr f) ty).ram (f * pageSize + k * sizes ty + i) = byteOf link i := by
    intro i hi
    have hdiv : (k * sizes ty + i) / sizes ty = k := by
      rw [Nat.mul_comm, Nat.mul_add_div (sizes_pos ty), Nat.div_eq_of_lt (by omega), Nat.add_zero]
    have hmod : (k * sizes ty + i) % sizes ty = i := by
      rw [Nat.mul_comm, Nat.mul_add_mod, Nat.mod_eq_of_lt (by omega)]
    show overlay s.ram (physAddr (kvaddr f)) pageSize _ _ = _
    rw [physAddr_kvaddr_self hlt, Nat.add_assoc, overlay_at (by omega)]
    simp only [hdiv, hmod, hi, if_true]
    rfl
  have hword : link < 2 ^ 32 := by
    rw [hlink]
    split
    · exact Nat.two_pow_pos 32
    · have hle : (k - 1) * sizes ty ≤ k * sizes ty := Nat.mul_le_mul_right _ (Nat.sub_le k 1)
      unfold kvaddr kseg0
      unfold pageSize at *
      omega
  have hstore : load32 (s.newHeapPage p (kvaddr f) ty).ram (f * pageSize + k * sizes ty) =
      load32 (store32 s.ram (f * pageSize + k * sizes ty) link) (f * pageSize + k * sizes ty) := by
    refine load32_congr fun i hi => (hbytes i hi).trans ?_
    exact (overlay_at hi).symm
  rw [hstore, load32_store32, Nat.mod_eq_of_lt hword]

theorem newHeapPage {w j ty : ℕ} (h : Subheap (kvaddr f :: L) ((w, j) :: V) s)
    (hlive : s.subpages.LivePage (kvaddr f)) (href : s.subpages.IsRef w j p) (hty : ty < 8) :
    Subheap L V (s.newHeapPage p (kvaddr f) ty) := by
  have hok := h.ok.addPage hlive href (fresh_good (f := f) hty) rfl rfl
  obtain ⟨⟨-, hlt⟩, hpages, -⟩ := HeapView.livePage_kvaddr_iff.mp hlive
  have hindex : frameIndex (kvaddr f) = f := frameIndex_kvaddr_self (Nat.le_of_lt hlt)
  have hnew : ∀ q ∈ s.allbase, q ≠ p := fun q hq heq =>
    (h.ok.reserved (w, j) List.mem_cons_self).2.2.2 q hq (heq ▸ href)
  have hself : (s.newHeapPage p (kvaddr f) ty).pagerefs p =
      ⟨f, ty, (List.range (blocksPerPage ty)).reverse.map (· * sizes ty), blocksPerPage ty⟩ := by
    show update s.pagerefs p _ p = _
    rw [update_self, hindex]
  have hother : ∀ q ∈ s.allbase, (s.newHeapPage p (kvaddr f) ty).pagerefs q = s.pagerefs q := fun q hq =>
    update_of_ne (hnew q hq) ..
  have hbytes : ∀ g, g ≠ f → frameBytes (s.newHeapPage p (kvaddr f) ty).ram g = frameBytes s.ram g := by
    intro g hg
    show frameBytes (overlay s.ram (physAddr (kvaddr f)) pageSize _) g = _
    rw [physAddr_kvaddr_self hlt]
    exact frameBytes_overlay_of_ne hg (Nat.le_refl _) (by rw [Nat.succ_mul])
  have hframe : ∀ q ∈ s.allbase, (s.pagerefs q).page ≠ f := fun q hq heq => hpages (heq ▸ List.mem_map_of_mem hq)
  refine ⟨?_, fun q hq o ho hdvd hfree => ?_, fun q hq => ?_, h.counted⟩
  · simp only [Kernel.subpages, Kernel.heapView, Kernel.newHeapPage, hindex]
    exact hok
  · rcases List.mem_cons.mp hq with rfl | hq
    · rw [hself] at hdvd hfree
      exact absurd (full_freelist (fresh_good hty) rfl ho hdvd) hfree
    · rw [hother q hq] at hdvd hfree ⊢
      exact (h.forgetPage hpages).covered q hq o ho hdvd hfree
  · rcases List.mem_cons.mp hq with rfl | hq
    · rw [hself]
      exact linked_countdown fun k hk => newHeapPage_link hlt hty hk
    · rw [hother q hq]
      exact linked_of_frameBytes (h.linked q hq) (h.good hq) (hbytes _ (hframe q hq))

theorem counted_setRoot {w : ℕ} {r : KheapRoot} (h : Subheap L V s) (hr : r.numinuse = r.used.card) :
    ∀ v < 16, ((s.setRoot w r).kheaproots v).numinuse = ((s.setRoot w r).kheaproots v).used.card := by
  intro v hv
  show (update s.kheaproots w r v).numinuse = (update s.kheaproots w r v).used.card
  by_cases hvw : v = w
  · rw [hvw, update_self]
    exact hr
  · rw [update_of_ne hvw]
    exact h.counted v hv

theorem dropPage {w j : ℕ} (h : Subheap L V s) (hp : p ∈ s.allbase)
    (hfull : (s.pagerefs p).nfree = blocksPerPage (s.pagerefs p).blocktype) (hw : w < 16) (hj : j < 256)
    (href : s.subpages.IsRef w j p) (hused : (s.kheaproots w).inuse j = true) :
    Subheap (kvaddr (s.pagerefs p).page :: L) V ((s.removeLists p).dropPageref w j) ∧
      ((s.removeLists p).dropPageref w j).subpages.LivePage (kvaddr (s.pagerefs p).page) := by
  obtain ⟨hok, hpage, hroot, hL⟩ := h.ok.dropPage (n := (s.kheaproots w).numinuse - 1) hp hfull hw hj href
  have hlive : ((s.removeLists p).dropPageref w j).subpages.LivePage (kvaddr (s.pagerefs p).page) :=
    ⟨_, rfl, h.ok.page_held p hp, hpage, hroot⟩
  have hmem : ∀ q, q ∈ ((s.removeLists p).dropPageref w j).allbase → q ∈ s.allbase := fun q hq =>
    List.mem_of_mem_erase hq
  refine ⟨⟨hok.own hlive hL, fun q hq o ho hdvd hfree => ?_, fun q hq => h.linked q (hmem q hq), ?_⟩, hlive⟩
  · exact List.mem_cons_of_mem _ (h.covered q (hmem q hq) o ho hdvd hfree)
  · exact h.counted_setRoot (numinuse_cleared (h.counted w hw) hj hused)

theorem takePageref {w j : ℕ} (h : Subheap L V s) (hw : w < 16) (hj : j < 256)
    (hfree : (s.kheaproots w).inuse j = false) : Subheap L ((w, j) :: V) (s.takePageref w j) := by
  have hok := h.ok.reserve (n := (s.kheaproots w).numinuse + 1) hw hj hfree
  exact ⟨hok, h.covered, h.linked, h.counted_setRoot (numinuse_marked (h.counted w hw) hj hfree)⟩

theorem unreserve {wj : ℕ × ℕ} (h : Subheap L (wj :: V) s) : Subheap L V s :=
  ⟨h.ok.unreserve, h.covered, h.linked, h.counted⟩

theorem withPage {w : ℕ} (h : Subheap (kvaddr f :: L) V s) (hlive : s.subpages.LivePage (kvaddr f)) (hw : w < 16)
    (hnone : (s.kheaproots w).page = none) : Subheap L V (s.withPage w f) := by
  have hok := h.ok.setRootPage hlive hnone rfl
  obtain ⟨-, hpages, -⟩ := HeapView.livePage_kvaddr_iff.mp hlive
  exact ⟨hok, (h.forgetPage hpages).covered, h.linked, h.counted_setRoot (h.counted w hw)⟩

end Subheap

/-! ### The functions -/

section Functions

variable {A : Allocator} {L : List ℕ} {V : List (ℕ × ℕ)} {s : Kernel} {p w ty : ℕ}

theorem findFreePage_run : ∀ {ps : List ℕ}, (∀ p ∈ ps, (s.pagerefs p).blocktype = ty) →
    ∃ r, findFreePage ty ps s = .ok r s ∧ ∀ p, r = some p → p ∈ ps ∧ 0 < (s.pagerefs p).nfree := by
  intro ps
  induction ps with
  | nil => exact fun _ => ⟨none, rfl, nofun⟩
  | cons q ps ih =>
    intro htype
    unfold findFreePage
    rw [bind_of_ok (read_apply _ _), kassert, require_of (htype q List.mem_cons_self)]
    show ∃ r, (if 0 < (s.pagerefs q).nfree then _ else _ : Kern (Option ℕ)) s = .ok r s ∧ _
    by_cases hfree : 0 < (s.pagerefs q).nfree
    · rw [if_pos hfree]
      refine ⟨some q, rfl, fun p hp => ?_⟩
      rw [← Option.some.inj hp]
      exact ⟨List.mem_cons_self, hfree⟩
    · rw [if_neg hfree]
      obtain ⟨r, hr, hmem⟩ := ih fun p hp => htype p (List.mem_cons_of_mem _ hp)
      exact ⟨r, hr, fun p hp => ⟨List.mem_cons_of_mem _ (hmem p hp).1, (hmem p hp).2⟩⟩

theorem doalloc_run (hgood : (s.pagerefs p).Good) (hfree : 0 < (s.pagerefs p).nfree) :
    ∃ o rest, (s.pagerefs p).freelist = o :: rest ∧
      doalloc p s = .ok (kvaddr (s.pagerefs p).page + o)
        (s.setPageref p { s.pagerefs p with freelist := rest, nfree := (s.pagerefs p).nfree - 1 }) := by
  cases hfl : (s.pagerefs p).freelist with
  | nil =>
    rw [hgood.nfree, hfl] at hfree
    exact absurd hfree (Nat.lt_irrefl 0)
  | cons o rest =>
    have hlength : (s.pagerefs p).nfree - 1 = rest.length := by
      rw [hgood.nfree, hfl, List.length_cons, Nat.add_sub_cancel]
    have hoffset : o < pageSize := (hgood.blocks o (hfl ▸ List.mem_cons_self)).1
    have hmore : rest ≠ [] → 0 < (s.pagerefs p).nfree - 1 := by
      rw [hlength]
      exact List.length_pos_of_ne_nil
    have hnext : rest.headD 0 < pageSize := by
      cases rest with
      | nil => exact (by decide : 0 < pageSize)
      | cons o' rest => exact (hgood.blocks o' (hfl ▸ List.mem_cons_of_mem _ List.mem_cons_self)).1
    have hlast : rest = [] → (s.pagerefs p).nfree - 1 = 0 := by
      intro hnil
      rw [hlength, hnil]
      rfl
    refine ⟨o, rest, rfl, ?_⟩
    unfold doalloc
    rw [bind_of_ok (read_apply _ _), hfl]
    show (kassert _ _ >>= _ : Kern ℕ) s = _
    rw [kassert, require_of hoffset, kassert, require_of hmore, kassert, require_of hnext, kassert,
      require_of hlast]
    rfl

theorem allocpagerefpage_run (hA : A.Serves) (h : Subheap L V s) (hw : w < 16) (hnone : (s.kheaproots w).page = none) :
    ∃ t, allocpagerefpage A w s = .ok () t ∧ Subheap L V t ∧ t.pagerefs = s.pagerefs ∧ t.allbase = s.allbase := by
  obtain ⟨va, t, halloc, hspares, hcases⟩ := hA.alloc s
  have hnone' : (t.kheaproots w).page = none := by rw [hspares.roots, hnone]
  unfold allocpagerefpage
  rw [bind_of_ok (read_apply _ _), hnone]
  show ∃ t, (A.alloc 1 >>= _ : Kern Unit) s = .ok () t ∧ _
  rw [bind_of_ok halloc]
  rcases hcases with rfl | ⟨f, hf, rfl, hnew, hheld⟩
  · exact ⟨t, rfl, h.spares_none hspares, hspares.refs, hspares.all⟩
  · obtain ⟨hown, hlive⟩ := h.own hspares hf hnew hheld
    have halign : kvaddr f % pageSize = 0 := by
      unfold kvaddr kseg0 pageSize
      omega
    rw [if_neg (kvaddr_ne_zero f), kassert, require_of halign]
    show ∃ u, (if (t.kheaproots w).page = none then _ else _ : Kern Unit) t = .ok () u ∧ _
    rw [if_pos hnone', frameIndex_kvaddr_self (Nat.le_of_lt hf)]
    exact ⟨t.withPage w f, rfl, hown.withPage hlive hw hnone', hspares.refs, hspares.all⟩

theorem allocpageref_run (hA : A.Serves) (h : Subheap L V s) :
    ∃ r t, allocpageref A s = .ok r t ∧ t.pagerefs = s.pagerefs ∧ t.allbase = s.allbase ∧
      ((r = none ∧ Subheap L V t) ∨ ∃ p w j, r = some p ∧ Subheap L ((w, j) :: V) t ∧ t.subpages.IsRef w j p) := by
  cases hfound : s.freePageref with
  | none => exact ⟨none, s, allocpageref_of_none hfound, rfl, rfl, .inl ⟨rfl, h⟩⟩
  | some wj =>
    obtain ⟨w, j⟩ := wj
    obtain ⟨hw, hj, hfree⟩ := freePageref_some hfound
    have htaken := h.takePageref hw hj hfree
    cases hpage : (s.kheaproots w).page with
    | some f =>
      refine ⟨_, _, allocpageref_of_page hfound hpage, rfl, rfl, .inr ⟨_, w, j, rfl, htaken, f, ?_, rfl⟩⟩
      exact (congrArg KheapRoot.page (takePageref_root s w j)).trans hpage
    | none =>
      have hmarked : ((s.takePageref w j).kheaproots w).page = none :=
        (congrArg KheapRoot.page (takePageref_root s w j)).trans hpage
      obtain ⟨t, ht, hinv, hrefs, hall⟩ := allocpagerefpage_run hA htaken hw hmarked
      have hthen : Prog.when (((s.kheaproots w).marked j).page = none) (allocpagerefpage A w) (s.takePageref w j) =
          .ok () t := by
        rw [Prog.when, if_pos (show ((s.kheaproots w).marked j).page = none from hpage)]
        exact ht
      refine ⟨_, t, allocpageref_of_some hfound hthen, hrefs, hall, ?_⟩
      cases hgiven : (t.kheaproots w).page with
      | none => exact .inl ⟨rfl, hinv.unreserve⟩
      | some f => exact .inr ⟨_, w, j, rfl, hinv, f, hgiven, rfl⟩

theorem Subheap.livePage {f : ℕ} (h : Subheap (kvaddr f :: L) V s) (hpages : f ∉ s.subpages.pages) :
    s.subpages.LivePage (kvaddr f) := by
  refine (h.ok.live _ List.mem_cons_self).resolve_left ?_
  intro ⟨p, hp, o, ho, heq, _, _⟩
  obtain ⟨rfl, -⟩ := kvaddr_add_inj (show 0 < pageSize by decide) ho heq
  exact hpages (List.mem_map_of_mem hp)

theorem Subheap.livePage_of_same {f : ℕ} {t : Kernel} (h : Subheap (kvaddr f :: L) V t)
    (hlive : s.subpages.LivePage (kvaddr f)) (hrefs : t.pagerefs = s.pagerefs) (hall : t.allbase = s.allbase) :
    t.subpages.LivePage (kvaddr f) := by
  refine h.livePage ?_
  obtain ⟨-, hpages, -⟩ := HeapView.livePage_kvaddr_iff.mp hlive
  show f ∉ t.allbase.map fun p => (t.pagerefs p).page
  rw [hrefs, hall]
  exact hpages

/-- **A block is taken** from a page that has one; the page is occupied then. -/
theorem doalloc_subheap (h : Subheap L V s) (hp : p ∈ s.allbase) (hfree : 0 < (s.pagerefs p).nfree)
    (hocc : ∀ q ∈ s.allbase, q ≠ p → (s.pagerefs q).nfree < blocksPerPage (s.pagerefs q).blocktype) :
    ∃ a t, doalloc p s = .ok a t ∧ a ≠ 0 ∧ t.Occupied ∧ Keeps L s t ∧ Subheap (a :: L) V t ∧
      ∃ p ∈ t.allbase, t.InPage a p := by
  obtain ⟨o, rest, hfl, hrun⟩ := doalloc_run (h.good hp) hfree
  refine ⟨_, _, hrun, ?_, fun q hq => ?_, doalloc_keeps hrun, h.allocBlock hp hfl, p, hp, (doalloc_inPage hrun).1⟩
  · have hne := kvaddr_ne_zero (s.pagerefs p).page
    omega
  · show (update s.pagerefs p _ q).nfree < blocksPerPage (update s.pagerefs p _ q).blocktype
    by_cases hqp : q = p
    · rw [hqp, update_self]
      exact Nat.lt_of_lt_of_le (Nat.sub_lt hfree Nat.one_pos) (nfree_le (h.good hp))
    · rw [update_of_ne hqp]
      exact hocc q hq hqp

theorem subpageKmalloc_run (hA : A.Serves) (hty : ty < 8) (h : Subheap L V s) (hocc : s.Occupied) :
    ∃ a t, subpageKmalloc A ty s = .ok a t ∧ t.Occupied ∧ Keeps L s t ∧
      ((a = 0 ∧ Subheap L V t) ∨ (a ≠ 0 ∧ Subheap (a :: L) V t ∧ ∃ p ∈ t.allbase, t.InPage a p)) := by
  have htype : ∀ p ∈ s.sizebases ty, (s.pagerefs p).blocktype = ty := fun p hp => (h.ok.sized ty p hp).2
  obtain ⟨r, hfind, hfound⟩ := findFreePage_run htype
  unfold subpageKmalloc
  rw [bind_of_ok (read_apply _ _), bind_of_ok hfind]
  cases r with
  | some p =>
    obtain ⟨hp, hfree⟩ := hfound p rfl
    obtain ⟨a, t, hrun, ha, hocc', hkeeps, hinv, hin⟩ :=
      doalloc_subheap h (h.ok.sized ty p hp).1 hfree fun q hq _ => hocc q hq
    exact ⟨a, t, hrun, hocc', hkeeps, .inr ⟨ha, hinv, hin⟩⟩
  | none =>
    obtain ⟨prpage, t, halloc, hspares, hcases⟩ := hA.alloc s
    have hocc₁ : t.Occupied := hocc.of_same hspares.all hspares.refs
    have hkeeps₁ : Keeps L s t := .of_same hspares.all hspares.refs
    show ∃ a t, (A.alloc 1 >>= _ : Kern ℕ) s = .ok a t ∧ _
    rw [bind_of_ok halloc]
    rcases hcases with rfl | ⟨f, hf, rfl, hnew, hheld⟩
    · exact ⟨0, t, rfl, hocc₁, hkeeps₁, .inl ⟨rfl, h.spares_none hspares⟩⟩
    obtain ⟨hown, hlive⟩ := h.own hspares hf hnew hheld
    have halign : kvaddr f % pageSize = 0 := by
      unfold kvaddr kseg0 pageSize
      omega
    rw [if_neg (kvaddr_ne_zero f), kassert, require_of halign]
    obtain ⟨ref, t₂, href, hrefs₂, hall₂, hcases⟩ := allocpageref_run hA hown
    have hkeeps₂ : Keeps L s t₂ := hkeeps₁.trans (.of_same hall₂ hrefs₂)
    have hocc₂ : t₂.Occupied := hocc₁.of_same hall₂ hrefs₂
    show ∃ a u, (allocpageref A >>= _ : Kern ℕ) t = .ok a u ∧ _
    rw [bind_of_ok href]
    rcases hcases with ⟨rfl, hinv⟩ | ⟨p, w, j, rfl, hinv, hisref⟩
    · -- the page goes back
      have hlive₂ := hinv.livePage_of_same hlive hrefs₂ hall₂
      obtain ⟨t₃, hfree, hspares₃⟩ := hA.free f t₂ (HeapView.livePage_kvaddr_iff.mp hlive₂).1.1
      exact ⟨0, t₃, bind_of_ok hfree, hocc₂.of_same hspares₃.all hspares₃.refs,
        hkeeps₂.trans (.of_same hspares₃.all hspares₃.refs), .inl ⟨rfl, hinv.giveBack hlive₂ hspares₃⟩⟩
    · have hlive₂ := hinv.livePage_of_same hlive hrefs₂ hall₂
      have hnew : p ∉ t₂.allbase := fun hp => (hinv.ok.reserved (w, j) List.mem_cons_self).2.2.2 p hp hisref
      have hpage := hinv.newHeapPage hlive₂ hisref hty
      have hself : ((t₂.newHeapPage p (kvaddr f) ty).pagerefs p).nfree = blocksPerPage ty := by
        show (update t₂.pagerefs p _ p).nfree = _
        rw [update_self]
      have hpos : 0 < blocksPerPage ty :=
        Nat.div_pos (Nat.le_of_dvd (by decide) (sizes_dvd_pageSize hty)) (sizes_pos ty)
      obtain ⟨a, t₃, hrun, ha, hocc₃, hkeeps₃, hinv₃, hin⟩ :=
        doalloc_subheap hpage List.mem_cons_self (by rw [hself]; exact hpos) fun q hq hqp => by
          have hq' : q ∈ t₂.allbase := (List.mem_cons.mp hq).resolve_left hqp
          show (update t₂.pagerefs p _ q).nfree < blocksPerPage (update t₂.pagerefs p _ q).blocktype
          rw [update_of_ne hqp]
          exact hocc₂ q hq'
      refine ⟨a, t₃, ?_, hocc₃, (hkeeps₂.trans (newHeapPage_keeps hnew)).trans hkeeps₃, .inr ⟨ha, hinv₃, hin⟩⟩
      show (Prog.update _ >>= _ : Kern ℕ) t₂ = _
      rw [bind_of_ok (Prog.update_apply _ _)]
      exact hrun

theorem findPage_run {ptr : ℕ} : ∀ {ps : List ℕ}, (∀ p ∈ ps, (s.pagerefs p).blocktype < 8) →
    ∃ r, findPage ptr ps s = .ok r s := by
  intro ps
  induction ps with
  | nil => exact fun _ => ⟨none, rfl⟩
  | cons q ps ih =>
    intro htype
    unfold findPage
    rw [bind_of_ok (read_apply _ _), kassert, require_of (htype q List.mem_cons_self)]
    by_cases hin : kvaddr (s.pagerefs q).page ≤ ptr ∧ ptr < kvaddr (s.pagerefs q).page + pageSize
    · exact ⟨some q, congrFun (if_pos hin) s⟩
    · obtain ⟨r, hr⟩ := ih fun p hp => htype p (List.mem_cons_of_mem _ hp)
      exact ⟨r, (congrFun (if_neg hin) s).trans hr⟩

theorem Kernel.InPage.exists_offset {x : ℕ} (h : s.InPage x p) :
    ∃ o < pageSize, x = kvaddr (s.pagerefs p).page + o :=
  ⟨x - kvaddr (s.pagerefs p).page, Nat.sub_lt_left_of_lt_add h.1 h.2, (Nat.add_sub_cancel' h.1).symm⟩

/-- The stop in `freepageref` at a root that counts pagerefs without having a page. -/
def Unbacked (s : Kernel) (e : Stop) : Prop :=
  e = .kassert "root->numinuse == 0" ∧ ∃ w < 16, (s.kheaproots w).page = none ∧ (s.kheaproots w).numinuse ≠ 0

/-- What `subpage_kfree` leaves: the heap without the block, of the same pages or of one less. -/
structure Freed (L : List ℕ) (V : List (ℕ × ℕ)) (s t : Kernel) : Prop where
  heap : Subheap L V t
  occupied : t.Occupied
  keeps : Keeps L s t
  all : t.allbase ⊆ s.allbase
  page : ∀ q, (t.pagerefs q).page = (s.pagerefs q).page

theorem freeBlock_self (s : Kernel) (p o : ℕ) : (s.freeBlock p o).pagerefs p = { s.pagerefs p with
    freelist := o :: (s.pagerefs p).freelist, nfree := (s.pagerefs p).nfree + 1 } := update_self ..

theorem freeBlock_other {q : ℕ} (o : ℕ) (hq : q ≠ p) : (s.freeBlock p o).pagerefs q = s.pagerefs q :=
  update_of_ne hq ..

theorem freeBlock_page (s : Kernel) (p o q : ℕ) : ((s.freeBlock p o).pagerefs q).page = (s.pagerefs q).page := by
  by_cases hq : q = p
  · rw [hq, freeBlock_self]
  · rw [freeBlock_other o hq]

theorem freeBlock_full {o : ℕ} (h : (s.pagerefs p).nfree + 1 = blocksPerPage (s.pagerefs p).blocktype) :
    ((s.freeBlock p o).pagerefs p).nfree = blocksPerPage ((s.freeBlock p o).pagerefs p).blocktype := by
  rw [freeBlock_self]
  exact h

theorem freeBlock_keeps (s : Kernel) (p o : ℕ) : Keeps L s (s.freeBlock p o) := .setPageref rfl rfl rfl rfl

theorem Subheap.freed_of_not_full {o : ℕ} (h : Subheap L V (s.freeBlock p o)) (hocc : s.Occupied) (hp : p ∈ s.allbase)
    (hfull : (s.pagerefs p).nfree + 1 ≠ blocksPerPage (s.pagerefs p).blocktype) : Freed L V s (s.freeBlock p o) := by
  refine ⟨h, fun q hq => ?_, freeBlock_keeps s p o, fun q hq => hq, freeBlock_page s p o⟩
  by_cases hqp : q = p
  · have hle := nfree_le (h.good (p := p) hp)
    rw [hqp, freeBlock_self] at *
    exact Nat.lt_of_le_of_ne hle hfull
  · rw [freeBlock_other o hqp]
    exact hocc q hq

theorem Subheap.freed_of_full {o w j : ℕ} {t : Kernel} (h : Subheap L V (s.freeBlock p o)) (hocc : s.Occupied)
    (hp : p ∈ s.allbase) (hfull : (s.pagerefs p).nfree + 1 = blocksPerPage (s.pagerefs p).blocktype)
    (hw : w < 16) (hj : j < 256) (href : s.subpages.IsRef w j p) (hused : (s.kheaproots w).inuse j = true)
    (hst : Spares {(s.pagerefs p).page} (((s.freeBlock p o).removeLists p).dropPageref w j) t) : Freed L V s t := by
  have hall : t.allbase = s.allbase.erase p := hst.all
  have hrefs : t.pagerefs = (s.freeBlock p o).pagerefs := hst.refs
  have hfull' := freeBlock_full (o := o) hfull
  obtain ⟨hdropped, hlive⟩ := h.dropPage hp hfull' hw hj href hused
  rw [freeBlock_page] at hdropped hlive
  have hmem : ∀ q, q ∈ t.allbase → q ∈ s.allbase ∧ q ≠ p := by
    intro q hq
    rw [hall] at hq
    have hnodup : s.allbase.Nodup := h.ok.nodup
    exact ⟨List.mem_of_mem_erase hq, fun heq => hnodup.not_mem_erase (heq ▸ hq)⟩
  refine ⟨hdropped.giveBack hlive hst, fun q hq => ?_, fun q hq x hx hin => ?_, fun q hq => (hmem q hq).1, fun q => ?_⟩
  · rw [hrefs, freeBlock_other o (hmem q hq).2]
    exact hocc q (hmem q hq).1
  · obtain ⟨-, hpage, htype⟩ := freeBlock_keeps (L := L) s p o q hq x hx hin
    rw [hall, hrefs]
    refine ⟨(List.mem_erase_of_ne fun hqp => ?_).mpr hq, hpage, htype⟩
    -- all blocks of the page are free, so none of them is a client's
    have hin' : (s.freeBlock p o).InPage x p := by
      unfold Kernel.InPage
      rw [freeBlock_page]
      exact hqp ▸ hin
    obtain ⟨o', ho', hxo⟩ := hin'.exists_offset
    obtain ⟨hdvd, hfree⟩ := h.ok.live_in_page hp (List.mem_append_right _ hx) ho' hxo
    exact hfree (full_freelist (h.good hp) hfull' ho' hdvd)
  · rw [hrefs, freeBlock_page]

/-- **`subpage_kfree` of a client's block** puts it back, and with the last block of a page the page. -/
theorem subpageKfree_run {ptr : ℕ} (hA : A.Serves) (h : Subheap (ptr :: L) V s) (hocc : s.Occupied)
    (hp : p ∈ s.allbase) (hin : s.InPage ptr p) :
    Ends (fun b t => b = true ∧ Freed L V s t) (Unbacked s) (subpageKfree A.free ptr) s := by
  obtain ⟨o, ho, rfl⟩ := hin.exists_offset
  obtain ⟨hdvd, hfree⟩ := h.ok.live_in_page hp (List.mem_append_right _ List.mem_cons_self) ho rfl
  have hput := h.freeBlock hp ho
  have hfind : findPage (kvaddr (s.pagerefs p).page + o) s.allbase s = .ok (some p) s := by
    obtain ⟨r, hr⟩ := findPage_run (s := s) fun q hq => (h.good hq).blocktype
    obtain ⟨-, hsome, hnone⟩ := findPage_ok hr
    cases r with
    | none => exact absurd hin (hnone rfl p hp)
    | some q =>
      obtain ⟨hq, hin'⟩ := hsome q rfl
      rw [h.ok.page_inj q hq p hp (kvaddr_range hin' ho rfl)] at hr
      exact hr
  have hle : (s.pagerefs p).nfree + 1 ≤ blocksPerPage (s.pagerefs p).blocktype := by
    have hle := nfree_le (hput.good (p := p) hp)
    rwa [freeBlock_self] at hle
  have hoffset : kvaddr (s.pagerefs p).page + o - kvaddr (s.pagerefs p).page = o := Nat.add_sub_cancel_left ..
  unfold subpageKfree
  refine ends_bind (ends_read (ends_bind (Ends.of_ok hfind ?_)))
  refine ends_bind (ends_read ?_)
  rw [hoffset]
  refine ends_bind (ends_require (fun _ => ?_) fun hbad => (hbad fun hne => hne (Nat.mod_eq_zero_of_dvd hdvd)).elim)
  refine ends_bind (ends_require (fun _ => ?_) fun hbad => (hbad fun hhead => hfree (List.mem_of_head? hhead)).elim)
  refine ends_bind (ends_update (ends_bind (ends_require (fun _ => ?_) fun hbad => (hbad hle).elim)))
  refine ends_bind (ends_ite (fun hfull => ?_) fun hfull => ?_)
  · obtain ⟨w, hw, j, hj, href, hused⟩ := h.ok.marked p hp
    obtain ⟨f, hf, hpf⟩ := href
    replace hpf : p = refAddress f j := hpf
    have honly : ∀ v < 16, (s.kheaproots v).page = some f → v = w := fun v hv hvf => h.ok.root_inj v hv w hw f hvf hf
    refine ends_bind (ends_update (ends_bind ?_))
    rcases freepageref_cases (s := (s.freeBlock p o).removeLists p) hw hf hj honly hused (h.counted w hw) with
      hok | ⟨hstop, v, hv, hnone, hcount⟩
    · have hlive := (hput.dropPage hp (freeBlock_full hfull) hw hj ⟨f, hf, hpf⟩ hused).2
      rw [freeBlock_page] at hlive
      obtain ⟨t, hback, hspares⟩ := hA.free _ _ (HeapView.livePage_kvaddr_iff.mp hlive).1.1
      rw [← hpf] at hok
      refine Ends.of_ok hok (Ends.of_ok hback (ends_pure ⟨rfl, ?_⟩))
      exact hput.freed_of_full hocc hp hfull hw hj ⟨f, hf, hpf⟩ hused hspares
    · rw [← hpf] at hstop
      unfold Ends
      rw [hstop]
      exact ⟨rfl, v, by omega, hnone, hcount⟩
  · exact ends_pure (ends_pure ⟨rfl, hput.freed_of_not_full hocc hp hfull⟩)

theorem kmallocBody_small {sz : ℕ} (hsz : sz < 2048) :
    ∃ ty < 8, kmallocBody A sz = subpageKmalloc A ty := by
  have hsome : (firstBelow (fun t => sz ≤ sizes t) 8).isSome = true :=
    firstBelow_isSome.mpr ⟨7, by decide, Nat.le_of_lt hsz⟩
  obtain ⟨ty, hty⟩ := Option.isSome_iff_exists.mp hsome
  refine ⟨ty, lt_of_firstBelow hty, ?_⟩
  unfold kmallocBody
  rw [if_neg (Nat.not_le.mpr hsz), hty]

theorem kfreeBody_run {ptr : ℕ} (hA : A.Serves) (h : Subheap (ptr :: L) V s) (hocc : s.Occupied)
    (hp : p ∈ s.allbase) (hin : s.InPage ptr p) :
    Ends (fun _ t => Freed L V s t) (Unbacked s) (kfreeBody A.free ptr) s := by
  have hne : ptr ≠ 0 := by
    have hpos := kvaddr_ne_zero (s.pagerefs p).page
    have hle := hin.1
    omega
  unfold kfreeBody
  rw [if_neg hne]
  refine ends_bind ((subpageKfree_run hA h hocc hp hin).mono fun b t _ hrun => ?_)
  rw [hrun.1, if_pos rfl]
  exact ends_pure hrun.2

end Functions

end Os161Kernel
