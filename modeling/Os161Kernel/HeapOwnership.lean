import Os161Kernel.Kmalloc
import Mathlib.Data.List.Perm.Subperm
import Mathlib.Data.List.Nodup
import Mathlib.Tactic.IntervalCases

/-!
# Who owns kernel memory

An abstract view of the allocator: which frames the kernel holds, which of them the subpage allocator
and its pagerefs use, and which addresses are live.  Ownership is linear.  `Ok L V H` says that the view `H`
is consistent while clients own the addresses in `L` and the pagerefs in `V` are reserved; taking memory
adds an address to `L`, giving it back removes it.

The nodes of the frame list are clients of the allocator too, with their own list.  A page is returned to
the frame list only when no live address lies in it: a full free list of a page contains every block of
it (`full_freelist`).

The lemmas here are about the view alone; the allocator's functions are connected to them in
`HeapInvariant`.
-/

namespace Os161Kernel

open Function

/-- What ownership is about. -/
structure HeapView where
  held : ℕ → Prop
  roots : ℕ → KheapRoot
  refs : ℕ → Pageref
  sized : ℕ → List ℕ
  all : List ℕ
  nodes : List ℕ

/-- A pageref whose free list is what it says. -/
structure Pageref.Good (pr : Pageref) : Prop where
  blocktype : pr.blocktype < 8
  nodup : pr.freelist.Nodup
  blocks : ∀ o ∈ pr.freelist, o < pageSize ∧ sizes pr.blocktype ∣ o
  nfree : pr.nfree = pr.freelist.length

namespace HeapView

/-- The frames of the subpage allocator. -/
def pages (H : HeapView) : List ℕ := H.all.map fun p => (H.refs p).page

/-- A frame that holds pagerefs. -/
def IsRoot (H : HeapView) (f : ℕ) : Prop := ∃ w < 16, (H.roots w).page = some f

/-- The address of a block that is allocated. -/
def LiveBlock (H : HeapView) (x : ℕ) : Prop :=
  ∃ p ∈ H.all, ∃ o < pageSize, x = kvaddr (H.refs p).page + o ∧
    sizes (H.refs p).blocktype ∣ o ∧ o ∉ (H.refs p).freelist

/-- The address of a whole page that is allocated. -/
def LivePage (H : HeapView) (x : ℕ) : Prop :=
  ∃ f, x = kvaddr f ∧ H.held f ∧ f ∉ H.pages ∧ ¬ H.IsRoot f

/-- The address of pageref `j` of root `w`. -/
def IsRef (H : HeapView) (w j p : ℕ) : Prop := ∃ f, (H.roots w).page = some f ∧ p = kvaddr f + 16 * j

/-- The view is consistent, clients own `L` and the pagerefs `V` are reserved. -/
structure Ok (L : List ℕ) (V : List (ℕ × ℕ)) (H : HeapView) : Prop where
  held_lt : ∀ f, H.held f → f < 2 ^ 17
  nodup : H.all.Nodup
  page_inj : ∀ p ∈ H.all, ∀ q ∈ H.all, (H.refs p).page = (H.refs q).page → p = q
  page_held : ∀ p ∈ H.all, H.held (H.refs p).page
  good : ∀ p ∈ H.all, (H.refs p).Good
  root_held : ∀ f, H.IsRoot f → H.held f ∧ f ∉ H.pages
  root_inj : ∀ w < 16, ∀ w' < 16, ∀ f, (H.roots w).page = some f → (H.roots w').page = some f → w = w'
  marked : ∀ p ∈ H.all, ∃ w < 16, ∃ j < 256, H.IsRef w j p ∧ (H.roots w).inuse j = true
  reserved_nodup : V.Nodup
  reserved : ∀ wj ∈ V, wj.1 < 16 ∧ wj.2 < 256 ∧ (H.roots wj.1).inuse wj.2 = true ∧
    ∀ p ∈ H.all, ¬ H.IsRef wj.1 wj.2 p
  sized : ∀ t, ∀ p ∈ H.sized t, p ∈ H.all ∧ (H.refs p).blocktype = t
  sized_nodup : ∀ t, (H.sized t).Nodup
  listed : ∀ p ∈ H.all, p ∈ H.sized (H.refs p).blocktype
  nodes_live : ∀ x ∈ H.nodes, H.LiveBlock x
  live : ∀ x ∈ L, H.LiveBlock x ∨ H.LivePage x
  live_nodup : (H.nodes ++ L).Nodup

end HeapView

/-! ### Addresses and blocks -/

variable {f g o t : ℕ}

theorem kvaddr_add_inj {o' : ℕ} (ho : o < pageSize) (ho' : o' < pageSize)
    (h : kvaddr f + o = kvaddr g + o') : f = g ∧ o = o' := by
  unfold kvaddr at h
  unfold pageSize at *
  omega

theorem kvaddr_inj (h : kvaddr f = kvaddr g) : f = g := by
  unfold kvaddr pageSize at h
  omega

theorem kvaddr_range {x : ℕ} (h : kvaddr f ≤ x ∧ x < kvaddr f + pageSize) (ho : o < pageSize)
    (hx : x = kvaddr g + o) : f = g := by
  unfold kvaddr at *
  unfold pageSize at *
  omega

theorem sizes_pos (t : ℕ) : 0 < sizes t := Nat.mul_pos (by decide) (Nat.two_pow_pos t)

theorem sizes_dvd_pageSize (ht : t < 8) : sizes t ∣ pageSize := by
  unfold sizes pageSize
  interval_cases t <;> decide

theorem blocksPerPage_mul (ht : t < 8) : blocksPerPage t * sizes t = pageSize :=
  Nat.div_mul_cancel (sizes_dvd_pageSize ht)

theorem block_le (ht : t < 8) (ho : o < pageSize) (hdvd : sizes t ∣ o) :
    o + sizes t ≤ pageSize := by
  obtain ⟨k, rfl⟩ := hdvd
  have hpage := blocksPerPage_mul ht
  have hlt : k < blocksPerPage t := by
    rw [← hpage, Nat.mul_comm (blocksPerPage t)] at ho
    exact Nat.lt_of_mul_lt_mul_left ho
  calc sizes t * k + sizes t = (k + 1) * sizes t := by rw [Nat.succ_mul, Nat.mul_comm]
    _ ≤ blocksPerPage t * sizes t := Nat.mul_le_mul_right _ hlt
    _ = pageSize := hpage

/-- **A full free list contains every block of the page.**  It has no repetition, only blocks, and as many
entries as the page has blocks. -/
theorem full_freelist {pr : Pageref} (h : pr.Good) (hfull : pr.nfree = blocksPerPage pr.blocktype) (ho : o < pageSize) (hdvd : sizes pr.blocktype ∣ o) : o ∈ pr.freelist := by
  set size := sizes pr.blocktype with hsize
  have hpage : blocksPerPage pr.blocktype * size = pageSize := blocksPerPage_mul h.blocktype
  have hall : ∀ x, x < pageSize → size ∣ x →
      x ∈ (List.range (blocksPerPage pr.blocktype)).map (· * size) := by
    rintro x hx ⟨k, rfl⟩
    refine List.mem_map.mpr ⟨k, List.mem_range.mpr ?_, Nat.mul_comm k size⟩
    rw [← hpage, Nat.mul_comm (blocksPerPage pr.blocktype)] at hx
    exact Nat.lt_of_mul_lt_mul_left hx
  have hsub : pr.freelist.Subperm ((List.range (blocksPerPage pr.blocktype)).map (· * size)) :=
    List.subperm_of_subset h.nodup fun x hx => hall x (h.blocks x hx).1 (h.blocks x hx).2
  have hlen : ((List.range (blocksPerPage pr.blocktype)).map (· * size)).length ≤ pr.freelist.length := by
    rw [List.length_map, List.length_range, ← hfull, h.nfree]
  exact (hsub.perm_of_length_le hlen).mem_iff.mpr (hall o ho hdvd)

theorem fresh_good (ht : t < 8) :
    (Pageref.mk f t ((List.range (blocksPerPage t)).reverse.map (· * sizes t)) (blocksPerPage t)).Good := by
  refine ⟨ht, ?_, ?_, ?_⟩
  · refine List.Nodup.map ?_ (List.nodup_reverse.mpr List.nodup_range)
    intro a b hab
    exact Nat.eq_of_mul_eq_mul_right (sizes_pos t) hab
  · intro o ho
    obtain ⟨k, hk, rfl⟩ := List.mem_map.mp ho
    have hlt : k < blocksPerPage t := List.mem_range.mp (List.mem_reverse.mp hk)
    refine ⟨?_, Nat.dvd_mul_left _ k⟩
    show k * sizes t < pageSize
    rw [← blocksPerPage_mul ht]
    exact Nat.mul_lt_mul_of_pos_right hlt (sizes_pos t)
  · show blocksPerPage t = _
    rw [List.length_map, List.length_reverse, List.length_range]

namespace HeapView.Ok

variable {L : List ℕ} {V : List (ℕ × ℕ)} {H : HeapView}

variable {x f ptr p o : ℕ} {rest : List ℕ}

theorem live_frame (h : Ok L V H) (hx : x ∈ H.nodes ++ L) :
    ∃ f o, x = kvaddr f + o ∧ o < pageSize ∧ H.held f := by
  have hcases : H.LiveBlock x ∨ H.LivePage x := by
    rcases List.mem_append.mp hx with hn | hl
    · exact .inl (h.nodes_live x hn)
    · exact h.live x hl
  rcases hcases with ⟨p, hp, o, ho, rfl, -, -⟩ | ⟨f, rfl, hf, -, -⟩
  · exact ⟨_, o, rfl, ho, h.page_held p hp⟩
  · exact ⟨f, 0, rfl, by decide, hf⟩

theorem not_live_of_not_held (h : Ok L V H) (hf : ¬ H.held f) : kvaddr f ∉ H.nodes ++ L := by
  intro hmem
  obtain ⟨g, o, heq, ho, hg⟩ := h.live_frame hmem
  obtain ⟨rfl, -⟩ := kvaddr_add_inj (show (0 : ℕ) < pageSize by decide) ho heq
  exact hf hg

theorem unreserve {wj : ℕ × ℕ} (h : Ok L (wj :: V) H) : Ok L V H :=
  { h with
    reserved_nodup := h.reserved_nodup.of_cons
    reserved := fun wj' hwj' => h.reserved wj' (List.mem_cons_of_mem _ hwj') }

theorem forget (h : Ok (x :: L) V H) : Ok L V H :=
  { h with
    live := fun y hy => h.live y (List.mem_cons_of_mem _ hy)
    live_nodup := (List.nodup_middle.mp h.live_nodup).of_cons }

theorem perm {L' : List ℕ} (h : Ok L V H) (hp : L.Perm L') : Ok L' V H :=
  { h with
    live := fun y hy => h.live y (hp.mem_iff.mpr hy)
    live_nodup := (hp.append_left H.nodes).nodup_iff.mp h.live_nodup }

theorem not_mem_of_cons (h : Ok (x :: L) V H) : x ∉ H.nodes ++ L :=
  (List.nodup_cons.mp (List.nodup_middle.mp h.live_nodup)).1

/-! ### Frames -/

theorem grow {held' : ℕ → Prop} (h : Ok L V H) (hsub : ∀ f, H.held f → held' f)
    (hlt : ∀ f, held' f → f < 2 ^ 17) : Ok L V { H with held := held' } :=
  { h with
    held_lt := hlt
    page_held := fun p hp => hsub _ (h.page_held p hp)
    root_held := fun g hg => ⟨hsub g (h.root_held g hg).1, (h.root_held g hg).2⟩
    live := by
      intro x hx
      refine (h.live x hx).imp id ?_
      rintro ⟨g, hxg, hg, hp, hr⟩
      exact ⟨g, hxg, hsub g hg, hp, hr⟩ }

/-- The head of the list is popped: its frame is the kernel's and its node becomes a client's. -/
theorem pop (h : Ok L V H) (hn : H.nodes = ptr :: rest) (hlt : f < 2 ^ 17) :
    Ok (ptr :: L) V { H with held := fun g => H.held g ∨ g = f, nodes := rest } := by
  have hgrow : Ok L V { H with held := fun g => H.held g ∨ g = f } := by
    refine h.grow (fun g => .inl) ?_
    rintro g (hg | rfl)
    · exact h.held_lt g hg
    · exact hlt
  exact { hgrow with
    nodes_live := fun x hx => hgrow.nodes_live x (hn ▸ List.mem_cons_of_mem _ hx)
    live := by
      intro x hx
      rcases List.mem_cons.mp hx with rfl | hx
      · exact .inl (hgrow.nodes_live x (hn ▸ List.mem_cons_self))
      · exact hgrow.live x hx
    live_nodup := by
      have hnodup := h.live_nodup
      rw [hn] at hnodup
      exact List.nodup_middle.mpr hnodup }

theorem own (h : Ok L V H) (hf : H.LivePage (kvaddr f)) (hnew : kvaddr f ∉ H.nodes ++ L) :
    Ok (kvaddr f :: L) V H :=
  { h with
    live := by
      intro x hx
      rcases List.mem_cons.mp hx with rfl | hx
      · exact .inr hf
      · exact h.live x hx
    live_nodup := List.nodup_middle.mpr (List.nodup_cons.mpr ⟨hnew, h.live_nodup⟩) }

theorem release (h : Ok L V H) (hp : f ∉ H.pages) (hr : ¬ H.IsRoot f) (hL : kvaddr f ∉ L) :
    Ok L V { H with held := fun g => H.held g ∧ g ≠ f } where
  held_lt := fun g hg => h.held_lt g hg.1
  nodup := h.nodup
  page_inj := h.page_inj
  page_held := fun p hpa => ⟨h.page_held p hpa, fun heq => hp (heq ▸ List.mem_map_of_mem hpa)⟩
  good := h.good
  root_held := fun g hg => ⟨⟨(h.root_held g hg).1, fun heq => hr (heq ▸ hg)⟩, (h.root_held g hg).2⟩
  root_inj := h.root_inj
  marked := h.marked
  reserved_nodup := h.reserved_nodup
  reserved := h.reserved
  sized := h.sized
  sized_nodup := h.sized_nodup
  listed := h.listed
  nodes_live := h.nodes_live
  live := by
    intro x hx
    refine (h.live x hx).imp id ?_
    rintro ⟨g, hxg, hg, hpg, hrg⟩
    exact ⟨g, hxg, ⟨hg, fun heq => hL (heq ▸ hxg ▸ hx)⟩, hpg, hrg⟩
  live_nodup := h.live_nodup

theorem pushNode {nodes : List ℕ} (h : Ok (ptr :: L) V H) (hb : H.LiveBlock ptr)
    (hperm : nodes.Perm (ptr :: H.nodes)) : Ok L V { H with nodes := nodes } :=
  { h with
    nodes_live := by
      intro x hx
      rcases List.mem_cons.mp (hperm.mem_iff.mp hx) with rfl | hx
      · exact hb
      · exact h.nodes_live x hx
    live := fun x hx => h.live x (List.mem_cons_of_mem _ hx)
    live_nodup := (hperm.append_right L).nodup_iff.mpr (List.nodup_middle.mp h.live_nodup) }

/-! ### Blocks -/

theorem setFreelist {pr : Pageref} (h : Ok L V H) (hgood : pr.Good)
    (hpage : pr.page = (H.refs p).page) (htype : pr.blocktype = (H.refs p).blocktype)
    (hlive : ∀ x ∈ H.nodes ++ L, ∀ o < pageSize, x = kvaddr pr.page + o → o ∉ pr.freelist) :
    Ok L V { H with refs := update H.refs p pr } := by
  have hpg : ∀ q, (update H.refs p pr q).page = (H.refs q).page := by
    intro q
    by_cases hq : q = p
    · rw [hq, update_self, hpage]
    · rw [update_of_ne hq]
  have hty : ∀ q, (update H.refs p pr q).blocktype = (H.refs q).blocktype := by
    intro q
    by_cases hq : q = p
    · rw [hq, update_self, htype]
    · rw [update_of_ne hq]
  have hpages : HeapView.pages { H with refs := update H.refs p pr } = H.pages :=
    List.map_congr_left fun q _ => hpg q
  have hblock : ∀ x ∈ H.nodes ++ L, H.LiveBlock x →
      HeapView.LiveBlock { H with refs := update H.refs p pr } x := by
    rintro x hx ⟨q, hq, o, ho, hxo, hdvd, hfree⟩
    refine ⟨q, hq, o, ho, ?_, ?_, ?_⟩
    · show x = kvaddr (update H.refs p pr q).page + o
      rw [hpg]
      exact hxo
    · show sizes (update H.refs p pr q).blocktype ∣ o
      rw [hty]
      exact hdvd
    · show o ∉ (update H.refs p pr q).freelist
      by_cases hqp : q = p
      · rw [hqp, update_self]
        exact hlive x hx o ho (by rw [hxo, hqp, hpage])
      · rw [update_of_ne hqp]
        exact hfree
  exact {
    held_lt := h.held_lt
    nodup := h.nodup
    page_inj := fun q hq q' hq' heq => h.page_inj q hq q' hq' (by rw [← hpg, ← hpg]; exact heq)
    page_held := fun q hq => by
      show H.held (update H.refs p pr q).page
      rw [hpg]
      exact h.page_held q hq
    good := fun q hq => by
      show (update H.refs p pr q).Good
      by_cases hqp : q = p
      · rw [hqp, update_self]
        exact hgood
      · rw [update_of_ne hqp]
        exact h.good q hq
    root_held := fun f hf => by
      rw [hpages]
      exact h.root_held f hf
    root_inj := h.root_inj
    marked := h.marked
    reserved_nodup := h.reserved_nodup
    reserved := h.reserved
    sized := fun t q hq => ⟨(h.sized t q hq).1, (hty q).trans (h.sized t q hq).2⟩
    sized_nodup := h.sized_nodup
    listed := fun q hq => by
      show q ∈ H.sized (update H.refs p pr q).blocktype
      rw [hty]
      exact h.listed q hq
    nodes_live := fun x hx => hblock x (List.mem_append_left _ hx) (h.nodes_live x hx)
    live := fun x hx => by
      refine (h.live x hx).imp (hblock x (List.mem_append_right _ hx)) ?_
      rintro ⟨f, hxf, hf, hpf, hrf⟩
      exact ⟨f, hxf, hf, by rw [hpages]; exact hpf, hrf⟩
    live_nodup := h.live_nodup }

theorem live_in_page (h : Ok L V H) (hp : p ∈ H.all) (hx : x ∈ H.nodes ++ L)
    (ho : o < pageSize) (hxo : x = kvaddr (H.refs p).page + o) :
    sizes (H.refs p).blocktype ∣ o ∧ o ∉ (H.refs p).freelist := by
  have hcases : H.LiveBlock x ∨ H.LivePage x := by
    rcases List.mem_append.mp hx with hn | hl
    · exact .inl (h.nodes_live x hn)
    · exact h.live x hl
  rcases hcases with ⟨q, hq, o', ho', hxo', hdvd, hfree⟩ | ⟨f, hxf, -, hpf, -⟩
  · obtain ⟨hpage, rfl⟩ := kvaddr_add_inj ho ho' (hxo.symm.trans hxo')
    obtain rfl := h.page_inj p hp q hq hpage
    exact ⟨hdvd, hfree⟩
  · obtain ⟨hpage, -⟩ := kvaddr_add_inj ho (show 0 < pageSize by decide) (hxo.symm.trans hxf)
    exact absurd (List.mem_map_of_mem hp) (hpage ▸ hpf)

theorem allocBlock (h : Ok L V H) (hp : p ∈ H.all)
    (hfl : (H.refs p).freelist = o :: rest) :
    let pr := H.refs p
    let H' := { H with refs := update H.refs p { pr with freelist := rest, nfree := pr.nfree - 1 } }
    Ok ((kvaddr pr.page + o) :: L) V H' ∧ HeapView.LiveBlock H' (kvaddr pr.page + o) := by
  intro pr H'
  have hgood : pr.Good := h.good p hp
  have hnodup : (o :: rest).Nodup := hfl ▸ hgood.nodup
  obtain ⟨hlt, hdvd⟩ := hgood.blocks o (hfl ▸ List.mem_cons_self)
  have hgood' : Pageref.Good { pr with freelist := rest, nfree := pr.nfree - 1 } := by
    refine ⟨hgood.blocktype, hnodup.of_cons, fun x hx => ?_, ?_⟩
    · exact hgood.blocks x (hfl ▸ List.mem_cons_of_mem _ hx)
    · show pr.nfree - 1 = rest.length
      rw [hgood.nfree, hfl, List.length_cons, Nat.add_sub_cancel]
  have hH' : Ok L V H' := by
    refine h.setFreelist hgood' rfl rfl fun x hx o' ho' hxo hmem => ?_
    exact (h.live_in_page hp hx ho' hxo).2 (hfl ▸ List.mem_cons_of_mem _ hmem)
  have hnew : kvaddr pr.page + o ∉ H.nodes ++ L := by
    intro hmem
    exact (h.live_in_page hp hmem hlt rfl).2 (hfl ▸ List.mem_cons_self)
  have hblock : HeapView.LiveBlock H' (kvaddr pr.page + o) := by
    refine ⟨p, hp, o, hlt, ?_, ?_, ?_⟩
    · show _ = kvaddr (update H.refs p _ p).page + o
      rw [update_self]
    · show sizes (update H.refs p _ p).blocktype ∣ o
      rw [update_self]
      exact hdvd
    · show o ∉ (update H.refs p _ p).freelist
      rw [update_self]
      exact (List.nodup_cons.mp hnodup).1
  refine ⟨{ hH' with
    live := ?_
    live_nodup := List.nodup_middle.mpr (List.nodup_cons.mpr ⟨hnew, h.live_nodup⟩) }, hblock⟩
  intro x hx
  rcases List.mem_cons.mp hx with rfl | hx
  · exact .inl hblock
  · exact hH'.live x hx

theorem freeBlock (h : Ok ((kvaddr (H.refs p).page + o) :: L) V H) (hp : p ∈ H.all)
    (ho : o < pageSize) :
    let pr := H.refs p
    let pr' := { pr with freelist := o :: pr.freelist, nfree := pr.nfree + 1 }
    pr'.Good ∧ Ok L V { H with refs := update H.refs p pr' } := by
  intro pr pr'
  have hgood : pr.Good := h.good p hp
  have hmem : kvaddr pr.page + o ∈ H.nodes ++ (kvaddr pr.page + o) :: L :=
    List.mem_append_right _ List.mem_cons_self
  obtain ⟨hdvd, hfree⟩ := h.live_in_page hp hmem ho rfl
  have hgood' : pr'.Good := by
    refine ⟨hgood.blocktype, List.nodup_cons.mpr ⟨hfree, hgood.nodup⟩, fun x hx => ?_, ?_⟩
    · rcases List.mem_cons.mp hx with rfl | hx
      · exact ⟨ho, hdvd⟩
      · exact hgood.blocks x hx
    · show pr.nfree + 1 = (o :: pr.freelist).length
      rw [hgood.nfree, List.length_cons]
  refine ⟨hgood', h.forget.setFreelist hgood' rfl rfl fun x hx o' ho' hxo hmem' => ?_⟩
  rcases List.mem_cons.mp hmem' with rfl | hmem'
  · -- another live address cannot be the block that is freed
    exact h.not_mem_of_cons (hxo ▸ hx)
  · exact (h.forget.live_in_page hp hx ho' hxo).2 hmem'

/-! ### Pagerefs and pages -/

theorem isRef_inj (h : Ok L V H) {w w' j j' : ℕ} (hw : w < 16) (hw' : w' < 16) (hj : j < 256)
    (hj' : j' < 256) (hp : H.IsRef w j p) (hp' : H.IsRef w' j' p) : w = w' ∧ j = j' := by
  obtain ⟨f, hf, rfl⟩ := hp
  obtain ⟨f', hf', heq⟩ := hp'
  obtain ⟨rfl, hjj⟩ := kvaddr_add_inj (show 16 * j < pageSize by unfold pageSize; omega)
    (show 16 * j' < pageSize by unfold pageSize; omega) heq
  exact ⟨h.root_inj w hw w' hw' f hf hf', by omega⟩

end HeapView.Ok

/-- The edit of a root's bitmap and count. -/
def KheapRoot.mark (r : KheapRoot) (j : ℕ) (b : Bool) (n : ℕ) : KheapRoot :=
  { r with inuse := update r.inuse j b, numinuse := n }

namespace HeapView

variable {H : HeapView} {w j n : ℕ} {b : Bool}

/-- A view with one bitmap edited. -/
def marking (H : HeapView) (w j : ℕ) (b : Bool) (n : ℕ) : HeapView :=
  { H with roots := update H.roots w ((H.roots w).mark j b n) }

theorem marking_page (w' : ℕ) : ((H.marking w j b n).roots w').page = (H.roots w').page := by
  show (update H.roots w ((H.roots w).mark j b n) w').page = _
  by_cases h : w' = w
  · rw [h, update_self]
    rfl
  · rw [update_of_ne h]

theorem marking_inuse_self : ((H.marking w j b n).roots w).inuse j = b := by
  show (update H.roots w ((H.roots w).mark j b n) w).inuse j = b
  rw [update_self]
  show update (H.roots w).inuse j b j = b
  rw [update_self]

theorem marking_inuse_other {w' j' : ℕ} (h : ¬ (w' = w ∧ j' = j)) :
    ((H.marking w j b n).roots w').inuse j' = (H.roots w').inuse j' := by
  show (update H.roots w ((H.roots w).mark j b n) w').inuse j' = _
  by_cases hw : w' = w
  · rw [hw, update_self]
    show update (H.roots w).inuse j b j' = _
    rw [update_of_ne fun hj => h ⟨hw, hj⟩]
  · rw [update_of_ne hw]

theorem marking_isRef {w' j' p : ℕ} : (H.marking w j b n).IsRef w' j' p ↔ H.IsRef w' j' p := by
  unfold IsRef
  rw [marking_page]

theorem marking_isRoot {f : ℕ} : (H.marking w j b n).IsRoot f ↔ H.IsRoot f := by
  unfold IsRoot
  simp only [marking_page]

namespace Ok

variable {L : List ℕ} {V : List (ℕ × ℕ)}

theorem reserve (h : Ok L V H) (hw : w < 16) (hj : j < 256) (hfree : (H.roots w).inuse j = false) :
    Ok L ((w, j) :: V) (H.marking w j true n) := by
  have hmark : ∀ w' j', (H.roots w').inuse j' = true →
      ((H.marking w j true n).roots w').inuse j' = true := by
    intro w' j' hin
    by_cases hsame : w' = w ∧ j' = j
    · rw [hsame.1, hsame.2]
      exact marking_inuse_self
    · rw [marking_inuse_other hsame]
      exact hin
  exact {
    held_lt := h.held_lt
    nodup := h.nodup
    page_inj := h.page_inj
    page_held := h.page_held
    good := h.good
    root_held := fun f hf => h.root_held f (marking_isRoot.mp hf)
    root_inj := fun w₁ h₁ w₂ h₂ f hf₁ hf₂ =>
      h.root_inj w₁ h₁ w₂ h₂ f (marking_page w₁ ▸ hf₁) (marking_page w₂ ▸ hf₂)
    marked := fun p hp => by
      obtain ⟨w', hw', j', hj', href, hin⟩ := h.marked p hp
      exact ⟨w', hw', j', hj', marking_isRef.mpr href, hmark w' j' hin⟩
    reserved_nodup := by
      refine List.nodup_cons.mpr ⟨fun hmem => ?_, h.reserved_nodup⟩
      have hin := (h.reserved _ hmem).2.2.1
      rw [hfree] at hin
      exact nomatch hin
    reserved := by
      intro wj hwj
      rcases List.mem_cons.mp hwj with rfl | hwj
      · refine ⟨hw, hj, marking_inuse_self, fun p hp href => ?_⟩
        obtain ⟨w', hw', j', hj', href', hin⟩ := h.marked p hp
        obtain ⟨rfl, rfl⟩ := h.isRef_inj hw hw' hj hj' (marking_isRef.mp href) href'
        rw [hfree] at hin
        exact nomatch hin
      · obtain ⟨hw', hj', hin, hno⟩ := h.reserved wj hwj
        exact ⟨hw', hj', hmark _ _ hin, fun p hp href => hno p hp (marking_isRef.mp href)⟩
    sized := h.sized
    sized_nodup := h.sized_nodup
    listed := h.listed
    nodes_live := h.nodes_live
    live := fun x hx => (h.live x hx).imp id fun ⟨f, hxf, hf, hp, hr⟩ =>
      ⟨f, hxf, hf, hp, fun hroot => hr (marking_isRoot.mp hroot)⟩
    live_nodup := h.live_nodup }

theorem setRootPage {f : ℕ} {r : KheapRoot} (h : Ok (kvaddr f :: L) V H) (hf : H.LivePage (kvaddr f))
    (hnone : (H.roots w).page = none) (hr : r = { H.roots w with page := some f }) :
    Ok L V { H with roots := update H.roots w r } := by
  obtain ⟨f', hff', hheld, hpages, hroot⟩ := hf
  obtain rfl := kvaddr_inj hff'
  set H' : HeapView := { H with roots := update H.roots w r } with hH'
  have hpage : ∀ w' g, (H'.roots w').page = some g → (w' = w ∧ g = f) ∨ (H.roots w').page = some g := by
    intro w' g hg
    by_cases hw : w' = w
    · left
      refine ⟨hw, ?_⟩
      rw [hH', hw] at hg
      simp only [update_self, hr] at hg
      exact (Option.some.inj hg).symm
    · right
      rw [hH'] at hg
      simpa only [update_of_ne hw] using hg
  have hkeep : ∀ w' g, (H.roots w').page = some g → H'.roots w' = H.roots w' := by
    intro w' g hg
    refine update_of_ne (fun hw => ?_) _ _
    rw [hw, hnone] at hg
    exact nomatch hg
  have hinuse : ∀ w' j', (H'.roots w').inuse j' = (H.roots w').inuse j' := by
    intro w' j'
    by_cases hw : w' = w
    · rw [hH', hw]
      simp only [update_self, hr]
    · rw [hH']
      simp only [update_of_ne hw]
  -- no pageref in use lies in the new page, which was no root before
  have hout : ∀ p ∈ H.all, ∀ j', p = kvaddr f + 16 * j' → j' < 256 → False := by
    intro p hp j' hpf hj'
    obtain ⟨w₁, hw₁, j₁, hj₁, ⟨f₁, hf₁, hpf₁⟩, -⟩ := h.marked p hp
    obtain ⟨rfl, -⟩ := kvaddr_add_inj (show 16 * j' < pageSize by unfold pageSize; omega)
      (show 16 * j₁ < pageSize by unfold pageSize; omega) (hpf.symm.trans hpf₁)
    exact hroot ⟨w₁, hw₁, hf₁⟩
  have hforget := h.forget
  exact {
    held_lt := h.held_lt
    nodup := h.nodup
    page_inj := h.page_inj
    page_held := h.page_held
    good := h.good
    root_held := by
      rintro g ⟨w', hw', hg⟩
      rcases hpage w' g hg with ⟨-, rfl⟩ | hg
      · exact ⟨hheld, hpages⟩
      · exact h.root_held g ⟨w', hw', hg⟩
    root_inj := by
      intro w₁ h₁ w₂ h₂ g hg₁ hg₂
      rcases hpage w₁ g hg₁ with ⟨hw₁, hgf⟩ | hold₁
      · rcases hpage w₂ g hg₂ with ⟨hw₂, -⟩ | hold₂
        · rw [hw₁, hw₂]
        · exact absurd ⟨w₂, h₂, hgf ▸ hold₂⟩ hroot
      · rcases hpage w₂ g hg₂ with ⟨-, hgf⟩ | hold₂
        · exact absurd ⟨w₁, h₁, hgf ▸ hold₁⟩ hroot
        · exact h.root_inj w₁ h₁ w₂ h₂ g hold₁ hold₂
    marked := by
      intro p hp
      obtain ⟨w', hw', j', hj', ⟨g, hg, hpg⟩, hin⟩ := h.marked p hp
      refine ⟨w', hw', j', hj', ⟨g, ?_, hpg⟩, ?_⟩
      · rw [hkeep w' g hg]
        exact hg
      · rw [hinuse]
        exact hin
    reserved_nodup := h.reserved_nodup
    reserved := by
      intro wj hwj
      obtain ⟨hw', hj', hin, hno⟩ := h.reserved wj hwj
      refine ⟨hw', hj', (hinuse _ _).trans hin, fun p hp href => ?_⟩
      obtain ⟨g, hg, hpg⟩ := href
      rcases hpage wj.1 g hg with ⟨-, rfl⟩ | hg
      · exact hout p hp wj.2 hpg hj'
      · exact hno p hp ⟨g, hg, hpg⟩
    sized := h.sized
    sized_nodup := h.sized_nodup
    listed := h.listed
    nodes_live := h.nodes_live
    live := by
      intro x hx
      refine (hforget.live x hx).imp id ?_
      rintro ⟨g, hxg, hg, hpg, hrg⟩
      refine ⟨g, hxg, hg, hpg, ?_⟩
      rintro ⟨w', hw', hg'⟩
      rcases hpage w' g hg' with ⟨-, rfl⟩ | hg'
      · exact h.not_mem_of_cons (List.mem_append_right _ (hxg ▸ hx))
      · exact hrg ⟨w', hw', hg'⟩
    live_nodup := hforget.live_nodup }

theorem addPage {f p t : ℕ} {pr : Pageref} (h : Ok (kvaddr f :: L) ((w, j) :: V) H)
    (hf : H.LivePage (kvaddr f)) (href : H.IsRef w j p) (hgood : pr.Good) (hpage : pr.page = f)
    (htype : pr.blocktype = t) :
    Ok L V { H with
      refs := update H.refs p pr
      sized := update H.sized t (p :: H.sized t)
      all := p :: H.all } := by
  obtain ⟨f', hff', hheld, hpages, hroot⟩ := hf
  obtain rfl := kvaddr_inj hff'
  obtain ⟨hw, hj, hin, hno⟩ := h.reserved (w, j) List.mem_cons_self
  have hnew : p ∉ H.all := fun hp => hno p hp href
  have hself : update H.refs p pr p = pr := update_self ..
  have hold : ∀ q ∈ H.all, update H.refs p pr q = H.refs q := by
    intro q hq
    have hqp : q ≠ p := fun heq => hnew (heq ▸ hq)
    exact update_of_ne hqp ..
  have hne : ∀ q ∈ H.all, (H.refs q).page ≠ f := fun q hq heq =>
    hpages (heq ▸ List.mem_map_of_mem hq)
  have hforget := h.forget
  set H' : HeapView := { H with
    refs := update H.refs p pr
    sized := update H.sized t (p :: H.sized t)
    all := p :: H.all } with hH'
  have hpages' : ∀ g, g ∈ H'.pages ↔ g = f ∨ g ∈ H.pages := by
    intro g
    show g ∈ (update H.refs p pr p).page :: H.all.map _ ↔ _
    rw [List.mem_cons, hself, hpage]
    refine or_congr Iff.rfl ?_
    show g ∈ H.all.map (fun q => (update H.refs p pr q).page) ↔ g ∈ H.pages
    rw [List.map_congr_left fun q hq => congrArg Pageref.page (hold q hq)]
    rfl
  have hblock : ∀ x, H.LiveBlock x → H'.LiveBlock x := by
    rintro x ⟨q, hq, o, ho, hx, hdvd, hfree⟩
    refine ⟨q, List.mem_cons_of_mem _ hq, o, ho, ?_, ?_, ?_⟩
    · show x = kvaddr (update H.refs p pr q).page + o
      rw [hold q hq]
      exact hx
    · show sizes (update H.refs p pr q).blocktype ∣ o
      rw [hold q hq]
      exact hdvd
    · show o ∉ (update H.refs p pr q).freelist
      rw [hold q hq]
      exact hfree
  exact {
    held_lt := h.held_lt
    nodup := List.nodup_cons.mpr ⟨hnew, h.nodup⟩
    page_inj := by
      intro q hq q' hq' heq
      have heq' : (update H.refs p pr q).page = (update H.refs p pr q').page := heq
      rcases List.mem_cons.mp hq with hqp | hq
      · rcases List.mem_cons.mp hq' with hqp' | hq'
        · rw [hqp, hqp']
        · rw [hqp, hself, hold q' hq', hpage] at heq'
          exact absurd heq'.symm (hne q' hq')
      · rcases List.mem_cons.mp hq' with hqp' | hq'
        · rw [hqp', hself, hold q hq, hpage] at heq'
          exact absurd heq' (hne q hq)
        · rw [hold q hq, hold q' hq'] at heq'
          exact h.page_inj q hq q' hq' heq'
    page_held := by
      intro q hq
      show H.held (update H.refs p pr q).page
      rcases List.mem_cons.mp hq with rfl | hq
      · rw [hself, hpage]
        exact hheld
      · rw [hold q hq]
        exact h.page_held q hq
    good := by
      intro q hq
      show (update H.refs p pr q).Good
      rcases List.mem_cons.mp hq with rfl | hq
      · rw [hself]
        exact hgood
      · rw [hold q hq]
        exact h.good q hq
    root_held := by
      intro g hg
      refine ⟨(h.root_held g hg).1, fun hmem => ?_⟩
      rcases (hpages' g).mp hmem with rfl | hmem
      · exact hroot hg
      · exact (h.root_held g hg).2 hmem
    root_inj := h.root_inj
    marked := by
      intro q hq
      rcases List.mem_cons.mp hq with rfl | hq
      · exact ⟨w, hw, j, hj, href, hin⟩
      · exact h.marked q hq
    reserved_nodup := h.reserved_nodup.of_cons
    reserved := by
      intro wj hwj
      obtain ⟨hw', hj', hin', hno'⟩ := h.reserved wj (List.mem_cons_of_mem _ hwj)
      refine ⟨hw', hj', hin', fun q hq href' => ?_⟩
      rcases List.mem_cons.mp hq with rfl | hq
      · obtain ⟨h₁, h₂⟩ := h.isRef_inj hw hw' hj hj' href href'
        have heq : (w, j) = wj := Prod.ext h₁ h₂
        exact (List.nodup_cons.mp h.reserved_nodup).1 (heq ▸ hwj)
      · exact hno' q hq href'
    sized := by
      intro t' q hq
      have hq' : q ∈ update H.sized t (p :: H.sized t) t' := hq
      show q ∈ p :: H.all ∧ (update H.refs p pr q).blocktype = t'
      have hcases : (q = p ∧ t' = t) ∨ q ∈ H.sized t' := by
        by_cases ht : t' = t
        · rw [ht, update_self] at hq'
          rcases List.mem_cons.mp hq' with hqp | hq'
          · exact .inl ⟨hqp, ht⟩
          · exact .inr (ht ▸ hq')
        · rw [update_of_ne ht] at hq'
          exact .inr hq'
      rcases hcases with ⟨rfl, rfl⟩ | hq'
      · exact ⟨List.mem_cons_self, by rw [hself]; exact htype⟩
      · obtain ⟨hall, hty⟩ := h.sized t' q hq'
        exact ⟨List.mem_cons_of_mem _ hall, by rw [hold q hall]; exact hty⟩
    sized_nodup := by
      intro t'
      show (update H.sized t (p :: H.sized t) t').Nodup
      by_cases ht : t' = t
      · rw [ht, update_self]
        exact List.nodup_cons.mpr ⟨fun hp => hnew (h.sized t p hp).1, h.sized_nodup t⟩
      · rw [update_of_ne ht]
        exact h.sized_nodup t'
    listed := by
      intro q hq
      show q ∈ update H.sized t (p :: H.sized t) (update H.refs p pr q).blocktype
      rcases List.mem_cons.mp hq with rfl | hq
      · rw [hself, htype, update_self]
        exact List.mem_cons_self
      · rw [hold q hq]
        have hlist := h.listed q hq
        by_cases ht : (H.refs q).blocktype = t
        · rw [ht, update_self]
          exact List.mem_cons_of_mem _ (ht ▸ hlist)
        · rw [update_of_ne ht]
          exact hlist
    nodes_live := fun x hx => hblock x (h.nodes_live x hx)
    live := by
      intro x hx
      refine (hforget.live x hx).imp (hblock x) ?_
      rintro ⟨g, hxg, hg, hpg, hrg⟩
      refine ⟨g, hxg, hg, fun hmem => ?_, hrg⟩
      rcases (hpages' g).mp hmem with rfl | hmem
      · exact h.not_mem_of_cons (List.mem_append_right _ (hxg ▸ hx))
      · exact hpg hmem
    live_nodup := hforget.live_nodup }

/-- A heap page all of whose blocks are free leaves the lists.  No live address lies in it, so its frame is
in no other use. -/
theorem dropPage {p : ℕ} (h : Ok L V H) (hp : p ∈ H.all)
    (hfull : (H.refs p).nfree = blocksPerPage (H.refs p).blocktype) (hw : w < 16) (hj : j < 256)
    (href : H.IsRef w j p) :
    let t := (H.refs p).blocktype
    let H' := HeapView.marking { H with
      sized := update H.sized t ((H.sized t).erase p)
      all := H.all.erase p } w j false n
    Ok L V H' ∧ (H.refs p).page ∉ H'.pages ∧ ¬ H'.IsRoot (H.refs p).page ∧
      kvaddr (H.refs p).page ∉ L := by
  intro t H'
  have hgood := h.good p hp
  have hsub : ∀ q, q ∈ H.all.erase p → q ∈ H.all ∧ q ≠ p := fun q hq =>
    ⟨List.mem_of_mem_erase hq, fun heq => h.nodup.not_mem_erase (heq ▸ hq)⟩
  have hpagesub : ∀ g, g ∈ H'.pages → g ∈ H.pages ∧ g ≠ (H.refs p).page := by
    intro g hg
    obtain ⟨q, hq, rfl⟩ := List.mem_map.mp hg
    obtain ⟨hqa, hqp⟩ := hsub q hq
    exact ⟨List.mem_map_of_mem hqa, fun heq => hqp (h.page_inj q hqa p hp heq)⟩
  -- an address in the page would be a block that is not free, but all are
  have hnone : ∀ x ∈ H.nodes ++ L, ∀ o < pageSize, x = kvaddr (H.refs p).page + o → False := by
    intro x hx o ho hxo
    obtain ⟨hdvd, hfree⟩ := h.live_in_page hp hx ho hxo
    exact hfree (full_freelist hgood hfull ho hdvd)
  have hblock : ∀ x ∈ H.nodes ++ L, H.LiveBlock x → H'.LiveBlock x := by
    rintro x hx ⟨q, hq, o, ho, hxo, hdvd, hfree⟩
    have hqp : q ≠ p := fun heq => hnone x hx o ho (heq ▸ hxo)
    exact ⟨q, (List.mem_erase_of_ne hqp).mpr hq, o, ho, hxo, hdvd, hfree⟩
  have hinuse : ∀ w' j' q, q ∈ H.all → q ≠ p → w' < 16 → j' < 256 → H.IsRef w' j' q →
      (H'.roots w').inuse j' = (H.roots w').inuse j' := by
    intro w' j' q hq hqp hw' hj' href'
    refine marking_inuse_other ?_
    rintro ⟨rfl, rfl⟩
    obtain ⟨g, hg, hqg⟩ := href'
    obtain ⟨g', hg', hpg⟩ := href
    obtain rfl : g = g' := Option.some.inj (hg.symm.trans hg')
    exact hqp (hqg.trans hpg.symm)
  refine ⟨?_, fun hmem => (hpagesub _ hmem).2 rfl, fun hroot => ?_, fun hmem => ?_⟩
  · exact {
      held_lt := h.held_lt
      nodup := h.nodup.erase p
      page_inj := fun q hq q' hq' heq => h.page_inj q (hsub q hq).1 q' (hsub q' hq').1 heq
      page_held := fun q hq => h.page_held q (hsub q hq).1
      good := fun q hq => h.good q (hsub q hq).1
      root_held := fun g hg => by
        obtain ⟨hheld, hno⟩ := h.root_held g (marking_isRoot.mp hg)
        exact ⟨hheld, fun hmem => hno (hpagesub g hmem).1⟩
      root_inj := fun w₁ h₁ w₂ h₂ g hg₁ hg₂ =>
        h.root_inj w₁ h₁ w₂ h₂ g (marking_page w₁ ▸ hg₁) (marking_page w₂ ▸ hg₂)
      marked := fun q hq => by
        obtain ⟨hqa, hqp⟩ := hsub q hq
        obtain ⟨w', hw', j', hj', href', hin⟩ := h.marked q hqa
        refine ⟨w', hw', j', hj', marking_isRef.mpr href', ?_⟩
        rw [hinuse w' j' q hqa hqp hw' hj' href']
        exact hin
      reserved_nodup := h.reserved_nodup
      reserved := fun wj hwj => by
        obtain ⟨hw', hj', hin, hno⟩ := h.reserved wj hwj
        refine ⟨hw', hj', ?_, fun q hq href' => hno q (hsub q hq).1 (marking_isRef.mp href')⟩
        refine (marking_inuse_other ?_).trans hin
        rintro ⟨h₁, h₂⟩
        exact hno p hp (h₁ ▸ h₂ ▸ href)
      sized := fun t' q hq => by
        have hq' : q ∈ update H.sized t ((H.sized t).erase p) t' := hq
        have hmem : q ∈ H.sized t' ∧ q ≠ p := by
          by_cases ht : t' = t
          · rw [ht, update_self] at hq'
            refine ⟨ht ▸ List.mem_of_mem_erase hq', fun heq => ?_⟩
            exact (h.sized_nodup t).not_mem_erase (heq ▸ hq')
          · rw [update_of_ne ht] at hq'
            refine ⟨hq', fun heq => ht ?_⟩
            rw [← (h.sized t' q hq').2, heq]
        obtain ⟨hall, hty⟩ := h.sized t' q hmem.1
        exact ⟨(List.mem_erase_of_ne hmem.2).mpr hall, hty⟩
      sized_nodup := fun t' => by
        show (update H.sized t ((H.sized t).erase p) t').Nodup
        by_cases ht : t' = t
        · rw [ht, update_self]
          exact (h.sized_nodup t).erase p
        · rw [update_of_ne ht]
          exact h.sized_nodup t'
      listed := fun q hq => by
        obtain ⟨hqa, hqp⟩ := hsub q hq
        show q ∈ update H.sized t ((H.sized t).erase p) (H.refs q).blocktype
        have hlist := h.listed q hqa
        by_cases ht : (H.refs q).blocktype = t
        · rw [ht, update_self]
          exact (List.mem_erase_of_ne hqp).mpr (ht ▸ hlist)
        · rw [update_of_ne ht]
          exact hlist
      nodes_live := fun x hx => hblock x (List.mem_append_left _ hx) (h.nodes_live x hx)
      live := fun x hx => by
        refine (h.live x hx).imp (hblock x (List.mem_append_right _ hx)) ?_
        rintro ⟨g, hxg, hg, hpg, hrg⟩
        exact ⟨g, hxg, hg, fun hmem => hpg (hpagesub g hmem).1, fun hr => hrg (marking_isRoot.mp hr)⟩
      live_nodup := h.live_nodup }
  · exact (h.root_held _ (marking_isRoot.mp hroot)).2 (List.mem_map_of_mem hp)
  · exact hnone _ (List.mem_append_right _ hmem) 0 (by decide) rfl

end Ok

end HeapView

end Os161Kernel
