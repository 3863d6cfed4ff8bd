import Os161Kernel.SubpageHeap

/-!
# Runs of the subpage allocator

Any sequence of `kmalloc` for less than 2048 bytes and `kfree` of what is live, over page functions that hand out a
frame nobody has, or none.  Each call may have page functions of its own.  The kernel's own are such functions until the
VM starts (`earlyPages`).  From then on they call `kmalloc` and `kfree` themselves, for the nodes of the frame list; what
holds of the heap across that is the subject of `HeapInvariant`.
-/

namespace Os161Kernel

open StateProg Search Memory Runs

/-- The kernel, and the addresses that `kmalloc` has returned and nobody has freed. -/
structure SubpageRun where
  kernel : Kernel
  live : List ℕ

namespace SubpageRun

/-- A call of `kmalloc` or of `kfree`, with the page functions it calls. -/
inductive Op where
  | kmalloc (A : Allocator) (sz : ℕ)
  | kfree (A : Allocator) (ptr : ℕ)

/-- Requests are for less than 2048 bytes, and what is freed is live. -/
def Enabled (r : SubpageRun) : Op → Prop
  | .kmalloc A sz => A.Serves ∧ sz < 2048
  | .kfree A ptr => A.Serves ∧ ptr ∈ r.live

/-- What a call does to the kernel, and its result. -/
def call (r : SubpageRun) : Op → Outcome Stop Kernel ℕ
  | .kmalloc A sz => kmallocBody A sz r.kernel
  | .kfree A ptr => (kfreeBody A.free ptr >>= fun _ => pure ptr : Kern ℕ) r.kernel

/-- The live addresses after a call that returned `a`. -/
def liveAfter (r : SubpageRun) (a : ℕ) : Op → List ℕ
  | .kmalloc _ _ => if a = 0 then r.live else a :: r.live
  | .kfree _ ptr => r.live.erase ptr

def Step (r : SubpageRun) (op : Op) (r' : SubpageRun) : Prop :=
  r.Enabled op ∧ ∃ a, r.call op = .ok a r'.kernel ∧ r'.live = r.liveAfter a op

/-- There are no heap pages and no pagerefs yet. -/
structure Booted (r : SubpageRun) : Prop where
  all : r.kernel.allbase = []
  sized : ∀ t, r.kernel.sizebases t = []
  roots : ∀ w, (r.kernel.kheaproots w).page = none ∧ (r.kernel.kheaproots w).numinuse = 0 ∧
    ∀ j, (r.kernel.kheaproots w).inuse j = false
  live : r.live = []

/-- **The representation invariant.**  The free list of each page is what its pageref says, in memory and in number; its
blocks are free or live and not both; a page is on the lists it belongs on, once, as long as one of its blocks is
live. -/
structure Represented (r : SubpageRun) : Prop where
  good : ∀ p ∈ r.kernel.allbase, (r.kernel.pagerefs p).Good
  linked : ∀ p ∈ r.kernel.allbase, Linked r.kernel.ram ((r.kernel.pagerefs p).page * pageSize)
    (kvaddr (r.kernel.pagerefs p).page) (r.kernel.pagerefs p).freelist
  free_iff : ∀ p ∈ r.kernel.allbase, ∀ o < pageSize, sizes (r.kernel.pagerefs p).blocktype ∣ o →
    (o ∈ (r.kernel.pagerefs p).freelist ↔ kvaddr (r.kernel.pagerefs p).page + o ∉ r.live)
  live : ∀ x ∈ r.live, ∃ p ∈ r.kernel.allbase, ∃ o < pageSize, sizes (r.kernel.pagerefs p).blocktype ∣ o ∧
    x = kvaddr (r.kernel.pagerefs p).page + o
  live_nodup : r.live.Nodup
  sized_iff : ∀ t p, p ∈ r.kernel.sizebases t ↔ p ∈ r.kernel.allbase ∧ (r.kernel.pagerefs p).blocktype = t
  sized_nodup : ∀ t, (r.kernel.sizebases t).Nodup
  all_nodup : r.kernel.allbase.Nodup
  page_inj : ∀ p ∈ r.kernel.allbase, ∀ q ∈ r.kernel.allbase,
    (r.kernel.pagerefs p).page = (r.kernel.pagerefs q).page → p = q
  occupied : ∀ p ∈ r.kernel.allbase, ∃ x ∈ r.live, r.kernel.InPage x p

/-- The operation frees the only live block of the page. -/
def FreesLast (r : SubpageRun) (p : ℕ) : Op → Prop
  | .kmalloc _ _ => False
  | .kfree _ ptr => r.kernel.InPage ptr p ∧ ∀ x ∈ r.live, r.kernel.InPage x p → x = ptr

/-- The heap is consistent and what is live lies in its pages. -/
structure Inv (r : SubpageRun) : Prop where
  heap : Subheap r.live [] r.kernel
  occupied : r.kernel.Occupied
  inPage : ∀ x ∈ r.live, ∃ p ∈ r.kernel.allbase, r.kernel.InPage x p

variable {r r' : SubpageRun} {op : Op}

theorem Inv.booted (h : Booted r) : Inv r := by
  have hno : ∀ p, p ∉ r.kernel.allbase := fun p hp => List.not_mem_nil (h.all ▸ hp)
  have hpage : ∀ w f, (r.kernel.kheaproots w).page ≠ some f := fun w f hf => nomatch (h.roots w).1.symm.trans hf
  have hlive : ∀ x, x ∉ r.live := fun x hx => List.not_mem_nil (h.live ▸ hx)
  have hused : ∀ w, (r.kernel.kheaproots w).used = ∅ := by
    intro w
    refine Finset.filter_false_of_mem fun j _ => ?_
    rw [(h.roots w).2.2 j]
    exact Bool.false_ne_true
  refine ⟨⟨?_, fun p hp => (hno p hp).elim, fun p hp => (hno p hp).elim, fun w _ => ?_⟩, fun p hp => (hno p hp).elim,
    fun x hx => (hlive x hx).elim⟩
  · exact {
      held_lt := fun f hf => hf.2
      nodup := by
        show r.kernel.allbase.Nodup
        rw [h.all]
        exact List.nodup_nil
      page_inj := fun p hp => (hno p hp).elim
      page_held := fun p hp => (hno p hp).elim
      good := fun p hp => (hno p hp).elim
      root_held := fun f ⟨w, _, hw⟩ => (hpage w f hw).elim
      root_inj := fun w _ _ _ f hf => (hpage w f hf).elim
      marked := fun p hp => (hno p hp).elim
      reserved_nodup := List.nodup_nil
      reserved := fun wj hwj => (List.not_mem_nil hwj).elim
      sized := fun t p hp => (List.not_mem_nil (h.sized t ▸ hp : p ∈ [])).elim
      sized_nodup := by
        intro t
        show (r.kernel.sizebases t).Nodup
        rw [h.sized]
        exact List.nodup_nil
      listed := fun p hp => (hno p hp).elim
      nodes_live := fun x hx => (List.not_mem_nil hx).elim
      live := fun x hx => (hlive x hx).elim
      live_nodup := by
        show ([] ++ r.live).Nodup
        rw [h.live]
        exact List.nodup_nil }
  · rw [(h.roots w).2.1, hused w]
    rfl

theorem Inv.block (h : Inv r) {p o x : ℕ} (hp : p ∈ r.kernel.allbase) (hx : x ∈ r.live) (ho : o < pageSize)
    (hxo : x = kvaddr (r.kernel.pagerefs p).page + o) :
    sizes (r.kernel.pagerefs p).blocktype ∣ o ∧ o ∉ (r.kernel.pagerefs p).freelist :=
  h.heap.ok.live_in_page hp (List.mem_append_right _ hx) ho hxo

theorem Inv.represented (h : Inv r) : r.Represented where
  good p hp := h.heap.good hp
  linked := h.heap.linked
  free_iff p hp o ho hdvd := by
    constructor
    · intro hfree hx
      exact (h.block hp hx ho rfl).2 hfree
    · intro hx
      by_contra hfree
      exact hx (h.heap.covered p hp o ho hdvd hfree)
  live x hx := by
    obtain ⟨p, hp, hin⟩ := h.inPage x hx
    obtain ⟨o, ho, hxo⟩ := hin.exists_offset
    exact ⟨p, hp, o, ho, (h.block hp hx ho hxo).1, hxo⟩
  live_nodup := h.heap.ok.live_nodup
  sized_iff t p := by
    constructor
    · exact h.heap.ok.sized t p
    · intro ⟨hp, htype⟩
      exact htype ▸ h.heap.ok.listed p hp
  sized_nodup := h.heap.ok.sized_nodup
  all_nodup := h.heap.ok.nodup
  page_inj := h.heap.ok.page_inj
  occupied p hp := by
    -- a page without a live block would be full of free ones
    by_contra hnone
    have hall : ∀ o < pageSize, sizes (r.kernel.pagerefs p).blocktype ∣ o → o ∈ (r.kernel.pagerefs p).freelist := by
      intro o ho hdvd
      by_contra hfree
      have hx := h.heap.covered p hp o ho hdvd hfree
      exact hnone ⟨_, hx, Nat.le_add_right _ _, Nat.add_lt_add_left ho _⟩
    exact Nat.ne_of_lt (h.occupied p hp) (nfree_eq_of_all (h.heap.good hp) hall)

theorem inPage_of_keeps {L : List ℕ} {s t : Kernel} (hkeeps : Keeps L s t) {x : ℕ} (hx : x ∈ L)
    (hin : ∃ p ∈ s.allbase, s.InPage x p) : ∃ p ∈ t.allbase, t.InPage x p := by
  obtain ⟨p, hp, hxp⟩ := hin
  obtain ⟨hp', hpage, -⟩ := hkeeps p hp x hx hxp
  refine ⟨p, hp', ?_⟩
  unfold Kernel.InPage
  rw [hpage]
  exact hxp

theorem Inv.kmalloc (h : Inv r) {A : Allocator} {sz : ℕ} (hen : r.Enabled (.kmalloc A sz)) :
    ∃ a t, r.call (.kmalloc A sz) = .ok a t ∧ Inv ⟨t, r.liveAfter a (.kmalloc A sz)⟩ ∧ Keeps r.live r.kernel t := by
  obtain ⟨ty, hty, hsmall⟩ := kmallocBody_small (A := A) hen.2
  obtain ⟨a, t, hrun, hocc, hkeeps, hcases⟩ := subpageKmalloc_run hen.1 hty h.heap h.occupied
  refine ⟨a, t, (congrFun hsmall r.kernel).trans hrun, ?_, hkeeps⟩
  have hold : ∀ x ∈ r.live, ∃ p ∈ t.allbase, t.InPage x p := fun x hx => inPage_of_keeps hkeeps hx (h.inPage x hx)
  unfold liveAfter
  rcases hcases with ⟨rfl, hheap⟩ | ⟨ha, hheap, hin⟩
  · exact ⟨hheap, hocc, hold⟩
  · rw [if_neg ha]
    refine ⟨hheap, hocc, fun x hx => ?_⟩
    rcases List.mem_cons.mp hx with rfl | hx
    · exact hin
    · exact hold x hx

theorem Inv.kfree (h : Inv r) {A : Allocator} {ptr : ℕ} (hen : r.Enabled (.kfree A ptr)) :
    Ends (fun _ t => Inv ⟨t, r.live.erase ptr⟩ ∧ Freed (r.live.erase ptr) [] r.kernel t) (Unbacked r.kernel)
      (kfreeBody A.free ptr) r.kernel := by
  obtain ⟨p, hp, hin⟩ := h.inPage ptr hen.2
  have hheap := h.heap.perm (List.perm_cons_erase hen.2)
  refine (kfreeBody_run hen.1 hheap h.occupied hp hin).mono fun _ t _ hfreed => ?_
  refine ⟨⟨hfreed.heap, hfreed.occupied, fun x hx => ?_⟩, hfreed⟩
  exact inPage_of_keeps hfreed.keeps hx (h.inPage x (List.mem_of_mem_erase hx))

theorem Inv.step (h : Inv r) (hstep : Step r op r') :
    Inv r' ∧ ∀ p ∈ r.kernel.allbase, p ∉ r'.kernel.allbase ↔ r.FreesLast p op := by
  obtain ⟨hen, a, hcall, hlive⟩ := hstep
  cases op with
  | kmalloc A sz =>
    obtain ⟨a', t, hrun, hinv, hkeeps⟩ := h.kmalloc hen
    obtain ⟨rfl, rfl⟩ := Outcome.ok.inj (hcall.symm.trans hrun)
    rw [← hlive] at hinv
    refine ⟨hinv, fun p hp => iff_of_false (fun hgone => hgone ?_) id⟩
    obtain ⟨x, hx, hin⟩ := h.represented.occupied p hp
    exact (hkeeps p hp x hx hin).1
  | kfree A ptr =>
    obtain ⟨_, t, hrun, hpure⟩ := bind_ok_iff.mp hcall
    obtain ⟨-, rfl⟩ := pure_ok_iff.mp hpure
    obtain ⟨hinv, hfreed⟩ := (ends_iff.mp (h.kfree hen)).1 _ _ hrun
    replace hlive : r'.live = r.live.erase ptr := hlive
    rw [← hlive] at hinv hfreed
    refine ⟨hinv, fun p hp => ?_⟩
    constructor
    · intro hgone
      have honly : ∀ x ∈ r.live, r.kernel.InPage x p → x = ptr := by
        intro x hx hin
        by_contra hne
        exact hgone (hfreed.keeps p hp x (hlive ▸ (List.mem_erase_of_ne hne).mpr hx) hin).1
      obtain ⟨x, hx, hin⟩ := h.represented.occupied p hp
      exact ⟨honly x hx hin ▸ hin, honly⟩
    · intro ⟨_, honly⟩ hp'
      obtain ⟨x, hx, hin⟩ := hinv.represented.occupied p hp'
      have hin' : r.kernel.InPage x p := by
        unfold Kernel.InPage
        rw [← hfreed.page p]
        exact hin
      have hx' : x ∈ r.live.erase ptr := hlive ▸ hx
      rw [honly x (List.mem_of_mem_erase hx') hin'] at hx'
      exact h.represented.live_nodup.not_mem_erase hx'

theorem Inv.of_reaches (hr : Reaches Step Booted r) : Inv r :=
  Reaches.invariant (P := Inv) (fun _ => Inv.booted) (fun _ _ _ h hstep => (h.step hstep).1) hr

/-- **The subpage allocator's representation invariant.**  After any calls of `kmalloc` for small blocks and `kfree` the
heap is represented as it should be, a page leaves the lists exactly when its last live block is freed, and no call
stops but at `freepageref`'s assertion about a root without a page.  The assertions of the loop that cuts a page, which
the model makes one edit, hold of any page. -/
theorem subpages_represented (hr : Reaches Step Booted r) :
    r.Represented ∧ (∀ op e, r.Enabled op → r.call op = .stop e → Unbacked r.kernel e) ∧
      (∀ p prpage ty, ty < 8 → CutAsserted prpage ty ((r.kernel.newHeapPage p prpage ty).pagerefs p)) ∧
      ∀ op r', Step r op r' → ∀ p ∈ r.kernel.allbase, p ∉ r'.kernel.allbase ↔ r.FreesLast p op := by
  have h := Inv.of_reaches hr
  refine ⟨h.represented, fun op e hen hstop => ?_, fun _ _ _ => newHeapPage_asserted,
    fun op r' hstep => (h.step hstep).2⟩
  cases op with
  | kmalloc A sz =>
    obtain ⟨a, t, hrun, -⟩ := h.kmalloc hen
    exact nomatch hstop.symm.trans hrun
  | kfree A ptr =>
    have hends : Ends (fun _ _ => True) (Unbacked r.kernel) (kfreeBody A.free ptr >>= fun _ => pure ptr : Kern ℕ)
        r.kernel := ends_bind ((h.kfree hen).mono fun _ _ _ _ => ends_pure trivial)
    exact hends.stop hstop

/-- The kernel's own page functions before the VM has started, where `alloc_kpages` steals memory and `free_kpages` does
nothing; with no memory left `alloc_kpages` panics, here the answer is 0. -/
def earlyPages (d : ℕ) : Allocator where
  alloc := fun n s =>
    if s.vmStarted = false ∧ s.firstpaddr % pageSize = 0 ∧ s.firstpaddr ≠ 0 ∧ s.firstpaddr + n * pageSize ≤ s.lastpaddr then
      (allocator (d + 1)).alloc n s
    else .ok 0 s
  free := fun a s => if s.vmStarted = false then (allocator (d + 1)).free a s else .ok () s

theorem allocKpages_early {d : ℕ} {s : Kernel} (hs : s.vmStarted = false) (hne : s.firstpaddr ≠ 0)
    (hle : s.firstpaddr + pageSize ≤ s.lastpaddr) : (allocator (d + 1)).alloc 1 s =
      .ok (kseg0 + s.firstpaddr) { s with firstpaddr := s.firstpaddr + pageSize } := by
  have hsteal : ramStealmem 1 s = .ok s.firstpaddr { s with firstpaddr := s.firstpaddr + 1 * pageSize } :=
    congrFun (if_neg (Nat.not_lt.mpr (by rwa [Nat.one_mul]))) s
  have hassert : kassert (1 < 10) "npages < MAX_PAGES_ALLOC" s = .ok () s := rfl
  have hearly : ¬ s.vmStarted = true := Bool.not_eq_true _ ▸ hs
  show allocKpagesBody _ 1 s = _
  unfold allocKpagesBody
  rw [bind_of_ok hassert, bind_of_ok (read_apply _ s), if_neg hearly, bind_of_ok hsteal, panicIf, require_of hne, Nat.one_mul]
  rfl

theorem earlyPages_serves (d : ℕ) : (earlyPages d).Serves where
  alloc s := by
    by_cases hc : s.vmStarted = false ∧ s.firstpaddr % pageSize = 0 ∧ s.firstpaddr ≠ 0 ∧
        s.firstpaddr + 1 * pageSize ≤ s.lastpaddr
    · obtain ⟨hs, halign, hne, hle⟩ := hc
      have hearly : ∀ g, s.Held g ↔ g * pageSize < s.firstpaddr := fun g => Kernel.held_iff_early hs
      have hearly' : ∀ g, Kernel.Held { s with firstpaddr := s.firstpaddr + pageSize } g ↔
          g * pageSize < s.firstpaddr + pageSize := fun g => Kernel.held_iff_early hs
      have hfirst : s.firstpaddr / pageSize * pageSize = s.firstpaddr := Nat.div_mul_cancel (Nat.dvd_of_mod_eq_zero halign)
      have hlast := s.lastpaddr_le
      refine ⟨_, _, (if_pos ⟨hs, halign, hne, hle⟩).trans (allocKpages_early hs hne (Nat.one_mul pageSize ▸ hle)),
        ⟨rfl, rfl, rfl, rfl, fun g _ hg => ?_, fun _ _ _ => rfl⟩, .inr ⟨s.firstpaddr / pageSize, ?_, ?_, ?_, ?_⟩⟩
      · rw [hearly] at hg
        rw [hearly']
        omega
      · unfold pageSize at *
        omega
      · unfold kvaddr
        rw [hfirst]
      · rw [hearly, hfirst]
        exact Nat.lt_irrefl _
      · rw [hearly', hfirst]
        exact Nat.lt_add_of_pos_right (by decide)
    · exact ⟨0, s, if_neg hc, ⟨rfl, rfl, rfl, rfl, fun _ _ hg => hg, fun _ _ _ => rfl⟩, .inl rfl⟩
  free f s _ := by
    have hfree : s.vmStarted = false → (allocator (d + 1)).free (kvaddr f) s = .ok () s := by
      intro hs
      show freeKpagesBody _ _ s = _
      unfold freeKpagesBody
      rw [bind_of_ok (read_apply _ s), hs]
      rfl
    refine ⟨s, ?_, rfl, rfl, rfl, rfl, fun _ _ hg => hg, fun _ _ _ => rfl⟩
    show (if _ then _ else _ : Outcome Stop Kernel Unit) = _
    split
    · next hs => exact hfree hs
    · rfl

/-- Nothing has been asked for. -/
def boot : SubpageRun := ⟨Kernel.blank 4096 65536 smallRam_le, []⟩

/-- The first request of the kernel, before the VM has started, is served from a fresh page. -/
theorem subpages_represented_first : ∃ a r, kmalloc 1 100 boot.kernel = .ok a r.kernel ∧ a ≠ 0 ∧ r.live = [a] ∧
    Reaches Step Booted r ∧ r.Represented := by
  have hbooted : Booted boot := ⟨rfl, fun _ => rfl, fun _ => ⟨rfl, rfl, fun _ => rfl⟩, rfl⟩
  have hserved : ∃ a t, kmalloc 1 100 boot.kernel = .ok a t ∧ a ≠ 0 := by decide +kernel
  obtain ⟨a, t, hcall, ha⟩ := hserved
  have hsame : kmallocBody (earlyPages 0) 100 boot.kernel = kmalloc 1 100 boot.kernel := rfl
  have hlive : [a] = boot.liveAfter a (.kmalloc (earlyPages 0) 100) := (if_neg ha).symm
  have hstep : Step boot (.kmalloc (earlyPages 0) 100) ⟨t, [a]⟩ :=
    ⟨⟨earlyPages_serves 0, by decide⟩, a, hsame.trans hcall, hlive⟩
  have hreach := (Reaches.start hbooted).next hstep
  exact ⟨a, ⟨t, [a]⟩, hcall, ha, rfl, hreach, (subpages_represented hreach).1⟩

end SubpageRun

end Os161Kernel
