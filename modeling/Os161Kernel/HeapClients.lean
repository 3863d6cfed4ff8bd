import Os161Kernel.FrameAccounting

/-!
# What the callers of `kmalloc` and `kfree` see

A request below 2048 bytes is served with a block, a larger one with whole frames.  `alloc_kpages` takes the frames of
a large request one by one from the head of the frame list and returns the address of the first; nothing makes the
others follow it in memory, and `kfree` is told of the first one only.
-/

namespace Os161Kernel

open StateProg Search Memory Runs Kernel Client

/-! ### Requests -/

section Requests

variable {L : List ℕ} {V : List (ℕ × ℕ)} {s s' : Kernel} {d sz a : ℕ}

theorem kmalloc_pages (hsz : 2048 ≤ sz) (h : kmalloc d sz s = .ok a s') :
    allocKpages d ((sz + pageSize - 1) % 2 ^ 32 / pageSize) s = .ok a s' := by
  unfold kmalloc kmallocBody at h
  rw [if_pos hsz] at h
  simp only [bind_ok_iff, kassert, require_ok_iff, pure_ok_iff] at h
  obtain ⟨_, _, halloc, _, _, ⟨-, rfl⟩, rfl, rfl⟩ := h
  exact halloc

theorem pages_of_request (hsz : 2048 ≤ sz) (hle : sz ≤ pageSize) :
    (sz + pageSize - 1) % 2 ^ 32 / pageSize = 1 := by
  simp only [pageSize] at *
  omega

/-- An allocation of `sz` bytes at `x` fits where it is: in one block of a heap page or in a page of its own. -/
def Kernel.Fits (s : Kernel) (x sz : ℕ) : Prop :=
  (∃ p ∈ s.allbase, s.InPage x p ∧ sz ≤ sizes (s.pagerefs p).blocktype) ∨
    (sz ≤ pageSize ∧ s.heapView.LivePage x)

theorem kmalloc_fits (h : HeapInv L V s) (hs : s.vmStarted = true) (hle : sz ≤ pageSize)
    (hrun : kmalloc d sz s = .ok a s') (ha : a ≠ 0) : s'.Fits a sz := by
  have hstart : s.vmStarted = false → 2048 ≤ sz → (sz + pageSize - 1) % 2 ^ 32 / pageSize ≠ 0 :=
    fun hf => absurd (hs.symm.trans hf) (by decide)
  by_cases hsz : 2048 ≤ sz
  · have halloc := kmalloc_pages hsz hrun
    rw [pages_of_request hsz hle] at halloc
    cases (allocator_sound d).alloc h (fun _ => Nat.one_ne_zero) halloc with
    | none h0 inv quiet => exact absurd h0 ha
    | frame f X hf hX one new quiet inv live zero => exact .inr ⟨hle, live⟩
  · obtain ⟨-, -, -, -, ⟨h0, -⟩ | ⟨-, ⟨t, hfit, -, p, hp, hin, rfl⟩ | ⟨hbig, -⟩⟩⟩ :=
      kmallocBody_sound (allocator_sound d) (allocator_keeps d) h hstart hrun
    · exact absurd h0 ha
    · exact .inl ⟨p, hp, hin, hfit⟩
    · exact absurd hbig hsz

theorem Keeps.fits {p x n : ℕ} (h : Keeps L s s') (hp : p ∈ s.allbase) (hx : x ∈ L) (hin : s.InPage x p)
    (hle : n ≤ sizes (s.pagerefs p).blocktype) :
    ∃ p ∈ s'.allbase, s'.InPage x p ∧ n ≤ sizes (s'.pagerefs p).blocktype := by
  obtain ⟨hp', hpage, htype⟩ := h p hp x hx hin
  refine ⟨p, hp', ?_, by rw [htype]; exact hle⟩
  unfold Kernel.InPage
  rw [hpage]
  exact hin

theorem Kernel.Fits.kmalloc {x n : ℕ} (hfit : s.Fits x n) (h : HeapInv L V s) (hx : x ∈ L) (hs : s.vmStarted = true)
    (hrun : kmalloc d sz s = .ok a s') : s'.Fits x n := by
  have hstart : s.vmStarted = false → 2048 ≤ sz → (sz + pageSize - 1) % 2 ^ 32 / pageSize ≠ 0 :=
    fun hf => absurd (hs.symm.trans hf) (by decide)
  obtain ⟨X, hnew, hquiet, hkeeps, -⟩ := kmallocBody_sound (allocator_sound d) (allocator_keeps d) h hstart hrun
  rcases hfit with ⟨p, hp, hin, hle⟩ | ⟨hle, hlive⟩
  · exact .inl (hkeeps.fits hp hx hin hle)
  · obtain ⟨f, rfl, -⟩ := id hlive
    exact .inr ⟨hle, hquiet.livePage (fun hf => hnew f hf (livePage_iff.mp hlive).2) hlive⟩

theorem Kernel.Fits.kfree {x n ptr : ℕ} {u : Unit} (hfit : s.Fits x n) (h : HeapInv (ptr :: L) V s) (hx : x ∈ L)
    (hrun : kfree d ptr s = .ok u s') : s'.Fits x n := by
  obtain ⟨-, hkeeps, hcases⟩ := kfreeBody_sound (allocator_sound d) (allocator_keeps d) h hrun
  rcases hfit with ⟨p, hp, hin, hle⟩ | ⟨hle, hlive⟩
  · exact .inl (hkeeps.fits hp hx hin hle)
  · obtain ⟨f, rfl, -⟩ := id hlive
    refine .inr ⟨hle, ?_⟩
    rcases hcases with ⟨-, hquiet⟩ | ⟨g, rfl, hpage, hquiet⟩
    · exact hquiet.livePage (Set.notMem_empty f) hlive
    · have hfg : f ∉ ({g} : Set ℕ) := fun hmem =>
        h.not_mem_of_cons (Set.mem_singleton_iff.mp hmem ▸ hx)
      have hfreed : QuietBut {g} s (s.freed g) :=
        freed_quiet fun hst => ((held_iff hst).mp (livePage_iff.mp hpage).1).2.2
      exact hquiet.livePage (Set.notMem_empty f) (hfreed.livePage hfg hlive)

end Requests

/-! ### Where allocations lie -/

/-- Frame `f` is cut into pieces of `k` bytes, by the subpage allocator or not at all. -/
def Kernel.Cut (s : Kernel) (f k : ℕ) : Prop :=
  (∃ p ∈ s.allbase, (s.pagerefs p).page = f ∧ k = sizes (s.pagerefs p).blocktype) ∨
    (f ∉ s.heapView.pages ∧ k = pageSize)

/-- The bytes of an allocation. -/
def allocRange (x : ℕ × ℕ) : Set ℕ := Set.Ico x.1 (x.1 + x.2)

section Places

variable {L : List ℕ} {V : List (ℕ × ℕ)} {s : Kernel} {x n : ℕ}

theorem Kernel.Cut.unique {f k k' : ℕ} (h : HeapInv L V s) (hk : s.Cut f k) (hk' : s.Cut f k') : k = k' := by
  rcases hk with ⟨p, hp, hpage, rfl⟩ | ⟨hno, rfl⟩ <;> rcases hk' with ⟨q, hq, hpage', rfl⟩ | ⟨hno', rfl⟩
  · rw [h.ok.page_inj p hp q hq (hpage.trans hpage'.symm)]
  · exact absurd (hpage ▸ List.mem_map_of_mem hp) hno'
  · exact absurd (hpage' ▸ List.mem_map_of_mem hq) hno
  · rfl

theorem Kernel.Fits.place (h : HeapInv L V s) (hx : x ∈ L) (hfit : s.Fits x n) :
    ∃ f o k, x = kvaddr f + o ∧ s.Held f ∧ s.Cut f k ∧ k ∣ o ∧ n ≤ k ∧ o + k ≤ pageSize := by
  rcases hfit with ⟨p, hp, ⟨hle, hlt⟩, hn⟩ | ⟨hn, f, rfl, hheld, hpage, -⟩
  · have hxo : x = kvaddr (s.pagerefs p).page + (x - kvaddr (s.pagerefs p).page) := by omega
    have ho : x - kvaddr (s.pagerefs p).page < pageSize := by omega
    obtain ⟨hdvd, -⟩ := h.ok.live_in_page hp (List.mem_append_right _ hx) ho hxo
    exact ⟨_, _, _, hxo, h.ok.page_held p hp, .inl ⟨p, hp, rfl, rfl⟩, hdvd, hn,
      block_le (h.ok.good p hp).blocktype ho hdvd⟩
  · exact ⟨f, 0, pageSize, rfl, hheld, .inr ⟨hpage, rfl⟩, Nat.dvd_zero _, hn, Nat.le_of_eq (Nat.zero_add _)⟩

theorem Kernel.Fits.disjoint {y m : ℕ} (h : HeapInv L V s) (hx : x ∈ L) (hy : y ∈ L) (hne : x ≠ y)
    (hfit : s.Fits x n) (hfit' : s.Fits y m) : ∀ a ∈ allocRange (x, n), a ∉ allocRange (y, m) := by
  obtain ⟨f, o, k, rfl, -, hcut, hdvd, hn, hend⟩ := hfit.place h hx
  obtain ⟨g, o', k', rfl, -, hcut', hdvd', hm, hend'⟩ := hfit'.place h hy
  rintro a ⟨hle, hlt⟩ ⟨hle', hlt'⟩
  simp only at hle hlt hle' hlt'
  by_cases hfg : f = g
  · -- pieces of one frame
    subst hfg
    obtain rfl := hcut.unique h hcut'
    have hoff : o ≠ o' := fun heq => hne (by rw [heq])
    rcases apart_of_dvd hdvd hdvd' hoff with hlo | hlo
    · omega
    · omega
  · -- pieces of two frames
    have hcase : kvaddr f + pageSize ≤ kvaddr g ∨ kvaddr g + pageSize ≤ kvaddr f := by
      simp only [kvaddr, pageSize]
      omega
    omega

theorem Kernel.Fits.held (h : HeapInv L V s) (hx : x ∈ L) (hfit : s.Fits x n) {a : ℕ}
    (ha : a ∈ allocRange (x, n)) : s.Held (frameIndex a) := by
  obtain ⟨f, o, k, rfl, hheld, -, -, hn, hend⟩ := hfit.place h hx
  obtain ⟨hle, hlt⟩ := ha
  simp only at hle hlt
  have hao : a = kvaddr f + (a - kvaddr f) := by omega
  have hlast : a - kvaddr f < 4096 := by
    simp only [pageSize] at hend
    omega
  rw [hao, frameIndex_kvaddr (Nat.le_of_lt (h.ok.held_lt f hheld)) _ hlast]
  exact hheld

end Places

/-! ### Runs of a client -/

/-- The kernel with the live allocations: address and requested size, the youngest first. -/
structure HeapRun where
  live : List (ℕ × ℕ)
  kernel : Kernel

inductive HeapOp where
  | kmalloc (d sz : ℕ)
  | kfree (d ptr : ℕ)

namespace HeapRun

/-- A request, or the release of a live pointer; a call that panics is no step. -/
def step (σ : HeapRun) : HeapOp → Option HeapRun
  | .kmalloc d sz =>
    match Os161Kernel.kmalloc d sz σ.kernel with
    | .ok a s' => some ⟨if a = 0 then σ.live else (a, sz) :: σ.live, s'⟩
    | .stop _ => none
  | .kfree d ptr =>
    if ptr ∈ σ.live.map Prod.fst then
      match Os161Kernel.kfree d ptr σ.kernel with
      | .ok _ s' => some ⟨σ.live.eraseP fun x => x.1 = ptr, s'⟩
      | .stop _ => none
    else none

/-- Any state that a kernel reaches after `vm_bootstrap`. -/
def Start (σ : HeapRun) : Prop :=
  σ.live = [] ∧ ∃ ram first B P, Reaches Step (Booted ram first) ⟨B, P, σ.kernel⟩

/-- The live allocations do not overlap, and every byte of them lies in a valid frame of the kernel that is not on the
frame list. -/
def RangesApart (σ : HeapRun) : Prop :=
  σ.live.Pairwise (fun x y => ∀ a ∈ allocRange x, a ∉ allocRange y) ∧
    ∀ x ∈ σ.live, ∀ a ∈ allocRange x, frameIndex a < σ.kernel.pagetableEntry ∧ σ.kernel.Valid (frameIndex a) ∧
      (σ.kernel.mainPG (frameIndex a)).pid = 0 ∧ frameIndex a ∉ σ.kernel.freeFrames

/-- Every request fits in a page. -/
def Meets (_ : HeapRun) : HeapOp → Prop
  | .kmalloc _ sz => sz ≤ pageSize
  | .kfree _ _ => True

instance (σ : HeapRun) : ∀ op, Decidable (σ.Meets op)
  | .kmalloc _ _ => inferInstanceAs (Decidable (_ ≤ _))
  | .kfree _ _ => inferInstanceAs (Decidable True)

/-- The invariant of the runs that meet the condition; `B` and `P` belong to others. -/
structure Inv (ram : ℕ) (B P : List ℕ) (σ : HeapRun) : Prop where
  client : Client.Inv ram [] ⟨σ.live.map Prod.fst ++ B, P, σ.kernel⟩
  started : σ.kernel.vmStarted = true
  fits : ∀ x ∈ σ.live, σ.kernel.Fits x.1 x.2

variable {ram : ℕ} {B P : List ℕ} {σ σ' : HeapRun}

theorem Inv.owned (_ : σ.Inv ram B P) {x : ℕ × ℕ} (hx : x ∈ σ.live) : x.1 ∈ (σ.live.map Prod.fst ++ B) ++ P :=
  List.mem_append_left _ (List.mem_append_left _ (List.mem_map_of_mem hx))

theorem Inv.rangesApart (h : σ.Inv ram B P) : σ.RangesApart := by
  have hnodup : (σ.live.map Prod.fst).Nodup :=
    (((List.nodup_append.mp h.client.heap.ok.live_nodup).2.1.sublist (List.sublist_append_left _ _)).sublist
      (List.sublist_append_left _ _))
  refine ⟨?_, fun x hx a ha => ?_⟩
  · have hne : σ.live.Pairwise fun x y => x.1 ≠ y.1 := List.pairwise_map.mp hnodup
    refine hne.imp_of_mem fun {x y} hx hy hxy => ?_
    exact (h.fits x hx).disjoint h.client.heap (h.owned hx) (h.owned hy) hxy (h.fits y hy)
  · have hheld := (h.fits x hx).held h.client.heap (h.owned hx) ha
    obtain ⟨hlt, hv, hpid⟩ := (held_iff h.started).mp hheld
    exact ⟨hlt, hv, hpid, fun hfree => (h.client.account.of_mem hfree).2 hv⟩

theorem Inv.kmalloc {d sz a : ℕ} {s' : Kernel} (h : σ.Inv ram B P) (hsz : sz ≤ pageSize)
    (hrun : Os161Kernel.kmalloc d sz σ.kernel = .ok a s') :
    Inv ram B P ⟨if a = 0 then σ.live else (a, sz) :: σ.live, s'⟩ := by
  have hclient := (h.client.kmalloc (fun hf => absurd (h.started.symm.trans hf) (by decide)) hrun).inv
  have hstart : s'.vmStarted = true := by
    rw [(kmalloc_moves d sz _ _ _ hrun).allocOnly]
    exact h.started
  have hfits : ∀ x ∈ σ.live, s'.Fits x.1 x.2 := fun x hx =>
    (h.fits x hx).kmalloc h.client.heap (h.owned hx) h.started hrun
  by_cases ha : a = 0
  · rw [if_pos ha] at hclient ⊢
    exact ⟨hclient, hstart, hfits⟩
  · rw [if_neg ha] at hclient ⊢
    refine ⟨hclient, hstart, fun x hx => ?_⟩
    rcases List.mem_cons.mp hx with rfl | hx
    · exact kmalloc_fits h.client.heap h.started hsz hrun ha
    · exact hfits x hx

theorem Inv.kfree {d ptr : ℕ} {s' : Kernel} (h : σ.Inv ram B P) (hptr : ptr ∈ σ.live.map Prod.fst)
    (hrun : Os161Kernel.kfree d ptr σ.kernel = .ok () s') :
    Inv ram B P ⟨σ.live.eraseP fun x => x.1 = ptr, s'⟩ := by
  have herase : (σ.live.map Prod.fst ++ B).erase ptr =
      (σ.live.eraseP fun x => x.1 = ptr).map Prod.fst ++ B := by
    rw [List.erase_append_left _ hptr, List.erase_eq_eraseP', List.eraseP_map]
    rfl
  have hclient := (h.client.kfree (.inr (List.mem_append_left B hptr)) hrun).inv
  rw [herase] at hclient
  have hstart : s'.vmStarted = true := by
    rw [(kfree_moves d ptr _ _ _ hrun).allocOnly]
    exact h.started
  refine ⟨hclient, hstart, fun x hx => ?_⟩
  have hperm : ((σ.live.map Prod.fst ++ B) ++ P).Perm
      (ptr :: (((σ.live.eraseP fun x => x.1 = ptr).map Prod.fst ++ B) ++ P)) := by
    rw [← herase]
    exact (List.perm_cons_erase (List.mem_append_left B hptr)).append_right P
  exact (h.fits x (List.mem_of_mem_eraseP hx)).kfree (h.client.heap.perm hperm)
    (List.mem_append_left _ (List.mem_append_left _ (List.mem_map_of_mem hx))) hrun

theorem Inv.step {op : HeapOp} (h : σ.Inv ram B P) (hmeets : σ.Meets op) (hstep : σ.step op = some σ') :
    σ'.Inv ram B P := by
  cases op with
  | kmalloc d sz =>
    simp only [HeapRun.step] at hstep
    split at hstep
    · next a s' hrun =>
      rw [← Option.some.inj hstep]
      exact h.kmalloc hmeets hrun
    · exact nomatch hstep
  | kfree d ptr =>
    simp only [HeapRun.step, Option.ite_none_right_eq_some] at hstep
    obtain ⟨hptr, hstep⟩ := hstep
    split at hstep
    · next u s' hrun =>
      rw [← Option.some.inj hstep]
      exact h.kfree hptr hrun
    · exact nomatch hstep

end HeapRun

/-- **`kmalloc` never hands out overlapping memory** in a run whose requests fit in a page. -/
theorem kmalloc_ranges_apart {σ₀ σ : HeapRun} (hstart : σ₀.Start)
    (h : Reaches (Guarded (StepOf HeapRun.step) HeapRun.Meets) (· = σ₀) σ) : σ.RangesApart := by
  obtain ⟨hlive, ram, first, B, P, hreach⟩ := hstart
  obtain ⟨hclient, hs, -⟩ := reaches_inv hreach
  have hinv : σ.Inv ram B P := by
    refine h.invariant (P := fun σ => σ.Inv ram B P) ?_ fun σ op σ' hσ hstep => hσ.step hstep.1 hstep.2
    rintro σ rfl
    refine ⟨?_, hs, fun x hx => ?_⟩
    · rw [hlive]
      exact hclient
    · rw [hlive] at hx
      exact absurd hx List.not_mem_nil
  exact hinv.rangesApart

/-- The small machine after `vm_bootstrap`. -/
def HeapRun.booted : Option HeapRun :=
  (kmalloc 5 8 smallMachine).state?.bind fun s₁ =>
    if s₁.lastpaddr = 65536 ∧ s₁.firstpaddr = 12288 then (vmBootstrap 5 s₁).state?.map fun s => ⟨[], s⟩ else none

theorem HeapRun.booted_reaches {σ : HeapRun} (h : HeapRun.booted = some σ) :
    σ.live = [] ∧ ∃ B, Reaches Step (Booted 65536 12288) ⟨B, [], σ.kernel⟩ := by
  unfold HeapRun.booted at h
  obtain ⟨s₁, hs₁, h⟩ := Option.bind_eq_some_iff.mp h
  obtain ⟨b, hmalloc⟩ := exists_of_state? hs₁
  rw [Option.ite_none_right_eq_some] at h
  obtain ⟨hsize, h⟩ := h
  obtain ⟨s, hs, rfl⟩ := Option.map_eq_some_iff.mp h
  exact ⟨rfl, _, .start (booted_of_kmalloc smallMachine_powerOn hmalloc (by decide) hsize.1 hsize.2
    (by decide) (state?_eq_some.mp hs))⟩

theorem HeapRun.booted_start {σ : HeapRun} (h : HeapRun.booted = some σ) : σ.Start := by
  obtain ⟨hlive, B, hreach⟩ := HeapRun.booted_reaches h
  exact ⟨hlive, 65536, 12288, B, [], hreach⟩

/-- A page, a block, the page back, then a request that just fits in a page. -/
theorem kmalloc_ranges_apart_small_requests : ∃ σ₀ σ : HeapRun, σ₀.Start ∧
    Reaches (Guarded (StepOf HeapRun.step) HeapRun.Meets) (· = σ₀) σ ∧
    σ.live.map Prod.snd = [4096, 100] ∧ σ.RangesApart := by
  have hrun : ∃ σ₀ ∈ HeapRun.booted, ∃ σ ∈ follow (restrict HeapRun.step HeapRun.Meets)
      [.kmalloc 5 3000, .kmalloc 5 100, .kfree 5 (kvaddr 3), .kmalloc 5 4096] σ₀,
      σ.live.map Prod.snd = [4096, 100] := by decide +kernel
  obtain ⟨σ₀, hσ₀, σ, hfollow, hlive⟩ := hrun
  have hreach : Reaches (Guarded (StepOf HeapRun.step) HeapRun.Meets) (· = σ₀) σ := by
    rw [← stepOf_restrict]
    exact .of_follow _ (.start rfl) hfollow
  exact ⟨σ₀, σ, HeapRun.booted_start hσ₀, hreach, hlive, kmalloc_ranges_apart (HeapRun.booted_start hσ₀) hreach⟩

/-- Two pages, the first one back, then a request for two pages: it gets the frame before the second page and some
other one, and its range covers the second page. -/
theorem kmalloc_ranges_overlap : ∃ σ₀ σ : HeapRun, σ₀.Start ∧ Reaches (StepOf HeapRun.step) (· = σ₀) σ ∧
    σ.live = [(kvaddr 3, 8192), (kvaddr 4, 4096)] ∧ ¬ σ.RangesApart := by
  have hrun : ∃ σ₀ ∈ HeapRun.booted, ∃ σ ∈ follow HeapRun.step
      [.kmalloc 5 4096, .kmalloc 5 4096, .kfree 5 (kvaddr 3), .kmalloc 5 8192] σ₀,
      σ.live = [(kvaddr 3, 8192), (kvaddr 4, 4096)] := by decide +kernel
  obtain ⟨σ₀, hσ₀, σ, hfollow, hlive⟩ := hrun
  refine ⟨σ₀, σ, HeapRun.booted_start hσ₀, .of_follow _ (.start rfl) hfollow, hlive, fun hapart => ?_⟩
  have hpair := hapart.1
  rw [hlive] at hpair
  have hapart' := List.rel_of_pairwise_cons hpair List.mem_cons_self
  have hfirst : kvaddr 4 ∈ allocRange (kvaddr 3, 8192) := by
    constructor <;> simp only [kvaddr, pageSize] <;> omega
  have hsecond : kvaddr 4 ∈ allocRange (kvaddr 4, 4096) := ⟨Nat.le_refl _, Nat.lt_add_of_pos_right (by decide)⟩
  exact hapart' _ hfirst hsecond

/-! ### `kfree` after `kmalloc` -/

/-- From `s` to `s'` nothing was kept: what was on the frame list is there again or belongs to the heap, and no valid
frame is without an owner that it did not have before. -/
structure GivenBack (s s' : Kernel) : Prop where
  frames : ∀ f ∈ s.freeFrames, f ∈ s'.freeFrames ∨ s'.HeapFrame f
  owned : ∀ f < s'.pagetableEntry, s'.Valid f → s'.HeapFrame f ∨ s.Calm f

section GivenBack

variable {L : List ℕ} {V : List (ℕ × ℕ)} {s s' t : Kernel} {d : ℕ}

theorem allocKpages_second {n f : ℕ} (h : HeapInv L V s) (hs : s.vmStarted = true) (hn : 2 ≤ n)
    (hrun : allocKpages d n s = .ok (kvaddr f) s') : ∃ g, g ≠ f ∧ ¬ s.Calm g ∧ s'.Calm g := by
  cases d with
  | zero => exact nomatch hrun
  | succ d =>
    have hA := allocator_sound d
    have hK := allocator_keeps d
    rcases allocKpagesBody_ok hrun with ⟨-, h0, -⟩ | ⟨-, -, -, addr, u, htake, rfl, ha⟩ | ⟨hf, -⟩
    · exact absurd h0 (kvaddr_ne_zero f)
    · obtain ⟨m, rfl⟩ : ∃ m, n = m + 1 + 1 := ⟨n - 2, by omega⟩
      obtain ⟨addr₁, u₁, hfirst, htake⟩ := bind_ok_iff.mp htake
      obtain ⟨addr₂, u₂, hsecond, hrest⟩ := bind_ok_iff.mp htake
      obtain ⟨-, f', -, hquiet₁, hinv₁, hlive₁, -, hne, haddr₁⟩ := takeFrame_sound hA hK h hs hfirst
      have hs₁ := hquiet₁.vmStarted.trans hs
      obtain ⟨-, g, hcalm, hquiet₂, hinv₂, hlive₂, -, -, haddr₂⟩ := takeFrame_sound hA hK hinv₁ hs₁ hsecond
      rw [if_pos rfl] at haddr₁
      have hpos : addr₁ ≠ 0 := by
        have := hne rfl
        rw [haddr₁]
        simp only [pageSize]
        omega
      rw [if_neg hpos] at haddr₂
      rw [haddr₂] at hrest
      obtain ⟨haddr, -, -, X, -, hX, hquiet₃⟩ :=
        takeFrames_more hA hK hpos hinv₂ (hquiet₂.vmStarted.trans hs₁) hrest
      -- the first frame is the one that is returned
      have hff : f' = f := by
        have hkv : kvaddr f = kvaddr f' := by
          rw [ha, haddr, haddr₁]
          unfold kvaddr
          rfl
        exact (kvaddr_inj hkv).symm
      have hcalm₁ := (livePage_iff.mp hlive₁).2
      have hcalm₂ := (livePage_iff.mp hlive₂).2
      have hgf : g ≠ f' := fun heq => hcalm (heq ▸ hcalm₁)
      refine ⟨g, hff ▸ hgf, fun hc => hcalm (hquiet₁.stays g hgf hc), ?_⟩
      have hcalm₃ := hquiet₃.stays g (fun hg => hX g hg hcalm₂) hcalm₂
      exact ⟨hcalm₃.busy, hcalm₃.page, hcalm₃.root⟩
    · exact absurd (hs.symm.trans hf) (by decide)

theorem kfree_calm {ptr : ℕ} {u : Unit} (hs : s.vmStarted = true) (h : HeapInv (ptr :: L) V s)
    (hrun : kfree d ptr s = .ok u t) :
    HeapInv L V t ∧ (∀ g, t.Calm g ↔ s.Calm g ∧ kvaddr g ≠ ptr) ∧ ∀ g, t.Calm g → t.mainPG g = s.mainPG g := by
  obtain ⟨hinv, -, hkind⟩ := kfreeBody_sound (allocator_sound d) (allocator_keeps d) h hrun
  refine ⟨hinv, ?_⟩
  rcases hkind with ⟨⟨p, hp, o, ho, hptr, -, -⟩, hquiet⟩ | ⟨f, rfl, hlive, hquiet⟩
  · -- a block: no frame outside the heap is touched
    have hcalm : ∀ g, t.Calm g ↔ s.Calm g := fun g =>
      ⟨hquiet.fresh hs g (Set.notMem_empty g), hquiet.stays g (Set.notMem_empty g)⟩
    refine ⟨fun g => ?_, fun g hc => hquiet.row g (Set.notMem_empty g) ((hcalm g).mp hc)⟩
    rw [hcalm g]
    refine ⟨fun hc => ⟨hc, fun heq => ?_⟩, And.left⟩
    obtain ⟨hpage, -⟩ := kvaddr_add_inj (show 0 < pageSize by decide) ho (heq.trans hptr)
    exact hc.page (hpage ▸ List.mem_map_of_mem hp)
  · -- a whole page
    have hs' : (s.freed f).vmStarted = true := (s.freed_allocOnly f).sameSetup.started.trans hs
    have hcalm : ∀ g, t.Calm g ↔ (s.freed f).Calm g := fun g =>
      ⟨hquiet.fresh hs' g (Set.notMem_empty g), hquiet.stays g (Set.notMem_empty g)⟩
    have hne : ∀ g, t.Calm g → g ≠ f := fun g hc heq => not_calm_freed hs (heq ▸ (hcalm g).mp hc)
    refine ⟨fun g => ⟨fun hc => ?_, fun hc => ?_⟩, fun g hc => ?_⟩
    · have hg := hne g hc
      exact ⟨(freed_calm_iff hg).mp ((hcalm g).mp hc), fun heq => hg (kvaddr_inj heq)⟩
    · have hg : g ≠ f := fun heq => hc.2 (by rw [heq])
      exact (hcalm g).mpr ((freed_calm_iff hg).mpr hc.1)
    · rw [hquiet.row g (Set.notMem_empty g) ((hcalm g).mp hc), freed_mainPG (hne g hc)]

theorem kmalloc_calm_back {sz a f : ℕ} (h : HeapInv L V s) (hs : s.vmStarted = true) (hle : sz ≤ pageSize)
    (hrun : kmalloc d sz s = .ok a s') (hc : s'.Calm f) (hne : kvaddr f ≠ a) : s.Calm f := by
  by_cases hsz : 2048 ≤ sz
  · have halloc := kmalloc_pages hsz hrun
    rw [pages_of_request hsz hle] at halloc
    cases (allocator_sound d).alloc h (fun _ => Nat.one_ne_zero) halloc with
    | none h0 inv quiet => exact quiet.fresh hs f (Set.notMem_empty f) hc
    | frame g X ha hX one new quiet inv live zero =>
      obtain rfl := one rfl
      refine quiet.fresh hs f (fun hmem => hne ?_) hc
      rw [ha, Set.mem_singleton_iff.mp hmem]
  · unfold kmalloc kmallocBody at hrun
    rw [if_neg hsz] at hrun
    cases hfirst : firstBelow (fun t => sz ≤ sizes t) 8 with
    | none =>
      rw [hfirst] at hrun
      exact (stop_ok_iff.mp hrun).elim
    | some t =>
      rw [hfirst] at hrun
      obtain ⟨hquiet, -⟩ := subpageKmalloc_sound (allocator_sound d) (allocator_keeps d) (lt_of_firstBelow hfirst) h hrun
      exact hquiet.fresh hs f (Set.notMem_empty f) hc

theorem allocKpages_ne_zero {n a : ℕ} (hs : s.vmStarted = true) (ha : a ≠ 0)
    (hrun : allocKpages d n s = .ok a s') : n ≠ 0 := by
  cases d with
  | zero => exact nomatch hrun
  | succ d =>
    rcases allocKpagesBody_ok hrun with ⟨-, h0, -⟩ | ⟨-, hn, -⟩ | ⟨hf, -⟩
    · exact absurd h0 ha
    · exact hn
    · exact absurd (hs.symm.trans hf) (by decide)

end GivenBack

/-- **`kfree` gives back what `kmalloc` took exactly when the request fits in a page.**  `sz` is a `size_t`. -/
theorem kfree_gives_back_iff {ram first d d' sz a : ℕ} {c : Client} {s s' : Kernel}
    (hreach : Reaches Step (Booted ram first) c) (hsz : sz < 2 ^ 32)
    (hmalloc : kmalloc d sz c.kernel = .ok a s) (ha : a ≠ 0) (hfree : kfree d' a s = .ok () s') :
    GivenBack c.kernel s' ↔ sz ≤ pageSize := by
  obtain ⟨B, P, k⟩ := c
  obtain ⟨hinv, hk, -⟩ := reaches_inv hreach
  have hinv₁ := (hinv.kmalloc (fun hf => absurd (hk.symm.trans hf) (by decide)) hmalloc).inv
  rw [if_neg ha] at hinv₁
  have hinv₂ := hinv₁.kfree (.inr List.mem_cons_self) hfree
  have hs : s.vmStarted = true := by
    rw [(kmalloc_moves d sz _ _ _ hmalloc).allocOnly]
    exact hk
  have hs' : s'.vmStarted = true := by
    rw [(kfree_moves d' a _ _ _ hfree).allocOnly]
    exact hs
  have hentries : s'.pagetableEntry = k.pagetableEntry := by
    rw [(kfree_moves d' a _ _ _ hfree).allocOnly, (kmalloc_moves d sz _ _ _ hmalloc).allocOnly]
  constructor
  · intro hback
    by_contra hbig
    have hlarge : 2048 ≤ sz := by
      simp only [pageSize] at hbig
      omega
    have halloc := kmalloc_pages hlarge hmalloc
    have htwo : 2 ≤ (sz + pageSize - 1) % 2 ^ 32 / pageSize := by
      have hne := allocKpages_ne_zero hk ha halloc
      simp only [pageSize] at hbig hne ⊢
      omega
    cases (allocator_sound d).alloc hinv.heap (fun hf => absurd (hk.symm.trans hf) (by decide)) halloc with
    | none h0 inv quiet => exact ha h0
    | frame f X hf hX one new quiet inv live zero =>
      -- the second frame stays in use and nobody knows of it
      subst hf
      obtain ⟨g, hgf, hnew, hcalm⟩ := allocKpages_second hinv.heap hk htwo halloc
      have hcalm' := ((kfree_calm hs hinv₁.heap hfree).2.1 g).mpr ⟨hcalm, fun heq => hgf (kvaddr_inj heq)⟩
      obtain ⟨hlt, hv⟩ := (busy_iff hs').mp hcalm'.busy
      exact (hback.owned g hlt hv).elim hcalm'.not_heapFrame hnew
  · intro hle
    have howned : ∀ f < s'.pagetableEntry, s'.Valid f → s'.HeapFrame f ∨ k.Calm f := by
      intro f hlt hv
      by_cases hheap : s'.HeapFrame f
      · exact .inl hheap
      · have hcalm := calm_of_not_heapFrame hs' hlt hv hheap
        obtain ⟨hcs, hne⟩ := ((kfree_calm hs hinv₁.heap hfree).2.1 f).mp hcalm
        exact .inr (kmalloc_calm_back hinv.heap hk hle hmalloc hcs hne)
    refine ⟨fun f hf => ?_, howned⟩
    obtain ⟨hlt, hnot⟩ := hinv.account.of_mem hf
    have hlt' : f < s'.pagetableEntry := hentries ▸ hlt
    rcases hinv₂.inv.account.split hlt' with ⟨hv, -⟩ | ⟨-, hcount⟩
    · refine .inr ((howned f hlt' hv).resolve_right fun hc => hnot ?_)
      exact ((busy_iff hk).mp hc.busy).2
    · exact .inl (List.count_pos_iff.mp (by rw [hcount]; exact Nat.one_pos))

/-- A page is taken and given back on the small machine. -/
theorem kfree_gives_back_page : ∃ (c : Client) (a : ℕ) (s s' : Kernel),
    Reaches Step (Booted 65536 12288) c ∧ kmalloc 5 3000 c.kernel = .ok a s ∧ a ≠ 0 ∧
    kfree 5 a s = .ok () s' ∧ GivenBack c.kernel s' := by
  have hrun : ∃ σ ∈ HeapRun.booted, ∃ a s, kmalloc 5 3000 σ.kernel = .ok a s ∧ a ≠ 0 ∧
      ∃ u s', kfree 5 a s = .ok u s' ∧ True := by decide +kernel
  obtain ⟨σ, hσ, a, s, hmalloc, ha, _, s', hfree, -⟩ := hrun
  obtain ⟨-, B, hreach⟩ := HeapRun.booted_reaches hσ
  exact ⟨_, a, s, s', hreach, hmalloc, ha, hfree,
    (kfree_gives_back_iff hreach (by decide) hmalloc ha hfree).mpr (by decide)⟩

/-- Two pages are taken with one request and given back: frame 4 is valid, no page of the heap, and not on the frame
list any more. -/
theorem kfree_keeps_second_page : ∃ (c : Client) (a : ℕ) (s s' : Kernel),
    Reaches Step (Booted 65536 12288) c ∧ kmalloc 5 8192 c.kernel = .ok a s ∧ a ≠ 0 ∧
    kfree 5 a s = .ok () s' ∧ 4 ∈ c.kernel.freeFrames ∧ 4 ∉ s'.freeFrames ∧ ¬ s'.HeapFrame 4 ∧ s'.Valid 4 ∧
    ¬ GivenBack c.kernel s' := by
  have hrun : ∃ σ ∈ HeapRun.booted, ∃ a s, kmalloc 5 8192 σ.kernel = .ok a s ∧ a ≠ 0 ∧
      ∃ u s', kfree 5 a s = .ok u s' ∧ 4 ∈ σ.kernel.freeFrames ∧ 4 ∉ s'.freeFrames ∧ 4 ∉ s'.heapView.pages ∧
        (∀ w ∈ List.range 16, (s'.kheaproots w).page ≠ some 4) ∧ s'.Valid 4 := by decide +kernel
  obtain ⟨σ, hσ, a, s, hmalloc, ha, _, t, hfree, hbefore, hafter, hpage, hroot, hv⟩ := hrun
  obtain ⟨-, B, hreach⟩ := HeapRun.booted_reaches hσ
  have hheap : ¬ t.HeapFrame 4 := fun hor => hor.elim hpage fun ⟨w, hw, hr⟩ => hroot w (List.mem_range.mpr hw) hr
  exact ⟨_, a, s, t, hreach, hmalloc, ha, hfree, hbefore, hafter, hheap, hv,
    fun hback => (hback.frames 4 hbefore).elim hafter hheap⟩

end Os161Kernel
