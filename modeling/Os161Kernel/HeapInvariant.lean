import Os161Kernel.HeapBlocks
import Mathlib.Data.Set.Basic

/-!
# The allocator keeps its hands off other frames

`HeapOwnership` says what a consistent heap is.  Here every function of `kmalloc.c` is shown to keep it, and
to leave alone every frame that is in use outside the heap.

The functions call each other in a circle, so the bodies are shown sound over sound page functions, and
`allocator_sound` and `allocator_keeps` close the circle by induction on its depth.
-/

namespace Os161Kernel

open StateProg Search Memory Function Kernel

/-! ### Frames in use -/

namespace Kernel

/-- A frame in use.  Before the VM has started these are the frames below first-free. -/
def Busy (s : Kernel) (f : ℕ) : Prop :=
  if s.vmStarted = true then f < s.pagetableEntry ∧ s.Valid f else f * pageSize < s.firstpaddr

/-- A frame the kernel itself uses. -/
def Held (s : Kernel) (f : ℕ) : Prop :=
  if s.vmStarted = true then f < s.pagetableEntry ∧ s.Valid f ∧ (s.mainPG f).pid = 0
  else f * pageSize < s.firstpaddr

/-- What ownership sees of the state. -/
def heapView (s : Kernel) : HeapView where
  held := s.Held
  roots := s.kheaproots
  refs := s.pagerefs
  sized := s.sizebases
  all := s.allbase
  nodes := s.frameList.map FrameListStruct.ptr

/-- A frame in use outside the heap. -/
structure Calm (s : Kernel) (f : ℕ) : Prop where
  busy : s.Busy f
  page : f ∉ s.heapView.pages
  root : ¬ s.heapView.IsRoot f

/-- The frames of the subpage allocator: heap pages and pages of pagerefs. -/
def HeapFrame (s : Kernel) (f : ℕ) : Prop := f ∈ s.heapView.pages ∨ s.heapView.IsRoot f

variable {s : Kernel} {f : ℕ}

theorem busy_iff (hs : s.vmStarted = true) : s.Busy f ↔ f < s.pagetableEntry ∧ s.Valid f := by
  unfold Busy
  rw [if_pos hs]

theorem held_iff (hs : s.vmStarted = true) :
    s.Held f ↔ f < s.pagetableEntry ∧ s.Valid f ∧ (s.mainPG f).pid = 0 := by
  unfold Held
  rw [if_pos hs]

theorem held_iff_early (hs : s.vmStarted = false) : s.Held f ↔ f * pageSize < s.firstpaddr := by
  unfold Held
  rw [if_neg (by rw [hs]; decide)]

theorem busy_iff_early (hs : s.vmStarted = false) : s.Busy f ↔ f * pageSize < s.firstpaddr := by
  unfold Busy
  rw [if_neg (by rw [hs]; decide)]

theorem calm_of_not_heapFrame (hs : s.vmStarted = true) (hlt : f < s.pagetableEntry)
    (hv : s.Valid f) (hno : ¬ s.HeapFrame f) : s.Calm f :=
  ⟨(busy_iff hs).mpr ⟨hlt, hv⟩, fun hp => hno (.inl hp), fun hr => hno (.inr hr)⟩

theorem Calm.not_heapFrame (hc : s.Calm f) : ¬ s.HeapFrame f :=
  fun h => h.elim hc.page hc.root

theorem Held.busy (h : s.Held f) : s.Busy f := by
  cases hs : s.vmStarted with
  | true => exact (busy_iff hs).mpr ⟨((held_iff hs).mp h).1, ((held_iff hs).mp h).2.1⟩
  | false => exact (busy_iff_early hs).mpr ((held_iff_early hs).mp h)

theorem livePage_iff : s.heapView.LivePage (kvaddr f) ↔ s.Held f ∧ s.Calm f := by
  constructor
  · rintro ⟨g, hg, hheld, hpage, hroot⟩
    obtain rfl := kvaddr_inj hg
    exact ⟨hheld, Held.busy hheld, hpage, hroot⟩
  · rintro ⟨hheld, hcalm⟩
    exact ⟨f, rfl, hheld, hcalm.page, hcalm.root⟩

end Kernel

/-- The heap is consistent, clients own `L` and the pagerefs `V` are reserved. -/
structure HeapInv (L : List ℕ) (V : List (ℕ × ℕ)) (s : Kernel) : Prop where
  early : s.vmStarted = false → s.firstpaddr % pageSize = 0 ∧ s.firstpaddr ≤ s.lastpaddr
  ok : HeapView.Ok L V s.heapView

/-- The two states differ in what an allocator call that releases no user page may touch. -/
def HeapOnly (s s' : Kernel) : Prop :=
  s' = { s with
    ram := s'.ram
    firstpaddr := s'.firstpaddr
    mainPG := s'.mainPG
    ptCounter := s'.ptCounter
    frameList := s'.frameList
    frameListEnd := s'.frameListEnd
    kheaproots := s'.kheaproots
    pagerefs := s'.pagerefs
    sizebases := s'.sizebases
    allbase := s'.allbase }

instance : Std.Refl HeapOnly := ⟨fun _ => rfl⟩

instance : IsTrans Kernel HeapOnly where
  trans s t u hst htu := by
    unfold HeapOnly at *
    rw [htu, hst]

theorem SameFrames.heapOnly {s s' : Kernel} (h : SameFrames s s') : HeapOnly s s' := by
  unfold HeapOnly
  rw [h]

/-- Frames in use outside the heap, other than those in `X`, are left alone and no user frame appears.  Once the
VM has started no other frame comes into use outside the heap. -/
structure QuietBut (X : Set ℕ) (s s' : Kernel) : Prop where
  same : HeapOnly s s'
  stays : ∀ f, f ∉ X → s.Calm f → s'.Calm f
  fresh : s.vmStarted = true → ∀ f, f ∉ X → s'.Calm f → s.Calm f
  row : ∀ f, f ∉ X → s.Calm f → s'.mainPG f = s.mainPG f
  bytes : ∀ f, f ∉ X → s.Calm f → frameBytes s'.ram f = frameBytes s.ram f
  user : ∀ f, s'.User f → s.User f

/-- Every frame in use outside the heap is left alone. -/
abbrev Quiet (s s' : Kernel) : Prop := QuietBut ∅ s s'

namespace QuietBut

variable {X Y : Set ℕ} {s t u : Kernel}

theorem refl (s : Kernel) : Quiet s s :=
  ⟨rfl, fun _ _ h => h, fun _ _ _ h => h, fun _ _ _ => rfl, fun _ _ _ => rfl, fun _ h => h⟩

theorem vmStarted (h : QuietBut X s t) : t.vmStarted = s.vmStarted := by
  rw [h.same]

theorem pagetableEntry (h : QuietBut X s t) : t.pagetableEntry = s.pagetableEntry := by
  rw [h.same]

theorem trans (hst : QuietBut X s t) (htu : QuietBut Y t u) : QuietBut (X ∪ Y) s u where
  same := IsTrans.trans _ _ _ hst.same htu.same
  stays f hf hs := htu.stays f (fun h => hf (.inr h)) (hst.stays f (fun h => hf (.inl h)) hs)
  fresh hv f hf hu := by
    have hv' : t.vmStarted = true := hst.vmStarted.trans hv
    exact hst.fresh hv f (fun h => hf (.inl h)) (htu.fresh hv' f (fun h => hf (.inr h)) hu)
  row f hf hs := by
    have hX : f ∉ X := fun h => hf (.inl h)
    rw [htu.row f (fun h => hf (.inr h)) (hst.stays f hX hs), hst.row f hX hs]
  bytes f hf hs := by
    have hX : f ∉ X := fun h => hf (.inl h)
    rw [htu.bytes f (fun h => hf (.inr h)) (hst.stays f hX hs), hst.bytes f hX hs]
  user f hf := hst.user f (htu.user f hf)

theorem drop (h : QuietBut X s t) (hs : ∀ f ∈ X, f ∉ Y → ¬ s.Calm f)
    (ht : s.vmStarted = true → ∀ f ∈ X, f ∉ Y → ¬ t.Calm f) : QuietBut Y s t where
  same := h.same
  stays f hf hc := h.stays f (fun hX => hs f hX hf hc) hc
  fresh hv f hf hc := h.fresh hv f (fun hX => ht hv f hX hf hc) hc
  row f hf hc := h.row f (fun hX => hs f hX hf hc) hc
  bytes f hf hc := h.bytes f (fun hX => hs f hX hf hc) hc
  user := h.user

theorem weaken (h : QuietBut X s t) (hXY : X ⊆ Y) : QuietBut Y s t :=
  h.drop (fun _ hX hY => absurd (hXY hX) hY) fun _ _ hX hY => absurd (hXY hX) hY

theorem quiet_trans (hst : Quiet s t) (htu : QuietBut X t u) : QuietBut X s u :=
  (hst.trans htu).weaken (by rw [Set.empty_union])

theorem trans_quiet (hst : QuietBut X s t) (htu : Quiet t u) : QuietBut X s u :=
  (hst.trans htu).weaken (by rw [Set.union_empty])

theorem same_trans (hst : QuietBut X s t) (htu : QuietBut X t u) : QuietBut X s u :=
  (hst.trans htu).weaken (by rw [Set.union_self])

theorem livePage (h : QuietBut X s t) {f : ℕ} (hf : f ∉ X) (hlive : s.heapView.LivePage (kvaddr f)) :
    t.heapView.LivePage (kvaddr f) := by
  obtain ⟨hheld, hcalm⟩ := livePage_iff.mp hlive
  have hcalm' := h.stays f hf hcalm
  refine livePage_iff.mpr ⟨?_, hcalm'⟩
  cases hs : s.vmStarted with
  | true =>
    have ht : t.vmStarted = true := h.vmStarted.trans hs
    obtain ⟨hlt, hvalid⟩ := (busy_iff ht).mp hcalm'.busy
    refine (held_iff ht).mpr ⟨hlt, hvalid, ?_⟩
    rw [h.row f hf hcalm]
    exact ((held_iff hs).mp hheld).2.2
  | false =>
    have ht : t.vmStarted = false := h.vmStarted.trans hs
    exact (held_iff_early ht).mpr ((busy_iff_early ht).mp hcalm'.busy)

end QuietBut

/-- An edit that leaves rows and first-free alone is quiet where it keeps the heap's frames and the bytes. -/
theorem HeapOnly.quietBut {X : Set ℕ} {s s' : Kernel} (h : HeapOnly s s') (hrow : s'.mainPG = s.mainPG)
    (hfirst : s'.firstpaddr = s.firstpaddr)
    (hpages : ∀ f, f ∉ X → (f ∈ s'.heapView.pages ↔ f ∈ s.heapView.pages))
    (hroot : ∀ f, f ∉ X → (s'.heapView.IsRoot f ↔ s.heapView.IsRoot f))
    (hbytes : ∀ f, f ∉ X → s.Calm f → frameBytes s'.ram f = frameBytes s.ram f) :
    QuietBut X s s' := by
  have hbusy : ∀ f, s'.Busy f ↔ s.Busy f := by
    intro f
    unfold Busy Valid
    rw [hrow, hfirst, show s'.pagetableEntry = s.pagetableEntry by rw [h],
      show s'.vmStarted = s.vmStarted by rw [h]]
  have hcalm : ∀ f, f ∉ X → (s'.Calm f ↔ s.Calm f) := fun f hf =>
    ⟨fun hc => ⟨(hbusy f).mp hc.busy, fun hp => hc.page ((hpages f hf).mpr hp),
        fun hr => hc.root ((hroot f hf).mpr hr)⟩,
      fun hc => ⟨(hbusy f).mpr hc.busy, fun hp => hc.page ((hpages f hf).mp hp),
        fun hr => hc.root ((hroot f hf).mp hr)⟩⟩
  refine ⟨h, fun f hf => (hcalm f hf).mpr, fun _ f hf => (hcalm f hf).mp, fun f _ _ => by rw [hrow],
    hbytes, fun f hu => ?_⟩
  unfold User Valid at hu ⊢
  rw [← hrow]
  exact hu

theorem SameFrames.quietBut {X : Set ℕ} {s s' : Kernel} (h : SameFrames s s')
    (hfirst : s'.firstpaddr = s.firstpaddr)
    (hpages : ∀ f, f ∉ X → (f ∈ s'.heapView.pages ↔ f ∈ s.heapView.pages))
    (hroot : ∀ f, f ∉ X → (s'.heapView.IsRoot f ↔ s.heapView.IsRoot f))
    (hbytes : ∀ f, f ∉ X → s.Calm f → frameBytes s'.ram f = frameBytes s.ram f) :
    QuietBut X s s' :=
  h.heapOnly.quietBut (by rw [h]) hfirst hpages hroot hbytes

/-! ### Writes to memory -/

theorem physAddr_kvaddr {f o : ℕ} (hf : f < 2 ^ 17) (ho : o < pageSize) :
    physAddr (kvaddr f + o) = f * pageSize + o := by
  simp only [physAddr, kvaddr, pageSize, kseg0] at *
  omega

theorem physAddr_kvaddr_self {f : ℕ} (hf : f < 2 ^ 17) : physAddr (kvaddr f) = f * pageSize := by
  have h := physAddr_kvaddr hf (show 0 < pageSize by decide)
  rwa [Nat.add_zero, Nat.add_zero] at h

namespace HeapInv

variable {L : List ℕ} {V : List (ℕ × ℕ)} {s : Kernel}

theorem perm {L' : List ℕ} (h : HeapInv L V s) (hp : L.Perm L') : HeapInv L' V s := ⟨h.early, h.ok.perm hp⟩

variable {x p n ptr k : ℕ} {src : ℕ → UInt8}

theorem forget (h : HeapInv (x :: L) V s) : HeapInv L V s := ⟨h.early, h.ok.forget⟩

theorem not_mem_of_cons (h : HeapInv (x :: L) V s) : x ∉ L := fun hx =>
  h.ok.not_mem_of_cons (List.mem_append_right _ hx)

theorem page_lt (h : HeapInv L V s) (hp : p ∈ s.allbase) : (s.pagerefs p).page < 2 ^ 17 :=
  h.ok.held_lt _ (h.ok.page_held p hp)

theorem bytes_of_page {a : ℕ} (hp : p ∈ s.allbase)
    (ha : (s.pagerefs p).page * pageSize ≤ a) (hn : a + n ≤ ((s.pagerefs p).page + 1) * pageSize)
    {f : ℕ} (hf : s.Calm f) : frameBytes (overlay s.ram a n src) f = frameBytes s.ram f := by
  have hne : f ≠ (s.pagerefs p).page := fun heq => hf.page (heq ▸ List.mem_map_of_mem hp)
  exact frameBytes_overlay_of_ne hne ha hn

theorem bytes_of_block (h : HeapInv L V s)
    (hb : s.heapView.LiveBlock ptr) (hkn : k + n ≤ 16) {f : ℕ} (hf : s.Calm f) :
    frameBytes (overlay s.ram (physAddr ptr + k) n src) f = frameBytes s.ram f := by
  obtain ⟨p, hp, o, ho, rfl, hdvd, -⟩ := hb
  have hfit : o + 16 ≤ pageSize := by
    have hpos : 1 ≤ 2 ^ (s.pagerefs p).blocktype := Nat.one_le_two_pow
    have hle : o + sizes (s.pagerefs p).blocktype ≤ pageSize :=
      block_le (h.ok.good p hp).blocktype ho hdvd
    unfold sizes at hle
    omega
  have hpage : physAddr (kvaddr (s.pagerefs p).page + o) = (s.pagerefs p).page * pageSize + o :=
    physAddr_kvaddr (h.page_lt hp) ho
  refine bytes_of_page hp ?_ ?_ hf
  · show _ ≤ physAddr (kvaddr (s.pagerefs p).page + o) + k
    omega
  · show physAddr (kvaddr (s.pagerefs p).page + o) + k + n ≤ _
    rw [hpage, Nat.succ_mul]
    omega

theorem write_block (h : HeapInv L V s) (src : ℕ → UInt8)
    (hb : s.heapView.LiveBlock ptr) (hkn : k + n ≤ 16) :
    HeapInv L V (s.write (physAddr ptr + k) n src) ∧ Quiet s (s.write (physAddr ptr + k) n src) :=
  ⟨⟨h.early, h.ok⟩, (s.write_sameFrames _ _ _).quietBut rfl (fun _ _ => Iff.rfl) (fun _ _ => Iff.rfl)
    fun _ _ hf => h.bytes_of_block hb hkn hf⟩

end HeapInv

/-! ### What the searches of the heap return -/

theorem findFreePage_ok {t : ℕ} {s s' : Kernel} {r : Option ℕ} : ∀ {ps : List ℕ},
    findFreePage t ps s = .ok r s' → s' = s ∧ ∀ p, r = some p → p ∈ ps := by
  intro ps
  induction ps with
  | nil =>
    intro h
    obtain ⟨rfl, rfl⟩ := pure_ok_iff.mp h
    exact ⟨rfl, fun _ hp => nomatch hp⟩
  | cons p ps ih =>
    intro h
    unfold findFreePage at h
    simp only [bind_ok_iff, read_ok_iff, kassert, require_ok_iff] at h
    obtain ⟨_, _, ⟨rfl, rfl⟩, _, _, ⟨-, rfl⟩, hrest⟩ := h
    split at hrest
    · obtain ⟨rfl, rfl⟩ := pure_ok_iff.mp hrest
      refine ⟨rfl, fun q hq => ?_⟩
      rw [← Option.some.inj hq]
      exact List.mem_cons_self
    · obtain ⟨hs, hmem⟩ := ih hrest
      exact ⟨hs, fun q hq => List.mem_cons_of_mem _ (hmem q hq)⟩

theorem findPage_ok {ptr : ℕ} {s s' : Kernel} {r : Option ℕ} : ∀ {ps : List ℕ},
    findPage ptr ps s = .ok r s' →
      s' = s ∧ (∀ p, r = some p → p ∈ ps ∧ s.InPage ptr p) ∧ (r = none → ∀ p ∈ ps, ¬ s.InPage ptr p) := by
  intro ps
  induction ps with
  | nil =>
    intro h
    obtain ⟨rfl, rfl⟩ := pure_ok_iff.mp h
    exact ⟨rfl, fun _ hp => (by cases hp), fun _ p hp => by cases hp⟩
  | cons p ps ih =>
    intro h
    unfold findPage at h
    simp only [bind_ok_iff, read_ok_iff, kassert, require_ok_iff] at h
    obtain ⟨_, _, ⟨rfl, rfl⟩, _, _, ⟨-, rfl⟩, hrest⟩ := h
    split at hrest
    · next hin =>
      obtain ⟨rfl, rfl⟩ := pure_ok_iff.mp hrest
      refine ⟨rfl, fun q hq => ?_, fun hnone => by cases hnone⟩
      rw [← Option.some.inj hq]
      exact ⟨List.mem_cons_self, hin⟩
    · next hout =>
      obtain ⟨hs, hmem, hnone⟩ := ih hrest
      refine ⟨hs, fun q hq => ⟨List.mem_cons_of_mem _ (hmem q hq).1, (hmem q hq).2⟩, fun hr q hq => ?_⟩
      rcases List.mem_cons.mp hq with rfl | hq
      · exact hout
      · exact hnone hr q hq

theorem freepagerefFrom_ok {p : ℕ} {s s' : Kernel} {u : Unit} : ∀ {k w : ℕ},
    freepagerefFrom p k w s = .ok u s' →
      ∃ w' f, w' < w + k ∧ (s.kheaproots w').page = some f ∧ kvaddr f ≤ p ∧ p < kvaddr f + pageSize ∧
        s' = s.dropPageref w' ((p - kvaddr f) / 16) := by
  intro k
  induction k with
  | zero =>
    intro w h
    rw [freepagerefFrom] at h
    exact (require_ok_iff.mp h).1.elim
  | succ k ih =>
    intro w h
    unfold freepagerefFrom at h
    obtain ⟨root, _, hread, hrest⟩ := bind_ok_iff.mp h
    obtain ⟨rfl, rfl⟩ := read_ok_iff.mp hread
    -- the next root, when this one has no page or another one
    have next : freepagerefFrom p k (w + 1) s = .ok u s' →
        ∃ w' f, w' < w + (k + 1) ∧ (s.kheaproots w').page = some f ∧ kvaddr f ≤ p ∧
          p < kvaddr f + pageSize ∧ s' = s.dropPageref w' ((p - kvaddr f) / 16) := by
      intro hn
      obtain ⟨w', f, hw', hrest⟩ := ih hn
      exact ⟨w', f, by omega, hrest⟩
    cases hpage : (s.kheaproots w).page with
    | none =>
      simp only [hpage, bind_ok_iff, kassert, require_ok_iff] at hrest
      obtain ⟨_, _, ⟨-, rfl⟩, hn⟩ := hrest
      exact next hn
    | some f =>
      simp only [hpage] at hrest
      split at hrest
      · next hin =>
        simp only [bind_ok_iff, kassert, require_ok_iff, update_ok_iff] at hrest
        obtain ⟨_, _, ⟨-, rfl⟩, _, _, ⟨-, rfl⟩, rfl⟩ := hrest
        exact ⟨w, f, by omega, hpage, hin.1, hin.2, rfl⟩
      · exact next hrest

theorem freePageref_some {s : Kernel} {w j : ℕ} (h : s.freePageref = some (w, j)) :
    w < 16 ∧ j < 256 ∧ (s.kheaproots w).inuse j = false := by
  unfold freePageref at h
  simp only [Option.bind_eq_bind, Option.bind_eq_some_iff, Option.pure_def, Option.some.injEq,
    Prod.mk.injEq] at h
  obtain ⟨w', hw', j', hj', rfl, rfl⟩ := h
  exact ⟨lt_of_firstBelow hw', lt_of_firstBelow hj', prop_of_firstBelow hj'⟩

/-! ### Taking a block -/

section Blocks

variable {L : List ℕ} {V : List (ℕ × ℕ)} {s s' : Kernel}

theorem Kernel.setPageref_pages (s : Kernel) (p : ℕ) (pr : Pageref) (h : pr.page = (s.pagerefs p).page) :
    (s.setPageref p pr).heapView.pages = s.heapView.pages := by
  refine List.map_congr_left fun q _ => ?_
  show (update s.pagerefs p pr q).page = (s.pagerefs q).page
  by_cases hq : q = p
  · rw [hq, update_self, h]
  · rw [update_of_ne hq]

theorem doalloc_sound {p a : ℕ} (h : HeapInv L V s) (hp : p ∈ s.allbase)
    (hd : doalloc p s = .ok a s') :
    HeapInv (a :: L) V s' ∧ s'.heapView.LiveBlock a ∧ Quiet s s' := by
  obtain ⟨o, rest, hfl, rfl, -, rfl⟩ := doalloc_ok hd
  obtain ⟨hok, hblock⟩ := h.ok.allocBlock hp hfl
  have hpages := s.setPageref_pages p { s.pagerefs p with
    freelist := rest, nfree := (s.pagerefs p).nfree - 1 } rfl
  refine ⟨⟨h.early, hok⟩, hblock, (s.setPageref_sameFrames _ _).quietBut rfl (fun f _ => ?_)
    (fun _ _ => Iff.rfl) fun _ _ _ => rfl⟩
  rw [hpages]

theorem HeapInv.freeBlock {p o : ℕ} (h : HeapInv ((kvaddr (s.pagerefs p).page + o) :: L) V s)
    (hp : p ∈ s.allbase) (ho : o < pageSize) :
    HeapInv L V (s.freeBlock p o) ∧ Quiet s (s.freeBlock p o) := by
  obtain ⟨-, hok⟩ := HeapView.Ok.freeBlock (H := s.heapView) (p := p) (o := o) h.ok hp ho
  have hmem : kvaddr (s.pagerefs p).page + o ∈
      s.heapView.nodes ++ (kvaddr (s.pagerefs p).page + o) :: L :=
    List.mem_append_right _ List.mem_cons_self
  obtain ⟨hdvd, -⟩ := h.ok.live_in_page hp hmem ho rfl
  have hfit : o + sizes (s.pagerefs p).blocktype ≤ pageSize :=
    block_le (h.ok.good p hp).blocktype ho hdvd
  have hsize : 4 ≤ sizes (s.pagerefs p).blocktype := by
    have hpos : 1 ≤ 2 ^ (s.pagerefs p).blocktype := Nat.one_le_two_pow
    unfold sizes
    omega
  have hpages := s.setPageref_pages p { s.pagerefs p with
    freelist := o :: (s.pagerefs p).freelist, nfree := (s.pagerefs p).nfree + 1 } rfl
  refine ⟨⟨h.early, hok⟩, (s.freeBlock_sameFrames p o).quietBut rfl (fun f _ => ?_) (fun _ _ => Iff.rfl) ?_⟩
  · exact Iff.of_eq (congrArg (f ∈ ·) hpages)
  · intro f _ hf
    have hne : f ≠ (s.pagerefs p).page := fun heq => hf.page (heq ▸ List.mem_map_of_mem hp)
    simp only [Kernel.freeBlock, store32]
    rw [frameBytes_overlay_of_ne hne (by omega) (by rw [Nat.succ_mul]; omega),
      frameBytes_overlay_of_ne hne (by omega) (by rw [Nat.succ_mul]; omega)]

end Blocks

/-! ### Giving up a frame -/

/-- What `free_kpages` does to the frame itself: nothing before the VM has started. -/
def Kernel.freed (s : Kernel) (f : ℕ) : Kernel :=
  if s.vmStarted = true then (s.release f).write (f * pageSize) pageSize fun _ => 0 else s

namespace Kernel

variable {s : Kernel} {f : ℕ}

theorem release_mainPG (s : Kernel) (f : ℕ) : (s.release f).mainPG =
    update s.mainPG f { s.mainPG f with valid := false, pid := 0, pageNumber := 0 } := rfl

theorem release_of_kernel (h : (s.mainPG f).pid = 0) : s.release f = { s with
    mainPG := update s.mainPG f { s.mainPG f with valid := false, pid := 0, pageNumber := 0 } } := by
  unfold release
  rw [if_neg (by rw [h]; decide)]

theorem not_valid_release (s : Kernel) (f : ℕ) : ¬ (s.release f).Valid f := by
  unfold Valid
  rw [release_mainPG, update_self]
  exact Bool.false_ne_true

theorem release_valid_iff {g : ℕ} (hg : g ≠ f) : (s.release f).Valid g ↔ s.Valid g := by
  unfold Valid
  rw [release_mainPG, update_of_ne hg]

theorem freed_of_started (hs : s.vmStarted = true) :
    s.freed f = (s.release f).write (f * pageSize) pageSize fun _ => 0 := if_pos hs

theorem freed_of_early (hs : s.vmStarted = false) : s.freed f = s := by
  unfold freed
  rw [if_neg (by rw [hs]; decide)]

theorem release_same (s : Kernel) (f : ℕ) : (s.release f) = { s with
    mainPG := (s.release f).mainPG, tlb := (s.release f).tlb
    freeTLBEntries := (s.release f).freeTLBEntries } := by
  unfold release tlbRemove
  by_cases h : (s.mainPG f).pid ≠ 0
  · rw [if_pos h]
    cases s.tlbProbe (s.mainPG f).pageNumber <;> rfl
  · rw [if_neg h]

theorem release_heapView (hs : s.vmStarted = true) (f : ℕ) :
    (s.release f).heapView = { s.heapView with held := fun g => s.Held g ∧ g ≠ f } := by
  have hs' : (s.release f).vmStarted = true := by rw [s.release_same f]; exact hs
  have hheld : (s.release f).Held = fun g => s.Held g ∧ g ≠ f := by
    funext g
    rw [held_iff hs', held_iff hs, show (s.release f).pagetableEntry = s.pagetableEntry by
      rw [s.release_same f]]
    refine propext ?_
    by_cases hg : g = f
    · rw [hg]
      exact ⟨fun h => absurd h.2.1 (s.not_valid_release f), fun h => absurd rfl h.2⟩
    · rw [release_valid_iff hg, release_mainPG, update_of_ne hg]
      exact ⟨fun h => ⟨h, hg⟩, fun h => h.1⟩
  unfold heapView
  rw [hheld, s.release_same f]

end Kernel

theorem Kernel.freed_allocOnly (s : Kernel) (f : ℕ) : AllocOnly s (s.freed f) := by
  unfold freed
  split
  · exact IsTrans.trans _ (s.release f) _ (s.release_allocOnly f) rfl
  · rfl

section Freed

variable {L : List ℕ} {V : List (ℕ × ℕ)} {s : Kernel} {f : ℕ}

theorem HeapInv.freed (h : HeapInv L V s) (hL : kvaddr f ∉ L) (hc : s.Calm f) :
    HeapInv L V (s.freed f) := by
  cases hs : s.vmStarted with
  | true =>
    rw [freed_of_started hs]
    refine ⟨fun hv => ?_, ?_⟩
    · have : (s.release f).vmStarted = false := hv
      rw [s.release_same f] at this
      exact absurd (hs.symm.trans this) (by decide)
    · show HeapView.Ok L V (s.release f).heapView
      rw [release_heapView hs]
      exact h.ok.release hc.page hc.root hL
  | false =>
    rw [freed_of_early hs]
    exact h

theorem not_calm_freed (hs : s.vmStarted = true) : ¬ (s.freed f).Calm f := by
  intro hc
  rw [freed_of_started hs] at hc
  have hs' : (s.release f).vmStarted = true := by rw [s.release_same f]; exact hs
  exact s.not_valid_release f ((busy_iff (s := (s.release f).write _ _ _) hs').mp hc.busy).2

theorem freed_mainPG {g : ℕ} (hg : g ≠ f) : (s.freed f).mainPG g = s.mainPG g := by
  cases hs : s.vmStarted with
  | true =>
    rw [freed_of_started hs]
    exact update_of_ne hg ..
  | false => rw [freed_of_early hs]

theorem freed_bytes {g : ℕ} (hg : g ≠ f) : frameBytes (s.freed f).ram g = frameBytes s.ram g := by
  cases hs : s.vmStarted with
  | true =>
    rw [freed_of_started hs, show s.ram = (s.release f).ram by rw [s.release_same f]]
    exact frameBytes_overlay_of_ne hg (Nat.le_refl _) (by rw [Nat.succ_mul])
  | false => rw [freed_of_early hs]

theorem freed_calm_iff {g : ℕ} (hg : g ≠ f) : (s.freed f).Calm g ↔ s.Calm g := by
  cases hs : s.vmStarted with
  | false => rw [freed_of_early hs]
  | true =>
    rw [freed_of_started hs]
    have hs' : (s.release f).vmStarted = true := by rw [s.release_same f]; exact hs
    have hbusy : (s.release f).Busy g ↔ s.Busy g := by
      rw [busy_iff hs', busy_iff hs, release_valid_iff hg,
        show (s.release f).pagetableEntry = s.pagetableEntry by rw [s.release_same f]]
    have hview : (s.release f).heapView.pages = s.heapView.pages ∧
        ((s.release f).heapView.IsRoot g ↔ s.heapView.IsRoot g) := by
      rw [release_heapView hs]
      exact ⟨rfl, Iff.rfl⟩
    constructor
    · exact fun hc => ⟨hbusy.mp hc.busy, hview.1 ▸ hc.page, fun hr => hc.root (hview.2.mpr hr)⟩
    · intro hc
      exact ⟨hbusy.mpr hc.busy, fun hp => hc.page (hview.1 ▸ hp), fun hr => hc.root (hview.2.mp hr)⟩

theorem freed_user {g : ℕ} (hu : (s.freed f).User g) : s.User g ∧ (s.vmStarted = true → g ≠ f) := by
  cases hs : s.vmStarted with
  | false =>
    rw [freed_of_early hs] at hu
    exact ⟨hu, fun hv => absurd hv (by decide)⟩
  | true =>
    have hgf : g ≠ f := by
      rintro rfl
      rw [freed_of_started hs] at hu
      exact s.not_valid_release g hu.1
    refine ⟨?_, fun _ => hgf⟩
    unfold User Valid at hu ⊢
    rw [freed_mainPG hgf] at hu
    exact hu

theorem freed_quiet (hpid : s.vmStarted = true → (s.mainPG f).pid = 0) :
    QuietBut {f} s (s.freed f) where
  same := by
    cases hs : s.vmStarted with
    | true =>
      rw [freed_of_started hs, release_of_kernel (hpid hs)]
      rfl
    | false => rw [freed_of_early hs]; rfl
  stays _ hg := (freed_calm_iff hg).mpr
  fresh _ _ hg := (freed_calm_iff hg).mp
  row _ hg _ := freed_mainPG hg
  bytes _ hg _ := freed_bytes hg
  user _ hu := (freed_user hu).1

end Freed

/-! ### What the page functions promise -/

/-- The outcome of `alloc_kpages(n)`: no frame was left, or a client owns the page at `a`, and the frames that
came into use were not in use before. -/
inductive Taken (L : List ℕ) (V : List (ℕ × ℕ)) (n : ℕ) (s : Kernel) (a : ℕ) (s' : Kernel) : Prop
  | none (ha : a = 0) (inv : HeapInv L V s') (quiet : Quiet s s')
  | frame (f : ℕ) (X : Set ℕ) (ha : a = kvaddr f) (hf : f ∈ X) (one : n = 1 → X = {f})
      (new : ∀ g ∈ X, ¬ s.Calm g) (quiet : QuietBut X s s') (inv : HeapInv (a :: L) V s')
      (live : s'.heapView.LivePage a)
      (zero : s.vmStarted = true → ∀ i, frameBytes s'.ram f i = 0)

/-- Both page functions keep the heap consistent and touch no frame that is not theirs. -/
structure Allocator.Sound (A : Allocator) : Prop where
  alloc : ∀ {L : List ℕ} {V : List (ℕ × ℕ)} {n : ℕ} {s : Kernel} {a : ℕ} {s' : Kernel}, HeapInv L V s →
    (s.vmStarted = false → n ≠ 0) → A.alloc n s = .ok a s' → Taken L V n s a s'
  free : ∀ {L : List ℕ} {V : List (ℕ × ℕ)} {f : ℕ} {s : Kernel} {u : Unit} {s' : Kernel}, HeapInv L V s →
    kvaddr f ∉ L → s.Calm f → A.free (kvaddr f) s = .ok u s' → HeapInv L V s' ∧ Quiet (s.freed f) s'

/-- Both page functions keep every heap page that somebody else has a block in. -/
structure Allocator.Keeping (A : Allocator) : Prop where
  alloc : ∀ {L : List ℕ} {V : List (ℕ × ℕ)} {n : ℕ} {s : Kernel} {a : ℕ} {s' : Kernel}, HeapInv L V s →
    (s.vmStarted = false → n ≠ 0) → A.alloc n s = .ok a s' → Keeps L s s'
  free : ∀ {L : List ℕ} {V : List (ℕ × ℕ)} {f : ℕ} {s : Kernel} {u : Unit} {s' : Kernel}, HeapInv L V s →
    kvaddr f ∉ L → s.Calm f → A.free (kvaddr f) s = .ok u s' → Keeps L s s'

section Bodies

variable {A : Allocator} (hA : A.Sound) (hK : A.Keeping) {L : List ℕ} {V : List (ℕ × ℕ)} {s s' : Kernel}

include hA hK

theorem free_sound {f : ℕ} {u : Unit} (h : HeapInv L V s) (hL : kvaddr f ∉ L)
    (hlive : s.heapView.LivePage (kvaddr f)) (hfree : A.free (kvaddr f) s = .ok u s') :
    HeapInv L V s' ∧ Keeps L s s' ∧ QuietBut {f} s s' ∧ (s.vmStarted = true → ¬ s'.Calm f) := by
  obtain ⟨hheld, hcalm⟩ := livePage_iff.mp hlive
  obtain ⟨hinv, hquiet⟩ := hA.free h hL hcalm hfree
  have hfreed : QuietBut {f} s (s.freed f) :=
    freed_quiet fun hs => ((held_iff hs).mp hheld).2.2
  refine ⟨hinv, hK.free h hL hcalm hfree, hfreed.trans_quiet hquiet, fun hs hc => not_calm_freed (f := f) hs ?_⟩
  exact hquiet.fresh (hfreed.vmStarted.trans hs) f (Set.notMem_empty f) hc

variable {w p a ptr : ℕ} {b : Bool}

/-- **`allocpagerefpage`** gives a root its page, unless the allocation itself did already. -/
theorem allocpagerefpage_sound {u : Unit} (hw : w < 16) (h : HeapInv L V s)
    (hrun : allocpagerefpage A w s = .ok u s') : HeapInv L V s' ∧ Keeps L s s' ∧ Quiet s s' := by
  unfold allocpagerefpage at hrun
  simp only [bind_ok_iff, read_ok_iff, kassert, require_ok_iff] at hrun
  obtain ⟨_, _, ⟨rfl, rfl⟩, _, _, ⟨-, rfl⟩, va, t, halloc, hrest⟩ := hrun
  have hkeeps := hK.alloc h (fun _ => Nat.one_ne_zero) halloc
  cases hA.alloc h (fun _ => Nat.one_ne_zero) halloc with
  | none ha inv quiet =>
    rw [if_pos ha] at hrest
    obtain ⟨-, rfl⟩ := pure_ok_iff.mp hrest
    exact ⟨inv, hkeeps, quiet⟩
  | frame f X ha hf one new quiet inv live zero =>
    obtain rfl := one rfl
    subst ha
    rw [if_neg (kvaddr_ne_zero f)] at hrest
    simp only [bind_ok_iff, require_ok_iff, read_ok_iff] at hrest
    obtain ⟨_, _, ⟨-, rfl⟩, _, _, ⟨rfl, rfl⟩, hrest⟩ := hrest
    have hlt : f < 2 ^ 17 := inv.ok.held_lt f (livePage_iff.mp live).1
    have hnew : ∀ g ∈ ({f} : Set ℕ), g ∉ (∅ : Set ℕ) → ¬ s.Calm g := fun g hg _ => new g hg
    split at hrest
    · next hnone =>
      have hs' := (update_ok_iff.mp hrest).symm
      rw [frameIndex_kvaddr_self (Nat.le_of_lt hlt)] at hs'
      have hok := inv.ok.setRootPage live hnone rfl
      -- the frame is a root from here on, every other frame is what it was
      have hroot : s'.heapView.IsRoot f := by
        refine ⟨w, hw, ?_⟩
        rw [hs']
        show (update t.kheaproots w _ w).page = some f
        rw [update_self]
      have hother : ∀ g, g ∉ ({f} : Set ℕ) → (s'.heapView.IsRoot g ↔ t.heapView.IsRoot g) := by
        intro g hg
        rw [hs']
        refine exists_congr fun w' => and_congr_right fun _ => ?_
        show (update t.kheaproots w _ w').page = some g ↔ (t.kheaproots w').page = some g
        by_cases hw' : w' = w
        · rw [hw', update_self, hnone]
          exact ⟨fun heq => absurd (Option.some.inj heq).symm hg, fun heq => by cases heq⟩
        · rw [update_of_ne hw']
      have hstep : QuietBut {f} t s' := by
        refine SameFrames.quietBut ?_ ?_ ?_ hother ?_
        · rw [hs']
          exact t.setRoot_sameFrames _ _
        · rw [hs']
          rfl
        · intro g _
          rw [hs']
          rfl
        · intro g _ _
          rw [hs']
          rfl
      refine ⟨⟨?_, ?_⟩, hkeeps.trans ?_, (quiet.same_trans hstep).drop hnew fun _ g hg _ hc => ?_⟩
      · rw [hs']
        exact inv.early
      · rw [hs']
        exact hok
      · rw [hs']
        exact .of_same rfl rfl
      · exact hc.root (Set.mem_singleton_iff.mp hg ▸ hroot)
    · obtain ⟨hinv, hkeeps', hquiet, hgone⟩ := free_sound hA hK inv.forget inv.not_mem_of_cons live hrest
      refine ⟨hinv, hkeeps.trans hkeeps', (quiet.same_trans hquiet).drop hnew fun hs g hg _ => ?_⟩
      rw [Set.mem_singleton_iff.mp hg]
      exact hgone (quiet.vmStarted.trans hs)

theorem allocpageref_sound {r : Option ℕ} (h : HeapInv L V s) (hrun : allocpageref A s = .ok r s') :
    Quiet s s' ∧ Keeps L s s' ∧ ((r = none ∧ HeapInv L V s') ∨
      ∃ p w j, r = some p ∧ HeapInv L ((w, j) :: V) s' ∧ s'.heapView.IsRef w j p) := by
  unfold allocpageref at hrun
  obtain ⟨found, _, hread, hrest⟩ := bind_ok_iff.mp hrun
  obtain ⟨hfound, rfl⟩ := read_ok_iff.mp hread
  cases found with
  | none =>
    obtain ⟨rfl, rfl⟩ := pure_ok_iff.mp hrest
    exact ⟨QuietBut.refl s, .of_same rfl rfl, .inl ⟨rfl, h⟩⟩
  | some wj =>
    obtain ⟨w, j⟩ := wj
    obtain ⟨hw, hj, hfree⟩ := freePageref_some hfound
    simp only [bind_ok_iff, update_ok_iff, read_ok_iff, when_ok_iff,
      pure_ok_iff] at hrest
    obtain ⟨_, t, ht, _, _, ⟨rfl, rfl⟩, _, t', hwhen, page, _, ⟨hpage, rfl⟩, rfl, rfl⟩ := hrest
    have hok := h.ok.reserve (n := (s.kheaproots w).numinuse + 1) hw hj hfree
    have htake : HeapInv L ((w, j) :: V) t ∧ Keeps L s t ∧ Quiet s t := by
      rw [← ht]
      exact ⟨⟨h.early, hok⟩, .of_same rfl rfl, (s.setRoot_sameFrames _ _).quietBut rfl (fun _ _ => Iff.rfl)
        (fun _ _ => HeapView.marking_isRoot (H := s.heapView)) fun _ _ _ => rfl⟩
    have hthen : HeapInv L ((w, j) :: V) t' ∧ Keeps L t t' ∧ Quiet t t' := by
      rcases hwhen with ⟨-, hpg⟩ | ⟨-, rfl⟩
      · exact allocpagerefpage_sound hA hK hw htake.1 hpg
      · exact ⟨htake.1, .of_same rfl rfl, QuietBut.refl _⟩
    refine ⟨htake.2.2.quiet_trans hthen.2.2, htake.2.1.trans hthen.2.1, ?_⟩
    cases hp : (t'.kheaproots w).page with
    | none => exact .inl ⟨by rw [← hpage, hp]; rfl, hthen.1.early, hthen.1.ok.unreserve⟩
    | some f => exact .inr ⟨kvaddr f + 16 * j, w, j, by rw [← hpage, hp]; rfl, hthen.1, f, hp, rfl⟩

omit hA hK in
theorem HeapInv.newHeapPage {f j t : ℕ} (h : HeapInv (kvaddr f :: L) ((w, j) :: V) s)
    (hlive : s.heapView.LivePage (kvaddr f)) (href : s.heapView.IsRef w j p) (ht : t < 8) :
    HeapInv L V (s.newHeapPage p (kvaddr f) t) ∧ QuietBut {f} s (s.newHeapPage p (kvaddr f) t) ∧
      f ∈ (s.newHeapPage p (kvaddr f) t).heapView.pages := by
  have hlt : f < 2 ^ 17 := h.ok.held_lt f (livePage_iff.mp hlive).1
  have hindex : frameIndex (kvaddr f) = f := frameIndex_kvaddr_self (Nat.le_of_lt hlt)
  have hnew : p ∉ s.allbase := fun hp => (h.ok.reserved (w, j) List.mem_cons_self).2.2.2 p hp href
  have hok := h.ok.addPage hlive href (fresh_good (f := f) ht) rfl rfl
  -- the pages of the new view: `f` and those before
  have hpages : ∀ g, g ∈ (s.newHeapPage p (kvaddr f) t).heapView.pages ↔ g = f ∨ g ∈ s.heapView.pages := by
    intro g
    simp only [heapView, Kernel.newHeapPage, HeapView.pages, List.map_cons, List.mem_cons,
      update_self, hindex]
    refine or_congr Iff.rfl ?_
    rw [List.map_congr_left fun q hq => ?_]
    have hqp : q ≠ p := fun heq => hnew (heq ▸ hq)
    rw [update_of_ne hqp]
  refine ⟨⟨h.early, ?_⟩, (s.newHeapPage_sameFrames _ _ _).quietBut rfl (fun g hg => ?_)
    (fun _ _ => Iff.rfl) fun g hg _ => ?_, (hpages f).mpr (.inl rfl)⟩
  · simp only [heapView, Kernel.newHeapPage, hindex]
    exact hok
  · rw [hpages]
    exact ⟨fun hor => hor.resolve_left hg, .inr⟩
  · simp only [Kernel.newHeapPage, physAddr_kvaddr_self hlt]
    exact frameBytes_overlay_of_ne hg (Nat.le_refl _) (by rw [Nat.succ_mul])

/-- A live block of a heap page that is cut into blocks of type `t`. -/
def Kernel.BlockOf (s : Kernel) (t a : ℕ) : Prop :=
  s.heapView.LiveBlock a ∧ ∃ p ∈ s.allbase, s.InPage a p ∧ (s.pagerefs p).blocktype = t

omit hA hK in
theorem doalloc_blockOf (h : HeapInv L V s) (hp : p ∈ s.allbase) (hd : doalloc p s = .ok a s') :
    HeapInv (a :: L) V s' ∧ s'.BlockOf (s.pagerefs p).blocktype a ∧ Quiet s s' := by
  obtain ⟨hinv, hblock, hquiet⟩ := doalloc_sound h hp hd
  obtain ⟨hin, htype, hall⟩ := doalloc_inPage hd
  exact ⟨hinv, ⟨hblock, p, hall ▸ hp, hin, htype⟩, hquiet⟩

/-- **`subpage_kmalloc` is quiet** and hands out a live block of the type it is asked for, or nothing. -/
theorem subpageKmalloc_sound {t : ℕ} (ht : t < 8) (h : HeapInv L V s)
    (hrun : subpageKmalloc A t s = .ok a s') :
    Quiet s s' ∧ Keeps L s s' ∧ ((a = 0 ∧ HeapInv L V s') ∨ (HeapInv (a :: L) V s' ∧ s'.BlockOf t a)) := by
  unfold subpageKmalloc at hrun
  simp only [bind_ok_iff, read_ok_iff] at hrun
  obtain ⟨_, _, ⟨rfl, rfl⟩, found, _, hfind, hrest⟩ := hrun
  obtain ⟨hsame, hmem⟩ := findFreePage_ok hfind
  rw [hsame] at hrest
  cases found with
  | some p =>
    obtain ⟨hp, htype⟩ := h.ok.sized t p (hmem p rfl)
    obtain ⟨hinv, hblock, hquiet⟩ := doalloc_blockOf h hp hrest
    exact ⟨hquiet, doalloc_keeps hrest, .inr ⟨hinv, htype ▸ hblock⟩⟩
  | none =>
    obtain ⟨prpage, t₁, halloc, hrest⟩ := bind_ok_iff.mp hrest
    have hkeeps := hK.alloc h (fun _ => Nat.one_ne_zero) halloc
    cases hA.alloc h (fun _ => Nat.one_ne_zero) halloc with
    | none ha inv quiet =>
      rw [if_pos ha] at hrest
      obtain ⟨rfl, rfl⟩ := pure_ok_iff.mp hrest
      exact ⟨quiet, hkeeps, .inl ⟨rfl, inv⟩⟩
    | frame f X ha hf one new quiet inv live zero =>
      obtain rfl := one rfl
      subst ha
      have hnew : ∀ g ∈ ({f} : Set ℕ), g ∉ (∅ : Set ℕ) → ¬ s.Calm g := fun g hg _ => new g hg
      rw [if_neg (kvaddr_ne_zero f)] at hrest
      simp only [bind_ok_iff, kassert, require_ok_iff] at hrest
      obtain ⟨_, _, ⟨-, rfl⟩, r, t₂, href, hrest⟩ := hrest
      obtain ⟨hquiet₂, hkeeps₂, hcases⟩ := allocpageref_sound hA hK inv href
      have hkeeps₁₂ : Keeps L s t₂ := hkeeps.trans (hkeeps₂.mono (List.subset_cons_self _ L))
      have hlive₂ : t₂.heapView.LivePage (kvaddr f) := hquiet₂.livePage (Set.notMem_empty f) live
      have hquiet₁₂ : QuietBut {f} s t₂ := quiet.trans_quiet hquiet₂
      rcases hcases with ⟨rfl, inv₂⟩ | ⟨p, w, j, rfl, inv₂, hisref⟩
      · simp only [bind_ok_iff, pure_ok_iff] at hrest
        obtain ⟨_, _, hfree, rfl, rfl⟩ := hrest
        obtain ⟨inv₃, hkeeps₃, hquiet₃, hgone⟩ := free_sound hA hK inv₂.forget inv₂.not_mem_of_cons hlive₂ hfree
        refine ⟨(hquiet₁₂.same_trans hquiet₃).drop hnew fun hs g hg _ => ?_, hkeeps₁₂.trans hkeeps₃, .inl ⟨rfl, inv₃⟩⟩
        rw [Set.mem_singleton_iff.mp hg]
        exact hgone (hquiet₁₂.vmStarted.trans hs)
      · simp only [bind_ok_iff, update_ok_iff] at hrest
        obtain ⟨_, t₃, ht₃, hdo⟩ := hrest
        obtain ⟨inv₃, hquiet₃, hpage⟩ := inv₂.newHeapPage hlive₂ hisref ht
        rw [ht₃] at inv₃ hquiet₃ hpage
        have hp : p ∈ t₃.allbase := by
          rw [← ht₃]
          exact List.mem_cons_self
        have hnot : p ∉ t₂.allbase := fun hmem => (inv₂.ok.reserved (w, j) List.mem_cons_self).2.2.2 p hmem hisref
        have hkeeps₃ : Keeps L t₂ t₃ := ht₃ ▸ newHeapPage_keeps hnot
        have htype : (t₃.pagerefs p).blocktype = t := by
          rw [← ht₃]
          show (update t₂.pagerefs p _ p).blocktype = t
          rw [update_self]
        obtain ⟨inv₄, hblock, hquiet₄⟩ := doalloc_blockOf inv₃ hp hdo
        have hdrop : Quiet s t₃ := by
          refine (hquiet₁₂.same_trans hquiet₃).drop hnew fun _ g hg _ hc => hc.page ?_
          rw [Set.mem_singleton_iff.mp hg]
          exact hpage
        exact ⟨hdrop.quiet_trans hquiet₄, (hkeeps₁₂.trans hkeeps₃).trans (doalloc_keeps hdo),
          .inr ⟨inv₄, htype ▸ hblock⟩⟩

theorem kmallocBody_node (h : HeapInv L V s) (hrun : kmallocBody A 8 s = .ok a s') :
    Quiet s s' ∧ Keeps L s s' ∧ ((a = 0 ∧ HeapInv L V s') ∨ (HeapInv (a :: L) V s' ∧ s'.BlockOf 0 a)) :=
  subpageKmalloc_sound hA hK (show 0 < 8 by decide) h hrun

/-- **`kmalloc`** gives the client a new address, or 0: a block that is large enough, or pages.  Frames that come into
use were not in use. -/
theorem kmallocBody_sound {sz : ℕ} (h : HeapInv L V s)
    (hsz : s.vmStarted = false → 2048 ≤ sz → (sz + pageSize - 1) % 2 ^ 32 / pageSize ≠ 0)
    (hrun : kmallocBody A sz s = .ok a s') :
    ∃ X, (∀ g ∈ X, ¬ s.Calm g) ∧ QuietBut X s s' ∧ Keeps L s s' ∧ ((a = 0 ∧ HeapInv L V s') ∨
      (HeapInv (a :: L) V s' ∧
        ((∃ t, sz ≤ sizes t ∧ s'.BlockOf t a) ∨ (2048 ≤ sz ∧ ∃ f ∈ X, a = kvaddr f)))) := by
  have hnone : ∀ g ∈ (∅ : Set ℕ), ¬ s.Calm g := fun g hg => absurd hg (Set.notMem_empty g)
  unfold kmallocBody at hrun
  split at hrun
  · next hbig =>
    simp only [bind_ok_iff, kassert, require_ok_iff, pure_ok_iff] at hrun
    obtain ⟨_, _, halloc, _, _, ⟨-, rfl⟩, rfl, rfl⟩ := hrun
    have hkeeps := hK.alloc h (fun hs => hsz hs hbig) halloc
    cases hA.alloc h (fun hs => hsz hs hbig) halloc with
    | none ha inv quiet => exact ⟨∅, hnone, quiet, hkeeps, .inl ⟨ha, inv⟩⟩
    | frame f X ha hf one new quiet inv live zero =>
      exact ⟨X, new, quiet, hkeeps, .inr ⟨inv, .inr ⟨hbig, f, hf, ha⟩⟩⟩
  · cases hfirst : firstBelow (fun t => sz ≤ sizes t) 8 with
    | none =>
      rw [hfirst] at hrun
      exact (stop_ok_iff.mp hrun).elim
    | some t =>
      rw [hfirst] at hrun
      obtain ⟨hquiet, hkeeps, hcases⟩ := subpageKmalloc_sound hA hK (lt_of_firstBelow hfirst) h hrun
      have hfit : sz ≤ sizes t := prop_of_firstBelow (p := fun t => sz ≤ sizes t) hfirst
      exact ⟨∅, hnone, hquiet, hkeeps, hcases.imp id fun hc => ⟨hc.1, .inl ⟨t, hfit, hc.2⟩⟩⟩

omit hA hK in
theorem HeapInv.removePage {u : Unit} (h : HeapInv L V s) (hp : p ∈ s.allbase)
    (hfull : (s.pagerefs p).nfree = blocksPerPage (s.pagerefs p).blocktype)
    (hrun : freepageref p (s.removeLists p) = .ok u s') :
    HeapInv L V s' ∧ Keeps L s s' ∧ QuietBut {(s.pagerefs p).page} s s' ∧
      s'.heapView.LivePage (kvaddr (s.pagerefs p).page) ∧ kvaddr (s.pagerefs p).page ∉ L := by
  obtain ⟨w, hw, j, hj, ⟨g, hg, hpg⟩, -⟩ := h.ok.marked p hp
  -- the root that `freepageref` finds is the root of the pageref
  obtain ⟨w', g', hw', hg', hle, hlt, hs'⟩ := freepagerefFrom_ok hrun
  have hj16 : 16 * j < pageSize := by unfold pageSize; omega
  obtain rfl : g' = g := kvaddr_range ⟨hle, hlt⟩ hj16 hpg
  obtain rfl : w' = w := h.ok.root_inj w' (by omega) w hw g' hg' hg
  have hbit : (p - kvaddr g') / 16 = j := by
    rw [hpg, Nat.add_sub_cancel_left, Nat.mul_div_cancel_left j (by decide)]
  rw [hbit] at hs'
  obtain ⟨hok, hpage, hroot, hL⟩ := h.ok.dropPage (n := (s.kheaproots w').numinuse - 1) hp hfull hw hj
    ⟨g', hg, hpg⟩
  have hpages : ∀ f, f ∉ ({(s.pagerefs p).page} : Set ℕ) →
      (f ∈ s'.heapView.pages ↔ f ∈ s.heapView.pages) := by
    intro f hf
    rw [hs']
    show f ∈ (s.allbase.erase p).map _ ↔ f ∈ s.allbase.map _
    constructor
    · intro hmem
      obtain ⟨q, hq, hqf⟩ := List.mem_map.mp hmem
      exact List.mem_map.mpr ⟨q, List.mem_of_mem_erase hq, hqf⟩
    · intro hmem
      obtain ⟨q, hq, hqf⟩ := List.mem_map.mp hmem
      have hqp : q ≠ p := by
        rintro rfl
        exact hf hqf.symm
      exact List.mem_map.mpr ⟨q, (List.mem_erase_of_ne hqp).mpr hq, hqf⟩
  have hrootiff : ∀ f, s'.heapView.IsRoot f ↔ s.heapView.IsRoot f := by
    intro f
    rw [hs']
    exact HeapView.marking_isRoot (H := (s.removeLists p).heapView)
  have hsame : SameFrames s s' := by
    rw [hs']
    exact IsTrans.trans _ _ _ (s.removeLists_sameFrames p) ((s.removeLists p).setRoot_sameFrames _ _)
  -- all blocks of the page are free, so nobody owns one
  have hkeeps : Keeps L s s' := by
    rintro q hq x hx ⟨hle, hlt⟩
    have hqp : q ≠ p := by
      rintro rfl
      have ho : x - kvaddr (s.pagerefs q).page < pageSize := by omega
      have hat : x = kvaddr (s.pagerefs q).page + (x - kvaddr (s.pagerefs q).page) := by omega
      obtain ⟨hdvd, hnot⟩ := h.ok.live_in_page hp (List.mem_append_right _ hx) ho hat
      exact hnot (full_freelist (h.ok.good q hp) hfull ho hdvd)
    rw [hs']
    exact ⟨(List.mem_erase_of_ne hqp).mpr hq, rfl, rfl⟩
  refine ⟨⟨?_, ?_⟩, hkeeps, hsame.quietBut ?_ hpages (fun f _ => hrootiff f) ?_, ⟨_, rfl, ?_, ?_, ?_⟩, hL⟩
  · rw [hs']
    exact h.early
  · rw [hs']
    exact hok
  · rw [hs']
    rfl
  · intro f _ _
    rw [hs']
    rfl
  · rw [hs']
    exact h.ok.page_held p hp
  · rw [hs']
    exact hpage
  · rw [hs']
    exact hroot

/-- **`subpage_kfree` of a live block** is quiet: an emptied page goes back to the frame list and no other frame
is touched. -/
theorem subpageKfree_block (h : HeapInv (ptr :: L) V s)
    (hblock : s.heapView.LiveBlock ptr) (hrun : subpageKfree A.free ptr s = .ok b s') :
    b = true ∧ HeapInv L V s' ∧ Keeps L s s' ∧ Quiet s s' := by
  obtain ⟨p, hp, o, ho, hptr, hdvd, hfree⟩ := hblock
  have hp : p ∈ s.allbase := hp
  have hptr : ptr = kvaddr (s.pagerefs p).page + o := hptr
  unfold subpageKfree at hrun
  simp only [bind_ok_iff, read_ok_iff] at hrun
  obtain ⟨_, _, ⟨rfl, rfl⟩, found, _, hfind, hrest⟩ := hrun
  obtain ⟨hsame, hsome, hnone⟩ := findPage_ok hfind
  rw [hsame] at hrest
  cases found with
  | none => exact absurd ⟨by omega, by omega⟩ (hnone rfl p hp)
  | some q =>
    obtain ⟨hq, hin⟩ := hsome q rfl
    obtain rfl : q = p := h.ok.page_inj q hq p hp (kvaddr_range hin ho hptr)
    have hoff : ptr - kvaddr (s.pagerefs q).page = o := by omega
    simp only [bind_ok_iff, read_ok_iff, update_ok_iff, panicIf, kassert,
      require_ok_iff, when_ok_iff, pure_ok_iff] at hrest
    obtain ⟨_, _, ⟨rfl, rfl⟩, _, _, ⟨-, rfl⟩, _, _, ⟨-, rfl⟩, _, t, ht, _, _, ⟨-, rfl⟩, _, _, hwhen, rfl,
      rfl⟩ := hrest
    rw [hoff] at ht
    rw [hptr] at h
    obtain ⟨hinv, hquiet⟩ := h.freeBlock hp ho
    rw [ht] at hinv hquiet
    have hkeeps : Keeps L s t := ht ▸ .setPageref rfl rfl rfl rfl
    refine ⟨rfl, ?_⟩
    rcases hwhen with ⟨hfull, _, _, rfl, _, t', hpageref, hfreed⟩ | ⟨-, rfl⟩
    · have hall : q ∈ t.allbase := by
        rw [← ht]
        exact hp
      have hpr : t.pagerefs q = { s.pagerefs q with
          freelist := o :: (s.pagerefs q).freelist, nfree := (s.pagerefs q).nfree + 1 } := by
        rw [← ht]
        exact update_self ..
      have hpage : (t.pagerefs q).page = (s.pagerefs q).page := by rw [hpr]
      obtain ⟨hinv', hkeeps', hquiet', hlive, hL⟩ := hinv.removePage hall (by rw [hpr]; exact hfull) hpageref
      rw [hpage] at hquiet' hlive hL
      obtain ⟨hinv'', hkeeps'', hquiet'', hgone⟩ := free_sound hA hK hinv' hL hlive hfreed
      refine ⟨hinv'', (hkeeps.trans hkeeps').trans hkeeps'', ?_⟩
      refine (hquiet.quiet_trans (hquiet'.same_trans hquiet'')).drop ?_ fun hs g hg _ => ?_
      · intro g hg _ hc
        exact hc.page (Set.mem_singleton_iff.mp hg ▸ List.mem_map_of_mem hp)
      · rw [Set.mem_singleton_iff.mp hg]
        exact hgone ((hquiet.quiet_trans hquiet').vmStarted.trans hs)
    · exact ⟨hinv, hkeeps, hquiet⟩

omit hA hK in
theorem subpageKfree_page {f : ℕ} {free : ℕ → Kern Unit}
    (hlive : s.heapView.LivePage (kvaddr f)) (hrun : subpageKfree free (kvaddr f) s = .ok b s') :
    b = false ∧ s' = s := by
  obtain ⟨-, hcalm⟩ := livePage_iff.mp hlive
  unfold subpageKfree at hrun
  simp only [bind_ok_iff, read_ok_iff] at hrun
  obtain ⟨_, _, ⟨rfl, rfl⟩, found, _, hfind, hrest⟩ := hrun
  obtain ⟨hsame, hsome, -⟩ := findPage_ok hfind
  cases found with
  | none =>
    obtain ⟨rfl, rfl⟩ := pure_ok_iff.mp hrest
    exact ⟨rfl, hsame⟩
  | some p =>
    obtain ⟨hp, hin⟩ := hsome p rfl
    have heq : (s.pagerefs p).page = f := kvaddr_range hin (show 0 < pageSize by decide) rfl
    exact absurd (heq ▸ List.mem_map_of_mem hp) hcalm.page

/-- **`kfree` of a live address.**  A block goes quietly; a whole page is given up. -/
theorem kfreeBody_sound {u : Unit} (h : HeapInv (ptr :: L) V s)
    (hrun : kfreeBody A.free ptr s = .ok u s') :
    HeapInv L V s' ∧ Keeps L s s' ∧ ((s.heapView.LiveBlock ptr ∧ Quiet s s') ∨
      ∃ f, ptr = kvaddr f ∧ s.heapView.LivePage (kvaddr f) ∧ Quiet (s.freed f) s') := by
  have hne : ptr ≠ 0 := by
    obtain ⟨f, o, heq, -, -⟩ := h.ok.live_frame (List.mem_append_right _ List.mem_cons_self)
    have := kvaddr_ne_zero f
    omega
  unfold kfreeBody at hrun
  rw [if_neg hne] at hrun
  obtain ⟨b, t, hsub, hrest⟩ := bind_ok_iff.mp hrun
  rcases h.ok.live ptr List.mem_cons_self with hblock | hpage
  · obtain ⟨rfl, hinv, hkeeps, hquiet⟩ := subpageKfree_block hA hK h hblock hsub
    rw [if_pos rfl] at hrest
    obtain ⟨-, rfl⟩ := pure_ok_iff.mp hrest
    exact ⟨hinv, hkeeps, .inl ⟨hblock, hquiet⟩⟩
  · obtain ⟨f, rfl, hheld, hp, hr⟩ := hpage
    have hlive : s.heapView.LivePage (kvaddr f) := ⟨f, rfl, hheld, hp, hr⟩
    obtain ⟨rfl, rfl⟩ := subpageKfree_page hlive hsub
    rw [if_neg Bool.false_ne_true] at hrest
    simp only [bind_ok_iff, kassert, require_ok_iff] at hrest
    obtain ⟨_, _, ⟨-, rfl⟩, hfree⟩ := hrest
    have hcalm := (livePage_iff.mp hlive).2
    obtain ⟨hinv, hquiet⟩ := hA.free h.forget h.not_mem_of_cons hcalm hfree
    exact ⟨hinv, hK.free h.forget h.not_mem_of_cons hcalm hfree, .inr ⟨f, rfl, hlive, hquiet⟩⟩

/-! ### The page functions over sound ones -/

omit hA hK in
/-- Popping the head of the list: the frame is the kernel's, the node is the caller's to free. -/
theorem HeapInv.popFrame {node : FrameListStruct} {rest : List FrameListStruct} (h : HeapInv L V s)
    (hs : s.vmStarted = true) (hl : s.frameList = node :: rest) (hlt : node.frameNumber < s.pagetableEntry)
    (hv : ¬ s.Valid node.frameNumber) :
    HeapInv (node.ptr :: L) V (s.popFrame node.frameNumber) ∧
      QuietBut {node.frameNumber} s (s.popFrame node.frameNumber) ∧
      (s.popFrame node.frameNumber).heapView.LivePage (kvaddr node.frameNumber) ∧
      (s.popFrame node.frameNumber).heapView.LiveBlock node.ptr := by
  set f := node.frameNumber with hf
  have hrow : ∀ g, g ≠ f → (s.popFrame f).mainPG g = s.mainPG g := fun g hg => update_of_ne hg ..
  have hself : (s.popFrame f).mainPG f = { s.mainPG f with
      valid := true, pid := 0, pageNumber := 0, victimCounter := (s.ptCounter + 1).toUInt16 } :=
    update_self ..
  have hnodes : s.heapView.nodes = node.ptr :: rest.map FrameListStruct.ptr := by
    show s.frameList.map FrameListStruct.ptr = _
    rw [hl, List.map_cons]
  have hheld : (s.popFrame f).Held = fun g => s.Held g ∨ g = f := by
    funext g
    rw [held_iff (s := s.popFrame f) hs, held_iff hs]
    refine propext ?_
    unfold Valid
    by_cases hg : g = f
    · rw [hg, hself]
      exact ⟨fun _ => .inr rfl, fun _ => ⟨hlt, rfl, rfl⟩⟩
    · rw [hrow g hg]
      exact ⟨.inl, fun hor => hor.resolve_right hg⟩
  have hview : (s.popFrame f).heapView = { s.heapView with
      held := fun g => s.Held g ∨ g = f, nodes := rest.map FrameListStruct.ptr } := by
    unfold heapView
    rw [hheld]
    simp only [Kernel.popFrame, hl, List.tail_cons]
  have hok := h.ok.pop hnodes (Nat.lt_of_lt_of_le hlt s.pagetableEntry_le)
  -- a free frame is not the heap's
  have hnheld : ¬ s.Held f := fun hh => hv ((held_iff hs).mp hh).2.1
  have hpage : f ∉ s.heapView.pages := by
    intro hmem
    obtain ⟨p, hp, hpf⟩ := List.mem_map.mp hmem
    exact hnheld (hpf ▸ h.ok.page_held p hp)
  have hroot : ¬ s.heapView.IsRoot f := fun hr => hnheld (h.ok.root_held f hr).1
  have hbusy : ∀ g, g ≠ f → ((s.popFrame f).Busy g ↔ s.Busy g) := by
    intro g hg
    rw [busy_iff (s := s.popFrame f) hs, busy_iff hs]
    unfold Valid
    rw [hrow g hg]
    rfl
  refine ⟨⟨h.early, hview ▸ hok⟩, ⟨rfl, fun g hg hc => ?_, fun _ g hg hc => ?_, fun g hg _ => hrow g hg,
    fun _ _ _ => rfl, fun g hu => ?_⟩, ?_, ?_⟩
  · exact ⟨(hbusy g hg).mpr hc.busy, hc.page, hc.root⟩
  · exact ⟨(hbusy g hg).mp hc.busy, hc.page, hc.root⟩
  · by_cases hg : g = f
    · have hp := hu.2
      rw [hg, hself] at hp
      exact absurd rfl hp
    · unfold User Valid at hu ⊢
      rw [hrow g hg] at hu
      exact hu
  · rw [hview]
    exact ⟨f, rfl, .inr rfl, hpage, hroot⟩
  · rw [hview]
    exact h.ok.nodes_live node.ptr (hnodes ▸ List.mem_cons_self)

theorem takeFrame_sound {addr : ℕ} (h : HeapInv L V s) (hs : s.vmStarted = true)
    (hrun : takeFrame (kfreeBody A.free) addr s = .ok a s') :
    Keeps L s s' ∧ ∃ f, ¬ s.Calm f ∧ QuietBut {f} s s' ∧ HeapInv L V s' ∧ s'.heapView.LivePage (kvaddr f) ∧
      kvaddr f ∉ L ∧ (addr = 0 → f ≠ 0) ∧ a = if addr = 0 then f * pageSize else addr := by
  obtain ⟨node, rest, hl, hlt, hv, hfirst, hk, ha⟩ := takeFrame_ok hrun
  obtain ⟨hinv, hquiet, hlive, hblock⟩ := h.popFrame hs hl hlt hv
  obtain ⟨hinv', hkeeps, hcases⟩ := kfreeBody_sound hA hK hinv hk
  have hpop : Keeps L s (s.popFrame node.frameNumber) := .of_same rfl rfl
  refine ⟨hpop.trans hkeeps, ?_⟩
  have hcalm : ¬ s.Calm node.frameNumber := fun hc => hv ((busy_iff hs).mp hc.busy).2
  have hL : kvaddr node.frameNumber ∉ L := by
    intro hmem
    refine h.ok.not_live_of_not_held (f := node.frameNumber) (fun hh => ?_) (List.mem_append_right _ hmem)
    exact hv ((held_iff hs).mp hh).2.1
  rcases hcases with ⟨-, hquiet'⟩ | ⟨g, hg, hpage, -⟩
  · exact ⟨node.frameNumber, hcalm, hquiet.trans_quiet hquiet', hinv',
      hquiet'.livePage (Set.notMem_empty _) hlive, hL, fun h0 => (hfirst h0).2, ha⟩
  · -- the node is a block, not a page
    obtain ⟨p, hp, o, ho, hptr, -, -⟩ := hblock
    obtain ⟨hpg, -⟩ := kvaddr_add_inj ho (show 0 < pageSize by decide) (hptr.symm.trans hg)
    exact absurd (hpg ▸ List.mem_map_of_mem hp) (livePage_iff.mp hpage).2.page

theorem takeFrames_more : ∀ {n addr a : ℕ} {s : Kernel}, addr ≠ 0 → HeapInv L V s → s.vmStarted = true →
    takeFrames (kfreeBody A.free) n addr s = .ok a s' →
    a = addr ∧ HeapInv L V s' ∧ Keeps L s s' ∧ ∃ X, (n = 0 → X = ∅) ∧ (∀ g ∈ X, ¬ s.Calm g) ∧ QuietBut X s s' := by
  intro n
  induction n with
  | zero =>
    intro addr a s _ h _ hrun
    obtain ⟨rfl, rfl⟩ := pure_ok_iff.mp hrun
    exact ⟨rfl, h, .of_same rfl rfl, ∅, fun _ => rfl, fun g hg => absurd hg (Set.notMem_empty g), QuietBut.refl _⟩
  | succ n ih =>
    intro addr a s haddr h hs hrun
    obtain ⟨addr', t, hfirst, hrest⟩ := bind_ok_iff.mp hrun
    obtain ⟨hkeeps, f, hcalm, hquiet, hinv, -, -, -, ha⟩ := takeFrame_sound hA hK h hs hfirst
    rw [if_neg haddr] at ha
    rw [ha] at hrest
    obtain ⟨rfl, hinv', hkeeps', X, -, hX, hquiet'⟩ := ih haddr hinv (hquiet.vmStarted.trans hs) hrest
    refine ⟨rfl, hinv', hkeeps.trans hkeeps', _, fun h0 => absurd h0 (Nat.succ_ne_zero n), ?_, hquiet.trans hquiet'⟩
    rintro g (hg | hg)
    · exact Set.mem_singleton_iff.mp hg ▸ hcalm
    · by_cases hgf : g = f
      · exact hgf ▸ hcalm
      · exact fun hc => hX g hg (hquiet.stays g hgf hc)

omit hA hK in
theorem HeapInv.own {f : ℕ} (h : HeapInv L V s) (hlive : s.heapView.LivePage (kvaddr f))
    (hL : kvaddr f ∉ L) : HeapInv (kvaddr f :: L) V s := by
  refine ⟨h.early, h.ok.own hlive fun hmem => ?_⟩
  rcases List.mem_append.mp hmem with hn | hl
  · -- the nodes of the frame list are blocks of heap pages
    obtain ⟨p, hp, o, ho, hptr, -, -⟩ := h.ok.nodes_live _ hn
    obtain ⟨hpg, -⟩ := kvaddr_add_inj (show 0 < pageSize by decide) ho hptr
    exact (livePage_iff.mp hlive).2.page (hpg ▸ List.mem_map_of_mem hp)
  · exact hL hl

theorem allocKpagesBody_sound {n : ℕ} (h : HeapInv L V s) (hn : s.vmStarted = false → n ≠ 0)
    (hrun : allocKpagesBody (kfreeBody A.free) n s = .ok a s') : Taken L V n s a s' ∧ Keeps L s s' := by
  rcases allocKpagesBody_ok hrun with ⟨-, ha, rfl, -⟩ | ⟨hs, hne, -, addr, t, htake, rfl, ha⟩ |
    ⟨hs, -, ha, -, hle, rfl⟩
  · exact ⟨.none ha h (QuietBut.refl _), .of_same rfl rfl⟩
  · -- frames from the list
    obtain ⟨m, rfl⟩ : ∃ m, n = m + 1 := ⟨n - 1, by omega⟩
    obtain ⟨addr', t₁, hfirst, hrest⟩ := bind_ok_iff.mp htake
    obtain ⟨hkeeps, f, hcalm, hquiet, hinv, hlive, hL, hne0, haddr⟩ := takeFrame_sound hA hK h hs hfirst
    rw [if_pos rfl] at haddr
    have hpos : addr' ≠ 0 := by
      have := hne0 rfl
      rw [haddr]
      unfold pageSize
      omega
    have hinv₁ := hinv.own hlive hL
    obtain ⟨rfl, hinv₂, hkeeps₂, X, hone, hX, hquiet₂⟩ :=
      takeFrames_more hA hK hpos hinv₁ (hquiet.vmStarted.trans hs) hrest
    have hfX : f ∉ X := fun hf => hX f hf (livePage_iff.mp hlive).2
    have hlive₂ := hquiet₂.livePage hfX hlive
    have hzero : QuietBut {f} t (t.write addr pageSize fun _ => 0) := by
      refine (t.write_sameFrames _ _ _).quietBut rfl (fun _ _ => Iff.rfl) (fun _ _ => Iff.rfl)
        fun g hg _ => ?_
      rw [haddr]
      exact frameBytes_overlay_of_ne hg (Nat.le_refl _) (by rw [Nat.succ_mul])
    have hak : a = kvaddr f := by
      rw [ha, haddr]
      unfold kvaddr
      rfl
    have hnew : ∀ g ∈ X, ¬ s.Calm g := by
      intro g hg hc
      by_cases hgf : g = f
      · exact hcalm (hgf ▸ hc)
      · exact hX g hg (hquiet.stays g hgf hc)
    have hzeroed : Keeps L t (t.write addr pageSize fun _ => 0) := .of_same rfl rfl
    refine ⟨.frame f ({f} ∪ X ∪ {f}) hak (.inr rfl) (fun hn1 => ?_) ?_ ((hquiet.trans hquiet₂).trans hzero) ?_
      ?_ fun _ i => ?_, (hkeeps.trans (hkeeps₂.mono (List.subset_cons_self _ L))).trans hzeroed⟩
    · rw [hone (by omega), Set.union_empty, Set.union_self]
    · rintro g ((hg | hg) | hg)
      · exact Set.mem_singleton_iff.mp hg ▸ hcalm
      · exact hnew g hg
      · exact Set.mem_singleton_iff.mp hg ▸ hcalm
    · rw [hak]
      exact ⟨hinv₂.early, hinv₂.ok⟩
    · rw [hak]
      exact hlive₂
    · show overlay t.ram addr pageSize (fun _ => 0) (f * pageSize + i) = 0
      rw [haddr]
      exact overlay_inside (Nat.le_add_right _ _) (Nat.add_lt_add_left i.isLt _)
  · -- memory stolen from first-free on
    obtain ⟨halign, -⟩ := h.early hs
    set f := s.firstpaddr / pageSize with hf
    have hfirst : f * pageSize = s.firstpaddr := Nat.div_mul_cancel (Nat.dvd_of_mod_eq_zero halign)
    have hpos : 0 < n * pageSize := Nat.mul_pos (Nat.pos_of_ne_zero (hn hs)) (by decide)
    have hak : a = kvaddr f := by
      rw [ha, ← hfirst]
      unfold kvaddr
      rfl
    have hnheld : ¬ s.Held f := by
      rw [held_iff_early hs, hfirst]
      exact Nat.lt_irrefl _
    have hnbusy : ¬ s.Busy f := by
      rw [busy_iff_early hs, hfirst]
      exact Nat.lt_irrefl _
    have hheld' : ∀ g, Held { s with firstpaddr := s.firstpaddr + n * pageSize } g ↔
        g * pageSize < s.firstpaddr + n * pageSize := fun g =>
      held_iff_early (s := { s with firstpaddr := s.firstpaddr + n * pageSize }) hs
    have hinv : HeapInv L V { s with firstpaddr := s.firstpaddr + n * pageSize } := by
      refine ⟨fun _ => ⟨?_, hle⟩, h.ok.grow (fun g hg => ?_) fun g hg => ?_⟩
      · show (s.firstpaddr + n * pageSize) % pageSize = 0
        rw [Nat.add_mul_mod_self_right, halign]
      · exact (hheld' g).mpr (Nat.lt_of_lt_of_le ((held_iff_early hs).mp hg) (Nat.le_add_right _ _))
      · have hlt := (hheld' g).mp hg
        have hlast := s.lastpaddr_le
        simp only [pageSize] at hlt hle ⊢
        omega
    have hlive : HeapView.LivePage (heapView { s with firstpaddr := s.firstpaddr + n * pageSize })
        (kvaddr f) := by
      refine ⟨f, rfl, ?_, fun hmem => hnheld ?_, fun hr => hnheld (h.ok.root_held f hr).1⟩
      · refine (hheld' f).mpr ?_
        rw [hfirst]
        exact Nat.lt_add_of_pos_right hpos
      · obtain ⟨p, hp, hpf⟩ := List.mem_map.mp hmem
        exact hpf ▸ h.ok.page_held p hp
    have hL : kvaddr f ∉ L := fun hmem =>
      h.ok.not_live_of_not_held hnheld (List.mem_append_right _ hmem)
    refine ⟨.frame f {f} hak rfl (fun _ => rfl) ?_ ⟨rfl, fun g _ hc => ⟨?_, hc.page, hc.root⟩, ?_,
      fun _ _ _ => rfl, fun _ _ _ => rfl, fun _ hu => hu⟩ ?_ ?_ fun hv => absurd (hs.symm.trans hv) (by decide),
      .of_same rfl rfl⟩
    · intro g hg hc
      exact hnbusy (Set.mem_singleton_iff.mp hg ▸ hc.busy)
    · refine (busy_iff_early (s := { s with firstpaddr := s.firstpaddr + n * pageSize }) hs).mpr ?_
      exact Nat.lt_of_lt_of_le ((busy_iff_early hs).mp hc.busy) (Nat.le_add_right _ _)
    · exact fun hv => absurd (hs.symm.trans hv) (by decide)
    · rw [hak]
      exact hinv.own hlive hL
    · rw [hak]
      exact hlive

theorem newNode_sound {f : ℕ} (h : HeapInv L V s)
    (hrun : newNode (kmallocBody A) f s = .ok ptr s') :
    HeapInv (ptr :: L) V s' ∧ Keeps L s s' ∧ s'.heapView.LiveBlock ptr ∧ Quiet s s' := by
  obtain ⟨t, hmalloc, hne, rfl, -⟩ := newNode_ok hrun
  obtain ⟨hquiet, hkeeps, hcases⟩ := kmallocBody_node hA hK h hmalloc
  rcases hcases with ⟨h0, -⟩ | ⟨hinv, hblock, -⟩
  · exact absurd h0 hne
  · obtain ⟨hinv', hquiet'⟩ := hinv.write_block (k := 0) (n := 4) (byteOf f) hblock (by decide)
    have hwritten : Keeps L t (t.write (physAddr ptr) 4 (byteOf f)) := .of_same rfl rfl
    exact ⟨hinv', hkeeps.trans hwritten, hblock, hquiet.quiet_trans hquiet'⟩

omit hA hK in
theorem HeapInv.push {f node : ℕ} (h : HeapInv (ptr :: L) V s)
    (hblock : s.heapView.LiveBlock ptr) (hnode : s.heapView.LiveBlock node) (hpush : Pushed f s s')
    (hram : s'.ram = store32 s.ram (physAddr node + 4) w)
    (hperm : (s'.frameList.map FrameListStruct.ptr).Perm (ptr :: s.frameList.map FrameListStruct.ptr)) :
    HeapInv L V s' ∧ Quiet s s' := by
  have hsame := hpush.same
  refine ⟨⟨fun hv => ?_, ?_⟩, HeapOnly.quietBut ?_ ?_ ?_ (fun f _ => ?_) (fun f _ => ?_) fun f _ hc => ?_⟩
  · rw [hsame] at hv ⊢
    exact h.early hv
  · have hok := h.ok.pushNode hblock hperm
    rw [hsame] at hok ⊢
    exact hok
  · unfold HeapOnly
    rw [hsame]
  · rw [hsame]
  · rw [hsame]
  · rw [hsame]
    rfl
  · rw [hsame]
    rfl
  · rw [hram]
    exact h.bytes_of_block hnode (by decide) hc

theorem addTop_sound {f : ℕ} {u : Unit} (h : HeapInv L V s)
    (hrun : addTop (kmallocBody A) f s = .ok u s') : HeapInv L V s' ∧ Keeps L s s' ∧ Quiet s s' := by
  obtain ⟨ptr, t, hnode, hpush⟩ := bind_ok_iff.mp hrun
  obtain ⟨hinv, hkeeps, hblock, hquiet⟩ := newNode_sound hA hK h hnode
  have hs' := update_ok_iff.mp hpush
  obtain ⟨hinv', hquiet'⟩ := hinv.push hblock hblock (t.pushTop_pushed f ptr) rfl (.refl _)
  rw [hs'] at hinv' hquiet'
  have hlinked : Keeps L t s' := hs' ▸ .of_same rfl rfl
  exact ⟨hinv', hkeeps.trans hlinked, hquiet.quiet_trans hquiet'⟩

/-- **`addToFrameList`** at the bottom is quiet.  On an empty list the first node is lost. -/
theorem addBottom_sound {f : ℕ} {u : Unit} (h : HeapInv L V s)
    (hrun : addBottom (kmallocBody A) f s = .ok u s') : HeapInv L V s' ∧ Quiet s s' := by
  unfold addBottom at hrun
  simp only [bind_ok_iff, read_ok_iff] at hrun
  obtain ⟨ptr, t, hnode, _, _, ⟨rfl, rfl⟩, _, _, ⟨rfl, rfl⟩, hrest⟩ := hrun
  obtain ⟨hinv, -, hblock, hquiet⟩ := newNode_sound hA hK h hnode
  cases hlast : t.frameList.getLast? with
  | none =>
    simp only [hlast] at hrest
    split at hrest
    · obtain ⟨hinv', -, hquiet'⟩ := addTop_sound hA hK hinv.forget hrest
      exact ⟨hinv', hquiet.quiet_trans hquiet'⟩
    · exact (stop_ok_iff.mp hrest).elim
  | some node =>
    simp only [hlast] at hrest
    split at hrest
    · have hs' := update_ok_iff.mp hrest
      have hat : t.heapView.LiveBlock node.ptr :=
        hinv.ok.nodes_live node.ptr (List.mem_map_of_mem (List.mem_of_getLast? hlast))
      have hperm : ((t.pushBottom f ptr node.ptr).frameList.map FrameListStruct.ptr).Perm
          (ptr :: t.frameList.map FrameListStruct.ptr) := by
        simp only [pushBottom, List.map_append, List.map_cons, List.map_nil]
        exact List.perm_append_singleton ptr _
      obtain ⟨hinv', hquiet'⟩ :=
        hinv.push hblock hat (t.pushBottom_pushed f ptr node.ptr) (w := ptr) rfl hperm
      rw [hs'] at hinv' hquiet'
      exact ⟨hinv', hquiet.quiet_trans hquiet'⟩
    · exact (stop_ok_iff.mp hrest).elim

theorem freeKpagesBody_sound {f : ℕ} {u : Unit} (h : HeapInv L V s) (hL : kvaddr f ∉ L) (hc : s.Calm f)
    (hrun : freeKpagesBody (kmallocBody A) (kvaddr f) s = .ok u s') :
    HeapInv L V s' ∧ Keeps L s s' ∧ Quiet (s.freed f) s' := by
  rcases freeKpagesBody_ok hrun with ⟨hs, rfl⟩ | ⟨hs, -, -, hadd⟩
  · rw [freed_of_early hs]
    exact ⟨h, .of_same rfl rfl, QuietBut.refl _⟩
  · have hlt : f < 2 ^ 17 :=
      Nat.lt_of_lt_of_le ((busy_iff hs).mp hc.busy).1 s.pagetableEntry_le
    have hfreed : (s.release (frameIndex (kvaddr f))).write (physAddr (kvaddr f)) pageSize (fun _ => 0) =
        s.freed f := by
      rw [frameIndex_kvaddr_self (Nat.le_of_lt hlt), physAddr_kvaddr_self hlt, freed_of_started hs]
    rw [hfreed] at hadd
    have hgone : Keeps L s (s.freed f) := by
      rw [freed_of_started hs, release_same]
      exact .of_same rfl rfl
    obtain ⟨hinv, hkeeps, hquiet⟩ := addTop_sound hA hK (h.freed hL hc) hadd
    exact ⟨hinv, hgone.trans hkeeps, hquiet⟩

end Bodies

/-! ### The circle -/

theorem allocator_spec : ∀ d, (allocator d).Sound ∧ (allocator d).Keeping := by
  intro d
  induction d with
  | zero =>
    exact ⟨⟨fun _ _ hrun => (nomatch hrun), fun _ _ _ hrun => nomatch hrun⟩,
      fun _ _ hrun => (nomatch hrun), fun _ _ _ hrun => nomatch hrun⟩
  | succ d ih =>
    obtain ⟨hA, hK⟩ := ih
    have hfree {L V f s u s'} (h : HeapInv L V s) (hL : kvaddr f ∉ L) (hc : s.Calm f)
        (hrun : (allocator (d + 1)).free (kvaddr f) s = .ok u s') :=
      freeKpagesBody_sound hA hK h hL hc hrun
    exact ⟨⟨fun h hn hrun => (allocKpagesBody_sound hA hK h hn hrun).1,
        fun h hL hc hrun => ⟨(hfree h hL hc hrun).1, (hfree h hL hc hrun).2.2⟩⟩,
      fun h hn hrun => (allocKpagesBody_sound hA hK h hn hrun).2, fun h hL hc hrun => (hfree h hL hc hrun).2.1⟩

theorem allocator_sound (d : ℕ) : (allocator d).Sound := (allocator_spec d).1

theorem allocator_keeps (d : ℕ) : (allocator d).Keeping := (allocator_spec d).2

end Os161Kernel
