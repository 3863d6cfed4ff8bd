import Os161Kernel.FrameMoves
import Mathlib.Data.Finset.Card

/-!
# The allocator's circle is left again

`alloc_kpages` frees a list node, `kfree` may give back an emptied heap page, `free_kpages` allocates a node for it and
`kmalloc` may ask for a heap page again.  What bounds the circle are the frames themselves: a frame is on the list,
valid, or on its way between a release and its push.  The first two kinds together are the *supply*.  A call of
`free_kpages` that gets as far as its node has just released a frame, so it allocates the node with one frame less in
supply, and `alloc_kpages` goes around with the supply it was called with.
-/

namespace Os161Kernel

open StateProg Search Memory Function

/-! ### The supply -/

namespace Kernel

/-- The valid frames. -/
def validFrames (s : Kernel) : Finset ℕ := (Finset.range s.pagetableEntry).filter s.Valid

/-- The frames on the list and the valid ones. -/
def supply (s : Kernel) : ℕ := s.frameList.length + s.validFrames.card

variable {s : Kernel} {f : ℕ}

theorem mem_validFrames {g : ℕ} : g ∈ s.validFrames ↔ g < s.pagetableEntry ∧ s.Valid g := by
  simp only [validFrames, Finset.mem_filter, Finset.mem_range]

theorem validFrames_popFrame (hlt : f < s.pagetableEntry) :
    (s.popFrame f).validFrames = insert f s.validFrames := by
  ext g
  simp only [mem_validFrames, Finset.mem_insert, Valid, popFrame]
  by_cases hg : g = f
  · subst hg
    rw [update_self]
    simp only [true_or, and_true, iff_true]
    exact hlt
  · rw [update_of_ne hg]
    simp only [hg, false_or]

theorem validFrames_release (s : Kernel) (f : ℕ) : (s.release f).validFrames = s.validFrames.erase f := by
  have hentries : (s.release f).pagetableEntry = s.pagetableEntry := by
    rw [s.release_allocOnly f]
  have hrows : (s.release f).mainPG =
      update s.mainPG f { s.mainPG f with valid := false, pid := 0, pageNumber := 0 } := rfl
  ext g
  simp only [mem_validFrames, Finset.mem_erase, Valid, hentries, hrows]
  by_cases hg : g = f
  · subst hg
    rw [update_self]
    simp
  · rw [update_of_ne hg]
    simp only [ne_eq, hg, not_false_eq_true, true_and]

theorem supply_popFrame {node : FrameListStruct} {rest : List FrameListStruct} (hl : s.frameList = node :: rest)
    (hlt : node.frameNumber < s.pagetableEntry) (hv : ¬ s.Valid node.frameNumber) :
    (s.popFrame node.frameNumber).supply = s.supply := by
  have hnot : node.frameNumber ∉ s.validFrames := fun hmem => hv (mem_validFrames.mp hmem).2
  have hlist : (s.popFrame node.frameNumber).frameList = rest := by
    show s.frameList.tail = rest
    rw [hl]
    rfl
  unfold supply
  rw [validFrames_popFrame hlt, Finset.card_insert_of_notMem hnot, hlist, hl, List.length_cons]
  omega

theorem supply_release (hlt : f < s.pagetableEntry) (hv : s.Valid f) : (s.release f).supply + 1 = s.supply := by
  have hmem : f ∈ s.validFrames := mem_validFrames.mpr ⟨hlt, hv⟩
  have hlist : (s.release f).frameList = s.frameList := by
    unfold release tlbRemove
    split
    · cases s.tlbProbe (s.mainPG f).pageNumber <;> rfl
    · rfl
  unfold supply
  rw [validFrames_release, hlist, Finset.card_erase_of_mem hmem]
  have hpos := Finset.card_pos.mpr ⟨f, hmem⟩
  omega

end Kernel

theorem SameFrames.supply {s s' : Kernel} (h : SameFrames s s') : s'.supply = s.supply := by
  rw [h]
  rfl

theorem Pushed.supply {f : ℕ} {s s' : Kernel} (h : Pushed f s s') : s'.supply = s.supply + 1 := by
  have hlength := h.perm.length_eq
  have hvalid : s'.validFrames = s.validFrames := by
    rw [h.same]
    rfl
  simp only [Kernel.freeFrames, List.length_map, List.length_cons] at hlength
  unfold Kernel.supply
  rw [hvalid, hlength]
  omega

theorem Move.supply {F F' : List ℕ} {s s' : Kernel} (h : Move (F, s) (F', s')) :
    F'.length + s'.supply = F.length + s.supply := by
  cases h with
  | pop hl hlt hv => rw [Kernel.supply_popFrame hl hlt hv]
  | release hlt hv =>
    have hrelease := Kernel.supply_release hlt hv
    rw [List.length_cons]
    omega
  | push h =>
    rw [h.supply, List.length_cons]
    omega
  | heap h => rw [h.supply]

theorem Moves.supply {s s' : Kernel} (h : Moves s s') : s'.supply = s.supply := by
  have hkey : ([] : List ℕ).length + s'.supply = ([] : List ℕ).length + s.supply :=
    h.induct (P := fun F t => F.length + t.supply = ([] : List ℕ).length + s.supply)
      (fun _ _ _ _ hm hP => hm.supply.trans hP) (F := []) rfl
  simpa using hkey

/-! ### Deep enough -/

/-- With `m` frames in supply the program does not go around too often, and it leaves the supply as it is. -/
def NoDepth {α : Type} (m : ℕ) (p : Kern α) : Prop := Holds (fun s => s.supply = m) (fun e => e ≠ .depth) p

theorem noDepth_congruence (m : ℕ) :
    Congruence FrameEdit Stop.OfBody (fun {α} (p _ : Kern α) => NoDepth m p) :=
  (holds_congruence (fun s : Kernel => s.supply = m) fun e : Stop => e ≠ .depth).weaken
    (fun _ hf s hs => (hf s).supply.trans hs) fun _ he => he.ne_depth

/-- A program that moves frames keeps the supply when it returns: what is left to show is that it ends. -/
theorem noDepth_of_moves {α : Type} {m : ℕ} {p : Kern α} (hw : Within Moves p)
    (h : ∀ s : Kernel, s.supply = m → Ends (fun _ _ => True) (fun e => e ≠ .depth) p s) : NoDepth m p := by
  intro s hs
  exact (h s hs).mono fun a t hrun _ => (hw s a t hrun).supply.trans hs

/-- The page functions are deep enough for `m` frames in supply. -/
structure Allocator.DeepEnough (A : Allocator) (m : ℕ) : Prop where
  alloc : ∀ n, NoDepth m (A.alloc n)
  free : ∀ a, NoDepth m (A.free a)

section Depth

variable {A : Allocator} {m : ℕ}

theorem kmallocBody_noDepth (hA : A.DeepEnough m) (sz : ℕ) : NoDepth m (kmallocBody A sz) :=
  kmallocBody_walk (B := A) (noDepth_congruence m) hA.alloc hA.free sz

theorem kfreeBody_noDepth {free : ℕ → Kern Unit} (hfree : ∀ a, NoDepth m (free a)) (ptr : ℕ) :
    NoDepth m (kfreeBody free ptr) :=
  kfreeBody_walk (g := free) (noDepth_congruence m) hfree ptr

theorem newNode_noDepth (hA : A.DeepEnough m) (value : ℕ) : NoDepth m (newNode (kmallocBody A) value) :=
  newNode_walk (g := kmallocBody A) (noDepth_congruence m) (kmallocBody_noDepth hA) value

theorem freeKpagesBody_noDepth (hmoves : A.StaysInMoves) (hA : ∀ k, k + 1 = m → A.DeepEnough k) (a : ℕ) :
    NoDepth m (freeKpagesBody (kmallocBody A) a) := by
  refine noDepth_of_moves (freeKpagesBody_moves hmoves a) fun s hs => ?_
  refine ends_bind (ends_read (ends_ite (fun _ => ?_) fun _ => ends_pure trivial))
  refine ends_bind (ends_read (ends_bind (ends_require (fun hlt => ?_) fun _ => nofun)))
  refine ends_bind (ends_read (ends_bind (ends_require (fun hv => ?_) fun _ => nofun)))
  refine ends_bind (ends_update (ends_bind (ends_update ?_)))
  have hvalid : s.Valid (frameIndex a) := by
    cases hrow : (s.mainPG (frameIndex a)).valid with
    | true => exact hrow
    | false => exact absurd hrow hv
  have hrelease := Kernel.supply_release hlt hvalid
  have hwrite := ((s.release (frameIndex a)).write_sameFrames (physAddr a) pageSize fun _ => 0).supply
  have hnode := newNode_noDepth (hA (s.release (frameIndex a)).supply (by omega)) (frameIndex a) _ hwrite
  exact ends_bind (hnode.mono fun _ _ _ _ => ends_update trivial)

theorem headFrame_ends (s : Kernel) :
    Ends (fun node t => t = s ∧ ∃ rest, s.frameList = node :: rest) (fun e => e ≠ .depth) headFrame s := by
  refine ends_iff.mpr ⟨fun node t h => headFrame_ok h, fun e h he => ?_⟩
  have hstop := (headFrame_walk ((holds_congruence (fun _ => True) fun e : Stop => e ≠ .depth).weaken
    (fun _ _ _ _ => trivial) fun _ he => he.ne_depth) s trivial).stop h
  exact hstop he

theorem takeFrames_noDepth (hmoves : A.StaysInMoves) (hfree : ∀ a, NoDepth m (A.free a)) :
    ∀ n addr, NoDepth m (takeFrames (kfreeBody A.free) n addr) := by
  have htake : ∀ addr, NoDepth m (takeFrame (kfreeBody A.free) addr) := by
    intro addr
    refine noDepth_of_moves (fun s a s' h => takeFrames_moves hmoves 1 addr s a s' ?_) fun s hs => ?_
    · exact bind_ok_iff.mpr ⟨a, s', h, rfl⟩
    · refine ends_bind ((headFrame_ends s).mono fun node t _ hhead => ?_)
      obtain ⟨rfl, rest, hl⟩ := hhead
      refine ends_bind (ends_read (ends_bind (ends_require (fun hlt => ?_) fun _ => nofun)))
      refine ends_bind (ends_read (ends_bind (ends_require (fun hv => ?_) fun _ => nofun)))
      refine ends_bind (ends_read (ends_bind (ends_require (fun _ => ?_) fun _ => nofun)))
      refine ends_bind (ends_require (fun _ => ?_) fun _ => nofun)
      refine ends_bind (ends_update ?_)
      have hpop := (Kernel.supply_popFrame hl hlt hv).trans hs
      exact ends_bind ((kfreeBody_noDepth hfree node.ptr _ hpop).mono fun _ _ _ _ => ends_pure trivial)
  intro n
  induction n with
  | zero => exact fun addr => holds_pure addr
  | succ n ih => exact fun addr => holds_bind (htake addr) ih

theorem allocKpagesBody_noDepth (hmoves : A.StaysInMoves) (hfree : ∀ a, NoDepth m (A.free a)) (n : ℕ) :
    NoDepth m (allocKpagesBody (kfreeBody A.free) n) := by
  have hP := noDepth_congruence m
  have hcheck : NoDepth m (checkFreeFrame n) := checkFreeFrame_walk hP n
  refine holds_bind (holds_require nofun) fun _ => holds_bind (holds_read _) fun started => ?_
  refine holds_ite (fun _ => ?_) fun _ => ?_
  · refine holds_bind hcheck fun size => holds_ite (fun _ => holds_pure 0) fun _ => ?_
    refine holds_bind (holds_require nofun) fun _ => holds_bind (takeFrames_noDepth hmoves hfree n 0) fun addr => ?_
    exact holds_bind (hP.update fun s => s.write_sameFrames _ _ _) fun _ => holds_pure _
  · refine holds_bind (ramStealmem_walk hP n) fun addr => holds_bind (holds_require nofun) fun _ => holds_pure _

end Depth

section Circle

variable {m : ℕ} (hless : ∀ k, k + 1 = m → ∀ d, 2 * k + 2 ≤ d → (allocator d).DeepEnough k)

include hless

theorem freeKpages_noDepth {d : ℕ} (hd : 2 * m + 1 ≤ d) (a : ℕ) : NoDepth m (freeKpages d a) := by
  cases d with
  | zero => omega
  | succ d => exact freeKpagesBody_noDepth (allocator_moves d) (fun k hk => hless k hk d (by omega)) a

theorem allocKpages_noDepth {d : ℕ} (hd : 2 * m + 2 ≤ d) (n : ℕ) : NoDepth m (allocKpages d n) := by
  cases d with
  | zero => omega
  | succ d => exact allocKpagesBody_noDepth (allocator_moves d) (freeKpages_noDepth hless (by omega)) n

end Circle

/-- **A circle of `2 * m + 2` calls is deep enough for `m` frames in supply.**  Going through `free_kpages` costs a
frame of the supply, and every other call of the circle is one of `free_kpages`. -/
theorem allocator_deepEnough (m : ℕ) : ∀ d, 2 * m + 2 ≤ d → (allocator d).DeepEnough m := by
  induction m with
  | zero =>
    have hless : ∀ k, k + 1 = 0 → ∀ d, 2 * k + 2 ≤ d → (allocator d).DeepEnough k := by
      intro k hk
      exact absurd hk (Nat.succ_ne_zero k)
    exact fun d hd => ⟨allocKpages_noDepth hless hd, freeKpages_noDepth hless (by omega)⟩
  | succ m ih =>
    have hless : ∀ k, k + 1 = m + 1 → ∀ d, 2 * k + 2 ≤ d → (allocator d).DeepEnough k := by
      intro k hk
      obtain rfl := Nat.succ.inj hk
      exact ih
    exact fun d hd => ⟨allocKpages_noDepth hless hd, freeKpages_noDepth hless (by omega)⟩

/-! ### No deeper circle changes the outcome -/

theorem depth_congruence :
    Congruence (fun _ => True) Stop.OfBody (fun {α} (m m' : Kern α) => CutOff Stop.depth m m') :=
  (cutOff_congruence Stop.depth).weaken (fun _ h => h) fun _ _ => trivial

theorem allocator_cutOff (d : ℕ) :
    Allocator.Related (fun {α} (m m' : Kern α) => CutOff .depth m m') (allocator d) (allocator (d + 1)) := by
  induction d with
  | zero => exact ⟨fun _ _ => .inl rfl, fun _ _ => .inl rfl⟩
  | succ d ih => exact allocator_walk depth_congruence ih

/-- The call has an outcome from some depth on, and it is not that the circle was too short. -/
def Settles {α : Type} (m : ℕ → Kern α) (s : Kernel) : Prop :=
  ∃ d₀, m d₀ s ≠ .stop .depth ∧ ∀ d, d₀ ≤ d → m d s = m d₀ s

theorem settles_of_cutOff {α : Type} {m : ℕ → Kern α} {s : Kernel} {d₀ : ℕ}
    (hcut : ∀ d, CutOff .depth (m d) (m (d + 1))) (h : m d₀ s ≠ .stop .depth) : Settles m s := by
  refine ⟨d₀, h, fun d hd => ?_⟩
  induction hd with
  | refl => rfl
  | @step d _ ih =>
    rcases hcut d s with hstop | hsame
    · rw [ih] at hstop
      exact absurd hstop h
    · exact hsame.trans ih

section Outcomes

variable {m : ℕ} {s : Kernel}

theorem NoDepth.ne {α : Type} {p : Kern α} (h : NoDepth s.supply p) : p s ≠ .stop .depth :=
  fun hstop => (h s rfl).stop hstop rfl

theorem addTop_ends {A : Allocator} (hA : A.DeepEnough m) (value : ℕ) (hs : s.supply = m) :
    Ends (fun _ _ => True) (fun e => e ≠ .depth) (addTop (kmallocBody A) value) s :=
  ends_bind ((newNode_noDepth hA value s hs).mono fun _ _ _ _ => ends_update trivial)

theorem addToFrameListBody_ends {A : Allocator} (hA : A.DeepEnough m) (value : ℕ) (position : Position)
    (hs : s.supply = m) :
    Ends (fun _ _ => True) (fun e => e ≠ .depth) (addToFrameListBody (kmallocBody A) value position) s := by
  cases position with
  | addTOP => exact addTop_ends hA value hs
  | addBOTTOM =>
    refine ends_bind ((newNode_noDepth hA value s hs).mono fun ptr t _ ht => ?_)
    refine ends_bind (ends_read (ends_bind (ends_read ?_)))
    cases t.frameList.getLast? with
    | none => exact ends_ite (fun _ => addTop_ends hA value ht) fun _ => ends_stop nofun
    | some node => exact ends_ite (fun _ => ends_update trivial) fun _ => ends_stop nofun

end Outcomes

/-- **The allocator's recursion ends**, from every state and with every argument: each of the five functions has an
outcome (it returns, a check of its own fails, or it follows a bad pointer) that no deeper circle changes. -/
theorem frame_allocator_terminates (s : Kernel) :
    (∀ npages, Settles (allocKpages · npages) s) ∧ (∀ paddr, Settles (freeKpages · paddr) s) ∧
      (∀ sz, Settles (kmalloc · sz) s) ∧ (∀ ptr, Settles (kfree · ptr) s) ∧
      ∀ value position, Settles (addToFrameList · value position) s := by
  have hdeep := allocator_deepEnough s.supply _ (Nat.le_refl _)
  have hkmalloc : ∀ d sz, CutOff .depth (kmalloc d sz) (kmalloc (d + 1) sz) := fun d sz =>
    kmallocBody_walk (heap_congruence depth_congruence) (allocator_cutOff d).alloc (allocator_cutOff d).free sz
  refine ⟨fun npages => ?_, fun paddr => ?_, fun sz => ?_, fun ptr => ?_, fun value position => ?_⟩
  · exact settles_of_cutOff (fun d => (allocator_cutOff d).alloc npages) (hdeep.alloc npages).ne
  · exact settles_of_cutOff (fun d => (allocator_cutOff d).free paddr) (hdeep.free paddr).ne
  · exact settles_of_cutOff (fun d => hkmalloc d sz) (kmallocBody_noDepth hdeep sz).ne
  · exact settles_of_cutOff (fun d => kfreeBody_walk (heap_congruence depth_congruence) (allocator_cutOff d).free ptr)
      (kfreeBody_noDepth hdeep.free ptr).ne
  · have hends := addToFrameListBody_ends hdeep value position (rfl : s.supply = s.supply)
    have hne : addToFrameList (2 * s.supply + 2) value position s ≠ .stop .depth := fun hstop => hends.stop hstop rfl
    exact settles_of_cutOff (fun d => addToFrameListBody_walk depth_congruence (hkmalloc d) value position) hne

end Os161Kernel
