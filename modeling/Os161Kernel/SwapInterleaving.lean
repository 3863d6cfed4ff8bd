import Os161Kernel.FrameAccounting

/-!
# Swapping by several processes

`VOP_WRITE` and `VOP_READ` sleep, so another process can run in the middle of `swapOut` and `swapIn`.  Each is cut
there in two parts: the first chooses the slot or the frame and transfers the bytes, the second edits `sf_list`.  The
parts of any number of processes interleave; `sf_lock`, which would keep them apart, is commented out in the source.

Two history variables say what should happen: a process that is writing remembers the page it found in the frame, and
`saved` remembers for each slot the page that was last recorded there.  `SwapSystem.Apart` says that no two processes
use one slot and that no recorded page is overwritten.  It holds along every run in which a swap-out starts only while no other one is in its
middle, and a swap-in only while no other process of the same pid is in the middle of one.
-/

namespace Os161Kernel

open StateProg Search Memory Runs Function Kernel Client

/-! ### The parts -/

/-- `swapOut` up to the end of `VOP_WRITE`: the slot, and the result of the write. -/
def swapOutBegin (address : ℕ) : Kern (ℕ × ℕ) := do
  match ← .read sfFreeSearch with
  | none => panic "ERROR: Out of swap space!!\n"
  | some index =>
    let opened ← vfsCall
    panicIf (0 < opened) "ERROR in SWAPFILE opening operation\n"
    let entries ← .read pagetableEntry
    .require (frameIndex address < entries) .wildDeref
    let err ← vfsCall
    .when (err = 0) (.update fun s => s.writeSlot index (frameIndex address))
    pure (index, err)

/-- The rest of `swapOut`: the slot is recorded and the frame freed. -/
def swapOutEnd (d address index : ℕ) : Kern Unit := do
  .update fun s => s.enterSlot index (frameIndex address)
  freeKpages d address

/-- `swapIn` up to the end of `VOP_READ`: the frame's address, and the result of the read. -/
def swapInBegin (d index : ℕ) : Kern (ℕ × ℕ) := do
  let address ← allocKpages d 1
  panicIf (address = 0) "swapIn not allowed!\n"
  let slot ← .read fun s => s.sfList index
  addPT (frameIndex address) (pageAddr slot.number) slot.pid slot.dirty
  addTLB (pageAddr slot.number) slot.pid
  let opened ← vfsCall
  panicIf (0 < opened) "ERROR in SWAPFILE opening operation\n"
  let err ← vfsCall
  .when (err = 0) (.update fun s => s.readSlot index (frameIndex address))
  pure (address, err)

/-- The rest of `swapIn`: the slot is free again. -/
def swapInEnd (index : ℕ) : Kern Unit := .update fun s => s.clearSlot index

theorem swapOut_eq_parts (d address : ℕ) : swapOut d address = (do
    let (index, err) ← swapOutBegin address
    if err ≠ 0 then pure 1 else do
      swapOutEnd d address index
      pure 0) := by
  unfold swapOut swapOutBegin swapOutEnd
  simp only [Prog.bind_assoc]
  refine Prog.bind_congr fun found => ?_
  cases found with
  | none => rfl
  | some index =>
    simp only [Prog.bind_assoc]
    refine Prog.bind_congr fun _ => Prog.bind_congr fun _ => Prog.bind_congr fun _ => Prog.bind_congr fun _ =>
      Prog.bind_congr fun err => ?_
    by_cases herr : err = 0
    · subst herr
      rfl
    · unfold Prog.when
      rw [if_pos herr, if_neg herr]
      show _ = if err ≠ 0 then _ else _
      rw [if_pos herr]

theorem swapIn_eq_parts (d index : ℕ) : swapIn d index = (do
    let (_, err) ← swapInBegin d index
    if err ≠ 0 then pure 1 else do
      swapInEnd index
      pure 0) := by
  unfold swapIn swapInBegin swapInEnd
  simp only [Prog.bind_assoc]
  refine Prog.bind_congr fun _ => Prog.bind_congr fun _ => Prog.bind_congr fun _ => Prog.bind_congr fun _ =>
    Prog.bind_congr fun _ => Prog.bind_congr fun _ => Prog.bind_congr fun _ => Prog.bind_congr fun err => ?_
  by_cases herr : err = 0
  · subst herr
    rfl
  · unfold Prog.when
    rw [if_pos herr, if_neg herr]
    show _ = if err ≠ 0 then _ else _
    rw [if_pos herr]

/-! ### What the parts do -/

/-- A page with its owner, number and bytes. -/
structure PageCopy where
  pid : UInt8
  number : PageNo
  bytes : Fin 4096 → UInt8

namespace Kernel

/-- The page that a frame holds. -/
def pageIn (s : Kernel) (f : ℕ) : PageCopy :=
  ⟨(s.mainPG f).pid, (s.mainPG f).pageNumber, frameBytes s.ram f⟩

/-- The bytes at a slot's place in the swap file. -/
def slotBytes (s : Kernel) (i : ℕ) : Fin 4096 → UInt8 := fun k => s.swapfile (s.slotOffset i + k)

/-- The page that a slot is recorded to hold. -/
def pageAt (s : Kernel) (i : ℕ) : PageCopy := ⟨(s.sfList i).pid, (s.sfList i).number, s.slotBytes i⟩

end Kernel

section Parts

variable {L : List ℕ} {d : ℕ} {s s' : Kernel} {u : Unit}

theorem swapOutBegin_ok {address index err : ℕ} (h : swapOutBegin address s = .ok (index, err) s') :
    s.sfFreeSearch = some index ∧ frameIndex address < s.pagetableEntry ∧
      ((err ≠ 0 ∧ s' = s.calls 2) ∨ (err = 0 ∧ s' = (s.calls 2).writeSlot index (frameIndex address))) := by
  unfold swapOutBegin at h
  obtain ⟨found, _, hread, hrest⟩ := bind_ok_iff.mp h
  obtain ⟨hfound, rfl⟩ := read_ok_iff.mp hread
  cases found with
  | none => exact (stop_ok_iff.mp hrest).elim
  | some i =>
    simp only [bind_ok_iff, read_ok_iff, panicIf, require_ok_iff, when_ok_iff,
      update_ok_iff, pure_ok_iff, Prod.mk.injEq] at hrest
    obtain ⟨_, _, hopen, _, _, ⟨-, rfl⟩, _, _, ⟨rfl, rfl⟩, _, _, ⟨hlt, rfl⟩, _, _, hwrite, _, _, hwhen,
      ⟨rfl, rfl⟩, rfl⟩ := hrest
    obtain ⟨-, rfl⟩ := vfsCall_ok hopen
    obtain ⟨-, rfl⟩ := vfsCall_ok hwrite
    refine ⟨hfound, hlt, ?_⟩
    rcases hwhen with ⟨herr, hs'⟩ | ⟨herr, hs'⟩
    · exact .inr ⟨herr, hs'.symm⟩
    · exact .inl ⟨herr, hs'⟩

theorem swapOutEnd_sound {f index : ℕ} (h : HeapInv L [] s) (hs : s.vmStarted = true) (hlt : f < s.pagetableEntry)
    (hu : s.User f) (hrun : swapOutEnd d (kvaddr f) index s = .ok u s') :
    HeapInv L [] s' ∧ s'.vmStarted = true ∧ s'.swapfile = s.swapfile ∧
      s'.sfList = (s.enterSlot index f).sfList := by
  obtain ⟨_, t, henter, hfree⟩ := bind_ok_iff.mp hrun
  have hindex : frameIndex (kvaddr f) = f :=
    frameIndex_kvaddr_self (Nat.le_of_lt (Nat.lt_of_lt_of_le hlt s.pagetableEntry_le))
  rw [hindex] at henter
  obtain rfl := update_ok_iff.mp henter
  have hsame : SameOwners s (s.enterSlot index f) := rfl
  have hheap : HeapInv L [] (s.enterSlot index f) := hsame.heapInv h
  obtain ⟨hcalm, hL⟩ := hheap.user_calm hs hlt hu
  obtain ⟨hinv, -⟩ := (allocator_sound d).free hheap hL hcalm hfree
  have honly : AllocOnly (s.enterSlot index f) s' := (freeKpages_moves d _ _ _ _ hfree).allocOnly
  exact ⟨hinv, by rw [honly]; exact hs, by rw [honly]; rfl, by rw [honly]⟩

theorem swapInBegin_ok {index a err : ℕ} (h : swapInBegin d index s = .ok (a, err) s') :
    ∃ t t₁ t₂, allocKpages d 1 s = .ok a t ∧ a ≠ 0 ∧
      addPT (frameIndex a) (pageAddr (t.sfList index).number) (t.sfList index).pid (t.sfList index).dirty t =
        .ok () t₁ ∧
      addTLB (pageAddr (t.sfList index).number) (t.sfList index).pid t₁ = .ok () t₂ ∧
      ((err ≠ 0 ∧ s' = t₂.calls 2) ∨ (err = 0 ∧ s' = (t₂.calls 2).readSlot index (frameIndex a))) := by
  unfold swapInBegin at h
  simp only [bind_ok_iff, read_ok_iff, panicIf, require_ok_iff, when_ok_iff,
    update_ok_iff, pure_ok_iff, Prod.mk.injEq] at h
  obtain ⟨_, t, halloc, _, _, ⟨hne, rfl⟩, _, _, ⟨rfl, rfl⟩, _, t₁, hpt, _, t₂, htlb, _, _, hopen, _, _, ⟨-, rfl⟩,
    _, _, hread, _, _, hwhen, ⟨rfl, rfl⟩, rfl⟩ := h
  obtain ⟨-, rfl⟩ := vfsCall_ok hopen
  obtain ⟨-, rfl⟩ := vfsCall_ok hread
  refine ⟨_, t₁, t₂, halloc, hne, hpt, htlb, ?_⟩
  rcases hwhen with ⟨herr, hs'⟩ | ⟨herr, hs'⟩
  · exact .inr ⟨herr, hs'.symm⟩
  · exact .inl ⟨herr, hs'⟩

theorem swapInBegin_sound {index a err : ℕ} (h : HeapInv L [] s) (hs : s.vmStarted = true)
    (hrun : swapInBegin d index s = .ok (a, err) s') :
    HeapInv L [] s' ∧ s'.vmStarted = true ∧ s'.pagetableEntry = s.pagetableEntry ∧ s'.sfList = s.sfList ∧
      s'.swapfile = s.swapfile ∧ s'.procs = s.procs ∧
      (∀ g < s.pagetableEntry, s.User g → s'.User g ∧ s'.pageIn g = s.pageIn g) ∧
      (err = 0 → frameBytes s'.ram (frameIndex a) = s.slotBytes index) := by
  obtain ⟨t, t₁, t₂, halloc, ha, hpt, htlb, hcases⟩ := swapInBegin_ok hrun
  obtain ⟨f, -, hindex, hlt, hnew, hquiet, -, -, hinv, ht₁⟩ := mapFrame_sound h hs halloc ha hpt
  rw [hindex] at hcases ⊢
  have htlb' : SameButTlb t₁ t₂ := addTLB_within _ _ _ _ _ htlb
  -- after the row is written only memory and the call counter change
  have hlast : SameOwners t₂ s' := by
    rcases hcases with ⟨-, rfl⟩ | ⟨-, rfl⟩ <;> rfl
  have hmap : s'.sfList = s.sfList ∧ s'.swapfile = s.swapfile ∧ s'.procs = s.procs ∧ s'.mainPG = t₁.mainPG := by
    have hsf : t₂.sfList = s.sfList ∧ t₂.swapfile = s.swapfile ∧ t₂.procs = s.procs ∧ t₂.mainPG = t₁.mainPG := by
      rw [htlb', ht₁]
      show t.sfList = _ ∧ t.swapfile = _ ∧ t.procs = _ ∧ _
      rw [hquiet.same]
      exact ⟨rfl, rfl, rfl, rfl⟩
    rcases hcases with ⟨-, rfl⟩ | ⟨-, rfl⟩ <;> exact hsf
  obtain ⟨hsf, hfile, hprocs, hrows⟩ := hmap
  have hram : ∀ g, g ≠ f → frameBytes s'.ram g = frameBytes t.ram g := by
    intro g hg
    have hsame : t₂.ram = t.ram := by rw [htlb', ht₁]; rfl
    rcases hcases with ⟨-, rfl⟩ | ⟨-, rfl⟩
    · show frameBytes t₂.ram g = _
      rw [hsame]
    · show frameBytes (overlay t₂.ram _ _ _) g = _
      rw [frameBytes_overlay_of_ne hg (Nat.le_refl _) (by rw [Nat.succ_mul]), hsame]
  refine ⟨hlast.heapInv (htlb'.sameOwners.heapInv hinv), ?_, ?_, hsf, hfile, hprocs, fun g hlt' hu => ?_,
    fun herr => ?_⟩
  · rw [hlast, htlb', ht₁]
    exact hquiet.vmStarted.trans hs
  · rw [hlast, htlb', ht₁]
    exact hquiet.pagetableEntry
  · have hcalm := (h.user_calm hs hlt' hu).1
    have hg : g ≠ f := fun heq => hnew (heq ▸ hcalm)
    have hrow : s'.mainPG g = s.mainPG g := by
      rw [hrows, ht₁, ← hquiet.row g hg hcalm]
      exact update_of_ne hg ..
    refine ⟨?_, ?_⟩
    · unfold User Valid
      rw [hrow]
      exact hu
    · unfold pageIn
      rw [hrow, hram g hg, hquiet.bytes g hg hcalm]
  · rcases hcases with ⟨hne, -⟩ | ⟨-, rfl⟩
    · exact absurd herr hne
    · funext k
      show overlay t₂.ram (f * pageSize) pageSize (fun k => t₂.swapfile (t₂.slotOffset index + k)) _ = _
      rw [overlay_at (show (k : ℕ) < pageSize from k.isLt)]
      have hsf₂ : t₂.sfList = s.sfList := hsf
      have hfile₂ : t₂.swapfile = s.swapfile := hfile
      unfold slotBytes slotOffset
      rw [hsf₂, hfile₂]

end Parts

/-! ### The system -/

/-- Where a process is in the middle of a call, with the page it found when it started to write. -/
inductive SwapPart where
  | writing (f index : ℕ) (page : PageCopy)
  | reading (index f : ℕ)

namespace SwapPart

def isWriting : SwapPart → Bool
  | .writing _ _ _ => true
  | .reading _ _ => false

end SwapPart

/-- The processes with the kernel they share. -/
structure SwapSystem where
  kernel : Kernel
  /-- The processes in the middle of a call. -/
  flight : List (ℕ × SwapPart)
  /-- The page that was last recorded in each slot. -/
  saved : ℕ → PageCopy

/-- What process `n` does: start to swap out a frame of its own or to swap in a page of its own, or go on after the
transfer. -/
inductive PartOp where
  | swapOut (n f : ℕ)
  | swapIn (n d : ℕ) (page : PageNo)
  | finish (n d : ℕ)

namespace SwapSystem

/-- Process `n` is in no call. -/
def Idle (σ : SwapSystem) (n : ℕ) : Prop := ∀ x ∈ σ.flight, x.1 ≠ n

instance (σ : SwapSystem) (n : ℕ) : Decidable (σ.Idle n) := inferInstanceAs (Decidable (∀ x ∈ _, _))

/-- One part.  A transfer that fails ends the call; a call that panics is no step. -/
def step (σ : SwapSystem) : PartOp → Option SwapSystem
  | .swapOut n f =>
    if σ.Idle n ∧ f < σ.kernel.pagetableEntry ∧ σ.kernel.User f ∧
        (σ.kernel.mainPG f).pid = (σ.kernel.procs n).pid then
      match swapOutBegin (kvaddr f) σ.kernel with
      | .ok (index, err) s' => some { σ with
          kernel := s'
          flight := if err = 0 then (n, .writing f index (σ.kernel.pageIn f)) :: σ.flight else σ.flight }
      | .stop _ => none
    else none
  | .swapIn n d page =>
    if σ.Idle n ∧ (σ.kernel.procs n).pid ≠ 0 then
      (σ.kernel.sfPageSearch page (σ.kernel.procs n).pid).bind fun index =>
        match swapInBegin d index σ.kernel with
        | .ok (a, err) s' => some { σ with
            kernel := s'
            flight := if err = 0 then (n, .reading index (frameIndex a)) :: σ.flight else σ.flight }
        | .stop _ => none
    else none
  | .finish n d =>
    match σ.flight.find? fun x => x.1 = n with
    | none => none
    | some (_, .writing f index page) => (swapOutEnd d (kvaddr f) index σ.kernel).state?.map fun s' =>
        ⟨s', σ.flight.filter fun x => x.1 ≠ n, update σ.saved index page⟩
    | some (_, .reading index _) => (swapInEnd index σ.kernel).state?.map fun s' =>
        ⟨s', σ.flight.filter fun x => x.1 ≠ n, σ.saved⟩

/-- No two pages are stored or recorded in one slot, and what is recorded is what was saved. -/
structure Apart (σ : SwapSystem) : Prop where
  stored : ∀ m n f g i p q, (m, .writing f i p) ∈ σ.flight → (n, .writing g i q) ∈ σ.flight → m = n
  free : ∀ n f i p, (n, .writing f i p) ∈ σ.flight → (σ.kernel.sfList i).Free
  intact : ∀ i < swapfileSize, ¬ (σ.kernel.sfList i).Free → σ.kernel.pageAt i = σ.saved i

/-- A swap-out starts while no other one is in its middle, a swap-in while no other process of the same pid is in
the middle of one. -/
def Meets (σ : SwapSystem) : PartOp → Prop
  | .swapOut _ _ => ∀ x ∈ σ.flight, x.2.isWriting = false
  | .swapIn n _ _ => ∀ x ∈ σ.flight, x.2.isWriting = false →
      (σ.kernel.procs x.1).pid ≠ (σ.kernel.procs n).pid
  | .finish _ _ => True

instance (σ : SwapSystem) : ∀ op, Decidable (σ.Meets op)
  | .swapOut _ _ => inferInstanceAs (Decidable (∀ x ∈ _, _))
  | .swapIn _ _ _ => inferInstanceAs (Decidable (∀ x ∈ _, _))
  | .finish _ _ => inferInstanceAs (Decidable True)

/-- A state to start from: the VM runs on a consistent heap, the slots are where `swapfile_init` put them, nobody is
in a call, and `saved` tells what the slots hold. -/
structure Start (σ : SwapSystem) : Prop where
  started : σ.kernel.vmStarted = true
  heap : ∃ L, HeapInv L [] σ.kernel
  offset : ∀ i < swapfileSize, (σ.kernel.sfList i).offset = i
  flight : σ.flight = []
  intact : ∀ i < swapfileSize, ¬ (σ.kernel.sfList i).Free → σ.kernel.pageAt i = σ.saved i

/-- The invariant of the runs that meet the condition. -/
structure Inv (σ : SwapSystem) : Prop where
  started : σ.kernel.vmStarted = true
  heap : ∃ L, HeapInv L [] σ.kernel
  offset : ∀ i < swapfileSize, (σ.kernel.sfList i).offset = i
  intact : ∀ i < swapfileSize, ¬ (σ.kernel.sfList i).Free → σ.kernel.pageAt i = σ.saved i
  one : ∀ m n f g i j p q, (m, .writing f i p) ∈ σ.flight → (n, .writing g j q) ∈ σ.flight → m = n
  writing : ∀ n f i p, (n, .writing f i p) ∈ σ.flight → f < σ.kernel.pagetableEntry ∧ σ.kernel.User f ∧
    σ.kernel.pageIn f = p ∧ i < swapfileSize ∧ (σ.kernel.sfList i).Free ∧ σ.kernel.slotBytes i = p.bytes
  reading : ∀ n i f, (n, .reading i f) ∈ σ.flight → i < swapfileSize ∧ ¬ (σ.kernel.sfList i).Free ∧
    (σ.kernel.sfList i).pid = (σ.kernel.procs n).pid
  pids : ∀ m n i j f g, (m, .reading i f) ∈ σ.flight → (n, .reading j g) ∈ σ.flight → m ≠ n →
    (σ.kernel.procs m).pid ≠ (σ.kernel.procs n).pid

variable {σ σ' : SwapSystem}

theorem Start.inv (h : Start σ) : σ.Inv where
  started := h.started
  heap := h.heap
  offset := h.offset
  intact := h.intact
  one _ _ _ _ _ _ _ _ hm := absurd hm (h.flight ▸ List.not_mem_nil)
  writing _ _ _ _ hm := absurd hm (h.flight ▸ List.not_mem_nil)
  reading _ _ _ hm := absurd hm (h.flight ▸ List.not_mem_nil)
  pids _ _ _ _ _ _ hm := absurd hm (h.flight ▸ List.not_mem_nil)

theorem Inv.apart (h : σ.Inv) : σ.Apart where
  stored m n f g i p q hm hn := h.one m n f g i i p q hm hn
  free n f i p hm := (h.writing n f i p hm).2.2.2.2.1
  intact := h.intact

/-! ### One part keeps the invariant -/

variable {i f index err n : ℕ} {page : PageNo}

theorem Inv.slotBytes_writeSlot (h : σ.Inv) {j : ℕ} (hi : i < swapfileSize) (hj : j < swapfileSize)
    (hne : j ≠ i) : (σ.kernel.writeSlot i f).slotBytes j = σ.kernel.slotBytes j := by
  funext k
  show overlay σ.kernel.swapfile (σ.kernel.slotOffset i) pageSize _ (σ.kernel.slotOffset j + k) = _
  rw [slotOffset_eq (h.offset i hi) hi, slotOffset_eq (h.offset j hj) hj]
  rw [overlay_outside (slot_apart hne k.isLt)]
  unfold slotBytes
  rw [slotOffset_eq (h.offset j hj) hj]

theorem Inv.swapOut {s' : Kernel} (h : σ.Inv)
    (hmeets : ∀ x ∈ σ.flight, x.2.isWriting = false) (hlt : f < σ.kernel.pagetableEntry) (hu : σ.kernel.User f)
    (hrun : swapOutBegin (kvaddr f) σ.kernel = .ok (index, err) s') :
    Inv { σ with
      kernel := s'
      flight := if err = 0 then (n, .writing f index (σ.kernel.pageIn f)) :: σ.flight else σ.flight } := by
  obtain ⟨L, hheap⟩ := h.heap
  obtain ⟨hfound, -, hcases⟩ := swapOutBegin_ok hrun
  have hindex : index < swapfileSize := lt_of_firstBelow hfound
  have hfree : (σ.kernel.sfList index).Free := prop_of_firstBelow hfound
  have hf : frameIndex (kvaddr f) = f :=
    frameIndex_kvaddr_self (Nat.le_of_lt (Nat.lt_of_lt_of_le hlt σ.kernel.pagetableEntry_le))
  rw [hf] at hcases
  rcases hcases with ⟨herr, rfl⟩ | ⟨herr, rfl⟩
  · rw [if_neg herr]
    exact ⟨h.started, ⟨L, (σ.kernel.calls_sameOwners 2).heapInv hheap⟩, h.offset, h.intact, h.one, h.writing,
      h.reading, h.pids⟩
  · rw [if_pos herr]
    have hsame : SameOwners σ.kernel ((σ.kernel.calls 2).writeSlot index f) := rfl
    -- nobody else is writing
    have hnone : ∀ m g i p, (m, SwapPart.writing g i p) ∉ σ.flight := fun m g i p hm =>
      Bool.noConfusion (show true = false from hmeets _ hm)
    have hnew : ∀ m g i p, (m, SwapPart.writing g i p) ∈ (n, .writing f index (σ.kernel.pageIn f)) :: σ.flight →
        m = n ∧ g = f ∧ i = index ∧ p = σ.kernel.pageIn f := by
      intro m g i p hm
      rcases List.mem_cons.mp hm with heq | hold
      · obtain ⟨rfl, hpart⟩ := Prod.mk.inj heq
        obtain ⟨rfl, rfl, rfl⟩ := SwapPart.writing.inj hpart
        exact ⟨rfl, rfl, rfl, rfl⟩
      · exact absurd hold (hnone m g i p)
    have hold : ∀ m i g, (m, SwapPart.reading i g) ∈ (n, .writing f index (σ.kernel.pageIn f)) :: σ.flight →
        (m, SwapPart.reading i g) ∈ σ.flight := by
      intro m i g hm
      rcases List.mem_cons.mp hm with heq | hold
      · exact nomatch (Prod.mk.inj heq).2
      · exact hold
    refine ⟨h.started, ⟨L, hsame.heapInv hheap⟩, h.offset, fun i hi hused => ?_, fun m m' _ _ _ _ _ _ hm hm' => ?_,
      fun m g i p hm => ?_, fun m i g hm => h.reading m i g (hold m i g hm),
      fun m m' i j g g' hm hm' => h.pids m m' i j g g' (hold _ _ _ hm) (hold _ _ _ hm')⟩
    · have hne : i ≠ index := fun heq => hused (heq ▸ hfree)
      rw [← h.intact i hi hused]
      unfold pageAt
      exact congrArg (PageCopy.mk _ _) (h.slotBytes_writeSlot hindex hi hne)
    · exact (hnew _ _ _ _ hm).1.trans (hnew _ _ _ _ hm').1.symm
    · obtain ⟨rfl, rfl, rfl, rfl⟩ := hnew m g i p hm
      refine ⟨hlt, hu, rfl, hindex, hfree, ?_⟩
      funext k
      exact overlay_at (show (k : ℕ) < pageSize from k.isLt)

theorem Inv.swapIn {a d : ℕ} {s' : Kernel} (h : σ.Inv)
    (hmeets : ∀ x ∈ σ.flight, x.2.isWriting = false → (σ.kernel.procs x.1).pid ≠ (σ.kernel.procs n).pid)
    (hpid : (σ.kernel.procs n).pid ≠ 0)
    (hfound : σ.kernel.sfPageSearch page (σ.kernel.procs n).pid = some index)
    (hrun : swapInBegin d index σ.kernel = .ok (a, err) s') :
    Inv { σ with
      kernel := s'
      flight := if err = 0 then (n, .reading index (frameIndex a)) :: σ.flight else σ.flight } := by
  obtain ⟨L, hheap⟩ := h.heap
  obtain ⟨hinv, hs, hent, hsf, hfile, hprocs, husers, -⟩ := swapInBegin_sound hheap h.started hrun
  have hindex : index < swapfileSize := lt_of_firstBelow hfound
  obtain ⟨hnumber, hslotPid⟩ := prop_of_firstBelow hfound
  have hslot : ∀ i, s'.slotBytes i = σ.kernel.slotBytes i := by
    intro i
    unfold slotBytes slotOffset
    rw [hsf, hfile]
  -- the new flight has the old writers and one more reader
  have hwriters : ∀ m g i p, (m, SwapPart.writing g i p) ∈
      (if err = 0 then (n, .reading index (frameIndex a)) :: σ.flight else σ.flight) →
      (m, SwapPart.writing g i p) ∈ σ.flight := by
    intro m g i p hm
    split at hm
    · rcases List.mem_cons.mp hm with heq | hold
      · exact nomatch (Prod.mk.inj heq).2
      · exact hold
    · exact hm
  have hreaders : ∀ m i g, (m, SwapPart.reading i g) ∈
      (if err = 0 then (n, .reading index (frameIndex a)) :: σ.flight else σ.flight) →
      (m = n ∧ i = index) ∨ (m, SwapPart.reading i g) ∈ σ.flight := by
    intro m i g hm
    split at hm
    · rcases List.mem_cons.mp hm with heq | hold
      · obtain ⟨rfl, hpart⟩ := Prod.mk.inj heq
        exact .inl ⟨rfl, (SwapPart.reading.inj hpart).1⟩
      · exact .inr hold
    · exact .inr hm
  refine ⟨hs, ⟨L, hinv⟩, fun i hi => ?_, fun i hi hused => ?_, fun m m' g g' i j p q hm hm' => ?_,
    fun m g i p hm => ?_, fun m i g hm => ?_, fun m m' i j g g' hm hm' hne => ?_⟩
  · show (s'.sfList i).offset = i
    rw [hsf]
    exact h.offset i hi
  · have hused' : ¬ (s'.sfList i).Free := hused
    rw [hsf] at hused'
    show s'.pageAt i = σ.saved i
    rw [← h.intact i hi hused']
    unfold pageAt
    rw [hsf, hslot]
  · exact h.one m m' g g' i j p q (hwriters _ _ _ _ hm) (hwriters _ _ _ _ hm')
  · obtain ⟨hlt, hu, hpage, hi, hfree, hbytes⟩ := h.writing m g i p (hwriters _ _ _ _ hm)
    obtain ⟨hu', hpage'⟩ := husers g hlt hu
    refine ⟨hent ▸ hlt, hu', hpage'.trans hpage, hi, ?_, (hslot i).trans hbytes⟩
    show (s'.sfList i).Free
    rw [hsf]
    exact hfree
  · show _ ∧ ¬ (s'.sfList i).Free ∧ (s'.sfList i).pid = (s'.procs m).pid
    rw [hsf, hprocs]
    rcases hreaders m i g hm with ⟨rfl, rfl⟩ | hold
    · exact ⟨hindex, fun hfr => hpid (hslotPid.symm.trans hfr.2), hslotPid⟩
    · exact h.reading m i g hold
  · show (s'.procs m).pid ≠ (s'.procs m').pid
    rw [hprocs]
    rcases hreaders m i g hm with ⟨rfl, -⟩ | hold <;> rcases hreaders m' j g' hm' with ⟨rfl, -⟩ | hold'
    · exact absurd rfl hne
    · exact (hmeets _ hold' rfl).symm
    · exact hmeets _ hold rfl
    · exact h.pids m m' i j g g' hold hold' hne

theorem Inv.finishOut {d : ℕ} {page : PageCopy} {s' : Kernel} (h : σ.Inv)
    (hm : (n, .writing f index page) ∈ σ.flight)
    (hrun : swapOutEnd d (kvaddr f) index σ.kernel = .ok () s') :
    Inv ⟨s', σ.flight.filter fun x => x.1 ≠ n, update σ.saved index page⟩ := by
  obtain ⟨L, hheap⟩ := h.heap
  obtain ⟨hlt, hu, hpage, hindex, hfree, hbytes⟩ := h.writing n f index page hm
  obtain ⟨hinv, hs, hfile, hsf⟩ := swapOutEnd_sound hheap h.started hlt hu hrun
  have hprocs : s'.procs = σ.kernel.procs := by
    obtain ⟨_, t, henter, hfreeing⟩ := bind_ok_iff.mp hrun
    rw [(freeKpages_moves d _ _ _ _ hfreeing).allocOnly, ← update_ok_iff.mp henter]
    rfl
  have hself : s'.sfList index = { σ.kernel.sfList index with
      number := (σ.kernel.mainPG f).pageNumber, pid := (σ.kernel.mainPG f).pid
      dirty := (σ.kernel.mainPG f).dirty } := by
    rw [hsf]
    exact update_self ..
  have hother : ∀ i, i ≠ index → s'.sfList i = σ.kernel.sfList i := fun i hi => by
    rw [hsf]
    exact update_of_ne hi ..
  have hoffset : ∀ i, (s'.sfList i).offset = (σ.kernel.sfList i).offset := by
    intro i
    by_cases hi : i = index
    · rw [hi, hself]
    · rw [hother i hi]
  have hslot : ∀ i, s'.slotBytes i = σ.kernel.slotBytes i := by
    intro i
    unfold slotBytes slotOffset
    rw [hoffset, hfile]
  -- the only writer is gone
  have hnone : ∀ m g i p, (m, SwapPart.writing g i p) ∉ σ.flight.filter fun x => x.1 ≠ n := by
    intro m g i p hmem
    obtain ⟨hold, hne⟩ := List.mem_filter.mp hmem
    exact of_decide_eq_true hne (h.one m n g f i index p page hold hm)
  refine ⟨hs, ⟨L, hinv⟩, fun i hi => (hoffset i).trans (h.offset i hi), fun i hi hused => ?_,
    fun m _ _ _ _ _ _ _ hmem => absurd hmem (hnone m _ _ _), fun m _ _ _ hmem => absurd hmem (hnone m _ _ _),
    fun m i g hmem => ?_, fun m m' i j g g' hmem hmem' => ?_⟩
  · show s'.pageAt i = update σ.saved index page i
    by_cases hne : i = index
    · rw [hne, update_self, ← hpage]
      show PageCopy.mk (s'.sfList index).pid (s'.sfList index).number (s'.slotBytes index) = _
      rw [hself, hslot, hbytes, ← hpage]
      rfl
    · rw [update_of_ne hne]
      have hused' : ¬ (s'.sfList i).Free := hused
      rw [hother i hne] at hused'
      rw [← h.intact i hi hused']
      unfold pageAt
      rw [hother i hne, hslot]
  · obtain ⟨hi, hused, hpid⟩ := h.reading m i g (List.mem_of_mem_filter hmem)
    have hne : i ≠ index := fun heq => hused (heq ▸ hfree)
    show _ ∧ ¬ (s'.sfList i).Free ∧ (s'.sfList i).pid = (s'.procs m).pid
    rw [hother i hne, hprocs]
    exact ⟨hi, hused, hpid⟩
  · show m ≠ m' → (s'.procs m).pid ≠ (s'.procs m').pid
    rw [hprocs]
    exact h.pids m m' i j g g' (List.mem_of_mem_filter hmem) (List.mem_of_mem_filter hmem')

theorem Inv.finishIn (h : σ.Inv) (hm : (n, .reading index f) ∈ σ.flight) :
    Inv ⟨σ.kernel.clearSlot index, σ.flight.filter fun x => x.1 ≠ n, σ.saved⟩ := by
  obtain ⟨L, hheap⟩ := h.heap
  obtain ⟨hindex, hused, hpid⟩ := h.reading n index f hm
  have hsame : SameOwners σ.kernel (σ.kernel.clearSlot index) := rfl
  have hother : ∀ i, i ≠ index → (σ.kernel.clearSlot index).sfList i = σ.kernel.sfList i := fun i hi =>
    update_of_ne hi ..
  have hself : ((σ.kernel.clearSlot index).sfList index).Free := by
    show (update σ.kernel.sfList index _ index).Free
    rw [update_self]
    exact ⟨rfl, rfl⟩
  have hoffset : ∀ i, ((σ.kernel.clearSlot index).sfList i).offset = (σ.kernel.sfList i).offset := by
    intro i
    by_cases hi : i = index
    · rw [hi]
      show (update σ.kernel.sfList index _ index).offset = _
      rw [update_self]
    · rw [hother i hi]
  have hslot : ∀ i, (σ.kernel.clearSlot index).slotBytes i = σ.kernel.slotBytes i := by
    intro i
    unfold slotBytes slotOffset
    rw [hoffset]
    rfl
  refine ⟨h.started, ⟨L, hsame.heapInv hheap⟩, fun i hi => (hoffset i).trans (h.offset i hi),
    fun i hi hused' => ?_, fun m m' g g' i j p q hmem hmem' => ?_, fun m g i p hmem => ?_, fun m i g hmem => ?_,
    fun m m' i j g g' hmem hmem' => ?_⟩
  · have hne : i ≠ index := fun heq => hused' (heq ▸ hself)
    show (σ.kernel.clearSlot index).pageAt i = _
    unfold pageAt
    rw [hslot, hother i hne]
    have hused₀ : ¬ ((σ.kernel.clearSlot index).sfList i).Free := hused'
    rw [hother i hne] at hused₀
    exact h.intact i hi hused₀
  · exact h.one m m' g g' i j p q (List.mem_of_mem_filter hmem) (List.mem_of_mem_filter hmem')
  · obtain ⟨hlt, hu, hpage, hi, hfree, hbytes⟩ := h.writing m g i p (List.mem_of_mem_filter hmem)
    have hne : i ≠ index := fun heq => hused (heq ▸ hfree)
    refine ⟨hlt, hu, hpage, hi, ?_, (hslot i).trans hbytes⟩
    show ((σ.kernel.clearSlot index).sfList i).Free
    rw [hother i hne]
    exact hfree
  · obtain ⟨hold, hmn⟩ := List.mem_filter.mp hmem
    obtain ⟨hi, hused', hpid'⟩ := h.reading m i g hold
    -- another reader has another pid, hence another slot
    have hne : i ≠ index := by
      intro heq
      refine h.pids m n i index g f hold hm (of_decide_eq_true hmn) ?_
      rw [← hpid', heq, hpid]
    show _ ∧ ¬ ((σ.kernel.clearSlot index).sfList i).Free ∧
      ((σ.kernel.clearSlot index).sfList i).pid = (σ.kernel.procs m).pid
    rw [hother i hne]
    exact ⟨hi, hused', hpid'⟩
  · exact h.pids m m' i j g g' (List.mem_of_mem_filter hmem) (List.mem_of_mem_filter hmem')

theorem Inv.step {op : PartOp} (h : σ.Inv) (hmeets : σ.Meets op) (hstep : σ.step op = some σ') : σ'.Inv := by
  cases op with
  | swapOut n f =>
    simp only [SwapSystem.step] at hstep
    split at hstep
    · next hguard =>
      split at hstep
      · next index err s' hrun =>
        rw [← Option.some.inj hstep]
        exact h.swapOut hmeets hguard.2.1 hguard.2.2.1 hrun
      · exact nomatch hstep
    · exact nomatch hstep
  | swapIn n d page =>
    simp only [SwapSystem.step] at hstep
    split at hstep
    · next hguard =>
      obtain ⟨index, hfound, hstep⟩ := Option.bind_eq_some_iff.mp hstep
      split at hstep
      · next a err s' hrun =>
        rw [← Option.some.inj hstep]
        exact h.swapIn hmeets hguard.2 hfound hrun
      · exact nomatch hstep
    · exact nomatch hstep
  | finish n d =>
    simp only [SwapSystem.step] at hstep
    split at hstep
    · exact nomatch hstep
    · next m f index page hfind =>
      have hmn : m = n := by
        have hfst := List.find?_some hfind
        exact of_decide_eq_true hfst
      obtain ⟨s', hs', rfl⟩ := Option.map_eq_some_iff.mp hstep
      exact h.finishOut (hmn ▸ List.mem_of_find?_eq_some hfind) (state?_eq_some.mp hs')
    · next m index f hfind =>
      have hmn : m = n := by
        have hfst := List.find?_some hfind
        exact of_decide_eq_true hfst
      obtain ⟨s', hs', rfl⟩ := Option.map_eq_some_iff.mp hstep
      rw [← update_ok_iff.mp (state?_eq_some.mp hs')]
      exact h.finishIn (hmn ▸ List.mem_of_find?_eq_some hfind)

theorem Inv.readBack {d : ℕ} (h : σ.Inv)
    (hstep : σ.step (.swapIn n d page) = some σ') (hm : (n, .reading i f) ∈ σ'.flight) :
    (σ.saved i).pid = (σ.kernel.procs n).pid ∧ (σ.saved i).number = page ∧
      frameBytes σ'.kernel.ram f = (σ.saved i).bytes := by
  obtain ⟨L, hheap⟩ := h.heap
  simp only [SwapSystem.step] at hstep
  split at hstep
  · next hguard =>
    obtain ⟨index, hfound, hstep⟩ := Option.bind_eq_some_iff.mp hstep
    have hindex : index < swapfileSize := lt_of_firstBelow hfound
    obtain ⟨hnumber, hslotPid⟩ := prop_of_firstBelow hfound
    split at hstep
    · next a err s' hrun =>
      obtain ⟨-, -, -, -, -, -, -, hread⟩ := swapInBegin_sound hheap h.started hrun
      rw [← Option.some.inj hstep] at hm ⊢
      -- process `n` was idle, so the entry is the new one
      have hnew : err = 0 ∧ i = index ∧ f = frameIndex a := by
        have hm' : (n, SwapPart.reading i f) ∈
          (if err = 0 then (n, .reading index (frameIndex a)) :: σ.flight else σ.flight) := hm
        split at hm'
        · next herr =>
          rcases List.mem_cons.mp hm' with heq | hold
          · obtain ⟨hi, hf⟩ := SwapPart.reading.inj (Prod.mk.inj heq).2
            exact ⟨herr, hi, hf⟩
          · exact absurd rfl (hguard.1 _ hold)
        · exact absurd rfl (hguard.1 _ hm')
      obtain ⟨herr, rfl, rfl⟩ := hnew
      have hused : ¬ (σ.kernel.sfList i).Free := fun hfr => hguard.2 (hslotPid.symm.trans hfr.2)
      rw [← h.intact i hindex hused]
      exact ⟨hslotPid, hnumber, hread herr⟩
    · exact nomatch hstep
  · exact nomatch hstep

end SwapSystem

/-- **Concurrent swap-outs use different slots.**  Along every run of the parts of any number of processes that meets
the condition, no two pages are stored or recorded in one slot, and a swap-in reads back the page that was saved. -/
theorem swap_slots_apart {σ₀ σ : SwapSystem} (hstart : σ₀.Start)
    (h : Reaches (Guarded (StepOf SwapSystem.step) SwapSystem.Meets) (· = σ₀) σ) :
    σ.Apart ∧ ∀ n d i f page σ', σ.step (.swapIn n d page) = some σ' → (n, .reading i f) ∈ σ'.flight →
      (σ.saved i).pid = (σ.kernel.procs n).pid ∧ (σ.saved i).number = page ∧
        frameBytes σ'.kernel.ram f = (σ.saved i).bytes := by
  have hinv : σ.Inv := by
    refine h.invariant (P := SwapSystem.Inv) ?_ ?_
    · rintro σ rfl
      exact hstart.inv
    · rintro σ op σ' hσ ⟨hmeets, hstep⟩
      exact hσ.step hmeets hstep
  exact ⟨hinv.apart, fun n d i f page σ' hstep hm => hinv.readBack hstep hm⟩

/-- The small machine with one page of process 1 in frame 3 and one of process 2 in frame 4. -/
def twoPages : Option Kernel :=
  (kmalloc 5 8 smallMachineProcs).state?.bind fun s₁ =>
    if s₁.lastpaddr = 65536 ∧ s₁.firstpaddr = 12288 then
      (vmBootstrap 5 s₁).state?.bind fun s₂ => (allocPages 5 0x400000 true s₂).state?.bind fun s₃ =>
        (allocPages 5 0x400000 true { s₃ with curproc := 2 }).state?
    else none

theorem twoPages_reaches {s : Kernel} (h : twoPages = some s) :
    ∃ B, Reaches Step (Booted 65536 12288) ⟨B, [], s⟩ := by
  unfold twoPages at h
  obtain ⟨s₁, hs₁, h⟩ := Option.bind_eq_some_iff.mp h
  obtain ⟨b, hmalloc⟩ := exists_of_state? hs₁
  rw [Option.ite_none_right_eq_some] at h
  obtain ⟨hsize, h⟩ := h
  obtain ⟨s₂, hs₂, h⟩ := Option.bind_eq_some_iff.mp h
  obtain ⟨s₃, hs₃, h⟩ := Option.bind_eq_some_iff.mp h
  have hbooted := booted_of_kmalloc smallMachineProcs_powerOn hmalloc (by decide) hsize.1 hsize.2
    (by decide) (state?_eq_some.mp hs₂)
  have hfirst := Reaches.next (.start hbooted) (Step.allocPages (state?_eq_some.mp hs₃))
  have hswitched : Step ⟨if b = 0 then [] else [b], [], s₃⟩ .other
      ⟨if b = 0 then [] else [b], [], { s₃ with curproc := 2 }⟩ := .other rfl
  exact ⟨_, .next (.next hfirst hswitched) (Step.allocPages (state?_eq_some.mp h))⟩

/-- Nobody has started to swap. -/
def SwapSystem.quiet (s : Kernel) : SwapSystem :=
  ⟨{ s with sfList := fun i => ⟨0, 0, i, false⟩ }, [], fun _ => ⟨0, 0, fun _ => 0⟩⟩

theorem twoPages_start {s : Kernel} (h : twoPages = some s) : (SwapSystem.quiet s).Start := by
  obtain ⟨B, hreach⟩ := twoPages_reaches h
  obtain ⟨hinv, hs, -⟩ := reaches_inv hreach
  have hsame : SameOwners s (SwapSystem.quiet s).kernel := rfl
  exact ⟨hs, ⟨_, hsame.heapInv hinv.heap⟩, fun _ _ => rfl, rfl, fun _ _ hused => absurd ⟨rfl, rfl⟩ hused⟩

/-- Process 1 swaps its page out, then process 2, then process 1 starts to swap its page in. -/
theorem swap_slots_apart_in_turn : ∃ σ₀ σ σ' : SwapSystem, σ₀.Start ∧
    Reaches (Guarded (StepOf SwapSystem.step) SwapSystem.Meets) (· = σ₀) σ ∧
    σ.step (.swapIn 1 5 (pageOf 0x400000)) = some σ' ∧ (1, .reading 0 4) ∈ σ'.flight ∧
    σ.Apart ∧ (σ.saved 0).number = pageOf 0x400000 ∧ frameBytes σ'.kernel.ram 4 = (σ.saved 0).bytes := by
  have hrun : (twoPages.bind fun s =>
      (follow (restrict SwapSystem.step SwapSystem.Meets)
        [.swapOut 1 3, .finish 1 5, .swapOut 2 4, .finish 2 5] (.quiet s)).bind fun σ =>
          (σ.step (.swapIn 1 5 (pageOf 0x400000))).bind fun σ' =>
            match σ'.flight with
            | [(1, .reading 0 4)] => some σ'
            | _ => none).isSome = true := by decide +kernel
  obtain ⟨σ', hσ'⟩ := Option.isSome_iff_exists.mp hrun
  obtain ⟨s, hs, hrest⟩ := Option.bind_eq_some_iff.mp hσ'
  obtain ⟨σ, hfollow, hrest⟩ := Option.bind_eq_some_iff.mp hrest
  obtain ⟨τ, hstep, hrest⟩ := Option.bind_eq_some_iff.mp hrest
  have hstart := twoPages_start hs
  have hreach : Reaches (Guarded (StepOf SwapSystem.step) SwapSystem.Meets) (· = SwapSystem.quiet s) σ := by
    rw [← stepOf_restrict]
    exact .of_follow _ (.start rfl) hfollow
  have hflight : (1, SwapPart.reading 0 4) ∈ τ.flight := by
    split at hrest
    · next hlist =>
      rw [hlist]
      exact List.mem_singleton.mpr rfl
    · exact nomatch hrest
  obtain ⟨hapart, hback⟩ := swap_slots_apart hstart hreach
  obtain ⟨-, hnumber, hbytes⟩ := hback 1 5 0 4 _ τ hstep hflight
  exact ⟨_, σ, τ, hstart, hreach, hstep, hflight, hapart, hnumber, hbytes⟩

/-- Processes 1 and 2 start to swap out before either has recorded its slot: both write to slot 0.  When both are done
the page of process 1 is in no slot and in no frame. -/
theorem swap_slots_shared : ∃ σ₀ σ σ' : SwapSystem, σ₀.Start ∧
    Reaches (StepOf SwapSystem.step) (· = σ₀) σ ∧ ¬ σ.Apart ∧
    Reaches (StepOf SwapSystem.step) (· = σ) σ' ∧
    (∃ f < σ.kernel.pagetableEntry, σ.kernel.Valid f ∧ (σ.kernel.mainPG f).pid = 1) ∧
    (∀ i < swapfileSize, (σ'.kernel.sfList i).pid ≠ 1) ∧
    ∀ f < σ'.kernel.pagetableEntry, σ'.kernel.Valid f → (σ'.kernel.mainPG f).pid ≠ 1 := by
  have hrun : (twoPages.bind fun s =>
      (follow SwapSystem.step [.swapOut 1 3, .swapOut 2 4] (.quiet s)).bind fun σ =>
        match σ.flight with
        | [(2, .writing _ 0 _), (1, .writing _ 0 _)] =>
          (follow SwapSystem.step [.finish 1 5, .finish 2 5] σ).bind fun σ' =>
            if (∃ f < σ.kernel.pagetableEntry, σ.kernel.Valid f ∧ (σ.kernel.mainPG f).pid = 1) ∧
              (∀ i < swapfileSize, (σ'.kernel.sfList i).pid ≠ 1) ∧
              ∀ f < σ'.kernel.pagetableEntry, σ'.kernel.Valid f → (σ'.kernel.mainPG f).pid ≠ 1 then some σ'
            else none
        | _ => none).isSome = true := by decide +kernel
  obtain ⟨σ', hσ'⟩ := Option.isSome_iff_exists.mp hrun
  obtain ⟨s, hs, hrest⟩ := Option.bind_eq_some_iff.mp hσ'
  obtain ⟨σ, hfollow, hrest⟩ := Option.bind_eq_some_iff.mp hrest
  have hreach : Reaches (StepOf SwapSystem.step) (· = SwapSystem.quiet s) σ := .of_follow _ (.start rfl) hfollow
  split at hrest
  · next f p g q hlist =>
    obtain ⟨σ', hfinish, hrest⟩ := Option.bind_eq_some_iff.mp hrest
    rw [Option.ite_none_right_eq_some] at hrest
    obtain ⟨⟨hpage, hslots, hframes⟩, -⟩ := hrest
    refine ⟨_, σ, σ', twoPages_start hs, hreach, fun hapart => ?_, .of_follow _ (.start rfl) hfinish, hpage,
      hslots, hframes⟩
    have hsame := hapart.stored 2 1 f g 0 p q (by rw [hlist]; exact List.mem_cons_self)
      (by rw [hlist]; exact List.mem_cons_of_mem _ (List.mem_singleton.mpr rfl))
    exact absurd hsame (by decide)
  · exact nomatch hrest

end Os161Kernel
