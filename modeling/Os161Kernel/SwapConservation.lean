import Os161Kernel.FrameAccounting
import Os161Kernel.Lib.Relocate

/-!
# Swapping loses nothing

A user page is held in a frame, by its row in the page table, or in a slot of the swap file.  `swapOut` moves
the page of a frame to the lowest free slot and `swapIn` moves the page of a slot to a new frame.  Frames
and slots are reused in any order along a run; what carries the proof is that each call moves one page
between two places and touches no other (`Relocate.Moved`), however deep the allocator recurses underneath.

The file system is assumed to succeed, and the heap to be consistent at the start.
-/

namespace Os161Kernel

open StateProg Search Memory Runs Relocate Function Kernel

/-! ### Places -/

/-- Where a page can be. -/
inductive Place where
  | frame (f : ℕ)
  | slot (i : ℕ)
deriving DecidableEq

namespace Kernel

/-- The place holds page `p` of process `pid`. -/
def HoldsIn (s : Kernel) (pid : UInt8) (p : PageNo) : Place → Prop
  | .frame f => f < s.pagetableEntry ∧ s.Valid f ∧ (s.mainPG f).pid = pid ∧ (s.mainPG f).pageNumber = p
  | .slot i => i < swapfileSize ∧ ¬ (s.sfList i).Free ∧ (s.sfList i).pid = pid ∧ (s.sfList i).number = p

/-- The bytes and the dirty bit at a place. -/
def copyAt (s : Kernel) : Place → (Fin 4096 → UInt8) × Bool
  | .frame f => (frameBytes s.ram f, (s.mainPG f).dirty)
  | .slot i => (fun k => s.swapfile (s.slotOffset i + k), (s.sfList i).dirty)

/-- The user pages, by place, owner and page number, and contents. -/
def userPages (s : Kernel) (pl : Place) (page : UInt8 × PageNo) (copy : (Fin 4096 → UInt8) × Bool) : Prop :=
  page.1 ≠ 0 ∧ s.HoldsIn page.1 page.2 pl ∧ s.copyAt pl = copy

end Kernel

/-! ### Runs -/

inductive SwapOp where
  | swapOut (d f : ℕ)
  | swapIn (d index : ℕ)

/-- `swapOut` of a frame that holds a user page, `swapIn` of an occupied slot; a call that stops is no step. -/
def swapStep (s : Kernel) : SwapOp → Option Kernel
  | .swapOut d f => if f < s.pagetableEntry ∧ s.User f then (swapOut d (kvaddr f) s).state? else none
  | .swapIn d index =>
    if index < swapfileSize ∧ ¬ (s.sfList index).Free then (swapIn d index s).state? else none

/-- A state to start from: slot `i` stands at page `i` of the swap file, the file system does not fail, the heap
is consistent and every user page is in at most one place. -/
structure SwapReady (s : Kernel) : Prop where
  started : s.vmStarted = true
  offset : ∀ i < swapfileSize, (s.sfList i).offset = i
  io : ∀ n, s.ioResult n = 0
  heap : ∃ L, HeapInv L [] s
  unique : Unique s.userPages

/-! ### What the two calls do -/

/-- The user frames other than `f` are the same, with the same rows and bytes. -/
structure KeepsUsersBut (f : ℕ) (s s' : Kernel) : Prop where
  entries : s'.pagetableEntry = s.pagetableEntry
  back : ∀ g, g ≠ f → s'.User g → s.User g
  row : ∀ g, g ≠ f → g < s.pagetableEntry → s.User g → s'.mainPG g = s.mainPG g
  bytes : ∀ g, g ≠ f → g < s.pagetableEntry → s.User g → frameBytes s'.ram g = frameBytes s.ram g

/-- The page of frame `f` went to slot `index`. -/
structure SwappedOut (index f : ℕ) (s s' : Kernel) : Prop where
  others : KeepsUsersBut f s s'
  gone : ¬ s'.User f
  slot : s'.sfList = update s.sfList index { s.sfList index with
    number := (s.mainPG f).pageNumber, pid := (s.mainPG f).pid, dirty := (s.mainPG f).dirty }
  file : s'.swapfile =
    overlay s.swapfile (s.slotOffset index) pageSize fun k => s.ram (f * pageSize + k)

/-- The page of slot `index` went to frame `f`. -/
structure SwappedIn (index f : ℕ) (s s' : Kernel) : Prop where
  others : KeepsUsersBut f s s'
  lt : f < s.pagetableEntry
  new : ¬ s.User f
  valid : s'.Valid f
  number : (s'.mainPG f).pageNumber = (s.sfList index).number
  pid : (s'.mainPG f).pid = (s.sfList index).pid
  dirty : (s'.mainPG f).dirty = (s.sfList index).dirty
  bytes : ∀ i, frameBytes s'.ram f i = s.swapfile (s.slotOffset index + i)
  slot : s'.sfList = update s.sfList index { s.sfList index with
    number := 0, pid := 0, dirty := false }
  file : s'.swapfile = s.swapfile

section Effects

variable {s s' : Kernel} {d : ℕ} {L : List ℕ}

theorem swapOut_sound {f : ℕ} (h : HeapInv L [] s) (hs : s.vmStarted = true) (hlt : f < s.pagetableEntry)
    (hu : s.User f) (hrun : swapOut d (kvaddr f) s = .ok 0 s') :
    HeapInv L [] s' ∧ s'.vmStarted = true ∧ s'.ioResult = s.ioResult ∧ s'.ioCount = s.ioCount + 2 ∧
      ∃ index, s.sfFreeSearch = some index ∧ SwappedOut index f s s' := by
  obtain ⟨index, hfound, -, ⟨hone, -⟩ | ⟨-, -, hfree⟩⟩ := swapOut_ok hrun
  · exact nomatch hone
  have hf17 : f ≤ 2 ^ 17 := Nat.le_of_lt (Nat.lt_of_lt_of_le hlt s.pagetableEntry_le)
  rw [frameIndex_kvaddr_self hf17] at hfree
  set t := ((s.calls 2).writeSlot index f).enterSlot index f
  have hheap : HeapInv L [] t := (s.stored_sameOwners index f).heapInv h
  obtain ⟨hcalm, hL⟩ := hheap.user_calm hs hlt hu
  obtain ⟨hinv, hquiet⟩ := (allocator_sound d).free hheap hL hcalm hfree
  have honly : AllocOnly t s' := (freeKpages_moves d _ _ _ _ hfree).allocOnly
  have huser : ∀ g, s'.User g → s.User g ∧ g ≠ f := fun g hg => by
    obtain ⟨hu', hne⟩ := freed_user (hquiet.user g hg)
    exact ⟨hu', hne hs⟩
  have hothers : ∀ g, g ≠ f → g < s.pagetableEntry → s.User g → (t.freed f).Calm g := fun g hg hlt' hu' =>
    (freed_calm_iff hg).mpr (hheap.user_calm hs hlt' hu').1
  refine ⟨hinv, by rw [honly]; exact hs, by rw [honly]; rfl, by rw [honly]; rfl, index, hfound,
    ⟨by rw [honly]; rfl, fun g _ hg => (huser g hg).1, fun g hg hlt' hu' => ?_, fun g hg hlt' hu' => ?_⟩,
    fun hg => (huser f hg).2 rfl, by rw [honly]; rfl, by rw [honly]; rfl⟩
  · rw [hquiet.row g (Set.notMem_empty g) (hothers g hg hlt' hu'), freed_mainPG hg]
    rfl
  · rw [hquiet.bytes g (Set.notMem_empty g) (hothers g hg hlt' hu'), freed_bytes hg]
    rfl

theorem swapIn_sound {index : ℕ} (h : HeapInv L [] s) (hs : s.vmStarted = true)
    (hrun : swapIn d index s = .ok 0 s') :
    HeapInv L [] s' ∧ s'.vmStarted = true ∧ s'.ioResult = s.ioResult ∧ ∃ f, SwappedIn index f s s' := by
  obtain ⟨a, t, t₁, t₂, halloc, ha, hpt, htlb, hcases⟩ := swapIn_ok hrun
  obtain ⟨f, -, hindex, hlt, hnew, hquiet, hcalm, -, hinv, ht₁⟩ := mapFrame_sound h hs halloc ha hpt
  have htlb' : SameButTlb t₁ t₂ := addTLB_within _ _ _ _ _ htlb
  have hsf : t.sfList = s.sfList := by rw [hquiet.same]
  have hfile : t.swapfile = s.swapfile := by rw [hquiet.same]
  have hio₂ : t₂.ioResult = s.ioResult := by
    rw [htlb', ht₁]
    show t.ioResult = _
    rw [hquiet.same]
  rcases hcases with ⟨hone, -⟩ | ⟨-, -, hs'⟩
  · exact nomatch hone
  rw [hindex] at hs'
  -- the row is written before the page is read, and nothing touches it in between
  have hrow : s'.mainPG = update t.mainPG f { t.mainPG f with
      pageNumber := (s.sfList index).number, valid := true, pid := (s.sfList index).pid
      dirty := (s.sfList index).dirty } := by
    rw [hs']
    show t₂.mainPG = _
    rw [htlb', ht₁, hsf, pageOf_pageAddr]
    rfl
  have hself : s'.mainPG f = { t.mainPG f with
      pageNumber := (s.sfList index).number, valid := true, pid := (s.sfList index).pid
      dirty := (s.sfList index).dirty } := by
    rw [hrow, update_self]
  have hother : ∀ g, g ≠ f → s'.mainPG g = t.mainPG g := fun g hg => by
    rw [hrow, update_of_ne hg]
  have hram : s'.ram = overlay t.ram (f * pageSize) pageSize
      fun k => s.swapfile (s.slotOffset index + k) := by
    rw [hs']
    show overlay t₂.ram _ _ (fun k => t₂.swapfile ((t₂.sfList index).offset * pageSize % 2 ^ 32 + k)) = _
    rw [htlb', ht₁]
    show overlay t.ram _ _ (fun k => t.swapfile ((t.sfList index).offset * pageSize % 2 ^ 32 + k)) = _
    rw [hsf, hfile]
    rfl
  have hcalmOf : ∀ g, g < s.pagetableEntry → s.User g → s.Calm g := fun g hg hu => (h.user_calm hs hg hu).1
  refine ⟨?_, ?_, by rw [hs']; exact hio₂, f, ⟨?_, fun g hg hu => ?_, fun g hg hlt' hu => ?_,
    fun g hg hlt' hu => ?_⟩, hlt, fun hu => hnew (hcalmOf f hlt hu), ?_, by rw [hself], by rw [hself],
    by rw [hself], fun i => ?_, ?_, ?_⟩
  · rw [hs']
    exact (t₂.fetched_sameOwners index f).heapInv (htlb'.sameOwners.heapInv hinv)
  · rw [hs']
    show t₂.vmStarted = true
    rw [htlb', ht₁]
    exact hquiet.vmStarted.trans hs
  · rw [hs']
    show t₂.pagetableEntry = _
    rw [htlb', ht₁]
    exact hquiet.pagetableEntry
  · refine hquiet.user g ?_
    unfold User Valid at hu ⊢
    rw [hother g hg] at hu
    exact hu
  · rw [hother g hg, hquiet.row g hg (hcalmOf g hlt' hu)]
  · rw [hram, frameBytes_overlay_of_ne hg (Nat.le_refl _) (by rw [Nat.succ_mul]),
      hquiet.bytes g hg (hcalmOf g hlt' hu)]
  · unfold Valid
    rw [hself]
  · rw [hram]
    exact overlay_at (show (i : ℕ) < pageSize from i.isLt)
  · rw [hs']
    show update t₂.sfList index { t₂.sfList index with number := 0, pid := 0, dirty := false } = _
    rw [htlb', ht₁]
    show update t.sfList index { t.sfList index with number := 0, pid := 0, dirty := false } = _
    rw [hsf]
  · rw [hs']
    show t₂.swapfile = _
    rw [htlb', ht₁]
    exact hfile

end Effects

/-! ### One page moves -/

section Places

variable {s s' : Kernel} {f index : ℕ}

theorem KeepsUsersBut.frame_iff {g : ℕ} (h : KeepsUsersBut f s s') (hg : g ≠ f) (k : UInt8 × PageNo)
    (v : (Fin 4096 → UInt8) × Bool) : s'.userPages (.frame g) k v ↔ s.userPages (.frame g) k v := by
  -- held before or after, the frame is a user's before
  have key : g < s.pagetableEntry → s.User g →
      (s'.userPages (.frame g) k v ↔ s.userPages (.frame g) k v) := by
    intro hlt hu
    simp only [userPages, HoldsIn, copyAt, Valid, h.entries, h.row g hg hlt hu,
      h.bytes g hg hlt hu]
  constructor
  · intro hp
    have hu : s'.User g := ⟨hp.2.1.2.1, by rw [hp.2.1.2.2.1]; exact hp.1⟩
    exact (key (h.entries ▸ hp.2.1.1) (h.back g hg hu)).mp hp
  · intro hp
    have hu : s.User g := ⟨hp.2.1.2.1, by rw [hp.2.1.2.2.1]; exact hp.1⟩
    exact (key hp.2.1.1 hu).mpr hp

theorem not_userPages_frame {g : ℕ} (hg : ¬ s.User g) (k : UInt8 × PageNo)
    (v : (Fin 4096 → UInt8) × Bool) : ¬ s.userPages (.frame g) k v :=
  fun h => hg ⟨h.2.1.2.1, by rw [h.2.1.2.2.1]; exact h.1⟩

theorem not_userPages_free (hfree : (s.sfList index).Free) (k : UInt8 × PageNo)
    (v : (Fin 4096 → UInt8) × Bool) : ¬ s.userPages (.slot index) k v :=
  fun h => h.2.1.2.1 hfree

theorem userPages_slot_iff {j : ℕ} (hslot : s'.sfList j = s.sfList j)
    (hbytes : j < swapfileSize → ∀ i : Fin 4096,
      s'.swapfile (s.slotOffset j + i) = s.swapfile (s.slotOffset j + i))
    (k : UInt8 × PageNo) (v : (Fin 4096 → UInt8) × Bool) :
    s'.userPages (.slot j) k v ↔ s.userPages (.slot j) k v := by
  have hcopy : j < swapfileSize → s'.copyAt (.slot j) = s.copyAt (.slot j) := by
    intro hj
    simp only [copyAt, slotOffset, hslot]
    exact congrArg (·, (s.sfList j).dirty) (funext (hbytes hj))
  simp only [userPages, HoldsIn, hslot]
  constructor
  · rintro ⟨hk, hold, hv⟩
    exact ⟨hk, hold, (hcopy hold.1).symm.trans hv⟩
  · rintro ⟨hk, hold, hv⟩
    exact ⟨hk, hold, (hcopy hold.1).trans hv⟩

theorem SwappedOut.moved (h : SwappedOut index f s s')
    (hoffset : ∀ i < swapfileSize, s.slotOffset i = i * pageSize) (hindex : index < swapfileSize)
    (hfree : (s.sfList index).Free) (hlt : f < s.pagetableEntry) (hu : s.User f) :
    Moved s.userPages s'.userPages (.frame f) (.slot index) where
  rest pl hplf hpli := by
    cases pl with
    | frame g => exact h.others.frame_iff fun heq => hplf (heq ▸ rfl)
    | slot j =>
      have hj : j ≠ index := fun heq => hpli (heq ▸ rfl)
      refine userPages_slot_iff (by rw [h.slot, update_of_ne hj]) fun hjlt i => ?_
      rw [h.file, hoffset j hjlt, hoffset index hindex]
      exact overlay_outside (slot_apart hj i.isLt)
  arrived k v := by
    have hslot : s'.sfList index = { s.sfList index with
        number := (s.mainPG f).pageNumber, pid := (s.mainPG f).pid, dirty := (s.mainPG f).dirty } := by
      rw [h.slot, update_self]
    have hcopy : s'.copyAt (.slot index) = s.copyAt (.frame f) := by
      simp only [copyAt, slotOffset, hslot, h.file]
      exact congrArg (·, (s.mainPG f).dirty) (funext fun i => overlay_at (show (i : ℕ) < pageSize from i.isLt))
    have hnotfree : ¬ (s'.sfList index).Free := by
      rw [hslot]
      exact fun hfr => hu.2 hfr.2
    unfold userPages
    rw [hcopy]
    refine and_congr_right fun _ => and_congr_left fun _ => ?_
    simp only [HoldsIn, hnotfree, not_false_eq_true, hlt, hu.1, hindex, true_and]
    rw [hslot]
  left := not_userPages_frame h.gone
  free := not_userPages_free hfree

theorem SwappedIn.moved (h : SwappedIn index f s s') (hindex : index < swapfileSize)
    (hocc : ¬ (s.sfList index).Free) : Moved s.userPages s'.userPages (.slot index) (.frame f) where
  rest pl hpli hplf := by
    cases pl with
    | frame g => exact h.others.frame_iff fun heq => hplf (heq ▸ rfl)
    | slot j =>
      have hj : j ≠ index := fun heq => hpli (heq ▸ rfl)
      exact userPages_slot_iff (by rw [h.slot, update_of_ne hj]) fun _ i => by rw [h.file]
  arrived k v := by
    have hcopy : s'.copyAt (.frame f) = s.copyAt (.slot index) := by
      simp only [copyAt, h.dirty]
      exact congrArg (·, (s.sfList index).dirty) (funext h.bytes)
    unfold userPages
    rw [hcopy]
    refine and_congr_right fun _ => and_congr_left fun _ => ?_
    simp only [HoldsIn, h.others.entries, h.lt, h.valid, h.pid, h.number, hindex, hocc,
      not_false_eq_true, true_and]
  left := by
    refine not_userPages_free ?_
    rw [h.slot, update_self]
    exact ⟨rfl, rfl⟩
  free := not_userPages_frame h.new

end Places

/-! ### Runs keep every page -/

theorem SwapReady.slotOffset {s : Kernel} (h : SwapReady s) {i : ℕ} (hi : i < swapfileSize) :
    s.slotOffset i = i * pageSize := slotOffset_eq (h.offset i hi) hi

theorem SwapReady.step {s s' : Kernel} {op : SwapOp} (h : SwapReady s) (hstep : swapStep s op = some s') :
    SwapReady s' ∧ SameItems s.userPages s'.userPages := by
  obtain ⟨L, hheap⟩ := h.heap
  cases op with
  | swapOut d f =>
    simp only [swapStep] at hstep
    split at hstep
    · next hf =>
      obtain ⟨r, hrun⟩ := exists_of_state? hstep
      obtain rfl := (swapOut_zero_iff hrun).mpr (h.io _)
      obtain ⟨hinv, hs, hio, -, index, hfound, heff⟩ := swapOut_sound hheap h.started hf.1 hf.2 hrun
      have hindex : index < swapfileSize := lt_of_firstBelow hfound
      have hmoved := heff.moved (fun i hi => h.slotOffset hi) hindex (prop_of_firstBelow hfound) hf.1 hf.2
      refine ⟨⟨hs, fun i hi => ?_, fun n => hio ▸ h.io n, ⟨L, hinv⟩, hmoved.unique h.unique⟩,
        hmoved.sameItems⟩
      rw [heff.slot]
      by_cases hi' : i = index
      · rw [hi', update_self]
        exact h.offset index hindex
      · rw [update_of_ne hi']
        exact h.offset i hi
    · exact nomatch hstep
  | swapIn d index =>
    simp only [swapStep] at hstep
    split at hstep
    · next hocc =>
      obtain ⟨r, hrun⟩ := exists_of_state? hstep
      obtain rfl := (swapIn_zero_iff hrun).mpr (h.io _)
      obtain ⟨hinv, hs, hio, f, heff⟩ := swapIn_sound hheap h.started hrun
      have hmoved := heff.moved hocc.1 hocc.2
      refine ⟨⟨hs, fun i hi => ?_, fun n => hio ▸ h.io n, ⟨L, hinv⟩, hmoved.unique h.unique⟩,
        hmoved.sameItems⟩
      rw [heff.slot]
      by_cases hi' : i = index
      · rw [hi', update_self]
        exact h.offset index hocc.1
      · rw [update_of_ne hi']
        exact h.offset i hi
    · exact nomatch hstep

/-- **Swapping loses nothing.**  Along every run from a ready state, a user page that was held somewhere is held
in exactly one place, with the bytes and the dirty bit it had, and no other user page is held. -/
theorem swapping_conserves {s₀ s : Kernel} (hready : SwapReady s₀)
    (h : Reaches (StepOf swapStep) (· = s₀) s) {pid : UInt8} (hpid : pid ≠ 0) (p : PageNo) :
    ((∃ pl, s₀.HoldsIn pid p pl) → ∃! pl, s.HoldsIn pid p pl) ∧
    (∀ pl₀ pl, s₀.HoldsIn pid p pl₀ → s.HoldsIn pid p pl → s.copyAt pl = s₀.copyAt pl₀) ∧
    ((∃ pl, s.HoldsIn pid p pl) → ∃ pl₀, s₀.HoldsIn pid p pl₀) := by
  have hkey : SwapReady s ∧ SameItems s₀.userPages s.userPages := by
    refine h.invariant (P := fun s => SwapReady s ∧ SameItems s₀.userPages s.userPages) ?_ ?_
    · rintro s rfl
      exact ⟨hready, .refl _⟩
    · rintro s op s' ⟨hr, hsame⟩ hstep
      obtain ⟨hr', hsame'⟩ := hr.step hstep
      exact ⟨hr', hsame.trans hsame'⟩
  obtain ⟨hr, hsame⟩ := hkey
  have huniq : ∀ {t : Kernel}, SwapReady t → ∀ pl pl', t.HoldsIn pid p pl → t.HoldsIn pid p pl' → pl = pl' :=
    fun ht pl pl' h₁ h₂ => ht.unique (k := (pid, p)) ⟨hpid, h₁, rfl⟩ ⟨hpid, h₂, rfl⟩
  refine ⟨?_, fun pl₀ pl h₀ h₁ => ?_, ?_⟩
  · rintro ⟨pl₀, h₀⟩
    obtain ⟨pl, -, hpl, -⟩ := (hsame (pid, p) _).mpr ⟨pl₀, hpid, h₀, rfl⟩
    exact ⟨pl, hpl, fun pl' hpl' => huniq hr pl' pl hpl' hpl⟩
  · obtain ⟨pl', -, hpl', hcopy⟩ := (hsame (pid, p) _).mp ⟨pl, hpid, h₁, rfl⟩
    rw [← hcopy, huniq hready pl₀ pl' h₀ hpl']
  · rintro ⟨pl, hpl⟩
    obtain ⟨pl₀, -, hpl₀, -⟩ := (hsame (pid, p) _).mp ⟨pl, hpid, hpl, rfl⟩
    exact ⟨pl₀, hpl₀⟩

/-- The small machine with process 1 running. -/
def smallMachineUser : Kernel := { smallMachine with procs := fun _ => ⟨1, none, ⟨0, fun _ => 0⟩⟩ }

/-- The swap file working and empty. -/
def Kernel.withSwap (s : Kernel) : Kernel :=
  { s with ioResult := fun _ => 0, sfList := fun i => ⟨0, 0, i, false⟩ }

/-- Frame 3 is the only user frame and holds page 0x400 of process 1. -/
def Kernel.OnePage (s : Kernel) : Prop :=
  s.pagetableEntry = 16 ∧ (∀ f < 16, s.User f → f = 3) ∧ s.HoldsIn 1 (pageOf 0x400000) (.frame 3)

instance (s : Kernel) : Decidable s.OnePage :=
  inferInstanceAs (Decidable (_ ∧ _ ∧ _ < _ ∧ s.Valid 3 ∧ _ = _ ∧ _ = _))

theorem Kernel.OnePage.ready {s : Kernel} {L : List ℕ} (h : s.OnePage) (hs : s.vmStarted = true)
    (hheap : HeapInv L [] s) : SwapReady s.withSwap where
  started := hs
  offset _ _ := rfl
  io _ := rfl
  heap := ⟨L, hheap.early, hheap.ok⟩
  unique := by
    -- a place that holds a user page is frame 3
    have hframe : ∀ {pl k v}, s.withSwap.userPages pl k v → pl = .frame 3 := by
      intro pl k v hp
      cases pl with
      | frame f =>
        have hlt : f < s.pagetableEntry := hp.2.1.1
        have hu : s.User f := ⟨hp.2.1.2.1, fun h0 => hp.1 (hp.2.1.2.2.1.symm.trans h0)⟩
        rw [h.2.1 f (h.1 ▸ hlt) hu]
      | slot i => exact absurd ⟨rfl, rfl⟩ hp.2.1.2.1
    intro pl pl' k v w hp hp'
    rw [hframe hp, hframe hp']

/-- Process 1 gets a page, the page is swapped out and back in. -/
theorem swapping_conserves_round_trip : ∃ s₀ s : Kernel, SwapReady s₀ ∧
    Reaches (StepOf swapStep) (· = s₀) s ∧ (∃ pl, s₀.HoldsIn 1 (pageOf 0x400000) pl) ∧
    ∃! pl, s.HoldsIn 1 (pageOf 0x400000) pl := by
  have hrun : ∃ a s₁, kmalloc 5 8 smallMachineUser = .ok a s₁ ∧ s₁.lastpaddr = 65536 ∧ s₁.firstpaddr = 12288 ∧
      ∃ u s₂, vmBootstrap 5 s₁ = .ok u s₂ ∧ ∃ v s₃, allocPages 5 0x400000 true s₂ = .ok v s₃ ∧ s₃.OnePage ∧
        ∃ s ∈ follow swapStep [.swapOut 5 3, .swapIn 5 0] s₃.withSwap, True := by decide +kernel
  obtain ⟨a, s₁, hmalloc, hlast, hfirst, _, s₂, hboot, _, s₃, halloc, hone, s, hfollow, -⟩ := hrun
  have hpower : PowerOn smallMachineUser :=
    ⟨rfl, rfl, rfl, rfl, rfl, fun _ => rfl, fun _ => rfl, rfl, rfl, by decide⟩
  have hbooted := Client.booted_of_kmalloc hpower hmalloc (by decide) hlast hfirst (by decide) hboot
  obtain ⟨hinv, hstarted, -, -⟩ := Client.reaches_inv (.next (.start hbooted) (Client.Step.allocPages halloc))
  have hready := hone.ready hstarted hinv.heap
  have hreach : Reaches (StepOf swapStep) (· = s₃.withSwap) s := .of_follow _ (.start rfl) hfollow
  have hheld : ∃ pl, s₃.withSwap.HoldsIn 1 (pageOf 0x400000) pl := ⟨.frame 3, hone.2.2⟩
  exact ⟨_, s, hready, hreach, hheld, (swapping_conserves hready hreach (by decide) _).1 hheld⟩

end Os161Kernel
