import Os161Kernel.HeapInvariant
import Os161Kernel.Addrspace

/-!
# Frames above the allocator

`alloc_pages`, `swapIn` and `swapOut` combine the allocator with the page table: a frame is taken and its row
filled in, or a row's page is written out and its frame given up.  For each there is one inversion lemma and
one lemma on the heap: the frame that gets a row was in no use before (`mapFrame_sound`), and every other
frame in use outside the heap keeps its row and its bytes.
-/

namespace Os161Kernel

open StateProg Search Memory Function Kernel

/-! ### Edits of other tables -/

/-- The two states differ in memory contents, the TLB, the swap file, the device buffer and the processes: who owns
which frame is the same. -/
def SameOwners (s s' : Kernel) : Prop :=
  s' = { s with
    ram := s'.ram
    tlb := s'.tlb
    freeTLBEntries := s'.freeTLBEntries
    nextVictim := s'.nextVictim
    tlbPid := s'.tlbPid
    sfList := s'.sfList
    swapfile := s'.swapfile
    procs := s'.procs
    curproc := s'.curproc
    ioCount := s'.ioCount
    iobuf := s'.iobuf
    badfaultfunc := s'.badfaultfunc
    stats := s'.stats }

instance : Std.Refl SameOwners := ⟨fun _ => rfl⟩

instance : IsTrans Kernel SameOwners where
  trans s t u hst htu := by
    unfold SameOwners at *
    rw [htu, hst]

theorem SameButTlb.sameOwners {s s' : Kernel} (h : SameButTlb s s') : SameOwners s s' := by
  unfold SameOwners
  rw [h]

section

variable {L : List ℕ} {V : List (ℕ × ℕ)} {s s' : Kernel}

theorem SameOwners.heapInv (hs : SameOwners s s') (h : HeapInv L V s) : HeapInv L V s' := by
  rw [hs]
  exact ⟨h.early, h.ok⟩

variable {f g : ℕ} {e : InvertedPT}

theorem SameOwners.calm_iff (hs : SameOwners s s') : s'.Calm f ↔ s.Calm f := by
  rw [hs]
  exact ⟨fun hc => ⟨hc.busy, hc.page, hc.root⟩, fun hc => ⟨hc.busy, hc.page, hc.root⟩⟩

/-! ### Rows -/

theorem Kernel.setRow_valid_iff (hf : s.Valid f) (he : e.valid = true) :
    (s.setRow f e).Valid g ↔ s.Valid g := by
  show (update s.mainPG f e g).valid = true ↔ _
  by_cases hg : g = f
  · rw [hg, update_self]
    exact ⟨fun _ => hf, fun _ => he⟩
  · rw [update_of_ne hg]
    rfl

theorem Kernel.setRow_calm_iff (hs : s.vmStarted = true) (hf : s.Valid f)
    (he : e.valid = true) : (s.setRow f e).Calm g ↔ s.Calm g := by
  have hbusy : (s.setRow f e).Busy g ↔ s.Busy g := by
    rw [busy_iff (s := s.setRow f e) hs, busy_iff hs, setRow_valid_iff hf he]
    rfl
  exact ⟨fun hc => ⟨hbusy.mp hc.busy, hc.page, hc.root⟩, fun hc => ⟨hbusy.mpr hc.busy, hc.page, hc.root⟩⟩

theorem HeapInv.setRow (h : HeapInv L V s) (hs : s.vmStarted = true)
    (hc : s.Calm f) (hL : kvaddr f ∉ L) (he : e.valid = true) : HeapInv L V (s.setRow f e) := by
  obtain ⟨hlt, hvalid⟩ := (busy_iff hs).mp hc.busy
  refine ⟨h.early, ?_⟩
  have hother : ∀ g, g ≠ f → ((s.setRow f e).Held g ↔ s.Held g) := by
    intro g hg
    rw [held_iff (s := s.setRow f e) hs, held_iff hs, setRow_valid_iff hvalid he]
    show _ ∧ _ ∧ (update s.mainPG f e g).pid = 0 ↔ _
    rw [update_of_ne hg]
    rfl
  have hself : (s.setRow f e).Held f ↔ e.pid = 0 := by
    rw [held_iff (s := s.setRow f e) hs, setRow_valid_iff hvalid he]
    show _ ∧ _ ∧ (update s.mainPG f e f).pid = 0 ↔ _
    rw [update_self]
    exact ⟨fun hh => hh.2.2, fun hp => ⟨hlt, hvalid, hp⟩⟩
  by_cases hp : e.pid = 0
  · -- the kernel holds the frame
    have hheld : (s.setRow f e).Held = fun g => s.Held g ∨ g = f := by
      funext g
      refine propext ?_
      by_cases hg : g = f
      · rw [hg, hself]
        exact ⟨fun _ => .inr rfl, fun _ => hp⟩
      · rw [hother g hg]
        exact ⟨.inl, fun hor => hor.resolve_right hg⟩
    show HeapView.Ok L V { s.heapView with held := (s.setRow f e).Held }
    rw [hheld]
    refine h.ok.grow (fun _ => .inl) ?_
    rintro g (hg | rfl)
    · exact h.ok.held_lt g hg
    · exact Nat.lt_of_lt_of_le hlt s.pagetableEntry_le
  · -- the frame is a user's
    have hheld : (s.setRow f e).Held = fun g => s.Held g ∧ g ≠ f := by
      funext g
      refine propext ?_
      by_cases hg : g = f
      · rw [hg, hself]
        exact ⟨fun h0 => absurd h0 hp, fun hh => absurd rfl hh.2⟩
      · rw [hother g hg]
        exact ⟨fun hh => ⟨hh, hg⟩, fun hh => hh.1⟩
    show HeapView.Ok L V { s.heapView with held := (s.setRow f e).Held }
    rw [hheld]
    exact h.ok.release hc.page hc.root hL

theorem HeapInv.user_calm (h : HeapInv L V s) (hs : s.vmStarted = true)
    (hlt : f < s.pagetableEntry) (hu : s.User f) : s.Calm f ∧ kvaddr f ∉ L := by
  have hheld : ¬ s.Held f := fun hh => hu.2 ((held_iff hs).mp hh).2.2
  refine ⟨⟨(busy_iff hs).mpr ⟨hlt, hu.1⟩, fun hp => ?_, fun hr => hheld (h.ok.root_held f hr).1⟩, ?_⟩
  · obtain ⟨p, hp, hpf⟩ := List.mem_map.mp hp
    exact hheld (hpf ▸ h.ok.page_held p hp)
  · exact fun hL => h.ok.not_live_of_not_held hheld (List.mem_append_right _ hL)

/-- **A frame gets a row.**  `alloc_kpages(1)` followed by `addPT` fills in the row of a frame that was not in
use, with zeroed bytes. -/
theorem mapFrame_sound {d a v : ℕ} {pid : UInt8} {dirty : Bool} {t : Kernel} {u : Unit}
    (h : HeapInv L V s) (hs : s.vmStarted = true) (halloc : allocKpages d 1 s = .ok a t) (ha : a ≠ 0)
    (hpt : addPT (frameIndex a) v pid dirty t = .ok u s') :
    ∃ f, a = kvaddr f ∧ frameIndex a = f ∧ f < s.pagetableEntry ∧ ¬ s.Calm f ∧ QuietBut {f} s t ∧ t.Calm f ∧
      (∀ i, frameBytes t.ram f i = 0) ∧ HeapInv L V s' ∧
      s' = t.setRow f { t.mainPG f with
        pageNumber := pageOf v, valid := true, pid := pid, dirty := dirty } := by
  cases (allocator_sound d).alloc h (fun _ => Nat.one_ne_zero) halloc with
  | none h0 => exact absurd h0 ha
  | frame f X hak hf one new quiet inv live zero =>
    obtain rfl := one rfl
    subst hak
    obtain ⟨hheld, hcalm⟩ := livePage_iff.mp live
    have hs' : t.vmStarted = true := quiet.vmStarted.trans hs
    have hlt : f < t.pagetableEntry := ((busy_iff hs').mp hcalm.busy).1
    have hindex : frameIndex (kvaddr f) = f :=
      frameIndex_kvaddr_self (Nat.le_of_lt (Nat.lt_of_lt_of_le hlt t.pagetableEntry_le))
    rw [hindex] at hpt
    obtain ⟨-, -, hrow⟩ := addPT_ok hpt
    refine ⟨f, rfl, hindex, quiet.pagetableEntry ▸ hlt, new f rfl, quiet, hcalm, zero hs, ?_, hrow⟩
    rw [hrow]
    exact inv.forget.setRow hs' hcalm inv.not_mem_of_cons rfl

end

/-! ### Inversion of the operations -/

/-- The file system was called `n` more times. -/
def Kernel.calls (s : Kernel) (n : ℕ) : Kernel := { s with ioCount := s.ioCount + n }

theorem Kernel.calls_sameOwners (s : Kernel) (n : ℕ) : SameOwners s (s.calls n) := rfl

theorem Kernel.stored_sameOwners (s : Kernel) (index f : ℕ) :
    SameOwners s (((s.calls 2).writeSlot index f).enterSlot index f) := rfl

theorem Kernel.fetched_sameOwners (s : Kernel) (index f : ℕ) :
    SameOwners s (((s.calls 2).readSlot index f).clearSlot index) := rfl

variable {d r address index a : ℕ} {dirty : Bool} {u : Unit} {as : Addrspace}

theorem allocPages_ok {v : ℕ} {s s' : Kernel}
    (h : allocPages d v dirty s = .ok u s') :
    s.vmStarted = true ∧ ∃ a t, allocKpages d 1 s = .ok a t ∧ a ≠ 0 ∧
      addPT (frameIndex a) v s.curPid dirty t = .ok () s' := by
  unfold allocPages at h
  simp only [bind_ok_iff, read_ok_iff, kassert, panicIf, require_ok_iff] at h
  obtain ⟨_, _, ⟨rfl, rfl⟩, _, _, ⟨rfl, rfl⟩, _, _, ⟨hs, rfl⟩, a, t, halloc, _, _, ⟨hne, rfl⟩, hpt⟩ := h
  exact ⟨hs, a, _, halloc, hne, hpt⟩

theorem vfsCall_ok {s s' : Kernel} (h : vfsCall s = .ok r s') :
    r = s.ioResult s.ioCount ∧ s' = s.calls 1 := by
  unfold vfsCall at h
  simp only [bind_ok_iff, read_ok_iff, update_ok_iff, pure_ok_iff] at h
  obtain ⟨_, _, ⟨rfl, rfl⟩, _, _, rfl, rfl, rfl⟩ := h
  exact ⟨rfl, rfl⟩

/-- **What a returning `swapOut` did.**  Either the write failed and nothing changed, or the page went to the
lowest free slot and its frame was given up. -/
theorem swapOut_ok {s s' : Kernel} (h : swapOut d address s = .ok r s') :
    ∃ index, s.sfFreeSearch = some index ∧ frameIndex address < s.pagetableEntry ∧
      ((r = 1 ∧ s.ioResult (s.ioCount + 1) ≠ 0 ∧ s' = s.calls 2) ∨
      (r = 0 ∧ s.ioResult (s.ioCount + 1) = 0 ∧ freeKpages d address (((s.calls 2).writeSlot index
        (frameIndex address)).enterSlot index (frameIndex address)) = .ok () s')) := by
  unfold swapOut at h
  obtain ⟨found, _, hread, hrest⟩ := bind_ok_iff.mp h
  obtain ⟨hfound, rfl⟩ := read_ok_iff.mp hread
  cases found with
  | none => exact (stop_ok_iff.mp hrest).elim
  | some index =>
    simp only [bind_ok_iff, read_ok_iff, panicIf, require_ok_iff] at hrest
    obtain ⟨_, _, hopen, _, _, ⟨-, rfl⟩, _, _, ⟨rfl, rfl⟩, _, _, ⟨hlt, rfl⟩, err, _, hwrite, hrest⟩ := hrest
    obtain ⟨-, rfl⟩ := vfsCall_ok hopen
    obtain ⟨herr, rfl⟩ := vfsCall_ok hwrite
    refine ⟨index, hfound, hlt, ?_⟩
    split at hrest
    · next hne =>
      obtain ⟨rfl, rfl⟩ := pure_ok_iff.mp hrest
      exact .inl ⟨rfl, herr ▸ hne, rfl⟩
    · next hzero =>
      simp only [bind_ok_iff, update_ok_iff, pure_ok_iff] at hrest
      obtain ⟨_, _, rfl, _, _, rfl, _, _, hfree, rfl, rfl⟩ := hrest
      exact .inr ⟨rfl, herr ▸ not_not.mp hzero, hfree⟩

/-- **What a returning `swapIn` did.**  A frame was taken and mapped; then the page was read into it and the slot
cleared, or the read failed and the slot is still taken. -/
theorem swapIn_ok {s s' : Kernel} (h : swapIn d index s = .ok r s') :
    ∃ a t t₁ t₂, allocKpages d 1 s = .ok a t ∧ a ≠ 0 ∧
      addPT (frameIndex a) (pageAddr (t.sfList index).number) (t.sfList index).pid (t.sfList index).dirty t =
        .ok () t₁ ∧
      addTLB (pageAddr (t.sfList index).number) (t.sfList index).pid t₁ = .ok () t₂ ∧
      ((r = 1 ∧ t₂.ioResult (t₂.ioCount + 1) ≠ 0 ∧ s' = t₂.calls 2) ∨
      (r = 0 ∧ t₂.ioResult (t₂.ioCount + 1) = 0 ∧
        s' = ((t₂.calls 2).readSlot index (frameIndex a)).clearSlot index)) := by
  unfold swapIn at h
  simp only [bind_ok_iff, read_ok_iff, panicIf, require_ok_iff] at h
  obtain ⟨a, t, halloc, _, _, ⟨hne, rfl⟩, _, _, ⟨rfl, rfl⟩, _, t₁, hpt, _, t₂, htlb, _, _, hopen, _, _, ⟨-, rfl⟩,
    err, _, hread, hrest⟩ := h
  obtain ⟨-, rfl⟩ := vfsCall_ok hopen
  obtain ⟨herr, rfl⟩ := vfsCall_ok hread
  refine ⟨a, _, t₁, t₂, halloc, hne, hpt, htlb, ?_⟩
  split at hrest
  · next hne' =>
    obtain ⟨rfl, rfl⟩ := pure_ok_iff.mp hrest
    exact .inl ⟨rfl, herr ▸ hne', rfl⟩
  · next hzero =>
    simp only [bind_ok_iff, update_ok_iff, pure_ok_iff] at hrest
    obtain ⟨_, _, rfl, _, _, rfl, rfl, rfl⟩ := hrest
    exact .inr ⟨rfl, herr ▸ not_not.mp hzero, rfl⟩

theorem swapOut_zero_iff {s s' : Kernel} (h : swapOut d address s = .ok r s') :
    r = 0 ↔ s.ioResult (s.ioCount + 1) = 0 := by
  obtain ⟨-, -, -, ⟨rfl, hne, -⟩ | ⟨rfl, hzero, -⟩⟩ := swapOut_ok h
  · exact ⟨nofun, fun h0 => absurd h0 hne⟩
  · exact ⟨fun _ => hzero, fun _ => rfl⟩

theorem allocKpages_ioCount {n : ℕ} {s s' : Kernel} (h : allocKpages d n s = .ok a s') :
    s'.ioCount = s.ioCount ∧ s'.ioResult = s.ioResult := by
  have honly := (allocKpages_moves d n _ _ _ h).allocOnly
  constructor <;> rw [honly]

/-- Mapping a new frame calls no file system. -/
theorem mapped_io {f : ℕ} {pid pid' : UInt8} {s t t₁ t₂ : Kernel}
    (halloc : allocKpages d 1 s = .ok a t) (hpt : addPT f address pid dirty t = .ok () t₁)
    (htlb : addTLB address pid' t₁ = .ok () t₂) (k : ℕ) :
    t₂.ioResult (t₂.ioCount + k) = s.ioResult (s.ioCount + k) := by
  obtain ⟨-, -, hrow⟩ := addPT_ok hpt
  have hsame : SameButTlb t₁ t₂ := addTLB_within _ _ _ _ _ htlb
  obtain ⟨hcount, hresult⟩ := allocKpages_ioCount halloc
  rw [← hresult, ← hcount, hsame, hrow]
  rfl

theorem swapIn_zero_iff {s s' : Kernel} (h : swapIn d index s = .ok r s') :
    r = 0 ↔ s.ioResult (s.ioCount + 1) = 0 := by
  obtain ⟨a, t, t₁, t₂, halloc, -, hpt, htlb, hcases⟩ := swapIn_ok h
  rw [mapped_io halloc hpt htlb 1] at hcases
  rcases hcases with ⟨rfl, hne, -⟩ | ⟨rfl, hzero, -⟩
  · exact ⟨nofun, fun h0 => absurd h0 hne⟩
  · exact ⟨fun _ => hzero, fun _ => rfl⟩

theorem asDestroy_ok {s s' : Kernel}
    (h : asDestroy d as s = .ok u s') :
    ∃ t v, kfree d as.ptr s = .ok () t ∧ Prog.forBelow (destroyFrame d) t.pagetableEntry t = .ok () v ∧
      invalidateTLB v = .ok () s' := by
  unfold asDestroy at h
  simp only [bind_ok_iff, read_ok_iff] at h
  obtain ⟨_, t, hk, _, _, ⟨rfl, rfl⟩, _, v, hloop, hinv⟩ := h
  exact ⟨t, v, hk, hloop, hinv⟩

theorem destroyFrame_ok {i : ℕ} {s s' : Kernel} (h : destroyFrame d i s = .ok u s') :
    ((s.mainPG i).pid = s.curPid ∧ s.Valid i) ∧ freeKpages d (kvaddr i) s = .ok () s' ∨
      ¬ ((s.mainPG i).pid = s.curPid ∧ s.Valid i) ∧ s' = s := by
  unfold destroyFrame at h
  simp only [bind_ok_iff, read_ok_iff, when_ok_iff] at h
  obtain ⟨_, _, ⟨rfl, rfl⟩, _, _, ⟨rfl, rfl⟩, hwhen⟩ := h
  exact hwhen

theorem destroyFrame_moves (d i : ℕ) : Within Moves (destroyFrame d i) := by
  intro s u s' h
  rcases destroyFrame_ok h with ⟨-, hfree⟩ | ⟨-, rfl⟩
  · exact freeKpages_moves d _ _ _ _ hfree
  · exact Std.Refl.refl s'

theorem asDestroy_moves {s s' : Kernel}
    (h : asDestroy d as s = .ok u s') :
    ∃ t, Moves s t ∧ invalidateTLB t = .ok () s' := by
  obtain ⟨t, v, hk, hloop, hinv⟩ := asDestroy_ok h
  have hfree := kfree_moves d as.ptr _ _ _ hk
  have hrounds := within_forBelow (destroyFrame_moves d) _ _ _ _ hloop
  exact ⟨v, IsTrans.trans _ _ _ hfree hrounds, hinv⟩

end Os161Kernel
