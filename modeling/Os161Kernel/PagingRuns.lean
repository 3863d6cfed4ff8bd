import Os161Kernel.LoadEffects

/-!
# Runs of a kernel that pages

A kernel takes and gives frames, edits other tables and handles page faults, in any order.  Between two such steps the
heap is consistent, every frame is accounted for, and a slot of the swap file that is taken belongs to a user
(`Paged`).

Inside a fault this has to hold at every call: `load_elf` copies to user memory and faults again, to any depth, and an
eager load defines whole regions.  Whatever they do, they do by six kinds of moves (`PagingMove`): `vmFault_paging` and
`loadElf_paging` say so once, and a relation that the moves keep to is kept to by every load and every fault
(`PagingMoves.within`).  `KeepsPaged` is the invariant as such a relation.
-/

namespace Os161Kernel

open StateProg Search Memory Runs Relocate Function Client

/-! ### Slots -/

/-- Slot `i` stands at page `i` of the file, and a slot without an owner is free. -/
def SlotsOk (sf : ℕ → ListParam) : Prop :=
  ∀ i < swapfileSize, (sf i).offset = i ∧ ((sf i).pid = 0 → (sf i).Free)

variable {index r first : ℕ}

theorem SlotsOk.update {sf : ℕ → ListParam} {e : ListParam} (h : SlotsOk sf)
    (hoffset : e.offset = (sf index).offset) (hfree : e.pid = 0 → e.Free) :
    SlotsOk (update sf index e) := by
  intro i hi
  by_cases hindex : i = index
  · rw [hindex, update_self, hoffset]
    exact ⟨(h index (hindex ▸ hi)).1, hfree⟩
  · rw [update_of_ne hindex]
    exact h i hi

theorem swapOut_sfList {d w : ℕ} {s s' : Kernel} (hlt : w < s.pagetableEntry)
    (h : swapOut d (kvaddr w) s = .ok r s') : ∃ index, s.sfFreeSearch = some index ∧
      s'.sfList = if r = 0 then update s.sfList index { s.sfList index with
        number := (s.mainPG w).pageNumber, pid := (s.mainPG w).pid, dirty := (s.mainPG w).dirty } else s.sfList := by
  have hindex : frameIndex (kvaddr w) = w :=
    frameIndex_kvaddr_self (Nat.le_of_lt (Nat.lt_of_lt_of_le hlt s.pagetableEntry_le))
  obtain ⟨index, hfound, -, ⟨rfl, -, rfl⟩ | ⟨rfl, -, hfreed⟩⟩ := swapOut_ok h
  · exact ⟨index, hfound, rfl⟩
  · refine ⟨index, hfound, ?_⟩
    rw [(freeKpages_moves d _ _ _ _ hfreed).allocOnly, hindex]
    rfl

theorem swapIn_sfList {d : ℕ} {s s' : Kernel} (h : swapIn d index s = .ok r s') :
    s'.sfList = if r = 0 then update s.sfList index { s.sfList index with
      number := 0, pid := 0, dirty := false } else s.sfList := by
  obtain ⟨a, t, t₁, t₂, halloc, -, hpt, htlb, hcases⟩ := swapIn_ok h
  obtain ⟨-, -, hrow⟩ := addPT_ok hpt
  have hsf : t₂.sfList = s.sfList := by
    rw [addTLB_within _ _ _ _ _ htlb, hrow]
    show t.sfList = _
    rw [(allocKpages_moves d 1 _ _ _ halloc).allocOnly]
  rcases hcases with ⟨rfl, -, rfl⟩ | ⟨rfl, -, rfl⟩
  · exact hsf
  · show update t₂.sfList index { t₂.sfList index with number := 0, pid := 0, dirty := false } = _
    rw [hsf]
    rfl

/-! ### The invariant -/

/-- The invariant of a kernel that pages, on a machine with `ram` bytes of memory. -/
structure Client.Paged (ram : ℕ) (c : Client) : Prop where
  inv : c.Inv ram []
  started : c.kernel.vmStarted = true
  owned : OwnedValid c.kernel
  slots : SlotsOk c.kernel.sfList

theorem Loading.calm_iff {s s' : Kernel} (h : Loading s s') (hs : s.vmStarted = true) {f : ℕ} :
    s'.Calm f ↔ s.Calm f := by
  have hbusy : s'.Busy f ↔ s.Busy f := by
    rw [Kernel.busy_iff (h.started.trans hs), Kernel.busy_iff hs, h.entries, h.valid_iff]
  constructor
  · intro hc
    refine ⟨hbusy.mp hc.busy, ?_, ?_⟩
    · exact h.heapView_eq ▸ hc.page
    · exact h.heapView_eq ▸ hc.root
  · intro hc
    refine ⟨hbusy.mpr hc.busy, ?_, ?_⟩
    · rw [h.heapView_eq]
      exact hc.page
    · rw [h.heapView_eq]
      exact hc.root

namespace Client.Paged

variable {ram : ℕ} {B P : List ℕ} {s s' : Kernel} {d : ℕ}

theorem step {c c' : Client} {op : ClientOp} (h : c.Paged ram) (hstep : Step c op c')
    (hslots : SlotsOk c'.kernel.sfList) : c'.Paged ram :=
  ⟨(h.inv.step h.started hstep).inv, hstep.setup.started.trans h.started, hstep.ownedValid h.owned, hslots⟩

theorem loading (h : Paged ram ⟨B, P, s⟩) (hl : Loading s s') : Paged ram ⟨B, P, s'⟩ where
  inv := by
    have hlist : s'.frameList = s.frameList := by rw [hl.same]
    refine ⟨hl.heapInv h.inv.heap, fun f hf => ?_, h.inv.account.congr hlist hl.entries fun f => hl.valid_iff,
      fun f hf hlt => ?_⟩
    · show s'.heapView.LivePage _
      rw [hl.heapView_eq]
      exact h.inv.pages f hf
    · have hlt' : f < s.pagetableEntry := by
        rw [← hl.entries]
        exact hlt
      obtain ⟨hcalm, hpid, hL⟩ := h.inv.table f hf hlt'
      exact ⟨(hl.calm_iff h.started).mpr hcalm, (hl.pid_eq f).trans hpid, hL⟩
  started := hl.started.trans h.started
  owned := hl.ownedValid h.owned
  slots := by
    show SlotsOk s'.sfList
    rw [hl.sfList_eq]
    exact h.slots

theorem edit (h : Paged ram ⟨B, P, s⟩) (hsame : SameOwners s s') (hsf : s'.sfList = s.sfList) :
    Paged ram ⟨B, P, s'⟩ :=
  h.step (.other hsame) (by rw [hsf]; exact h.slots)

theorem userFrame {w : ℕ} (h : Paged ram ⟨B, P, s⟩) (hlt : w < s.pagetableEntry) (hpid : (s.mainPG w).pid ≠ 0) :
    s.User w ∧ MayFree ⟨B, P, s⟩ w ∧ P.erase (kvaddr w) = P := by
  have hu : s.User w := ⟨h.owned w hpid, hpid⟩
  obtain ⟨-, hL⟩ := h.inv.heap.user_calm h.started hlt hu
  exact ⟨hu, .inr ⟨hlt, hu⟩, List.erase_of_not_mem fun hmem => hL (List.mem_append_right B hmem)⟩

theorem freeKpages {w : ℕ} (h : Paged ram ⟨B, P, s⟩) (hlt : w < s.pagetableEntry) (hpid : (s.mainPG w).pid ≠ 0)
    (hrun : Os161Kernel.freeKpages d (kvaddr w) s = .ok () s') : Paged ram ⟨B, P, s'⟩ := by
  obtain ⟨-, hfree, herase⟩ := h.userFrame hlt hpid
  have hstep := Step.freeKpages hfree hrun
  rw [herase] at hstep
  have honly := (freeKpages_moves d _ _ _ _ hrun).allocOnly
  have hsf : s'.sfList = s.sfList := by rw [honly]
  exact h.step hstep (by rw [hsf]; exact h.slots)

theorem swapOut {w r : ℕ} (h : Paged ram ⟨B, P, s⟩) (hlt : w < s.pagetableEntry) (hpid : (s.mainPG w).pid ≠ 0)
    (hrun : Os161Kernel.swapOut d (kvaddr w) s = .ok r s') : Paged ram ⟨B, P, s'⟩ := by
  obtain ⟨-, hfree, herase⟩ := h.userFrame hlt hpid
  have hstep := Step.swapOut hfree hrun
  rw [herase, ite_self] at hstep
  refine h.step hstep ?_
  obtain ⟨index, -, hsf⟩ := swapOut_sfList hlt hrun
  show SlotsOk s'.sfList
  rw [hsf]
  split
  · exact h.slots.update rfl fun h0 => absurd h0 hpid
  · exact h.slots

theorem swapIn {index r : ℕ} (h : Paged ram ⟨B, P, s⟩) (hrun : Os161Kernel.swapIn d index s = .ok r s') :
    Paged ram ⟨B, P, s'⟩ := by
  refine h.step (.swapIn hrun) ?_
  show SlotsOk s'.sfList
  rw [swapIn_sfList hrun]
  split
  · exact h.slots.update rfl fun _ => ⟨rfl, rfl⟩
  · exact h.slots

theorem mapFrame {a v : ℕ} {pid : UInt8} {dirty : Bool} {t : Kernel} (h : Paged ram ⟨B, P, s⟩)
    (halloc : Os161Kernel.allocKpages d 1 s = .ok a t) (ha : a ≠ 0)
    (hpt : addPT (frameIndex a) v pid dirty t = .ok () s') : Paged ram ⟨B, P, s'⟩ := by
  have hmoves := allocKpages_moves d 1 _ _ _ halloc
  have hsetup : SameSetup s s' :=
    IsTrans.trans _ t _ hmoves.allocOnly.sameSetup (addPT_setup _ _ _ hpt)
  refine ⟨(h.inv.mapFrame h.started halloc ha hpt).inv, hsetup.started.trans h.started,
    (h.owned.moves hmoves).addPT hpt, ?_⟩
  obtain ⟨-, -, hrow⟩ := addPT_ok hpt
  have hsf : s'.sfList = s.sfList := by
    rw [hrow]
    show t.sfList = _
    rw [hmoves.allocOnly]
  show SlotsOk s'.sfList
  rw [hsf]
  exact h.slots

end Client.Paged

/-! ### What loads and faults are made of -/

/-- What a load or a fault of the running process does at a time: it edits what a load may edit, redefines a region,
gives a new frame a row, drops a page of the process, writes one out, or brings one back. -/
inductive PagingMove (d : ℕ) : Kernel → Kernel → Prop
  | edit {s s' : Kernel} (h : Loading s s') : PagingMove d s s'
  | region {s : Kernel} (f : Addrspace → Addrspace) : PagingMove d s (s.mapas f)
  | map {s t s' : Kernel} {a v : ℕ} {dirty : Bool} (halloc : allocKpages d 1 s = .ok a t) (ha : a ≠ 0)
      (hpt : addPT (frameIndex a) v s.curPid dirty t = .ok () s') : PagingMove d s s'
  | drop {s s' : Kernel} {w : ℕ} (hlt : w < s.pagetableEntry) (hw : (s.mainPG w).pid = s.curPid)
      (h : freeKpages d (kvaddr w) s = .ok () s') : PagingMove d s s'
  | swapOut {s s' : Kernel} {w r : ℕ} (hlt : w < s.pagetableEntry) (hw : (s.mainPG w).pid = s.curPid)
      (h : swapOut d (kvaddr w) s = .ok r s') : PagingMove d s s'
  | swapIn {s s' : Kernel} {index r : ℕ} (h : swapIn d index s = .ok r s') : PagingMove d s s'

/-- One move after the other. -/
def PagingMoves (d : ℕ) (s s' : Kernel) : Prop := Relation.ReflTransGen (PagingMove d) s s'

instance (d : ℕ) : Std.Refl (PagingMoves d) := ⟨fun _ => .refl⟩

instance (d : ℕ) : IsTrans Kernel (PagingMoves d) := ⟨fun _ _ _ hst htu => Relation.ReflTransGen.trans hst htu⟩

theorem PagingMove.moves {d : ℕ} {s s' : Kernel} (h : PagingMove d s s') : PagingMoves d s s' := .single h

theorem Loading.moves {s s' : Kernel} (h : Loading s s') (d : ℕ) : PagingMoves d s s' := (PagingMove.edit h).moves

/-- **The rule for loads and faults**: a preorder that every move keeps to is kept to. -/
theorem PagingMoves.within {d : ℕ} {R : Kernel → Kernel → Prop} [Std.Refl R] [IsTrans Kernel R]
    (hR : ∀ s s', PagingMove d s s' → R s s') {s s' : Kernel} (h : PagingMoves d s s') : R s s' := by
  unfold PagingMoves at h
  induction h with
  | refl => exact Std.Refl.refl s
  | tail _ hmove ih => exact IsTrans.trans _ _ _ ih (hR _ _ hmove)

section Calls

variable {d : ℕ} {s s' : Kernel}

theorem AllocOnly.curPid_eq {s s' : Kernel} (h : AllocOnly s s') : s'.curPid = s.curPid := by
  unfold Kernel.curPid Kernel.cur
  rw [h]

theorem addPT_curPid {i v : ℕ} {pid : UInt8} {dirty : Bool} {u : Unit} (h : addPT i v pid dirty s = .ok u s') :
    s'.curPid = s.curPid := by
  obtain ⟨-, -, rfl⟩ := addPT_ok h
  rfl

theorem allocPages_paging (v : ℕ) (dirty : Bool) : Within (PagingMoves d) (allocPages d v dirty) := by
  intro s u s' h
  obtain ⟨-, a, t, halloc, ha, hpt⟩ := allocPages_ok h
  exact (PagingMove.map halloc ha hpt).moves

end Calls

/-! ### The loader -/

section Loader

variable {d tries : ℕ} {fault : FaultHandler}

theorem PagingMoves.loading {s₀ s s' : Kernel} (h : PagingMoves d s₀ s) (hl : Loading s s') : PagingMoves d s₀ s' :=
  IsTrans.trans _ _ _ h (hl.moves d)

theorem loadElf_paging (hfault : ∀ type a, Within (PagingMoves d) (fault type a)) (start npages : ℕ) :
    Within (PagingMoves d) (loadElf d tries fault start npages) :=
  loadElf_within (fun _ _ h => h.loading.moves d) (fun _ f => (PagingMove.region f).moves) allocPages_paging hfault
    start npages

end Loader

/-! ### Faults -/

section Faults

variable {ram d a : ℕ} {s s' : Kernel} {path : FaultPath}

variable {t : Kernel} {frame w r v index : ℕ} {u : Unit} {load : ℕ → Kern (Except ℕ ℕ)} {dirty : Bool}

theorem victim_of_lt {victim : Option ℕ} (h : chooseVictim path s = .ok victim t)
    (hlt : frameIndex (victimAddress victim) < s.pagetableEntry) :
    t = s ∧ ∃ w, victim = some w ∧ w < s.pagetableEntry ∧ (s.mainPG w).pid = s.curPid := by
  obtain ⟨rfl, hvictim⟩ := chooseVictim_ok h
  cases victim with
  | none =>
    rw [frameIndex_victimAddress_none] at hlt
    have hle := t.pagetableEntry_le
    omega
  | some w => exact ⟨rfl, w, rfl, hvictim w rfl⟩

theorem allocKpages_zero (h : allocKpages d 1 s = .ok 0 t) :
    t = s ∧ s.vmStarted = true ∧ s.frameList = [] ∧ s.frameListEnd = 0 := by
  cases d with
  | zero => exact nomatch h
  | succ d =>
    rcases allocKpagesBody_ok h with ⟨hs, -, hsame, hempty⟩ | ⟨-, -, -, addr, u, -, -, hkv⟩ | ⟨-, -, hkv, -⟩
    · exact ⟨hsame, hs, hempty⟩
    · unfold kseg0 at hkv
      omega
    · unfold kseg0 at hkv
      omega

/-- **Where the frame comes from.**  Either there was one on the list, or the list was empty and a page of the running
process was evicted first. -/
theorem frameForPage_ok (h : frameForPage d path s = .ok frame s') :
    ∃ t, allocKpages d 1 t = .ok frame s' ∧ (t = s ∨ ∃ w, w < s.pagetableEntry ∧ (s.mainPG w).pid = s.curPid ∧
      evictPage d path (kvaddr w) s = .ok () t) := by
  unfold frameForPage at h
  obtain ⟨a, t, halloc, hrest⟩ := bind_ok_iff.mp h
  split at hrest
  · next h0 =>
    rw [h0] at halloc
    obtain ⟨rfl, hs, -⟩ := allocKpages_zero halloc
    obtain ⟨victim, v, hchoose, hrest⟩ := bind_ok_iff.mp hrest
    obtain ⟨u, v', hevict, halloc'⟩ := bind_ok_iff.mp hrest
    obtain ⟨rfl, -⟩ := chooseVictim_ok hchoose
    obtain ⟨-, w, rfl, hlt, hw⟩ := victim_of_lt hchoose (evictPage_lt hs hevict)
    exact ⟨v', halloc', .inr ⟨w, hlt, hw, hevict⟩⟩
  · obtain ⟨rfl, rfl⟩ := pure_ok_iff.mp hrest
    exact ⟨s, halloc, .inl rfl⟩

/-- **What an eviction does**: the page is dropped, or written out and counted. -/
theorem evictPage_paging (hlt : w < s.pagetableEntry) (hw : (s.mainPG w).pid = s.curPid)
    (h : evictPage d path (kvaddr w) s = .ok u s') : PagingMoves d s s' := by
  rcases evictPage_ok h with ⟨-, hfree⟩ | ⟨-, r, t, hout, rfl⟩
  · exact (PagingMove.drop hlt hw hfree).moves
  · exact (PagingMove.swapOut hlt hw hout).moves.loading (.of_same rfl)

theorem evictPage_setup {address : ℕ} (h : evictPage d path address s = .ok u s') : SameSetup s s' := by
  rcases evictPage_ok h with ⟨-, hfree⟩ | ⟨-, r, t, hout, rfl⟩
  · exact (freeKpages_moves d _ _ _ _ hfree).allocOnly.sameSetup
  · obtain ⟨index, -, -, ⟨-, -, rfl⟩ | ⟨-, -, hfreed⟩⟩ := swapOut_ok hout
    · exact ⟨rfl, rfl, rfl, rfl⟩
    · have hsetup : SameSetup s t := IsTrans.trans _ _ _ (s.stored_sameOwners index _).sameSetup
        (freeKpages_moves d _ _ _ _ hfreed).allocOnly.sameSetup
      exact ⟨hsetup.started, hsetup.location, hsetup.entries, hsetup.lastpaddr⟩

theorem frameForPage_entries (h : frameForPage d path s = .ok frame s') :
    s'.pagetableEntry = s.pagetableEntry := by
  obtain ⟨t, halloc, hfrom⟩ := frameForPage_ok h
  have hsetup := (allocKpages_moves d 1 _ _ _ halloc).allocOnly.sameSetup
  rcases hfrom with rfl | ⟨w, -, -, hevict⟩
  · exact hsetup.entries
  · exact hsetup.entries.trans (evictPage_setup hevict).entries

/-- **What a returning first load did**: a frame was found and mapped; then the executable could not be opened, or the
load failed, or it succeeded. -/
theorem firstLoad_ok (h : firstLoad d load path a s = .ok r s') :
    ∃ frame t u, frameForPage d path s = .ok frame t ∧
      addPT (frameIndex frame) (pageFrame a) t.curPid true t = .ok () u ∧
      ((u.ioResult u.ioCount ≠ 0 ∧ r = u.ioResult u.ioCount ∧ s' = u.calls 1) ∨
      (u.ioResult u.ioCount = 0 ∧ (load (pageFrame a) (u.calls 1) = .ok (.error r) s' ∨
        ∃ entry v, load (pageFrame a) (u.calls 1) = .ok (.ok entry) v ∧ r = 0 ∧ s' = v.countElf))) := by
  unfold firstLoad at h
  obtain ⟨frame, t, hframe, hrest⟩ := bind_ok_iff.mp h
  obtain ⟨pid, _, hread, hrest⟩ := bind_ok_iff.mp hrest
  obtain ⟨rfl, rfl⟩ := read_ok_iff.mp hread
  obtain ⟨_, u, hpt, hrest⟩ := bind_ok_iff.mp hrest
  obtain ⟨opened, _, hopen, hrest⟩ := bind_ok_iff.mp hrest
  obtain ⟨rfl, rfl⟩ := vfsCall_ok hopen
  refine ⟨frame, _, u, hframe, hpt, ?_⟩
  split at hrest
  · next hne =>
    obtain ⟨rfl, rfl⟩ := pure_ok_iff.mp hrest
    exact .inl ⟨hne, rfl, rfl⟩
  · next hzero =>
    refine .inr ⟨not_not.mp hzero, ?_⟩
    obtain ⟨got, v, hload, hrest⟩ := bind_ok_iff.mp hrest
    cases got with
    | error e =>
      obtain ⟨rfl, rfl⟩ := pure_ok_iff.mp hrest
      exact .inl hload
    | ok entry =>
      obtain ⟨_, _, hupd, hpure⟩ := bind_ok_iff.mp hrest
      obtain rfl := update_ok_iff.mp hupd
      obtain ⟨rfl, rfl⟩ := pure_ok_iff.mp hpure
      exact .inr ⟨entry, v, hload, rfl, rfl⟩

theorem firstLoad_entries_pos (h : firstLoad d load path a s = .ok r s') :
    0 < s.pagetableEntry := by
  obtain ⟨frame, t, u, hframe, hpt, -⟩ := firstLoad_ok h
  exact Nat.zero_lt_of_lt (frameForPage_entries hframe ▸ (addPT_ok hpt).1)

theorem frame_ne_zero {pid : UInt8}
    (h : addPT (frameIndex frame) v pid dirty s = .ok u s') : frame ≠ 0 := by
  rintro rfl
  have hlt := (addPT_ok h).1
  have hle := s.pagetableEntry_le
  have hindex : frameIndex 0 = 0x80000 := by decide +kernel
  omega

theorem mapPage_paging (hframe : frameForPage d path s = .ok frame t)
    (hpt : addPT (frameIndex frame) v t.curPid dirty t = .ok () s') : PagingMoves d s s' := by
  obtain ⟨u, halloc, hfrom⟩ := frameForPage_ok hframe
  rw [(allocKpages_moves d 1 _ _ _ halloc).allocOnly.curPid_eq] at hpt
  have hmapped : PagingMoves d u s' := (PagingMove.map halloc (frame_ne_zero hpt) hpt).moves
  rcases hfrom with rfl | ⟨w, hlt, hw, hevict⟩
  · exact hmapped
  · exact IsTrans.trans _ _ _ (evictPage_paging hlt hw hevict) hmapped

theorem firstLoad_paging (hload : ∀ v, Within (PagingMoves d) (load v)) :
    Within (PagingMoves d) (firstLoad d load path a) := by
  intro s r s' h
  obtain ⟨frame, t, u, hframe, hpt, hcases⟩ := firstLoad_ok h
  have hopened : PagingMoves d s (u.calls 1) := (mapPage_paging hframe hpt).loading (.of_same rfl)
  rcases hcases with ⟨-, -, rfl⟩ | ⟨-, hrun | ⟨entry, v, hrun, -, rfl⟩⟩
  · exact hopened
  · exact IsTrans.trans _ _ _ hopened (hload _ _ _ _ hrun)
  · exact PagingMoves.loading (IsTrans.trans _ _ _ hopened (hload _ _ _ _ hrun)) (.of_same rfl)

theorem dataVictim_swapOut_ok {f : ℕ → Kern ℕ}
    (h : (dataVictim >>= fun address => swapOut d address >>= f) s = .ok r s') :
    ∃ w out t, w < s.pagetableEntry ∧ (s.mainPG w).pid = s.curPid ∧ swapOut d (kvaddr w) s = .ok out t ∧
      f out t = .ok r s' := by
  unfold dataVictim at h
  obtain ⟨address, t₀, hvictim, hswap⟩ := bind_ok_iff.mp h
  obtain ⟨victim, t₁, hchoose, hpure⟩ := bind_ok_iff.mp hvictim
  obtain ⟨rfl, rfl⟩ := pure_ok_iff.mp hpure
  obtain ⟨rfl, -⟩ := chooseVictim_ok hchoose
  obtain ⟨out, t, hout, hrest⟩ := bind_ok_iff.mp hswap
  obtain ⟨-, -, hlt, -⟩ := swapOut_ok hout
  obtain ⟨-, w, rfl, hw, hpid⟩ := victim_of_lt hchoose hlt
  exact ⟨w, out, t, hw, hpid, hout, hrest⟩

/-- **What a returning swap did**: a frame of the running process was written out, and unless that failed the page was
read back. -/
theorem swapForRead_ok (h : swapForRead d index s = .ok r s') :
    ∃ w out t, w < s.pagetableEntry ∧ (s.mainPG w).pid = s.curPid ∧ swapOut d (kvaddr w) s = .ok out t ∧
      ((out ≠ 0 ∧ r = 1 ∧ s' = t) ∨
      (out = 0 ∧ r = 0 ∧ ∃ got v, swapIn d index t.countSwapOut = .ok got v ∧ s' = v.countSwapIn)) := by
  obtain ⟨w, out, t, hw, hpid, hout, hrest⟩ := dataVictim_swapOut_ok h
  refine ⟨w, out, t, hw, hpid, hout, ?_⟩
  split at hrest
  · next hne =>
    obtain ⟨rfl, rfl⟩ := pure_ok_iff.mp hrest
    exact .inl ⟨hne, rfl, rfl⟩
  · next hzero =>
    simp only [bind_ok_iff, update_ok_iff, pure_ok_iff] at hrest
    obtain ⟨_, _, rfl, got, v, hin, _, _, rfl, rfl, rfl⟩ := hrest
    exact .inr ⟨not_not.mp hzero, rfl, got, v, hin, rfl⟩

theorem swapForWrite_ok (h : swapForWrite d index s = .ok r s') :
    ∃ w out t, w < s.pagetableEntry ∧ (s.mainPG w).pid = s.curPid ∧ swapOut d (kvaddr w) s = .ok out t ∧ r = 0 ∧
      ((out ≠ 0 ∧ s' = t) ∨
      (out = 0 ∧ ∃ got v, swapIn d index t.countSwapOut = .ok got v ∧ s' = v.countSwapIn)) := by
  obtain ⟨w, out, t, hw, hpid, hout, hrest⟩ := dataVictim_swapOut_ok h
  obtain ⟨_, t', hwhen, hpure⟩ := bind_ok_iff.mp hrest
  obtain ⟨rfl, rfl⟩ := pure_ok_iff.mp hpure
  refine ⟨w, out, t, hw, hpid, hout, rfl, ?_⟩
  rcases when_ok_iff.mp hwhen with ⟨hzero, hin⟩ | ⟨hne, rfl⟩
  · simp only [bind_ok_iff, update_ok_iff] at hin
    obtain ⟨_, _, rfl, got, v, hin, rfl⟩ := hin
    exact .inr ⟨hzero, got, v, hin, rfl⟩
  · exact .inl ⟨hne, rfl⟩

theorem exchange_paging {out got : ℕ} {v : Kernel} (hlt : w < s.pagetableEntry)
    (hw : (s.mainPG w).pid = s.curPid) (hout : swapOut d (kvaddr w) s = .ok out t)
    (hin : swapIn d index t.countSwapOut = .ok got v) : PagingMoves d s v.countSwapIn := by
  have hwritten : PagingMoves d s t.countSwapOut := (PagingMove.swapOut hlt hw hout).moves.loading (.of_same rfl)
  exact PagingMoves.loading (IsTrans.trans _ _ _ hwritten (PagingMove.swapIn hin).moves) (.of_same rfl)

theorem swapForRead_paging (index : ℕ) : Within (PagingMoves d) (swapForRead d index) := by
  intro s r s' h
  obtain ⟨w, out, t, hlt, hw, hout, ⟨-, -, rfl⟩ | ⟨-, -, got, v, hin, rfl⟩⟩ := swapForRead_ok h
  · exact (PagingMove.swapOut hlt hw hout).moves
  · exact exchange_paging hlt hw hout hin

theorem swapForWrite_paging (index : ℕ) : Within (PagingMoves d) (swapForWrite d index) := by
  intro s r s' h
  obtain ⟨w, out, t, hlt, hw, hout, -, ⟨-, rfl⟩ | ⟨-, got, v, hin, rfl⟩⟩ := swapForWrite_ok h
  · exact (PagingMove.swapOut hlt hw hout).moves
  · exact exchange_paging hlt hw hout hin

theorem reloadPage_paging (a : ℕ) : Within (PagingMoves d) (reloadPage a) :=
  fun s r s' h => (reloadPage_loading a s r s' h).moves d

/-- **A fault is made of moves**, at any depth of faults within faults. -/
theorem vmFault_paging (d : ℕ) : ∀ n type a, Within (PagingMoves d) (vmFault d n type a) := by
  intro n
  induction n with
  | zero => exact fun _ _ => within_stop _
  | succ n ih =>
    intro type a s r s' h
    have hload : ∀ v, Within (PagingMoves d) (loadElf d (n + 1) (vmFault d n) v 1) := fun v => loadElf_paging ih v 1
    rcases vmFault_ok h with ⟨-, -, rfl⟩ | ⟨m, hm, -, -, hrun⟩
    · exact Std.Refl.refl _
    · obtain rfl := Nat.succ.inj hm
      refine IsTrans.trans _ _ _ ((countFault_loading s).moves d) ?_
      generalize s.faultWay type a = way at hrun
      cases way with
      | outside => exact within_pure _ _ _ _ hrun
      | found => exact reloadPage_paging _ _ _ _ hrun
      | first path => exact firstLoad_paging hload _ _ _ hrun
      | swap index =>
        exact within_ite (fun _ => swapForRead_paging index) (fun _ => swapForWrite_paging index) _ _ _ hrun
      | dies => exact nomatch hrun

end Faults

/-! ### The invariant along moves -/

/-- While a user process runs and the invariant holds, whatever the kernel owns, the process goes on running and the
invariant is kept. -/
def KeepsPaged (ram : ℕ) (s s' : Kernel) : Prop :=
  s.curPid ≠ 0 → ∀ B P, Paged ram ⟨B, P, s⟩ → s'.curPid = s.curPid ∧ Paged ram ⟨B, P, s'⟩

instance (ram : ℕ) : Std.Refl (KeepsPaged ram) := ⟨fun _ _ _ _ h => ⟨rfl, h⟩⟩

instance (ram : ℕ) : IsTrans Kernel (KeepsPaged ram) where
  trans s t u hst htu hpid B P h := by
    obtain ⟨hcur, ht⟩ := hst hpid B P h
    obtain ⟨hcur', hu⟩ := htu (hcur ▸ hpid) B P ht
    exact ⟨hcur'.trans hcur, hu⟩

section Keeps

variable {ram d : ℕ} {s s' : Kernel}

theorem swapIn_curPid {index r : ℕ} (h : swapIn d index s = .ok r s') : s'.curPid = s.curPid := by
  obtain ⟨a, t, t₁, t₂, halloc, -, hpt, htlb, hcases⟩ := swapIn_ok h
  have hcur : t₂.curPid = s.curPid := by
    have htlb' : t₂.curPid = t₁.curPid := by
      unfold Kernel.curPid Kernel.cur
      rw [addTLB_within _ _ _ _ _ htlb]
    exact htlb'.trans ((addPT_curPid hpt).trans (allocKpages_moves d 1 _ _ _ halloc).allocOnly.curPid_eq)
  rcases hcases with ⟨-, -, rfl⟩ | ⟨-, -, rfl⟩
  · exact hcur
  · exact hcur

theorem PagingMove.curPid_eq (h : PagingMove d s s') : s'.curPid = s.curPid := by
  cases h with
  | edit hl => exact hl.curPid_eq
  | region f =>
    show (update s.procs s.curproc { s.cur with addrspace := s.getas.map f } s.curproc).pid = _
    rw [update_self]
    rfl
  | map halloc _ hpt => exact (addPT_curPid hpt).trans (allocKpages_moves d 1 _ _ _ halloc).allocOnly.curPid_eq
  | drop _ _ hrun => exact (freeKpages_moves d _ _ _ _ hrun).allocOnly.curPid_eq
  | swapOut _ _ hrun =>
    obtain ⟨index, -, -, ⟨-, -, rfl⟩ | ⟨-, -, hfreed⟩⟩ := swapOut_ok hrun
    · rfl
    · exact (freeKpages_moves d _ _ _ _ hfreed).allocOnly.curPid_eq
  | swapIn hrun => exact swapIn_curPid hrun

theorem PagingMove.keepsPaged (h : PagingMove d s s') : KeepsPaged ram s s' := by
  intro hpid B P hp
  refine ⟨h.curPid_eq, ?_⟩
  cases h with
  | edit hl => exact hp.loading hl
  | region f => exact hp.edit rfl rfl
  | map halloc ha hpt => exact hp.mapFrame halloc ha hpt
  | drop hlt hw hrun => exact hp.freeKpages hlt (hw ▸ hpid) hrun
  | swapOut hlt hw hrun => exact hp.swapOut hlt (hw ▸ hpid) hrun
  | swapIn hrun => exact hp.swapIn hrun

theorem PagingMoves.keepsPaged (h : PagingMoves d s s') : KeepsPaged ram s s' :=
  h.within fun _ _ hmove => hmove.keepsPaged

end Keeps

/-! ### Runs -/

/-- A call that neither swaps nor edits other tables. -/
def ClientOp.Plain : ClientOp → Prop
  | .swapOut _ _ | .swapIn _ _ | .other => False
  | _ => True

/-- What happens on a machine that pages.  `edit` is everything that leaves the page table, the frame list, the heap and
the swap file alone: stores by user programs, process switches, new address spaces. -/
inductive PagingOp where
  | call (op : ClientOp)
  | edit
  | load (d n : ℕ)
  | fault (d n : ℕ) (type : FaultType) (a : ℕ)

/-- A step that returned.  Loads, as `runprogram` makes them, and faults are those of user processes, whose pid is not
the kernel's. -/
inductive PagingStep : Client → PagingOp → Client → Prop
  | call {c c' : Client} {op : ClientOp} (hop : op.Plain) (h : Step c op c') : PagingStep c (.call op) c'
  | edit {B P : List ℕ} {s s' : Kernel} (h : SameOwners s s') (hsf : s'.sfList = s.sfList)
      (hfile : s'.swapfile = s.swapfile) : PagingStep ⟨B, P, s⟩ .edit ⟨B, P, s'⟩
  | load {B P : List ℕ} {s s' : Kernel} {d n : ℕ} {r : Except ℕ ℕ} (hpid : s.curPid ≠ 0)
      (h : loadElf d n (vmFault d n) 0 0 s = .ok r s') : PagingStep ⟨B, P, s⟩ (.load d n) ⟨B, P, s'⟩
  | fault {B P : List ℕ} {s s' : Kernel} {d n a r : ℕ} {type : FaultType} (hpid : s.curPid ≠ 0)
      (h : vmFault d n type a s = .ok r s') : PagingStep ⟨B, P, s⟩ (.fault d n type a) ⟨B, P, s'⟩

theorem allocPages_allocOnly {d v : ℕ} {dirty : Bool} {s s' : Kernel} {u : Unit}
    (h : allocPages d v dirty s = .ok u s') : AllocOnly s s' := by
  obtain ⟨-, a, t, halloc, -, hpt⟩ := allocPages_ok h
  obtain ⟨-, -, hrow⟩ := addPT_ok hpt
  have hmapped : AllocOnly t s' := by
    rw [hrow]
    rfl
  exact IsTrans.trans _ _ _ (allocKpages_moves _ _ _ _ _ halloc).allocOnly hmapped

variable {c c' : Client}

theorem Client.Step.allocOnly {op : ClientOp} (hop : op.Plain) (h : Step c op c') :
    AllocOnly c.kernel c'.kernel := by
  cases h with
  | kmalloc hrun => exact (kmalloc_moves _ _ _ _ _ hrun).allocOnly
  | kfree _ hrun => exact (kfree_moves _ _ _ _ _ hrun).allocOnly
  | allocKpages hrun => exact (allocKpages_moves _ _ _ _ _ hrun).allocOnly
  | freeKpages _ hrun => exact (freeKpages_moves _ _ _ _ _ hrun).allocOnly
  | allocPages hrun => exact allocPages_allocOnly hrun
  | setDirty => rfl
  | swapOut | swapIn | other => exact hop.elim

theorem Client.Paged.pagingStep {ram : ℕ} {op : PagingOp} (h : c.Paged ram)
    (hstep : PagingStep c op c') : c'.Paged ram := by
  cases hstep with
  | call hop hcall => exact h.step hcall (by rw [hcall.allocOnly hop]; exact h.slots)
  | edit hsame hsf => exact h.edit hsame hsf
  | load hpid hrun =>
    exact ((loadElf_paging (vmFault_paging _ _) 0 0 _ _ _ hrun).keepsPaged hpid _ _ h).2
  | fault hpid hrun => exact ((vmFault_paging _ _ _ _ _ _ _ hrun).keepsPaged hpid _ _ h).2

theorem Client.Booted.sfList_eq {ram : ℕ} (h : Booted ram first c) :
    c.kernel.sfList = fun i => ⟨0, 0, i, false⟩ := by
  obtain ⟨s₀, b, d, -, -, -, -, -, hboot, -, -⟩ := h
  refine forBelow_induct (P := fun _ t => t.sfList = fun i => ⟨0, 0, i, false⟩)
    (fun i _ t u t' ht hstep => ?_) rfl (vmBootstrap_ok hboot)
  have hlands := addBottom_lands (allocator_moves d) hstep []
  have hkey : ∀ x, Relation.ReflTransGen Move ([b.kernel.firstpaddr / pageSize + i], t) x → x.2.sfList = t.sfList := by
    intro x hx
    induction hx with
    | refl => rfl
    | tail _ hm ih => rw [hm.allocOnly]; exact ih
  exact (hkey _ hlands).trans ht

theorem Client.Booted.paged {ram : ℕ} (h : Booted ram first c) : c.Paged ram := by
  obtain ⟨hinv, hs, -⟩ := reaches_inv (.start h)
  refine ⟨hinv, hs, reaches_ownedValid (.start h), fun i _ => ?_⟩
  rw [h.sfList_eq]
  exact ⟨rfl, fun _ => ⟨rfl, rfl⟩⟩

theorem reaches_paged {ram : ℕ} (h : Reaches PagingStep (Booted ram first) c) :
    c.Paged ram :=
  h.invariant (P := fun c => c.Paged ram) (fun _ hb => hb.paged) fun _ _ _ hp hstep => hp.pagingStep hstep

end Os161Kernel
