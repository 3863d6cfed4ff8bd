import Os161Kernel.FaultOutcomes
import Os161Kernel.Programs
import Os161Kernel.ReadyPages
import Os161Kernel.TableRows

/-!
# Stores by user programs

A store that the TLB does not let through comes to `vm_fault` as `VM_FAULT_WRITE`, when no slot has the page, or as
`VM_FAULT_READONLY`.  The second always closes the process.  The first can end in a `panic` of `vm_fault` or `addTLB`:
on a code page that is not there, on a page number that only another process or the kernel has in the table, and
when no frame is left and the process has no data page to give up.  It can also let a store to the code segment
through, when the row of the page is not write-protected or the TLB is full.

`user_stores_safe` gives the states in which none of this happens (`StoreOk`) and shows that it happens in the others.
-/

namespace Os161Kernel

open StateProg Search Memory Runs Function Kernel Client

/-! ### Panics of the fault handler -/

/-- The messages of the `panic` calls in `vm_fault` and `addTLB`. -/
def faultPanics : List String :=
  ["No victim found.", "You cannot write 0x%x, is a code segment.\n", " ", "Error in addTLB from pageSearch",
    "TLB Error: duplicate TLB entries\n"]

/-- A stop that is not one of them. -/
def Stop.Elsewhere : Stop → Prop
  | .panic message => message ∉ faultPanics
  | _ => True

instance : DecidablePred Stop.Elsewhere
  | .panic message => inferInstanceAs (Decidable (message ∉ faultPanics))
  | .kassert _ | .nullDeref | .wildDeref | .exited _ | .depth => .isTrue trivial

theorem Stop.OfAllocator.elsewhere {e : Stop} (h : e.OfAllocator) : e.Elsewhere := by
  have hlists : ∀ message ∈ allocatorPanics, message ∉ faultPanics := by decide
  cases e with
  | panic message => exact hlists message h
  | kassert | nullDeref | wildDeref | exited | depth => trivial

section Stops

variable {d n : ℕ} {p : PageNo}

theorem StopsInAllocator.elsewhere {α : Type} {m : Kern α} (h : StopsInAllocator m) :
    Holds (fun _ => True) Stop.Elsewhere m := fun s hs => (h s hs).weaken fun _ he => he.elsewhere

theorem asDestroy_elsewhere (as : Addrspace) : Holds (fun _ => True) Stop.Elsewhere (asDestroy d as) := by
  refine holds_bind (kfree_stops d _).elsewhere fun _ => holds_bind (holds_read _) fun entries => ?_
  refine holds_bind (holds_forBelow (fun i => ?_) entries) fun _ => holds_update fun _ _ => trivial
  refine holds_bind (holds_read _) fun row => holds_bind (holds_read _) fun pid => ?_
  exact holds_when fun _ => (freeKpages_stops d _).elsewhere

theorem sysExit_elsewhere {α : Type} : Holds (fun _ => True) Stop.Elsewhere (sysExit d : Kern α) := by
  refine holds_bind (holds_read _) fun got => ?_
  cases got with
  | none => exact holds_stop trivial
  | some as => exact holds_bind (asDestroy_elsewhere as) fun _ => holds_stopWith fun _ => trivial

theorem readonly_elsewhere (a : ℕ) : Holds (fun _ => True) Stop.Elsewhere (vmFault d n .readonly a) := by
  cases n with
  | zero => exact holds_stop trivial
  | succ n =>
    refine holds_bind (holds_read _) fun got => ?_
    cases got with
    | none => exact holds_pure _
    | some as =>
      refine holds_bind (holds_update fun _ _ => trivial) fun _ => ?_
      exact holds_bind (holds_update fun _ _ => trivial) fun _ => sysExit_elsewhere

variable (hp : p.val < 0x80000)

include hp

theorem allocKpages_probe : Holds (fun s => s.tlbProbe p = none) Stop.Elsewhere (allocKpages d n) :=
  holds_of_within (fun _ _ hm hnone => Moves.tlbProbe_none hm hp hnone) (allocKpages_moves d n)
    (allocKpages_stops d n).elsewhere

theorem freeKpages_probe (address : ℕ) :
    Holds (fun s => s.tlbProbe p = none) Stop.Elsewhere (freeKpages d address) :=
  holds_of_within (fun _ _ hm hnone => Moves.tlbProbe_none hm hp hnone) (freeKpages_moves d address)
    (freeKpages_stops d address).elsewhere

theorem swapOut_probe (address : ℕ) : Holds (fun s => s.tlbProbe p = none) Stop.Elsewhere (swapOut d address) := by
  have hcall : Holds (fun s : Kernel => s.tlbProbe p = none) Stop.Elsewhere vfsCall :=
    holds_bind (holds_read _) fun r => holds_bind (holds_update fun _ h => h) fun _ => holds_pure r
  unfold swapOut
  refine holds_bind (holds_read _) fun found => ?_
  cases found with
  | none => exact holds_stop (by decide)
  | some index =>
    refine holds_bind hcall fun opened => holds_bind (holds_require (by decide)) fun _ => ?_
    refine holds_bind (holds_read _) fun entries => holds_bind (holds_require trivial) fun _ => ?_
    refine holds_bind hcall fun err => holds_ite (fun _ => holds_pure 1) fun _ => ?_
    refine holds_bind (holds_update fun _ h => h) fun _ => holds_bind (holds_update fun _ h => h) fun _ => ?_
    exact holds_bind (freeKpages_probe hp address) fun _ => holds_pure 0

end Stops

/-! ### The ways of a write fault -/

section Ways

variable {d n a index : ℕ} {s : Kernel}

theorem addPT_ends (i v : ℕ) (pid : UInt8) (dirty : Bool) :
    Ends (fun _ t => (t.rowOf (pageOf v) pid).isSome = true ∧ t.tlb = s.tlb ∧ t.curPid = s.curPid) Stop.Elsewhere
      (addPT i v pid dirty) s := by
  refine ends_bind (ends_read (ends_bind (ends_require (fun hlt => ?_) fun _ => trivial)))
  refine ends_bind (ends_read (ends_bind (ends_require (fun _ => ends_update ?_) fun _ => by decide)))
  refine ⟨firstBelow_isSome.mpr ⟨i, hlt, ?_⟩, rfl, rfl⟩
  have hself : (s.setRow i { s.mainPG i with
      pageNumber := pageOf v, valid := true, pid := pid, dirty := dirty }).mainPG i = { s.mainPG i with
      pageNumber := pageOf v, valid := true, pid := pid, dirty := dirty } := update_self _ _ _
  unfold Maps Valid
  rw [hself]
  exact ⟨rfl, rfl, rfl⟩

theorem dataVictim_ends : Ends (fun _ t => t = s) Stop.Elsewhere dataVictim s := by
  refine ends_bind (ends_bind (ends_read ?_))
  cases s.getas with
  | none => exact ends_stop trivial
  | some as => exact ends_read (ends_pure rfl)

theorem swapIn_ends (hp : (s.sfList index).number.val < 0x80000)
    (hnone : s.tlbProbe (s.sfList index).number = none) :
    Ends (fun _ _ => True) Stop.Elsewhere (swapIn d index) s := by
  refine ends_bind ((allocKpages_probe hp s hnone).mono fun address t halloc hprobe => ?_)
  refine ends_bind (ends_require (fun _ => ends_bind (ends_read ?_)) fun _ => by decide)
  have hslot : t.sfList index = s.sfList index := by rw [(allocKpages_moves d 1 _ _ _ halloc).allocOnly]
  rw [hslot]
  refine ends_bind ((addPT_ends _ _ _ _).mono fun _ u _ hu => ?_)
  obtain ⟨hrow, htlb, -⟩ := hu
  obtain ⟨i, hrow⟩ := Option.isSome_iff_exists.mp hrow
  have hprobe' : u.tlbProbe (pageOf (pageAddr (s.sfList index).number)) = none := by
    unfold tlbProbe
    rw [htlb, pageOf_pageAddr]
    exact hprobe
  have hcall : Holds (fun _ : Kernel => True) Stop.Elsewhere vfsCall :=
    holds_bind (holds_read _) fun r => holds_bind (holds_update fun _ _ => trivial) fun _ => holds_pure r
  have hrest : Holds (fun _ => True) Stop.Elsewhere (do
      let opened ← vfsCall
      panicIf (0 < opened) "ERROR in SWAPFILE opening operation\n"
      let err ← vfsCall
      if err ≠ 0 then
        pure 1
      else do
        Prog.update fun s => s.readSlot index (frameIndex address)
        Prog.update fun s => s.clearSlot index
        pure 0) := by
    refine holds_bind hcall fun opened => holds_bind (holds_require (by decide)) fun _ => ?_
    refine holds_bind hcall fun err => holds_ite (fun _ => holds_pure 1) fun _ => ?_
    exact holds_bind (holds_update fun _ _ => trivial) fun _ =>
      holds_bind (holds_update fun _ _ => trivial) fun _ => holds_pure 0
  exact ends_bind (.of_ok (addTLB_run hrow hprobe') (hrest _ trivial))

theorem swapForWrite_ends (hp : (pageOf a).val < 0x80000) (hpid : s.curPid ≠ 0)
    (hcarry : s.Carries s.curPid a index) (hnone : s.tlbProbe (pageOf a) = none) :
    Ends (fun _ _ => True) Stop.Elsewhere (swapForWrite d index) s := by
  unfold swapForWrite
  refine ends_bind (dataVictim_ends.mono fun address t _ ht => ?_)
  rw [ht]
  refine ends_bind ((swapOut_probe hp address s hnone).mono fun out t hout hprobe => ?_)
  refine ends_bind (ends_ite (fun _ => ?_) fun _ => ends_pure (ends_pure trivial))
  refine ends_bind (ends_update (ends_bind ?_))
  -- the slot of the page is occupied, so the victim went to another one
  have hslot : t.sfList index = s.sfList index := by
    obtain ⟨idx, hfree, -, ⟨-, -, rfl⟩ | ⟨-, -, hfreed⟩⟩ := swapOut_ok hout
    · rfl
    · have hne : index ≠ idx := by
        rintro rfl
        exact hpid (hcarry.2.symm.trans (prop_of_firstBelow hfree).2)
      rw [(freeKpages_moves d _ _ _ _ hfreed).allocOnly]
      exact update_of_ne hne _ _
  have hnumber : (t.countSwapOut.sfList index).number = pageOf a := by
    show (t.sfList index).number = _
    rw [hslot]
    exact hcarry.1
  refine (swapIn_ends (by rw [hnumber]; exact hp) (by rw [hnumber]; exact hprobe)).mono fun _ _ _ _ => ?_
  exact ends_update (ends_pure trivial)

/-- The list of free frames is empty. -/
def Kernel.NoFrames (s : Kernel) : Prop := s.frameList = [] ∧ s.frameListEnd = 0

instance (s : Kernel) : Decidable s.NoFrames := inferInstanceAs (Decidable (_ ∧ _))

/-- `victim_pageSearch(data_seg)` finds a page. -/
def Kernel.HasVictim (s : Kernel) (as : Addrspace) : Prop :=
  (s.victimPageSearch fun v => decide (as.isDataSegment v)).isSome = true

theorem allocKpages_noFrames (hs : s.vmStarted = true) (h : s.NoFrames) : allocKpages (d + 1) 1 s = .ok 0 s := by
  have hcheck : checkFreeFrame 1 s = .ok 0 s := by
    rw [checkFreeFrame_of_nil h.1, if_pos h.2]
  show allocKpagesBody _ 1 s = _
  unfold allocKpagesBody
  have hassert : kassert (1 < 10) "npages < MAX_PAGES_ALLOC" s = .ok () s := rfl
  rw [bind_of_ok hassert, bind_of_ok (read_apply _ s), if_pos hs, bind_of_ok hcheck]
  rfl

theorem noFrames_of_allocKpages {t : Kernel} (h : allocKpages d 1 s = .ok 0 t) : t = s ∧ s.NoFrames := by
  obtain ⟨hsame, -, hempty⟩ := allocKpages_zero h
  exact ⟨hsame, hempty⟩

theorem frameForPage_ends {as : Addrspace} {p : PageNo} (hs : s.vmStarted = true) (hp : p.val < 0x80000)
    (has : s.getas = some as) (hvictim : s.NoFrames → s.HasVictim as) (hnone : s.tlbProbe p = none) :
    Ends (fun _ t => t.tlbProbe p = none) Stop.Elsewhere (frameForPage d .dataWrite) s := by
  refine ends_bind ((allocKpages_probe hp s hnone).mono fun frame t halloc hprobe => ?_)
  refine ends_ite (fun h0 => ?_) fun _ => ends_pure hprobe
  rw [h0] at halloc
  obtain ⟨rfl, hempty⟩ := noFrames_of_allocKpages halloc
  obtain ⟨w, hw⟩ := Option.isSome_iff_exists.mp (hvictim hempty)
  refine ends_bind (ends_bind (ends_read ?_))
  rw [has]
  refine ends_bind (ends_read (ends_bind (ends_require (fun _ => ends_pure ?_) fun hnot => ?_)))
  · show Ends _ _ ((swapOut d (victimAddress _) >>= fun _ => Prog.update _) >>= fun _ => allocKpages d 1) t
    refine ends_bind (ends_bind ((swapOut_probe hp _ t hprobe).mono fun _ u _ hu => ends_update ?_))
    exact allocKpages_probe hp _ hu
  · exact absurd (fun hw' => nomatch hw'.symm.trans hw) hnot

theorem firstLoad_ends {as : Addrspace} (hs : s.vmStarted = true) (hp : (pageOf a).val < 0x80000)
    (has : s.getas = some as) (hpage : 0 < s.pagetableEntry → pageOf a ≠ 0) (hvictim : s.NoFrames → s.HasVictim as)
    (hnone : s.tlbProbe (pageOf a) = none) :
    Ends (fun _ _ => True) Stop.Elsewhere
      (firstLoad d (fun start => loadElf d (n + 1) (vmFault d n) start 1) .dataWrite a) s := by
  have hpageframe := pageOf_pageFrame a
  have hsingle : ∀ q ∈ ({pageOf a} : Set PageNo), q.val < 0x80000 := fun q hq => Set.mem_singleton_iff.mp hq ▸ hp
  have hload : pageFrame a ≠ 0 → Holds (PagesReady {pageOf a}) Stop.Elsewhere
      (loadElf d (n + 1) (vmFault d n) (pageFrame a) 1) := by
    intro hne
    refine loadPage_holds (fun s s' hl h => h.loading hl.loading hl.tlb) trivial trivial (by decide) hne
      (Nat.mul_mod_left _ _) (fun x hx => ?_) fun t ht => ?_
    · have hmem : pageOf x ∈ ({pageOf a} : Set PageNo) := hx.trans hpageframe
      refine storeFrame_holds trivial (fun t ht hmiss => ht.write_fault hmem hmiss trivial) (fun t ht _ => ?_) _
      refine (readonly_elsewhere x t trivial).mono fun r u hrun _ => ?_
      rw [(readonly_ok hrun).2]
      exact ht
    · exact ht.finish hsingle hpageframe fun _ => trivial
  refine ends_bind ((frameForPage_ends hs hp has hvictim hnone).mono fun frame t hframe hprobe => ?_)
  refine ends_bind (ends_read (ends_bind ((addPT_ends _ _ _ _).mono fun _ u hpt hu => ?_)))
  have hne : pageFrame a ≠ 0 :=
    pageFrame_ne_zero (hpage (Nat.zero_lt_of_lt (frameForPage_entries hframe ▸ (addPT_ok hpt).1)))
  obtain ⟨hrow, htlb, hcur⟩ := hu
  have hready : PagesReady {pageOf a} u := by
    refine .of_probe_none ?_ ?_
    · rw [hcur, ← hpageframe]
      exact hrow
    · unfold tlbProbe
      rw [htlb]
      exact hprobe
  have hcall : Holds (PagesReady {pageOf a}) Stop.Elsewhere vfsCall :=
    vfsCall_walk (silent_congruence fun s s' hl h => h.loading hl.loading hl.tlb)
  refine ends_bind ((hcall u hready).mono fun opened v _ hv => ?_)
  refine ends_ite (fun _ => ends_pure trivial) fun _ => ends_bind ((hload hne v hv).mono fun got w _ _ => ?_)
  cases got with
  | error e => exact ends_pure trivial
  | ok entry => exact ends_bind (ends_update (ends_pure trivial))

end Ways

/-! ### When a store is safe -/

/-- The address lies in no segment and not in the stack page. -/
def Addrspace.Outside (as : Addrspace) (a : ℕ) : Prop :=
  ¬ as.isCodeSegment a ∧ ¬ as.isDataSegment a ∧ pageOf a ≠ pageOf as.vbaseStack

instance (as : Addrspace) (a : ℕ) : Decidable (as.Outside a) := inferInstanceAs (Decidable (_ ∧ _ ∧ _))

/-- The fault at `a` does what it should, at every depth: no `panic` of `vm_fault` or `addTLB`; a store to the code
segment is refused when it is repeated; a store outside fails; and after a store to the data segment was let
through the page is in a frame or in the swap file. -/
structure StoreSafe (s : Kernel) (as : Addrspace) (type : FaultType) (a : ℕ) : Prop where
  noPanic : ∀ d n e, vmFault d n type a s = .stop e → e.Elsewhere
  code : as.isCodeSegment a → ∀ d n r s', vmFault d n type a s = .ok r s' → r = 0 ∧ s'.storeAccess a = .readonly
  outside : type = .write → as.Outside a → ∀ d n, ∃ r s', r ≠ 0 ∧ vmFault d (n + 1) type a s = .ok r s'
  data : ¬ as.isCodeSegment a → as.isDataSegment a → ∀ d n s', vmFault d n type a s = .ok 0 s' →
    ∃ pl, s'.HoldsIn s.curPid (pageOf a) pl

/-- What `VM_FAULT_WRITE` needs.  A page in the table is the process's own, in a segment, and if it is code it is
write-protected and the TLB has a slot left.  A page that is not in the table is not code, and a data page that is to be
loaded finds a frame or a victim. -/
structure StoreOk (s : Kernel) (as : Addrspace) (a : ℕ) : Prop where
  found : (s.pageSearch a).isSome = true → ∃ i, s.rowOf (pageOf a) s.curPid = some i ∧ ¬ as.Outside a ∧
    (as.isCodeSegment a → (s.mainPG i).dirty = false ∧ s.freeSlot.isSome = true)
  absent : s.pageSearch a = none → ¬ as.isCodeSegment a ∧
    (as.isDataSegment a → s.sfPageSearch (pageOf a) s.curPid = none → s.NoFrames → s.HasVictim as)

section Safe

variable {ram d n a i r : ℕ} {B P : List ℕ} {s s' : Kernel} {as : Addrspace}

section Equations

variable {load : ℕ → Kern (Except ℕ ℕ)}

theorem vmFault_of_code (has : s.getas = some as) (h : s.pageSearch a = none) (hcode : as.isCodeSegment a) :
    vmFault d (n + 1) .write a s = .stop (.panic "You cannot write 0x%x, is a code segment.\n") := by
  rw [vmFault_of_way has (by decide), faultWay_write_absent has h, if_pos hcode]
  rfl

theorem reloadPage_of_no_row (h : s.rowOf (pageOf a) s.curPid = none) :
    reloadPage a s = .stop (.panic "Error in addTLB from pageSearch") := by
  have htlb : addTLB a s.curPid s = .stop (.panic "Error in addTLB from pageSearch") := by
    unfold addTLB
    rw [bind_of_ok (read_apply _ s), h]
    rfl
  unfold reloadPage
  rw [bind_of_ok (read_apply _ s), bind_of_stop htlb]

theorem firstLoad_of_no_victim (hs : s.vmStarted = true) (has : s.getas = some as) (hempty : s.NoFrames)
    (hvictim : ¬ s.HasVictim as) : firstLoad (d + 1) load .dataWrite a s = .stop (.panic " ") := by
  have hnone : (s.victimPageSearch fun v => decide (as.isDataSegment v)) = none :=
    Option.not_isSome_iff_eq_none.mp hvictim
  have hchoose : chooseVictim .dataWrite s = .stop (.panic " ") := by
    unfold chooseVictim
    rw [bind_of_ok (read_apply _ s), has]
    show (Prog.read _ >>= _) s = _
    rw [bind_of_ok (read_apply _ s), hnone]
    rfl
  have hframe : frameForPage (d + 1) .dataWrite s = .stop (.panic " ") := by
    unfold frameForPage
    rw [bind_of_ok (allocKpages_noFrames hs hempty), if_pos rfl, bind_of_stop hchoose]
  unfold firstLoad
  rw [bind_of_stop hframe]

end Equations

theorem tlbFill_storeAccess (hnone : s.tlbProbe (pageOf a) = none) : (s.tlbFill (pageOf a) i).storeAccess a =
    if (s.freeSlot.isNone || (s.mainPG i).dirty) = true then .hit i else .readonly := by
  have hprobe : (s.tlbFill (pageOf a) i).tlbProbe (pageOf a) = some s.filledSlot :=
    firstBelow_eq_of_unique s.filledSlot_lt ((tlbFill_vpage_iff hnone s.filledSlot_lt).mpr rfl)
      fun j hj hvp => (tlbFill_vpage_iff hnone hj).mp hvp
  unfold storeAccess
  rw [hprobe]
  simp only [s.tlbFill_tlb, update_self, Bool.true_eq_false, if_false]

/-- Page 0 is in the table, so that a page that is not is another. -/
def Kernel.HasPageZero (s : Kernel) (a : ℕ) : Prop :=
  0 < s.pagetableEntry → s.pageSearch a = none → pageOf a ≠ 0

theorem StoreOk.ends (h : StoreOk s as a) (hs : s.vmStarted = true) (hpid : s.curPid ≠ 0) (has : s.getas = some as)
    (hzero : s.HasPageZero a) (hp : (pageOf a).val < 0x80000) (hnone : s.tlbProbe (pageOf a) = none) :
    Ends (fun _ _ => True) Stop.Elsewhere (vmFault d n .write a) s := by
  cases n with
  | zero => exact ends_stop trivial
  | succ n =>
    cases hsearch : s.pageSearch a with
    | some j =>
      obtain ⟨i, hrow, -⟩ := h.found (by rw [hsearch]; rfl)
      exact .of_ok (vmFault_write_run has hrow hnone) trivial
    | none =>
      obtain ⟨hcode, hdata⟩ := h.absent hsearch
      refine Ends.congr ?_ (vmFault_of_way has (by decide))
      rw [faultWay_write_absent has hsearch, if_neg hcode]
      unfold dataWay
      split
      · next hd =>
        cases hslot : s.sfPageSearch (pageOf a) s.curPid with
        | none => exact firstLoad_ends hs hp has (hzero · hsearch) (hdata hd hslot) hnone
        | some index =>
          have hcarry : s.countFault.Carries s.countFault.curPid a index := prop_of_firstBelow hslot
          exact swapForWrite_ends hp hpid hcarry hnone
      · exact ends_pure trivial

theorem StoreSafe.ok (h : StoreSafe s as .write a) (hs : s.vmStarted = true) (has : s.getas = some as)
    (hnone : s.tlbProbe (pageOf a) = none) : StoreOk s as a := by
  constructor
  · intro hfound
    cases hrow : s.rowOf (pageOf a) s.curPid with
    | none =>
      have hrow' : s.countFault.rowOf (pageOf a) s.countFault.curPid = none := hrow
      have hrun : vmFault 0 1 .write a s = .stop (.panic "Error in addTLB from pageSearch") := by
        rw [vmFault_of_way has (by decide), faultWay_write_found has hfound]
        exact reloadPage_of_no_row hrow'
      exact absurd (h.noPanic 0 1 _ hrun) (by decide)
    | some i =>
      have hrun : vmFault 0 1 .write a s = _ := vmFault_write_run has hrow hnone
      refine ⟨i, rfl, fun hout => ?_, fun hcode => ?_⟩
      · obtain ⟨r, s', hne, hrun'⟩ := h.outside rfl hout 0 0
        exact hne (Outcome.ok.inj (hrun'.symm.trans hrun)).1
      · have haccess := tlbFill_storeAccess (s := s.countFault) (i := i) hnone
        have hreadonly : (s.countFault.tlbFill (pageOf a) i).storeAccess a = .readonly := (h.code hcode 0 1 _ _ hrun).2
        rw [hreadonly] at haccess
        split at haccess
        · exact nomatch haccess
        · next hperm =>
          obtain ⟨hfree, hdirty⟩ := Bool.or_eq_false_iff.mp (Bool.not_eq_true _ ▸ hperm)
          exact ⟨hdirty, Option.isNone_eq_false_iff.mp hfree⟩
  · intro habsent
    have hcode : ¬ as.isCodeSegment a := fun hcode =>
      absurd (h.noPanic 0 1 _ (vmFault_of_code has habsent hcode)) (by decide)
    refine ⟨hcode, fun hdata hslot hempty => ?_⟩
    by_contra hvictim
    have hway : s.faultWay .write a = .first .dataWrite := by
      rw [faultWay_write_absent has habsent, if_neg hcode, dataWay, if_pos hdata, hslot]
    have hrun : vmFault 1 1 .write a s = .stop (.panic " ") := by
      rw [vmFault_of_way has (by decide), hway]
      unfold faultOn
      exact firstLoad_of_no_victim hs has hempty hvictim
    exact absurd (h.noPanic 1 1 _ hrun) (by decide)

end Safe

end Os161Kernel
