import Os161Kernel.FaultOutcomes

/-!
# One page from the executable

`vm_fault` maps a page and has `load_elf` read it.  When that returns, two things are asked of it here: did it succeed,
and how many calls into the file system did it make?  Both depend on the file, on the address space and on the answers of
the file system, and on nothing else: the faults that the copy to user memory raises find the page mapped, reload it and
are counted as such.
-/

namespace Os161Kernel

open StateProg Search Memory Runs Kernel

/-! ### Counters -/

/-- By how much the sums that `print_vm_stat` checks are off. -/
structure Excess where
  split : UInt32
  served : UInt32
  disk : UInt32
deriving DecidableEq

namespace VmStats

/-- `TLB_Faults_wFree + TLB_Faults_wReplace - TLB_Faults`, `TLB_Reloads + PF_Disk + PF_Zeroed - TLB_Faults` and
`PF_ELF + PF_Swapfile - PF_Disk`. -/
def excess (st : VmStats) : Excess where
  split := st.tlbFaultsWFree + st.tlbFaultsWReplace - st.tlbFaults
  served := st.tlbReloads + st.pfDisk + st.pfZeroed - st.tlbFaults
  disk := st.pfElf + st.pfSwapfile - st.pfDisk

/-- The counters of page faults. -/
def pages (st : VmStats) : UInt32 × UInt32 × UInt32 × UInt32 := (st.pfZeroed, st.pfDisk, st.pfElf, st.pfSwapfile)

end VmStats

namespace Kernel

variable (s : Kernel)

theorem countFault_excess : s.countFault.stats.excess =
    { s.stats.excess with served := s.stats.excess.served - 1 } := by
  unfold countFault count VmStats.excess
  by_cases h : s.freeTLBEntries ≠ 0
  · simp only [if_pos h, Excess.mk.injEq]
    grind
  · simp only [if_neg h, Excess.mk.injEq]
    grind

theorem countFault_pages : s.countFault.stats.pages = s.stats.pages := by
  unfold countFault count
  by_cases h : s.freeTLBEntries ≠ 0
  · simp only [if_pos h]
    rfl
  · simp only [if_neg h]
    rfl

theorem countReload_excess : s.countReload.stats.excess =
    { s.stats.excess with served := s.stats.excess.served + 1 } := by
  unfold countReload count VmStats.excess
  simp only [Excess.mk.injEq]
  grind

theorem countElf_excess : s.countElf.stats.excess =
    { s.stats.excess with served := s.stats.excess.served + 1 } := by
  unfold countElf count VmStats.excess
  simp only [Excess.mk.injEq]
  grind

theorem countSwapIn_excess : s.countSwapIn.stats.excess =
    { s.stats.excess with served := s.stats.excess.served + 1 } := by
  unfold countSwapIn count VmStats.excess
  simp only [Excess.mk.injEq]
  grind

end Kernel

/-! ### Calls -/

/-- `k` calls into the file system were made, and all else that a load may edit; the processes are as they were, and
what was counted balances. -/
structure Called (k : ℕ) (s s' : Kernel) : Prop where
  loading : Loading s s'
  procs : s'.procs = s.procs
  calls : s'.ioCount = s.ioCount + k
  excess : s'.stats.excess = s.stats.excess
  pages : s'.stats.pages = s.stats.pages

/-- The calls made between the two states succeeded. -/
def Kernel.CallsOk (s s' : Kernel) : Prop := ∀ k, s.ioCount ≤ k → k < s'.ioCount → s.ioResult k = 0

/-- The page is mapped and the process has an address space. -/
structure Mapped (p : PageNo) (s : Kernel) : Prop where
  row : HasRow p s
  as : s.getas ≠ none

namespace Called

variable {j k : ℕ} {s t u : Kernel} {p : PageNo}

theorem refl (s : Kernel) : Called 0 s s := ⟨Std.Refl.refl s, rfl, rfl, rfl, rfl⟩

theorem trans (h : Called j s t) (h' : Called k t u) : Called (j + k) s u where
  loading := IsTrans.trans _ _ _ h.loading h'.loading
  procs := h'.procs.trans h.procs
  calls := by rw [h'.calls, h.calls, Nat.add_assoc]
  excess := h'.excess.trans h.excess
  pages := h'.pages.trans h.pages

theorem of_uncounted (h : Uncounted s t) (hprocs : t.procs = s.procs) (hcalls : t.ioCount = s.ioCount) : Called 0 s t :=
  ⟨h.loading, hprocs, hcalls, congrArg VmStats.excess h.stats, congrArg VmStats.pages h.stats⟩

theorem vfsCall (s : Kernel) : Called 1 s (s.calls 1) := ⟨.of_same rfl, rfl, rfl, rfl, rfl⟩

theorem cur_eq (h : Called k s t) : t.cur = s.cur := by
  have hcur : t.curproc = s.curproc := by rw [h.loading.same]
  unfold cur
  rw [h.procs, hcur]

theorem getas_eq (h : Called k s t) : t.getas = s.getas := congrArg Proc.addrspace h.cur_eq

theorem mapped (h : Called k s t) (hm : Mapped p s) : Mapped p t :=
  ⟨h.loading.hasRow hm.row, h.getas_eq ▸ hm.as⟩

end Called

/-! ### Stores to the page -/

section Stores

variable {p : PageNo} {fault : FaultHandler} {d tries a : ℕ} {s s' : Kernel}

/-- A handler that reloads page `p` while it is mapped: a store to it is let through, and nothing else happens. -/
structure Serves (p : PageNo) (fault : FaultHandler) : Prop where
  write : ∀ a s r s', pageOf a = p → Mapped p s → fault .write a s = .ok r s' → r = 0 ∧ Called 0 s s'
  readonly : ∀ a s r s', s.getas ≠ none → fault .readonly a s ≠ .ok r s'

theorem addTLB_called {v : ℕ} {pid : UInt8} {u : Unit} (h : addTLB v pid s = .ok u s') : Called 0 s s' := by
  have hl := addTLB_uncounted v pid s u s' h
  obtain ⟨i, -, -, rfl⟩ := addTLB_ok_iff.mp h
  refine .of_uncounted hl ?_ ?_
  · rw [s.tlbFill_sameButTlb _ i]
  · rw [s.tlbFill_sameButTlb _ i]

theorem reloadPage_called {r : ℕ} (h : reloadPage a s.countFault = .ok r s') : r = 0 ∧ Called 0 s s' := by
  unfold reloadPage at h
  simp only [bind_ok_iff, read_ok_iff, update_ok_iff, pure_ok_iff] at h
  obtain ⟨_, _, ⟨rfl, rfl⟩, _, t, htlb, _, _, rfl, rfl, rfl⟩ := h
  have hcalled := addTLB_called htlb
  refine ⟨rfl, ?_, hcalled.procs, hcalled.calls, ?_, ?_⟩
  · exact IsTrans.trans _ _ _ (countFault_loading s) (IsTrans.trans _ _ _ hcalled.loading (.of_same rfl))
  · rw [t.countReload_excess, hcalled.excess, s.countFault_excess, UInt32.sub_add_cancel]
  · exact (hcalled.pages.trans s.countFault_pages : t.stats.pages = s.stats.pages)

theorem vmFault_serves (d : ℕ) (p : PageNo) (n : ℕ) : Serves p (vmFault d n) := by
  refine ⟨fun a s r s' ha hm hrun => ?_, fun a s r s' has hrun => has (readonly_ok hrun).1⟩
  rcases vmFault_write_ok (ha ▸ hm.row) hrun with ⟨hnone, -⟩ | hreload
  · exact absurd hnone hm.as
  · exact reloadPage_called hreload

theorem storeFrame_called (hf : Serves p fault) (ha : pageOf a = p) : ∀ {n : ℕ} {s : Kernel} {r : Option ℕ},
    Mapped p s → storeFrame fault a n s = .ok r s' → r.isSome = true ∧ Called 0 s s' := by
  intro n
  induction n with
  | zero => exact fun _ h => nomatch h
  | succ n ih =>
    intro s r hm h
    unfold storeFrame at h
    obtain ⟨access, _, hread, hrest⟩ := bind_ok_iff.mp h
    obtain ⟨haccess, rfl⟩ := read_ok_iff.mp hread
    cases access with
    | hit f =>
      obtain ⟨rfl, rfl⟩ := pure_ok_iff.mp hrest
      exact ⟨rfl, .refl _⟩
    | readonly =>
      obtain ⟨r', t, hfault, -⟩ := bind_ok_iff.mp hrest
      exact absurd hfault (hf.readonly a _ r' t hm.as)
    | miss =>
      obtain ⟨r', t, hfault, hrest⟩ := bind_ok_iff.mp hrest
      obtain ⟨rfl, hcalled⟩ := hf.write a _ r' t ha hm hfault
      rw [if_pos rfl] at hrest
      obtain ⟨hsome, hcalled'⟩ := ih (hcalled.mapped hm) hrest
      exact ⟨hsome, hcalled.trans hcalled'⟩

theorem copyout_called {dest len r : ℕ} (hf : Serves p fault) (hpage : pageOf dest = p) (hpos : 0 < len)
    (hlen : dest % pageSize + len ≤ pageSize) (hm : Mapped p s) (h : copyout tries fault dest len s = .ok r s') :
    Called 0 s s' ∧ (r = 0 ↔ ¬ badUserRange dest len) := by
  have hone : pagesTouched dest len = 1 := by
    unfold pagesTouched pageSize at *
    omega
  unfold copyout at h
  rw [hone] at h
  split at h
  · next hbad =>
    obtain ⟨rfl, rfl⟩ := pure_ok_iff.mp h
    exact ⟨.refl _, fun h0 => absurd h0 (by decide), fun hnot => absurd hbad hnot⟩
  · next hgood =>
    simp only [bind_ok_iff, update_ok_iff, pure_ok_iff, copyPages] at h
    obtain ⟨_, _, rfl, r', t, ⟨got, u, hstore, hrest⟩, _, _, rfl, rfl, rfl⟩ := h
    have hstart : Called 0 s { s with badfaultfunc := true } := .of_uncounted ⟨.of_same rfl, rfl⟩ rfl rfl
    obtain ⟨hsome, hcalled⟩ := storeFrame_called hf hpage (hstart.mapped hm) hstore
    obtain ⟨f, rfl⟩ := Option.isSome_iff_exists.mp hsome
    simp only [bind_ok_iff, update_ok_iff, pure_ok_iff] at hrest
    obtain ⟨_, _, rfl, rfl, rfl⟩ := hrest
    refine ⟨?_, fun _ => hgood, fun _ => rfl⟩
    have hlast : Called 0 u { u.copyPiece f 0 dest (min len (pageSize - dest % pageSize)) with badfaultfunc := false } :=
      .of_uncounted ⟨.of_same rfl, rfl⟩ rfl rfl
    exact (hstart.trans hcalled).trans hlast

end Stores

/-! ### Reads -/

section Reads

variable {move : ℕ → ℕ → Kern ℕ} {p : PageNo} {ok : Prop} {n base offset len : ℕ} {s s' : Kernel}

theorem Kernel.CallsOk.first {k : ℕ} (h : s.CallsOk s') (hk : 0 < k) (hcalls : s'.ioCount = s.ioCount + k) :
    s.ioResult s.ioCount = 0 :=
  h _ (Nat.le_refl _) (by omega)

theorem fillIobuf_called (s : Kernel) (file : File) (offset got : ℕ) : Called 0 s (s.fillIobuf file offset got) :=
  .of_uncounted ⟨.of_same rfl, rfl⟩ rfl rfl

theorem emufsRead_behind (hlen : 0 < len) (hend : s.cur.image.size ≤ offset) {x : ℕ × ℕ}
    (h : emufsRead move (n + 1) base offset len s = .ok x s') : ∃ k, Called k s s' ∧ x ≠ (0, 0) := by
  unfold emufsRead at h
  split at h
  · obtain ⟨rfl, rfl⟩ := pure_ok_iff.mp h
    exact ⟨0, .refl _, fun hx => absurd (congrArg Prod.snd hx) (by omega)⟩
  · obtain ⟨err, _, hcall, hrest⟩ := bind_ok_iff.mp h
    obtain ⟨-, rfl⟩ := vfsCall_ok hcall
    split at hrest
    · next hne =>
      obtain ⟨rfl, rfl⟩ := pure_ok_iff.mp hrest
      exact ⟨1, .vfsCall s, fun hx => absurd (congrArg Prod.fst hx) hne⟩
    · obtain ⟨file, _, hfile, hrest⟩ := bind_ok_iff.mp hrest
      obtain ⟨rfl, rfl⟩ := read_ok_iff.mp hfile
      obtain ⟨_, _, hfill, hrest⟩ := bind_ok_iff.mp hrest
      obtain rfl := update_ok_iff.mp hfill
      have hgot : min (min len emuMaxio) ((s.calls 1).cur.image.size - offset) = 0 := by
        rw [(Called.vfsCall s).cur_eq, Nat.sub_eq_zero_of_le hend]
        exact Nat.min_zero _
      rw [if_pos hgot] at hrest
      obtain ⟨rfl, rfl⟩ := pure_ok_iff.mp hrest
      exact ⟨1, (Called.vfsCall s).trans (fillIobuf_called _ _ _ _),
        fun hx => absurd (congrArg Prod.snd hx) (by omega)⟩

/-- **A read of few bytes.**  It returns them all if and only if its calls succeed, the file has them and they can be
moved; if the file has them, it makes one call. -/
theorem emufsRead_one (hlen : 0 < len) (hmax : len ≤ emuMaxio) (hoffset : offset < 2 ^ 32)
    (hmove : ∀ got t r t', 0 < got → got ≤ len → Mapped p t → move base got t = .ok r t' →
      Called 0 t t' ∧ (r = 0 ↔ ok))
    (hm : Mapped p s) {x : ℕ × ℕ} (h : emufsRead move (n + 2) base offset len s = .ok x s') :
    ∃ k, Called k s s' ∧ (x = (0, 0) ↔ s.CallsOk s' ∧ offset + len ≤ s.cur.image.size ∧ ok) ∧
      (offset + len ≤ s.cur.image.size → k = 1) := by
  unfold emufsRead at h
  rw [if_neg (by omega)] at h
  obtain ⟨err, _, hcall, hrest⟩ := bind_ok_iff.mp h
  obtain ⟨herr, rfl⟩ := vfsCall_ok hcall
  have hcalled := Called.vfsCall s
  split at hrest
  · next hne =>
    obtain ⟨rfl, rfl⟩ := pure_ok_iff.mp hrest
    refine ⟨1, hcalled, ⟨fun hx => absurd (congrArg Prod.fst hx) hne, fun hall => ?_⟩, fun _ => rfl⟩
    exact absurd (herr.trans (hall.1.first Nat.one_pos hcalled.calls)) hne
  · next hzero =>
    rw [not_not] at hzero
    obtain ⟨file, _, hfile, hrest⟩ := bind_ok_iff.mp hrest
    obtain ⟨rfl, rfl⟩ := read_ok_iff.mp hfile
    obtain ⟨_, _, hfill, hrest⟩ := bind_ok_iff.mp hrest
    obtain rfl := update_ok_iff.mp hfill
    set got := min (min len emuMaxio) ((s.calls 1).cur.image.size - offset) with hgot
    rw [Nat.min_eq_left hmax, hcalled.cur_eq] at hgot
    have hfilled := hcalled.trans (fillIobuf_called (s.calls 1) (s.calls 1).cur.image offset got)
    split at hrest
    · next h0 =>
      obtain ⟨rfl, rfl⟩ := pure_ok_iff.mp hrest
      refine ⟨1, hfilled, ⟨fun hx => absurd (congrArg Prod.snd hx) (by omega), fun hall => ?_⟩, fun _ => rfl⟩
      omega
    · next hpos =>
      obtain ⟨r, t, hmoved, hrest⟩ := bind_ok_iff.mp hrest
      obtain ⟨hcalled', hr⟩ := hmove got _ r t (Nat.pos_of_ne_zero hpos) (by omega) (hfilled.mapped hm) hmoved
      have hall := hfilled.trans hcalled'
      split at hrest
      · next hne =>
        obtain ⟨rfl, rfl⟩ := pure_ok_iff.mp hrest
        exact ⟨1, hall, ⟨fun hx => absurd (congrArg Prod.fst hx) hne, fun h => absurd (hr.mpr h.2.2) hne⟩, fun _ => rfl⟩
      · next hr0 =>
        rw [not_not] at hr0
        by_cases hfit : offset + len ≤ s.cur.image.size
        · -- everything was read, and the next round has nothing to do
          have heq : got = len := by omega
          unfold emufsRead at hrest
          rw [heq, Nat.sub_self, if_pos (.inl rfl)] at hrest
          obtain ⟨rfl, rfl⟩ := pure_ok_iff.mp hrest
          refine ⟨1, hall, ⟨fun _ => ⟨fun k hlow hhigh => ?_, hfit, hr.mp hr0⟩, fun _ => rfl⟩, fun _ => rfl⟩
          rw [hall.calls] at hhigh
          have hk : k = s.ioCount := by omega
          rw [hk, ← herr]
          exact hzero
        · have hend : t.cur.image.size ≤ offset + got := by
            rw [hall.cur_eq]
            omega
          obtain ⟨k, hlast, hx⟩ := emufsRead_behind (by omega) hend hrest
          exact ⟨1 + k, hall.trans hlast, ⟨fun h => absurd h hx, fun h => absurd h.2.1 hfit⟩, fun h => absurd h hfit⟩

theorem readKernel_called (hlen : 0 < len) (hmax : len ≤ emuMaxio) (hoffset : offset < 2 ^ 32) (hm : Mapped p s)
    {x : ℕ × ℕ} (h : readKernel offset len s = .ok x s') :
    ∃ k, Called k s s' ∧ (x = (0, 0) ↔ s.CallsOk s' ∧ offset + len ≤ s.cur.image.size) ∧
      (offset + len ≤ s.cur.image.size → k = 1) := by
  have hmove : ∀ got t r t', 0 < got → got ≤ len → Mapped p t → (pure 0 : Kern ℕ) t = .ok r t' →
      Called 0 t t' ∧ (r = 0 ↔ True) := by
    intro got t r t' _ _ _ hmove
    obtain ⟨rfl, rfl⟩ := pure_ok_iff.mp hmove
    exact ⟨.refl _, iff_of_true rfl trivial⟩
  obtain ⟨k, hcalled, hx, hone⟩ := emufsRead_one hlen hmax hoffset hmove hm h
  exact ⟨k, hcalled, hx.trans (by rw [and_true]), hone⟩

theorem badUserRange_page {start got : ℕ} (hstart : start % pageSize = 0) (hpos : 0 < got) (hgot : got ≤ pageSize) :
    ¬ badUserRange start got ↔ start < kseg0 := by
  unfold badUserRange
  unfold pageSize at *
  unfold kseg0
  omega

theorem readUser_called {fault : FaultHandler} {tries start : ℕ} (hf : Serves p fault) (hpage : pageOf start = p)
    (hstart : start % pageSize = 0) (hoffset : offset < 2 ^ 32) (hm : Mapped p s) {x : ℕ × ℕ}
    (h : readUser tries fault start offset pageSize s = .ok x s') :
    ∃ k, Called k s s' ∧ (x = (0, 0) ↔ s.CallsOk s' ∧ offset + pageSize ≤ s.cur.image.size ∧ start < kseg0) ∧
      (offset + pageSize ≤ s.cur.image.size → k = 1) := by
  refine emufsRead_one (p := p) (by decide) (by decide) hoffset (fun got t r t' hpos hgot hmt hmove => ?_) hm h
  obtain ⟨hcalled, hr⟩ := copyout_called hf hpage hpos (by rw [hstart]; omega) hmt hmove
  exact ⟨hcalled, hr.trans (badUserRange_page hstart hpos hgot)⟩

end Reads

/-! ### The page of a segment -/

/-- `k` calls into the file system were made by a load that may have noted where bss starts. -/
structure PageLoad (k : ℕ) (s s' : Kernel) : Prop where
  loading : Loading s s'
  calls : s'.ioCount = s.ioCount + k
  excess : s'.stats.excess = s.stats.excess
  pages : s'.stats.pages = s.stats.pages

theorem Called.pageLoad {k : ℕ} {s s' : Kernel} (h : Called k s s') : PageLoad k s s' :=
  ⟨h.loading, h.calls, h.excess, h.pages⟩

namespace PageLoad

variable {j k : ℕ} {s t u : Kernel}

theorem trans (h : PageLoad j s t) (h' : PageLoad k t u) : PageLoad (j + k) s u where
  loading := IsTrans.trans _ _ _ h.loading h'.loading
  calls := by rw [h'.calls, h.calls, Nat.add_assoc]
  excess := h'.excess.trans h.excess
  pages := h'.pages.trans h.pages

theorem image_eq (h : PageLoad k s t) : t.cur.image = s.cur.image := by
  have hcur : t.curproc = s.curproc := by rw [h.loading.same]
  unfold cur
  rw [hcur]
  exact (h.loading.proc s.curproc).2.1

theorem callsOk_iff (h : PageLoad j s t) (h' : PageLoad k t u) : s.CallsOk u ↔ s.CallsOk t ∧ t.CallsOk u := by
  have hj := h.calls
  have hk := h'.calls
  have hresult := h.loading.ioResult_eq
  constructor
  · intro hall
    refine ⟨fun i hlow hhigh => hall i hlow (by omega), fun i hlow hhigh => ?_⟩
    rw [hresult]
    exact hall i (by omega) hhigh
  · rintro ⟨hst, htu⟩ i hlow hhigh
    by_cases hi : i < t.ioCount
    · exact hst i hlow hi
    · rw [← hresult]
      exact htu i (by omega) hhigh

end PageLoad

theorem Kernel.callsOk_self (s : Kernel) : s.CallsOk s := fun _ hlow hhigh => absurd hhigh (Nat.not_lt.mpr hlow)

section Segments

variable {p : PageNo} {fault : FaultHandler} {tries start : ℕ} {s s' : Kernel} {as : Addrspace}

theorem mapas_getas (has : s.getas = some as) (f : Addrspace → Addrspace) : (s.mapas f).getas = some (f as) := by
  show (Function.update s.procs s.curproc { s.cur with addrspace := s.getas.map f } s.curproc).addrspace = _
  rw [Function.update_self, has]
  rfl

theorem noteBss_pageLoad (s : Kernel) (vaddr size : ℕ) : PageLoad 0 s (s.mapas fun as => as.noteBss vaddr size) :=
  ⟨mapas_loading s fun as => noteBss_regions as _ _, rfl, rfl, rfl⟩

theorem finishSegment_called {vaddr : ℕ} {u : Unit} (h : finishSegment vaddr s = .ok u s') : Called 0 s s' := by
  unfold finishSegment at h
  simp only [bind_ok_iff, read_ok_iff] at h
  obtain ⟨_, t, hremove, got, _, ⟨hgot, rfl⟩, hrest⟩ := h
  obtain rfl := update_ok_iff.mp hremove
  have hremoved : Called 0 s (s.tlbRemove (pageOf vaddr)) := by
    refine .of_uncounted (removeTLBv1_uncounted vaddr s () _ hremove) ?_ ?_
    · rw [s.tlbRemove_sameButTlb _]
    · rw [s.tlbRemove_sameButTlb _]
  cases got with
  | none => exact (stop_ok_iff.mp hrest).elim
  | some as =>
    simp only [bind_ok_iff, read_ok_iff] at hrest
    obtain ⟨_, u, hprotect, pid, _, ⟨-, rfl⟩, htlb⟩ := hrest
    have hprotected : Called 0 (s.tlbRemove (pageOf vaddr)) u := by
      rcases when_ok_iff.mp hprotect with ⟨-, hupd⟩ | ⟨-, rfl⟩
      · obtain rfl := update_ok_iff.mp hupd
        refine .of_uncounted (protectPage_uncounted _ vaddr) ?_ ?_ <;> unfold protectPage <;> split <;> rfl
      · exact .refl _
    exact (hremoved.trans hprotected).trans (addTLB_called htlb)

theorem loadSegment_called {offset r : ℕ} (hf : Serves p fault) (hpage : pageOf start = p)
    (hstart : start % pageSize = 0) (hoffset : offset < 2 ^ 32) (hm : Mapped p s) (has : s.getas = some as)
    (h : loadSegment tries fault offset start pageSize pageSize s = .ok r s') :
    ∃ k, PageLoad k s s' ∧ s'.getas = some (as.noteBss start pageSize) ∧
      (r = 0 ↔ s.CallsOk s' ∧ offset + pageSize ≤ s.cur.image.size ∧ start < kseg0) ∧
      (offset + pageSize ≤ s.cur.image.size → k = 1) := by
  unfold loadSegment at h
  rw [Nat.min_self] at h
  obtain ⟨_, t, hupd, hrest⟩ := bind_ok_iff.mp h
  obtain rfl := update_ok_iff.mp hupd
  have hnoted := noteBss_pageLoad s start pageSize
  have has' := mapas_getas has fun as => as.noteBss start pageSize
  obtain ⟨got, t, hread, hrest⟩ := bind_ok_iff.mp hrest
  have hmt : Mapped p (s.mapas fun as => as.noteBss start pageSize) :=
    ⟨hnoted.loading.hasRow hm.row, by rw [has']; exact Option.some_ne_none _⟩
  obtain ⟨k, hcalled, hgot, hone⟩ := readUser_called hf hpage hstart hoffset hmt hread
  rw [hnoted.image_eq] at hgot hone
  have hcalls : ∀ {v}, PageLoad 0 t v → (s.CallsOk v ↔ (s.mapas fun as => as.noteBss start pageSize).CallsOk t) := by
    intro v hv
    have hends : v.ioCount = t.ioCount := hv.calls
    unfold CallsOk
    rw [hends]
    rfl
  split at hrest
  · next hne =>
    obtain ⟨rfl, rfl⟩ := pure_ok_iff.mp hrest
    refine ⟨0 + k, hnoted.trans hcalled.pageLoad, hcalled.getas_eq.trans has', ⟨fun h0 => absurd h0 hne, fun hall => ?_⟩,
      fun hfit => by rw [hone hfit]⟩
    rw [hcalls (Called.refl t).pageLoad, ← hgot] at hall
    exact congrArg Prod.fst hall
  · next hzero =>
    rw [not_not] at hzero
    obtain ⟨_, v, hfinish, hrest⟩ := bind_ok_iff.mp hrest
    obtain ⟨rfl, rfl⟩ := pure_ok_iff.mp hrest
    have hfinished := finishSegment_called hfinish
    have hresult : (if got.2 ≠ 0 then enoexec else 0) = 0 ↔ got = (0, 0) := by
      rw [Prod.ext_iff]
      by_cases h2 : got.2 = 0
      · simp [hzero, h2]
      · simp [hzero, h2, enoexec]
    rw [hresult, hcalls hfinished.pageLoad, ← hgot]
    refine ⟨0 + (k + 0), hnoted.trans (hcalled.trans hfinished).pageLoad,
      hfinished.getas_eq.trans (hcalled.getas_eq.trans has'), Iff.rfl, fun hfit => ?_⟩
    rw [hone hfit]

end Segments

/-! ### The loops over the program headers -/

theorem Ehdr.phdrOffset_lt (eh : Ehdr) (i : ℕ) : eh.phdrOffset i < 2 ^ 32 := Nat.mod_lt _ (by decide)

/-- The header that comes next when `k + 1` are left. -/
def File.header (file : File) (k : ℕ) : Phdr := file.phdr (file.ehdr.phdrOffset (file.ehdr.phnum - (k + 1)))

/-- The last `k` headers. -/
def File.headers (file : File) : ℕ → List Phdr
  | 0 => []
  | k + 1 => file.header k :: file.headers k

/-- They are in the file. -/
def File.HasHeaders (file : File) (k : ℕ) : Prop :=
  ∀ j < k, file.ehdr.phdrOffset (file.ehdr.phnum - (j + 1)) + 32 ≤ file.size

theorem File.hasHeaders_succ {file : File} {k : ℕ} : file.HasHeaders (k + 1) ↔
    file.ehdr.phdrOffset (file.ehdr.phnum - (k + 1)) + 32 ≤ file.size ∧ file.HasHeaders k := by
  unfold File.HasHeaders
  rw [Nat.forall_lt_succ_right, and_comm]

section Headers

variable (file : File) (ok : Addrspace → Phdr → Prop) (cost : Addrspace → Phdr → ℕ)
  (next : Addrspace → Phdr → Addrspace)

/-- The headers are known, and the body's condition holds for those to be loaded; `next` is what the body makes of the
address space. -/
def headersOk : Addrspace → List Phdr → Prop
  | _, [] => True
  | as, ph :: rest =>
    match ph.kind with
    | .skip => headersOk as rest
    | .unknown => False
    | .load => ok as ph ∧ headersOk (next as ph) rest

/-- The calls for the headers: one for each, and those of the body. -/
def headersCost : Addrspace → List Phdr → ℕ
  | _, [] => 0
  | as, ph :: rest =>
    match ph.kind with
    | .load => headersCost (next as ph) rest + cost as ph + 1
    | _ => headersCost as rest + 1

/-- The address space after the headers. -/
def headersLast : Addrspace → List Phdr → Addrspace
  | as, [] => as
  | as, ph :: rest =>
    match ph.kind with
    | .load => headersLast (next as ph) rest
    | _ => headersLast as rest

theorem headersCost_pos {as : Addrspace} {ph : Phdr} {rest : List Phdr} :
    0 < headersCost cost next as (ph :: rest) := by
  cases hkind : ph.kind <;> simp only [headersCost, hkind] <;> omega

variable {p : PageNo} {body : Phdr → Kern ℕ}

theorem forPhdrs_called (hbody : ∀ ph as s r s', Mapped p s → s.getas = some as → s.cur.image = file →
      body ph s = .ok r s' → ∃ k, PageLoad k s s' ∧ s'.getas = some (next as ph) ∧
        (r = 0 ↔ s.CallsOk s' ∧ ok as ph) ∧ (ok as ph → k = cost as ph)) :
    ∀ {k : ℕ} {as : Addrspace} {s s' : Kernel} {r : ℕ}, Mapped p s → s.getas = some as → s.cur.image = file →
      forPhdrs file.ehdr body k s = .ok r s' → ∃ m, PageLoad m s s' ∧
        (r = 0 ↔ s.CallsOk s' ∧ file.HasHeaders k ∧ headersOk ok next as (file.headers k)) ∧
        (file.HasHeaders k → headersOk ok next as (file.headers k) →
          m ≤ headersCost cost next as (file.headers k)) ∧
        (r = 0 → m = headersCost cost next as (file.headers k) ∧
          s'.getas = some (headersLast next as (file.headers k))) := by
  intro k
  induction k with
  | zero =>
    intro as s s' r _ has _ h
    obtain ⟨rfl, rfl⟩ := pure_ok_iff.mp h
    exact ⟨0, (Called.refl _).pageLoad, ⟨fun _ => ⟨callsOk_self _, fun j hj => absurd hj (Nat.not_lt_zero j), trivial⟩, fun _ => rfl⟩,
      fun _ _ => Nat.le_refl 0, fun _ => ⟨rfl, has⟩⟩
  | succ k ih =>
    intro as s s' r hm has himage h
    unfold forPhdrs at h
    obtain ⟨got, t, hread, hrest⟩ := bind_ok_iff.mp h
    obtain ⟨j, hcalled, hgot, hone⟩ := readKernel_called (by decide) (by decide) (Ehdr.phdrOffset_lt _ _) hm hread
    rw [himage] at hgot hone
    have himage' : t.cur.image = file := hcalled.cur_eq ▸ himage
    have hmt := hcalled.mapped hm
    have hast := hcalled.getas_eq.trans has
    -- a header that is not read whole ends the loop
    have hunread : r ≠ 0 → s' = t → got ≠ (0, 0) → ∃ m, PageLoad m s s' ∧
        (r = 0 ↔ s.CallsOk s' ∧ file.HasHeaders (k + 1) ∧ headersOk ok next as (file.headers (k + 1))) ∧
        (file.HasHeaders (k + 1) → headersOk ok next as (file.headers (k + 1)) →
          m ≤ headersCost cost next as (file.headers (k + 1))) ∧
        (r = 0 → m = headersCost cost next as (file.headers (k + 1)) ∧
          s'.getas = some (headersLast next as (file.headers (k + 1)))) := by
      rintro hr rfl hne
      refine ⟨j, hcalled.pageLoad, ⟨fun h0 => absurd h0 hr, fun hall => absurd (hgot.mpr ⟨hall.1, ?_⟩) hne⟩,
        fun hheaders _ => ?_, fun h0 => absurd h0 hr⟩
      · exact (File.hasHeaders_succ.mp hall.2.1).1
      · rw [hone (File.hasHeaders_succ.mp hheaders).1]
        exact headersCost_pos _ _
    split at hrest
    · next hne =>
      obtain ⟨rfl, rfl⟩ := pure_ok_iff.mp hrest
      exact hunread hne rfl fun hx => hne (congrArg Prod.fst hx)
    · next hfirst =>
      rw [not_not] at hfirst
      split at hrest
      · next hne =>
        obtain ⟨rfl, rfl⟩ := pure_ok_iff.mp hrest
        exact hunread (by decide) rfl fun hx => hne (congrArg Prod.snd hx)
      · next hsecond =>
        rw [not_not] at hsecond
        have hread : got = (0, 0) := Prod.ext hfirst hsecond
        obtain ⟨hcallsOk, hsize⟩ := hgot.mp hread
        obtain rfl := hone hsize
        obtain ⟨ph, _, hreadPh, hrest⟩ := bind_ok_iff.mp hrest
        obtain ⟨hph, rfl⟩ := read_ok_iff.mp hreadPh
        have hheader : ph = file.header k := by
          rw [← hph, himage', File.header]
        -- only its kind matters from here on
        rw [File.headers, ← hheader, File.hasHeaders_succ]
        clear hheader hph hreadPh
        cases hkind : ph.kind with
        | skip =>
          rw [hkind] at hrest
          obtain ⟨m, hload, hr, hle, hlast⟩ := ih hmt hast himage' hrest
          simp only [headersOk, headersCost, headersLast, hkind]
          refine ⟨1 + m, hcalled.pageLoad.trans hload, ?_, fun hheaders hok => ?_, fun h0 => ⟨?_, (hlast h0).2⟩⟩
          · rw [hr, hcalled.pageLoad.callsOk_iff hload]
            exact ⟨fun h => ⟨⟨hcallsOk, h.1⟩, ⟨hsize, h.2.1⟩, h.2.2⟩, fun h => ⟨h.1.2, h.2.1.2, h.2.2⟩⟩
          · have := hle hheaders.2 hok
            omega
          · rw [(hlast h0).1, Nat.add_comm]
        | unknown =>
          rw [hkind] at hrest
          obtain ⟨rfl, rfl⟩ := pure_ok_iff.mp hrest
          simp only [headersOk, hkind]
          exact ⟨1, hcalled.pageLoad, ⟨fun h0 => absurd h0 (by decide), fun hall => hall.2.2.elim⟩,
            fun _ hok => hok.elim, fun h0 => absurd h0 (by decide)⟩
        | load =>
          rw [hkind] at hrest
          obtain ⟨r', v, hrun, hrest⟩ := bind_ok_iff.mp hrest
          obtain ⟨k', hload, hasv, hr', hcost⟩ := hbody _ _ _ _ _ hmt hast himage' hrun
          simp only [headersOk, headersCost, headersLast, hkind]
          have hboth := hcalled.pageLoad.trans hload
          have hcalls := hcalled.pageLoad.callsOk_iff hload
          split at hrest
          · next hne =>
            obtain ⟨rfl, rfl⟩ := pure_ok_iff.mp hrest
            refine ⟨1 + k', hboth, ⟨fun h0 => absurd h0 hne, fun hall => hr'.mpr ⟨(hcalls.mp hall.1).2, hall.2.2.1⟩⟩,
              fun _ hok => ?_, fun h0 => absurd h0 hne⟩
            rw [hcost hok.1]
            omega
          · next hzero =>
            rw [not_not] at hzero
            have hmv : Mapped p v := ⟨hload.loading.hasRow hmt.row, by rw [hasv]; exact Option.some_ne_none _⟩
            obtain ⟨m, hload', hr, hle, hlast⟩ := ih hmv hasv (hload.image_eq.trans himage') hrest
            obtain ⟨hcallsOk', hok⟩ := hr'.mp hzero
            rw [hcost hok] at hboth
            refine ⟨1 + cost as ph + m, hboth.trans hload', ?_, fun hheaders hall => ?_, fun h0 => ⟨?_, (hlast h0).2⟩⟩
            · rw [hr, hboth.callsOk_iff hload', hcalls]
              exact ⟨fun h => ⟨⟨⟨hcallsOk, hcallsOk'⟩, h.1⟩, ⟨hsize, h.2.1⟩, hok, h.2.2⟩,
                fun h => ⟨h.1.2, h.2.1.2, h.2.2.2⟩⟩
            · have := hle hheaders.2 hall.2
              omega
            · rw [(hlast h0).1]
              omega

end Headers

/-! ### The load -/

theorem File.headers_length (file : File) (k : ℕ) : (file.headers k).length = k := by
  induction k with
  | zero => rfl
  | succ k ih => rw [File.headers, List.length_cons, ih]

section Defining

variable {ok : Addrspace → Phdr → Prop} {next : Addrspace → Phdr → Addrspace}

theorem headersOk_define {l : List Phdr} : ∀ {as bs : Addrspace}, headersOk ok next as l →
    headersOk (fun _ _ => True) (fun as _ => as) bs l := by
  induction l with
  | nil => exact fun _ => trivial
  | cons ph rest ih =>
    intro as bs h
    cases hkind : ph.kind with
    | skip =>
      simp only [headersOk, hkind] at h ⊢
      exact ih h
    | unknown => simp only [headersOk, hkind] at h
    | load =>
      simp only [headersOk, hkind] at h ⊢
      exact ⟨trivial, ih h.2⟩

theorem headersCost_define (as : Addrspace) (l : List Phdr) :
    headersCost (fun _ _ => 0) (fun as _ => as) as l = l.length := by
  induction l with
  | nil => rfl
  | cons ph rest ih => cases hkind : ph.kind <;> simp only [headersCost, hkind, ih, List.length_cons, Nat.add_zero]

theorem headersLast_define (as : Addrspace) (l : List Phdr) : headersLast (fun as _ => as) as l = as := by
  induction l with
  | nil => rfl
  | cons ph rest ih => cases hkind : ph.kind <;> simp only [headersLast, hkind, ih]

end Defining

/-- Where in the file the page at `start` is looked for. -/
def Phdr.pageOffset (ph : Phdr) (start : ℕ) : ℕ := (ph.offset + (start + 2 ^ 32 - ph.vaddr)) % 2 ^ 32

namespace Addrspace

/-- A header that supplies the page has it in the file. -/
def PageRead (file : File) (start : ℕ) (as : Addrspace) (ph : Phdr) : Prop :=
  as.Supplies ph start → ph.pageOffset start + pageSize ≤ file.size ∧ start < kseg0

/-- The reads of a page for a header. -/
def pageReads (start : ℕ) (as : Addrspace) (ph : Phdr) : ℕ := if as.Supplies ph start then 1 else 0

/-- The address space after the header. -/
def pageNoted (start : ℕ) (as : Addrspace) (ph : Phdr) : Addrspace :=
  if as.Supplies ph start then as.noteBss start pageSize else as

end Addrspace

/-- What `load_elf` needs for the page at `start`, apart from calls that succeed. -/
structure DemandOk (file : File) (as : Addrspace) (start : ℕ) : Prop where
  header : 52 ≤ file.size
  elf : file.IsElf
  headers : file.HasHeaders file.ehdr.phnum
  loaded : headersOk (Addrspace.PageRead file start) (Addrspace.pageNoted start) as (file.headers file.ehdr.phnum)

/-- The calls of a load that succeeds: the header, every program header twice, and the reads of the page. -/
def demandCalls (file : File) (as : Addrspace) (start : ℕ) : ℕ :=
  1 + file.ehdr.phnum +
    headersCost (Addrspace.pageReads start) (Addrspace.pageNoted start) as (file.headers file.ehdr.phnum)

section Load

variable {p : PageNo} {fault : FaultHandler} {d tries start r : ℕ} {s s' : Kernel} {as : Addrspace} {file : File}

theorem definePhdr_called {ph : Phdr} (hstart : start ≠ 0) (h : definePhdr d start ph s = .ok r s') :
    r = 0 ∧ s' = s := by
  unfold definePhdr at h
  obtain ⟨_, t, hwhen, hrest⟩ := bind_ok_iff.mp h
  obtain ⟨rfl, rfl⟩ := pure_ok_iff.mp hrest
  rcases when_ok_iff.mp hwhen with ⟨h0, -⟩ | ⟨-, rfl⟩
  · exact absurd h0 hstart
  · exact ⟨rfl, rfl⟩

theorem loadPhdr_called {ph : Phdr} (hf : Serves p fault) (hpage : pageOf start = p) (haligned : start % pageSize = 0)
    (hstart : start ≠ 0) (hm : Mapped p s) (has : s.getas = some as) (himage : s.cur.image = file)
    (h : loadPhdr tries fault start 1 ph s = .ok r s') :
    ∃ k, PageLoad k s s' ∧ s'.getas = some (as.pageNoted start ph) ∧
      (r = 0 ↔ s.CallsOk s' ∧ as.PageRead file start ph) ∧ (as.PageRead file start ph → k = as.pageReads start ph) := by
  unfold loadPhdr at h
  obtain ⟨got, _, hread, hrest⟩ := bind_ok_iff.mp h
  obtain ⟨hgot, rfl⟩ := read_ok_iff.mp hread
  rw [has] at hgot
  subst hgot
  simp only [if_neg hstart, Nat.one_mul] at hrest
  unfold Addrspace.pageNoted Addrspace.PageRead Addrspace.pageReads
  by_cases hsupplies : as.Supplies ph start
  · rw [if_pos hsupplies] at hrest
    obtain ⟨k, hload, has', hr, hone⟩ := loadSegment_called hf hpage haligned (Nat.mod_lt _ (by decide)) hm has hrest
    rw [himage] at hr hone
    simp only [if_pos hsupplies]
    refine ⟨k, hload, has', hr.trans ?_, fun h => hone (h hsupplies).1⟩
    exact and_congr_right fun _ => ⟨fun h _ => h, fun h => h hsupplies⟩
  · rw [if_neg hsupplies] at hrest
    obtain ⟨rfl, rfl⟩ := pure_ok_iff.mp hrest
    rw [if_neg hsupplies, if_neg hsupplies]
    exact ⟨0, (Called.refl _).pageLoad, has,
      ⟨fun _ => ⟨callsOk_self _, fun h => absurd h hsupplies⟩, fun _ => rfl⟩, fun _ => rfl⟩

theorem demandLoops_called {t : Kernel} {result : Except ℕ ℕ} (hf : Serves p fault) (hpage : pageOf start = p)
    (haligned : start % pageSize = 0) (hstart : start ≠ 0) (hcalled : Called 1 s t) (hcallsOk : s.CallsOk t)
    (hmt : Mapped p t) (hast : t.getas = some as) (himage : t.cur.image = file) (hsize : 52 ≤ file.size)
    (helf : file.IsElf) (h : (do
      let defined ← forPhdrs file.ehdr (definePhdr d start) file.ehdr.phnum
      if defined ≠ 0 then pure (.error defined)
      else do
        Prog.when (start = 0) (asPrepareLoad d)
        let loaded ← forPhdrs file.ehdr (loadPhdr tries fault start 1) file.ehdr.phnum
        if loaded ≠ 0 then pure (.error loaded) else pure (.ok file.ehdr.entry) : Kern (Except ℕ ℕ)) t =
          .ok result s') :
    ∃ k, PageLoad k s s' ∧ ((∃ entry, result = .ok entry) ↔ s.CallsOk s' ∧ DemandOk file as start) ∧
      (DemandOk file as start → k ≤ demandCalls file as start) ∧
      ((∃ entry, result = .ok entry) → k = demandCalls file as start) := by
  obtain ⟨defined, u, hdefine, hrest⟩ := bind_ok_iff.mp h
  obtain ⟨m, hload, hdefined, hle, hlast⟩ := forPhdrs_called _ (fun _ _ => True) (fun _ _ => 0) (fun as _ => as)
    (fun ph as s r s' _ has _ hrun => by
      obtain ⟨rfl, rfl⟩ := definePhdr_called hstart hrun
      exact ⟨0, (Called.refl _).pageLoad, has, ⟨fun _ => ⟨callsOk_self _, trivial⟩, fun _ => rfl⟩,
        fun _ => rfl⟩) hmt hast himage hdefine
  rw [headersCost_define, File.headers_length] at hle hlast
  rw [headersLast_define] at hlast
  have hboth := hcalled.pageLoad.trans hload
  have hcalls := hcalled.pageLoad.callsOk_iff hload
  split at hrest
  · next hne =>
    obtain ⟨rfl, rfl⟩ := pure_ok_iff.mp hrest
    refine ⟨1 + m, hboth, ⟨fun h => (by cases h.choose_spec), fun hall => ?_⟩, fun hok => ?_, fun h => by cases h.choose_spec⟩
    · exact absurd (hdefined.mpr ⟨(hcalls.mp hall.1).2, hall.2.headers, headersOk_define hall.2.loaded⟩) hne
    · have := hle hok.headers (headersOk_define hok.loaded)
      unfold demandCalls
      omega
  · next hzero =>
    rw [not_not] at hzero
    obtain ⟨rfl, hasu⟩ := hlast hzero
    obtain ⟨hcallsOk', hheaders, -⟩ := hdefined.mp hzero
    have hmu : Mapped p u := ⟨hload.loading.hasRow hmt.row, by rw [hasu]; exact Option.some_ne_none _⟩
    obtain ⟨_, _, hwhen, hsecond⟩ := bind_ok_iff.mp hrest
    rcases when_ok_iff.mp hwhen with ⟨h0, -⟩ | ⟨-, rfl⟩
    · exact absurd h0 hstart
    obtain ⟨loaded, v, hrun, hend⟩ := bind_ok_iff.mp hsecond
    obtain ⟨m, hload', hloaded, hle', hlast'⟩ := forPhdrs_called _ (Addrspace.PageRead file start)
      (Addrspace.pageReads start) (Addrspace.pageNoted start)
      (fun ph as s r s' hm has himage hrun => loadPhdr_called hf hpage haligned hstart hm has himage hrun)
      hmu hasu (hload.image_eq.trans himage) hrun
    have hall := hboth.trans hload'
    have hcalls' := hboth.callsOk_iff hload'
    have hbound : DemandOk file as start → 1 + file.ehdr.phnum + m ≤ demandCalls file as start := fun hok =>
      Nat.add_le_add_left (hle' hok.headers hok.loaded) _
    split at hend
    · next hne =>
      obtain ⟨rfl, rfl⟩ := pure_ok_iff.mp hend
      refine ⟨_, hall, ⟨fun h => (by cases h.choose_spec), fun h => ?_⟩, hbound, fun h => by cases h.choose_spec⟩
      exact absurd (hloaded.mpr ⟨(hcalls'.mp h.1).2, h.2.headers, h.2.loaded⟩) hne
    · next hzero' =>
      rw [not_not] at hzero'
      obtain ⟨rfl, rfl⟩ := pure_ok_iff.mp hend
      obtain ⟨hcallsOk'', -, hok⟩ := hloaded.mp hzero'
      refine ⟨_, hall, ⟨fun _ => ⟨?_, hsize, helf, hheaders, hok⟩, fun _ => ⟨_, rfl⟩⟩, hbound, fun _ => ?_⟩
      · exact hcalls'.mpr ⟨hcalls.mpr ⟨hcallsOk, hcallsOk'⟩, hcallsOk''⟩
      · rw [(hlast' hzero').1]
        rfl

/-- The `k` calls from number `i` on succeed. -/
def Kernel.AnswersOk (s : Kernel) (i k : ℕ) : Prop := ∀ j, i ≤ j → j < i + k → s.ioResult j = 0

/-- **The load of one page** succeeds if and only if the file has the page and the calls for it succeed; then the number
of calls is known. -/
theorem demandLoad_called {result : Except ℕ ℕ} (hf : Serves p fault) (hpage : pageOf start = p)
    (haligned : start % pageSize = 0) (hstart : start ≠ 0) (hm : Mapped p s) (has : s.getas = some as)
    (himage : s.cur.image = file) (h : loadElf d tries fault start 1 s = .ok result s') :
    ∃ k, PageLoad k s s' ∧
      ((∃ entry, result = .ok entry) ↔ DemandOk file as start ∧ s.AnswersOk s.ioCount (demandCalls file as start)) ∧
      ((∃ entry, result = .ok entry) → k = demandCalls file as start) := by
  suffices hkey : ∃ k, PageLoad k s s' ∧ ((∃ entry, result = .ok entry) ↔ s.CallsOk s' ∧ DemandOk file as start) ∧
      (DemandOk file as start → k ≤ demandCalls file as start) ∧
      ((∃ entry, result = .ok entry) → k = demandCalls file as start) by
    obtain ⟨k, hload, hresult, hle, hcount⟩ := hkey
    refine ⟨k, hload, ⟨fun hok => ⟨(hresult.mp hok).2, fun j hlow hhigh => ?_⟩, fun ⟨hok, hanswers⟩ => ?_⟩, hcount⟩
    · refine (hresult.mp hok).1 j hlow ?_
      rw [hload.calls, hcount hok]
      exact hhigh
    · refine hresult.mpr ⟨fun j hlow hhigh => hanswers j hlow ?_, hok⟩
      rw [hload.calls] at hhigh
      exact Nat.lt_of_lt_of_le hhigh (Nat.add_le_add_left (hle hok) _)
  unfold loadElf at h
  obtain ⟨header, t, hread, hrest⟩ := bind_ok_iff.mp h
  obtain ⟨j, hcalled, hheader, hone⟩ := readKernel_called (by decide) (by decide) (by decide) hm hread
  rw [himage, Nat.zero_add] at hheader hone
  have himage' : t.cur.image = file := hcalled.cur_eq ▸ himage
  have hmt := hcalled.mapped hm
  have hast := hcalled.getas_eq.trans has
  -- what fails before the loops
  have hearly : ∀ e, result = .error e → s' = t → ¬ (s.CallsOk t ∧ 52 ≤ file.size ∧ file.IsElf) →
      ∃ k, PageLoad k s s' ∧ ((∃ entry, result = .ok entry) ↔ s.CallsOk s' ∧ DemandOk file as start) ∧
        (DemandOk file as start → k ≤ demandCalls file as start) ∧
        ((∃ entry, result = .ok entry) → k = demandCalls file as start) := by
    rintro e rfl rfl hnot
    refine ⟨j, hcalled.pageLoad, ⟨fun ⟨_, h⟩ => (nomatch h), fun hall => ?_⟩, fun hok => ?_, fun ⟨_, h⟩ => (nomatch h)⟩
    · exact absurd ⟨hall.1, hall.2.header, hall.2.elf⟩ hnot
    · rw [hone hok.header]
      unfold demandCalls
      omega
  split at hrest
  · next hne =>
    obtain ⟨rfl, rfl⟩ := pure_ok_iff.mp hrest
    exact hearly _ rfl rfl fun hall => hne (congrArg Prod.fst (hheader.mpr ⟨hall.1, hall.2.1⟩))
  · next hfirst =>
    rw [not_not] at hfirst
    split at hrest
    · next hne =>
      obtain ⟨rfl, rfl⟩ := pure_ok_iff.mp hrest
      exact hearly _ rfl rfl fun hall => hne (congrArg Prod.snd (hheader.mpr ⟨hall.1, hall.2.1⟩))
    · next hsecond =>
      rw [not_not] at hsecond
      obtain ⟨hcallsOk, hsize⟩ := hheader.mp (Prod.ext hfirst hsecond)
      obtain rfl := hone hsize
      obtain ⟨got, _, hget, hrest⟩ := bind_ok_iff.mp hrest
      obtain ⟨hfile, rfl⟩ := read_ok_iff.mp hget
      rw [himage'] at hfile
      subst hfile
      split at hrest
      · next helf => exact demandLoops_called hf hpage haligned hstart hcalled hcallsOk hmt hast himage' hsize helf hrest
      · next helf =>
        obtain ⟨rfl, rfl⟩ := pure_ok_iff.mp hrest
        exact hearly _ rfl rfl fun hall => helf hall.2.2

end Load

end Os161Kernel
