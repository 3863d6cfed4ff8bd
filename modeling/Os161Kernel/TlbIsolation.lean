import Os161Kernel.FrameOps
import Os161Kernel.TlbPermission

/-!
# TLB isolation across context switches

The TLB has no address space identifiers, so `as_activate` must empty it when another process takes the
processor.  It compares the new pid with the remembered owner `TLB_PID`, a `_Bool`: after any process has
been activated the remembered value is 1, and process 1 is taken for the owner whoever it was.

Runs here are sequences of context switches, `addTLB` for the current process, `removeTLBv1`,
`free_kpages` and `as_destroy`.  The trace remembers the pid that was activated last.  With `Meets`,
which leaves out a switch to pid 1 from another owner, a second mapping of the page in slot 0, and pages of
the kernel's half, the TLB only ever holds valid rows of the process that was activated last.
-/

namespace Os161Kernel

open StateProg Search Runs Function Kernel

/-! ### The TLB of one owner -/

/-- What the TLB may hold while `owner` was the last one activated: invalid slots have kernel pages, valid
slots map user pages by valid rows of the owner, and no page twice. -/
structure TlbOwned (owner : Option UInt8) (s : Kernel) : Prop where
  invalid : ∀ k < numTLB, (s.tlb k).valid = false → 0x80000 ≤ (s.tlb k).vpage.val
  mapped : ∀ k < numTLB, (s.tlb k).valid = true → (s.tlb k).vpage.val < 0x80000 ∧
    ∃ o, owner = some o ∧ o ≠ 0 ∧ s.Maps (s.tlb k).vpage o (s.tlb k).frame
  unique : ∀ j < numTLB, ∀ k < numTLB, (s.tlb j).valid = true → (s.tlb k).valid = true →
    (s.tlb j).vpage = (s.tlb k).vpage → j = k

variable {k : ℕ} {owner : Option UInt8} {u : Unit}

theorem tlbInvalid_vpage (hk : k < numTLB) : (tlbInvalid k).vpage.val = 0x80000 + k := by
  show (0x80000 + k) % 2 ^ 20 = _
  unfold numTLB at hk
  omega

variable {s : Kernel}

theorem TlbOwned.of_clear (owner : Option UInt8) (h : s.tlb = tlbInvalid) :
    TlbOwned owner s := by
  constructor
  · intro k hk _
    rw [h, tlbInvalid_vpage hk]
    omega
  · intro k _ hv
    rw [h] at hv
    exact nomatch hv
  · intro j _ k _ hv
    rw [h] at hv
    exact nomatch hv

variable {s' : Kernel}

theorem TlbOwned.of_rows (h : TlbOwned owner s)
    (htlb : s'.tlb = s.tlb)
    (hrows : ∀ k < numTLB, (s.tlb k).valid = true →
      s'.mainPG (s.tlb k).frame = s.mainPG (s.tlb k).frame) : TlbOwned owner s' := by
  constructor
  · rw [htlb]
    exact h.invalid
  · intro k hk hv
    rw [htlb] at hv ⊢
    obtain ⟨hlow, o, ho, hne, hmaps⟩ := h.mapped k hk hv
    refine ⟨hlow, o, ho, hne, ?_⟩
    unfold Maps Valid at *
    rw [hrows k hk hv]
    exact hmaps
  · rw [htlb]
    exact h.unique

namespace Kernel

theorem tlbRemove_tlb (s : Kernel) (p : PageNo) (k : ℕ) :
    (s.tlbRemove p).tlb k = if s.tlbProbe p = some k then tlbInvalid k else s.tlb k := by
  unfold tlbRemove
  cases h : s.tlbProbe p with
  | none => rfl
  | some j =>
    show update s.tlb j (tlbInvalid j) k = _
    by_cases hk : k = j
    · rw [hk, update_self, if_pos rfl]
    · rw [update_of_ne hk, if_neg fun e => hk (Option.some.inj e).symm]

theorem tlbRemove_mainPG (s : Kernel) (p : PageNo) : (s.tlbRemove p).mainPG = s.mainPG := by
  rw [s.tlbRemove_sameButTlb p]

end Kernel

theorem TlbOwned.tlbRemove (h : TlbOwned owner s) (p : PageNo) :
    TlbOwned owner (s.tlbRemove p) := by
  have hslot : ∀ k < numTLB, ((s.tlbRemove p).tlb k).valid = true → (s.tlbRemove p).tlb k = s.tlb k := by
    intro k _ hv
    rw [s.tlbRemove_tlb p k] at hv ⊢
    by_cases hk : s.tlbProbe p = some k
    · rw [if_pos hk] at hv
      exact nomatch hv
    · rw [if_neg hk]
  constructor
  · intro k hk hv
    rw [s.tlbRemove_tlb p k] at hv ⊢
    by_cases hp : s.tlbProbe p = some k
    · rw [if_pos hp, tlbInvalid_vpage hk]
      omega
    · rw [if_neg hp] at hv ⊢
      exact h.invalid k hk hv
  · intro k hk hv
    have heq := hslot k hk hv
    rw [heq] at hv ⊢
    obtain ⟨hlow, o, ho, hne, hmaps⟩ := h.mapped k hk hv
    refine ⟨hlow, o, ho, hne, ?_⟩
    unfold Maps Valid at *
    rw [s.tlbRemove_mainPG]
    exact hmaps
  · intro j hj k hk hvj hvk heq
    have hj' := hslot j hj hvj
    have hk' := hslot k hk hvk
    rw [hj'] at hvj heq
    rw [hk'] at hvk heq
    exact h.unique j hj k hk hvj hvk heq

theorem TlbOwned.tlbRemove_gone (h : TlbOwned owner s) {p : PageNo}
    (hp : p.val < 0x80000) (hk : k < numTLB) (hv : ((s.tlbRemove p).tlb k).valid = true) :
    ((s.tlbRemove p).tlb k).vpage ≠ p := by
  rw [s.tlbRemove_tlb p k] at hv ⊢
  by_cases hprobe : s.tlbProbe p = some k
  · rw [if_pos hprobe] at hv
    exact nomatch hv
  · rw [if_neg hprobe] at hv ⊢
    intro hvp
    -- the probe stops at the first slot with the page: an earlier one is valid too, hence this one
    obtain ⟨j, hj⟩ : ∃ j, s.tlbProbe p = some j :=
      Option.isSome_iff_exists.mp (firstBelow_isSome.mpr ⟨k, hk, hvp⟩)
    have hjp : (s.tlb j).vpage = p := prop_of_firstBelow hj
    have hjlt : j < numTLB := lt_of_firstBelow hj
    have hjv : (s.tlb j).valid = true := by
      by_contra hne
      have hhigh := h.invalid j hjlt (Bool.not_eq_true _ ▸ hne)
      rw [hjp] at hhigh
      omega
    have hjk := h.unique j hjlt k hk hjv hv (hjp.trans hvp.symm)
    exact hprobe (hjk ▸ hj)

/-- A move of the allocator keeps the owner: a frame that is popped was in no slot, and a released user frame
leaves the TLB with it. -/
theorem TlbOwned.move {F F' : List ℕ}
    (hm : Move (F, s) (F', s')) (h : TlbOwned owner s) : TlbOwned owner s' := by
  cases hm with
  | @pop _ _ node _ hl hlt hv =>
    refine h.of_rows rfl fun k hk hvalid => ?_
    obtain ⟨_, _, _, _, hmaps⟩ := h.mapped k hk hvalid
    have hne : (s.tlb k).frame ≠ node.frameNumber := fun heq => hv (heq ▸ hmaps.1)
    exact update_of_ne hne _ _
  | @release _ _ f hlt hv =>
    by_cases hpid : (s.mainPG f).pid ≠ 0
    · have hR := h.tlbRemove (s.mainPG f).pageNumber
      refine TlbOwned.of_rows hR ?_ fun k hk hvalid => ?_
      · unfold release
        rw [if_pos hpid]
      · obtain ⟨hlow, _, _, _, hmaps⟩ := hR.mapped k hk hvalid
        have hne : ((s.tlbRemove (s.mainPG f).pageNumber).tlb k).frame ≠ f := by
          intro heq
          unfold Maps at hmaps
          rw [heq, s.tlbRemove_mainPG] at hmaps
          rw [← hmaps.2.1] at hlow
          exact h.tlbRemove_gone hlow hk hvalid hmaps.2.1.symm
        rw [s.tlbRemove_mainPG]
        exact update_of_ne hne _ _
    · refine h.of_rows ?_ fun k hk hvalid => ?_
      · unfold release
        rw [if_neg hpid]
      · obtain ⟨_, o, _, hne, hmaps⟩ := h.mapped k hk hvalid
        refine update_of_ne (fun heq => ?_) _ _
        rw [heq] at hmaps
        exact hpid (hmaps.2.2 ▸ hne)
  | push hp =>
    refine h.of_rows ?_ fun k hk _ => ?_
    · rw [hp.same]
    · rw [hp.same]
  | heap hs =>
    refine h.of_rows ?_ fun k hk _ => ?_
    · rw [hs]
    · rw [hs]

theorem TlbOwned.moves (hm : Moves s s') (h : TlbOwned owner s) :
    TlbOwned owner s' :=
  hm.invariant (P := TlbOwned owner) (fun _ _ _ _ hstep hs => hs.move hstep) h

theorem TlbOwned.addTLB {o : UInt8} {v : ℕ} (h : TlbOwned (some o) s)
    (ho : o ≠ 0) (hv : v < kseg0) (hslot : s.tlbProbe (pageOf v) ≠ some 0)
    (hadd : addTLB v o s = .ok u s') : TlbOwned (some o) s' := by
  obtain ⟨i, hrow, hprobe, rfl⟩ := addTLB_ok_iff.mp hadd
  have hnew : s.tlbProbe (pageOf v) = none := by
    cases hp : s.tlbProbe (pageOf v) with
    | none => rfl
    | some k =>
      rw [hp, Option.getD_some] at hprobe
      rw [hp, hprobe] at hslot
      exact absurd rfl hslot
  have hpage : (pageOf v).val < 0x80000 := by
    unfold pageOf kseg0 pageSize at *
    rw [Fin.val_ofNat]
    omega
  have hmaps : s.Maps (pageOf v) o i := prop_of_firstBelow hrow
  have hrows : ∀ q f, (s.tlbFill (pageOf v) i).Maps q o f ↔ s.Maps q o f := by
    intro q f
    unfold Maps Valid
    rw [s.tlbFill_mainPG]
  constructor
  · intro k hk hvalid
    rw [s.tlbFill_tlb] at hvalid ⊢
    by_cases hkf : k = s.filledSlot
    · rw [hkf, update_self] at hvalid
      exact nomatch hvalid
    · rw [update_of_ne hkf] at hvalid ⊢
      exact h.invalid k hk hvalid
  · intro k hk hvalid
    rw [s.tlbFill_tlb] at hvalid ⊢
    by_cases hkf : k = s.filledSlot
    · rw [hkf, update_self]
      exact ⟨hpage, o, rfl, ho, (hrows _ _).mpr hmaps⟩
    · rw [update_of_ne hkf] at hvalid ⊢
      obtain ⟨hlow, o', ho', hne, hm⟩ := h.mapped k hk hvalid
      obtain rfl := Option.some.inj ho'
      exact ⟨hlow, o, rfl, hne, (hrows _ _).mpr hm⟩
  · intro j hj k hk hvj hvk heq
    by_cases hjf : j = s.filledSlot
    · have hjp := (tlbFill_vpage_iff (i := i) hnew hj).mpr hjf
      rw [hjp] at heq
      rw [hjf, (tlbFill_vpage_iff hnew hk).mp heq.symm]
    · by_cases hkf : k = s.filledSlot
      · have hkp := (tlbFill_vpage_iff (i := i) hnew hk).mpr hkf
        rw [hkp] at heq
        rw [hkf, (tlbFill_vpage_iff hnew hj).mp heq]
      · rw [s.tlbFill_tlb, update_of_ne hjf] at hvj heq
        rw [s.tlbFill_tlb, update_of_ne hkf] at hvk
        rw [update_of_ne hkf] at heq
        exact h.unique j hj k hk hvj hvk heq

/-! ### Runs with context switches -/

/-- The operations, each on the current process. -/
inductive SwitchOp where
  | switchTo (n : ℕ)
  | addTLB (v : ℕ)
  | removeTLBv1 (v : ℕ)
  | freeKpages (paddr : ℕ)
  | asDestroy (as : Addrspace)

/-- The kernel with the pid that was activated last. -/
structure OwnerTrace where
  kernel : Kernel
  owner : Option UInt8

namespace SwitchOp

def run (d : ℕ) : SwitchOp → Kern Unit
  | switchTo n => Os161Kernel.switchTo n
  | addTLB v => do
    let pid ← .read curPid
    Os161Kernel.addTLB v pid
  | removeTLBv1 v => Os161Kernel.removeTLBv1 v
  | freeKpages a => Os161Kernel.freeKpages d a
  | asDestroy as => Os161Kernel.asDestroy d as

/-- The paging code maps pages only for a process with an address space. -/
def Issued (s : Kernel) : SwitchOp → Bool
  | addTLB _ => s.getas.isSome
  | _ => true

/-- A switch to a process with an address space makes it the last one activated. -/
def ownerAfter (t : OwnerTrace) : SwitchOp → Option UInt8
  | switchTo n => if (t.kernel.procs n).addrspace.isSome then some (t.kernel.procs n).pid else t.owner
  | _ => t.owner

/-- Process 1 is switched to only from no owner or from itself; a page is mapped only if it is a user page
and not in slot 0 already. -/
def Meets (t : OwnerTrace) : SwitchOp → Prop
  | switchTo n => (t.kernel.procs n).addrspace.isSome = true → (t.kernel.procs n).pid = 1 →
      t.owner = none ∨ t.owner = some 1
  | addTLB v => v < kseg0 ∧ t.kernel.tlbProbe (pageOf v) ≠ some 0
  | _ => True

instance (t : OwnerTrace) : ∀ op, Decidable (Meets t op)
  | switchTo _ => inferInstanceAs (Decidable (_ → _ → _ ∨ _))
  | addTLB _ => inferInstanceAs (Decidable (_ ∧ _))
  | removeTLBv1 _ => inferInstanceAs (Decidable True)
  | freeKpages _ => inferInstanceAs (Decidable True)
  | asDestroy _ => inferInstanceAs (Decidable True)

end SwitchOp

/-- One returning operation. -/
def OwnerTrace.step (d : ℕ) (t : OwnerTrace) (op : SwitchOp) : Option OwnerTrace :=
  if op.Issued t.kernel then (op.run d t.kernel).state?.map (⟨·, op.ownerAfter t⟩) else none

/-- After boot: the TLB is empty, nobody owns it, the running thread is a kernel thread, and processes with an
address space have nonzero pids. -/
structure OwnerTrace.Start (t : OwnerTrace) : Prop where
  tlb : t.kernel.tlb = tlbInvalid
  tlbPid : t.kernel.tlbPid = false
  owner : t.owner = none
  current : t.kernel.getas = none
  pids : ∀ n, (t.kernel.procs n).addrspace.isSome = true → (t.kernel.procs n).pid ≠ 0

/-- Every valid TLB entry maps its page to a frame whose row is valid, has that page number and the current
process's pid. -/
def Kernel.TlbIsolated (s : Kernel) : Prop :=
  ∀ k < numTLB, (s.tlb k).valid = true → s.Maps (s.tlb k).vpage s.curPid (s.tlb k).frame

/-- The invariant of a run: the TLB belongs to the remembered owner, and to the current process if it has an
address space. -/
structure OwnerTrace.Inv (t : OwnerTrace) : Prop where
  owned : TlbOwned t.owner t.kernel
  pids : ∀ n, (t.kernel.procs n).addrspace.isSome = true → (t.kernel.procs n).pid ≠ 0
  owner_ne : ∀ o, t.owner = some o → o ≠ 0
  tlbPid : t.kernel.tlbPid = t.owner.isSome
  current : t.kernel.getas.isSome = true → t.owner = some t.kernel.curPid

variable {t : OwnerTrace}

theorem OwnerTrace.Inv.of_same (h : t.Inv)
    (howned : TlbOwned t.owner s') (hprocs : s'.procs = t.kernel.procs)
    (hcur : s'.curproc = t.kernel.curproc) (htlb : s'.tlbPid = t.kernel.tlbPid) :
    OwnerTrace.Inv ⟨s', t.owner⟩ := by
  have hcur' : s'.cur = t.kernel.cur := by
    unfold cur
    rw [hprocs, hcur]
  refine ⟨howned, ?_, h.owner_ne, htlb.trans h.tlbPid, fun has => ?_⟩
  · show ∀ n, (s'.procs n).addrspace.isSome = true → (s'.procs n).pid ≠ 0
    rw [hprocs]
    exact h.pids
  · show t.owner = some s'.cur.pid
    rw [hcur']
    refine h.current ?_
    unfold getas at *
    rw [← hcur']
    exact has

theorem switchTo_ok {n : ℕ} (h : switchTo n s = .ok u s') :
    ((s.procs n).addrspace.isSome = true → (s.procs n).pid.toNat = s.tlbPid.toNat) ∧
        s' = { s with curproc := n } ∨
      (s.procs n).addrspace.isSome = true ∧ s'.tlb = tlbInvalid ∧ s'.procs = s.procs ∧
        s'.curproc = n ∧ s'.tlbPid = decide ((s.procs n).pid ≠ 0) := by
  unfold switchTo asActivate at h
  simp only [bind_ok_iff, update_ok_iff, read_ok_iff] at h
  obtain ⟨_, _, rfl, as, _, ⟨has, rfl⟩, h⟩ := h
  have has' : (s.procs n).addrspace = as := has
  cases as with
  | none =>
    refine .inl ⟨fun hsome => ?_, ((pure_ok_iff.mp h).2).symm⟩
    rw [has'] at hsome
    cases hsome
  | some as =>
    simp only [bind_ok_iff, read_ok_iff, when_ok_iff] at h
    obtain ⟨pid, _, ⟨hpid, rfl⟩, owner, _, ⟨howner, rfl⟩, hwhen⟩ := h
    rcases hwhen with ⟨_, _, _, hinv, hupd⟩ | ⟨heq, rfl⟩
    · right
      rw [← update_ok_iff.mp hupd, ← update_ok_iff.mp hinv]
      exact ⟨by rw [has']; rfl, rfl, rfl, rfl, rfl⟩
    · left
      refine ⟨fun _ => ?_, rfl⟩
      rw [← hpid, ← howner] at heq
      exact not_not.mp heq

theorem OwnerTrace.Inv.step {d : ℕ} {t' : OwnerTrace} {op : SwitchOp} (h : t.Inv)
    (hmeets : op.Meets t) (hstep : OwnerTrace.step d t op = some t') : t'.Inv := by
  unfold OwnerTrace.step at hstep
  split at hstep
  swap
  · exact nomatch hstep
  next hissued =>
  obtain ⟨s', hs', rfl⟩ := Option.map_eq_some_iff.mp hstep
  have hrun := state?_eq_some.mp hs'
  cases op with
  | switchTo n =>
    rcases switchTo_ok hrun with ⟨hsame, rfl⟩ | ⟨has, htlb, hprocs, hcur, hpid⟩
    · -- the TLB is kept: either no address space, or the remembered owner looks like this process
      by_cases has : (t.kernel.procs n).addrspace.isSome = true
      · have hne := h.pids n has
        have heq := hsame has
        have hone : (t.kernel.procs n).pid = 1 := by
          have h0 : (t.kernel.procs n).pid.toNat ≠ 0 := fun hz => hne (UInt8.toNat.inj hz)
          have hle := Bool.toNat_le t.kernel.tlbPid
          exact UInt8.toNat.inj (show _ = 1 by omega)
        have hsome : t.owner = some 1 := by
          rcases hmeets has hone with hnone | hsome
          · rw [h.tlbPid, hnone] at heq
            rw [hone] at heq
            exact absurd heq (by decide)
          · exact hsome
        have hafter : SwitchOp.ownerAfter t (.switchTo n) = t.owner := by
          rw [hsome]
          exact (if_pos has).trans (congrArg some hone)
        rw [hafter]
        exact ⟨h.owned.of_rows rfl fun _ _ _ => rfl, h.pids, h.owner_ne, h.tlbPid,
          fun _ => hsome.trans (congrArg some hone.symm)⟩
      · have hafter : SwitchOp.ownerAfter t (.switchTo n) = t.owner := if_neg has
        rw [hafter]
        exact ⟨h.owned.of_rows rfl fun _ _ _ => rfl, h.pids, h.owner_ne, h.tlbPid,
          fun has' => absurd has' has⟩
    · have hafter : SwitchOp.ownerAfter t (.switchTo n) = some (t.kernel.procs n).pid := if_pos has
      have hne := h.pids n has
      rw [hafter]
      refine ⟨.of_clear _ htlb, ?_, ?_, ?_, ?_⟩
      · show ∀ m, (s'.procs m).addrspace.isSome = true → (s'.procs m).pid ≠ 0
        rw [hprocs]
        exact h.pids
      · intro o ho
        rw [← Option.some.inj ho]
        exact hne
      · show s'.tlbPid = true
        rw [hpid]
        exact decide_eq_true hne
      · intro _
        show _ = some s'.cur.pid
        unfold cur
        rw [hprocs, hcur]
  | addTLB v =>
    obtain ⟨pid, _, hread, hadd⟩ := bind_ok_iff.mp hrun
    obtain ⟨rfl, rfl⟩ := read_ok_iff.mp hread
    have hcur := h.current hissued
    have hrest := addTLB_within _ _ _ _ _ hadd
    have howned : TlbOwned t.owner s' := by
      rw [hcur]
      exact TlbOwned.addTLB (hcur ▸ h.owned) (h.owner_ne _ hcur) hmeets.1 hmeets.2 hadd
    have htlb : s'.tlbPid = t.kernel.tlbPid := by
      obtain ⟨i, _, _, rfl⟩ := addTLB_ok_iff.mp hadd
      unfold tlbFill
      cases t.kernel.freeSlot <;> rfl
    refine h.of_same howned ?_ ?_ htlb
    · rw [hrest]
    · rw [hrest]
  | removeTLBv1 v =>
    have hremove : removeTLBv1 v t.kernel = .ok () s' := hrun
    have hs' := update_ok_iff.mp hremove
    have hrest := t.kernel.tlbRemove_sameButTlb (pageOf v)
    rw [← hs']
    refine h.of_same (h.owned.tlbRemove _) ?_ ?_ ?_
    · rw [hrest]
    · rw [hrest]
    · unfold tlbRemove
      cases t.kernel.tlbProbe (pageOf v) <;> rfl
  | freeKpages a =>
    have hmoves := freeKpages_moves d a _ _ _ hrun
    refine h.of_same (h.owned.moves hmoves) ?_ ?_ ?_
    · rw [hmoves.allocOnly]
    · rw [hmoves.allocOnly]
    · rw [hmoves.allocOnly]
  | asDestroy as =>
    obtain ⟨k, hmoves, hinv⟩ := asDestroy_moves hrun
    rw [← update_ok_iff.mp hinv]
    refine h.of_same (.of_clear _ rfl) ?_ ?_ ?_
    · show k.procs = t.kernel.procs
      rw [hmoves.allocOnly]
    · show k.curproc = t.kernel.curproc
      rw [hmoves.allocOnly]
    · show k.tlbPid = t.kernel.tlbPid
      rw [hmoves.allocOnly]

/-- **TLB isolation along every run.**  In every run from boot in which process 1 is switched to only when no
other process was activated last, and user pages are mapped only when they are not in slot 0, a current
process with an address space sees only its own pages in the TLB. -/
theorem tlb_isolated_along_runs (d : ℕ) (t : OwnerTrace)
    (hrun : Reaches (Guarded (StepOf (OwnerTrace.step d)) fun t op => op.Meets t) OwnerTrace.Start t)
    (has : t.kernel.getas.isSome = true) : t.kernel.TlbIsolated := by
  have hinv : t.Inv := by
    refine hrun.invariant ?_ fun s op s' hs hstep => hs.step hstep.1 hstep.2
    intro s hs
    refine ⟨.of_clear _ hs.tlb, hs.pids, ?_, ?_, ?_⟩
    · rw [hs.owner]
      exact fun _ ho => nomatch ho
    · rw [hs.tlbPid, hs.owner]
      rfl
    · rw [hs.current]
      exact fun h => nomatch h
  intro k hk hv
  obtain ⟨_, o, ho, _, hmaps⟩ := hinv.owned.mapped k hk hv
  obtain rfl := Option.some.inj ((hinv.current has).symm.trans ho)
  exact hmaps

/-- Two user processes, number 1 with pid 2 and number 2 with pid 1; process 2's pid owns nothing and frame 5
holds page `0x400` of pid 2. -/
def twoProcesses : Kernel := { blank 0 0 noRam_le with
  vmStarted := true
  pagetableEntry := 8
  pagetableEntry_le := by decide
  mainPG := update (fun _ => ⟨false, false, 0, 0, 0⟩) 5 ⟨true, true, 2, 0x400, 0⟩
  procs := fun n => match n with
    | 1 => ⟨2, some ⟨0, 0x400000, 1, 1, 0x10000000, 1, 1, 0, 0⟩, ⟨0, fun _ => 0⟩⟩
    | 2 => ⟨1, some ⟨0, 0x400000, 1, 1, 0x10000000, 1, 1, 0, 0⟩, ⟨0, fun _ => 0⟩⟩
    | _ => ⟨0, none, ⟨0, fun _ => 0⟩⟩ }

theorem twoProcesses_start : OwnerTrace.Start ⟨twoProcesses, none⟩ := by
  refine ⟨rfl, rfl, rfl, rfl, fun n has => ?_⟩
  match n with
  | 1 => decide
  | 2 => decide
  | 0 => exact nomatch has
  | n + 3 => exact nomatch has

theorem tlb_isolated_for_process_two : ∃ t : OwnerTrace,
    Reaches (Guarded (StepOf (OwnerTrace.step 0)) fun t op => op.Meets t) OwnerTrace.Start t ∧
    (t.kernel.tlb 0).valid = true ∧ t.kernel.getas.isSome = true ∧ t.kernel.TlbIsolated := by
  obtain ⟨t, hrun, htest⟩ := exists_reaches_of_follow
    (restrict (OwnerTrace.step 0) fun t op => op.Meets t) OwnerTrace.Start ⟨twoProcesses, none⟩
    [.switchTo 1, .addTLB 0x400000]
    (fun t => decide ((t.kernel.tlb 0).valid = true ∧ t.kernel.getas.isSome = true))
    twoProcesses_start (by decide +kernel)
  obtain ⟨hv, has⟩ := of_decide_eq_true htest
  rw [stepOf_restrict] at hrun
  exact ⟨t, hrun, hv, has, tlb_isolated_along_runs 0 t hrun has⟩

/-- **Process 1 sees another process's page.**  Pid 2 maps a page, then pid 1 is switched to: the remembered
owner is 1, the TLB is kept, and its first entry leads to a frame of pid 2. -/
theorem tlb_not_isolated_for_pid_one : ∃ t : OwnerTrace,
    Reaches (StepOf (OwnerTrace.step 0)) OwnerTrace.Start t ∧ t.kernel.getas.isSome = true ∧
      ¬ t.kernel.TlbIsolated := by
  obtain ⟨t, hrun, htest⟩ := exists_reaches_of_follow (OwnerTrace.step 0) OwnerTrace.Start
    ⟨twoProcesses, none⟩ [.switchTo 1, .addTLB 0x400000, .switchTo 2]
    (fun t => decide (t.kernel.getas.isSome = true ∧ (t.kernel.tlb 0).valid = true ∧
      (t.kernel.tlb 0).frame = 5 ∧ (t.kernel.mainPG 5).pid = 2 ∧ t.kernel.curPid = 1))
    twoProcesses_start (by decide +kernel)
  obtain ⟨has, hv, hframe, hpid, hcur⟩ := of_decide_eq_true htest
  refine ⟨t, hrun, has, fun hiso => ?_⟩
  have hmaps := hiso 0 (by decide) hv
  rw [hframe, hcur] at hmaps
  exact absurd (hpid.symm.trans hmaps.2.2) (by decide)

end Os161Kernel
