import Os161Kernel.Boot
import Os161Kernel.Lib.Runs

/-!
# TLB permissions against the page table

A run of one process mixes `addTLB` with removals, invalidations, frame allocation and new page table
rows.  Right after `addTLB(v, pid)` the TLB should hold `v`'s page once, with the frame of the row and the
row's dirty bit.

It does, on the path that fills a free slot.  The replacement path writes `TLBLO_DIRTY` whatever the row
says, and the duplicate test lets a page pass that is already in slot 0.  `Meets` leaves out these two.
-/

namespace Os161Kernel

open StateProg Search Runs Function

/-- The operations of one process, as its paging code issues them. -/
inductive TlbOp where
  | addTLB (v : ℕ)
  | removeTLBv1 (v : ℕ)
  | invalidateTLB
  | allocKpages (npages : ℕ)
  | freeKpages (paddr : ℕ)
  | addPT (frame v : ℕ) (dirty : Bool)

namespace TlbOp

def run (d : ℕ) (pid : UInt8) : TlbOp → Kern Unit
  | addTLB v => Os161Kernel.addTLB v pid
  | removeTLBv1 v => Os161Kernel.removeTLBv1 v
  | invalidateTLB => Os161Kernel.invalidateTLB
  | allocKpages n => do
    let _ ← Os161Kernel.allocKpages d n
    pure ()
  | freeKpages a => Os161Kernel.freeKpages d a
  | addPT f v dirty => Os161Kernel.addPT f v pid dirty

/-- The address that was just added, if this operation is `addTLB`. -/
def added : TlbOp → Option ℕ
  | addTLB v => some v
  | _ => none

/-- The page is not in slot 0, and a slot is free or the row is writable anyway. -/
def Meets (pid : UInt8) (s : Kernel) : TlbOp → Prop
  | addTLB v => s.tlbProbe (pageOf v) ≠ some 0 ∧
      (s.freeSlot ≠ none ∨ ∀ i, s.rowOf (pageOf v) pid = some i → (s.mainPG i).dirty = true)
  | _ => True

instance (pid : UInt8) (s : Kernel) : ∀ op, Decidable (Meets pid s op)
  | addTLB v => inferInstanceAs (Decidable (_ ∧ (_ ∨ ∀ i ∈ s.rowOf (pageOf v) pid, _)))
  | removeTLBv1 _ | invalidateTLB | allocKpages _ | freeKpages _ | addPT _ _ _ => .isTrue trivial

end TlbOp

/-- The kernel with the address that the last operation added. -/
structure TlbTrace where
  kernel : Kernel
  added : Option ℕ

/-- One returning operation. -/
def TlbTrace.step (d : ℕ) (pid : UInt8) (t : TlbTrace) (op : TlbOp) : Option TlbTrace :=
  (op.run d pid t.kernel).state?.map (⟨·, op.added⟩)

/-- The start of a run: an invalidated TLB. -/
def TlbTrace.Start (t : TlbTrace) : Prop := t.kernel.tlb = tlbInvalid ∧ t.added = none

/-- The TLB entry for `v`'s page is the row for it: some slot holds the page, and every slot that does has
the row's frame, the row's dirty bit and the valid bit. -/
def Kernel.TlbAgrees (s : Kernel) (v : ℕ) (pid : UInt8) : Prop :=
  ∃ i, s.rowOf (pageOf v) pid = some i ∧ (s.tlbProbe (pageOf v)).isSome = true ∧
    ∀ k < numTLB, (s.tlb k).vpage = pageOf v → s.tlb k = ⟨pageOf v, i, (s.mainPG i).dirty, true⟩

namespace Kernel

variable {s : Kernel} {p : PageNo} {pid : UInt8} {i : ℕ}

/-- The slot `tlbFill` writes. -/
def filledSlot (s : Kernel) : ℕ := s.freeSlot.getD s.nextVictim

theorem filledSlot_lt (s : Kernel) : s.filledSlot < numTLB := by
  unfold filledSlot
  cases h : s.freeSlot with
  | none => exact s.nextVictim.isLt
  | some k => exact lt_of_firstBelow h

theorem tlbFill_tlb (s : Kernel) (p : PageNo) (i : ℕ) :
    (s.tlbFill p i).tlb = update s.tlb s.filledSlot
      ⟨p, i, s.freeSlot.isNone || (s.mainPG i).dirty, true⟩ := by
  unfold tlbFill filledSlot
  cases s.freeSlot <;> rfl

theorem tlbFill_mainPG (s : Kernel) (p : PageNo) (i : ℕ) : (s.tlbFill p i).mainPG = s.mainPG := by
  rw [s.tlbFill_sameButTlb p i]

theorem tlbFill_rowOf (s : Kernel) (p q : PageNo) (i : ℕ) (pid : UInt8) :
    (s.tlbFill p i).rowOf q pid = s.rowOf q pid := by
  rw [s.tlbFill_sameButTlb p i]
  rfl

theorem tlbFill_vpage_iff (hnew : s.tlbProbe p = none) {k : ℕ} (hk : k < numTLB) :
    ((s.tlbFill p i).tlb k).vpage = p ↔ k = s.filledSlot := by
  rw [tlbFill_tlb]
  by_cases h : k = s.filledSlot
  · rw [h, update_self]
    exact ⟨fun _ => rfl, fun _ => rfl⟩
  · rw [update_of_ne h]
    exact ⟨fun hp => absurd hp (firstBelow_eq_none.mp hnew k hk), fun hk' => absurd hk' h⟩

theorem tlbFill_probe (s : Kernel) (p : PageNo) (i : ℕ) :
    ((s.tlbFill p i).tlbProbe p).isSome = true := by
  refine firstBelow_isSome.mpr ⟨s.filledSlot, s.filledSlot_lt, ?_⟩
  rw [tlbFill_tlb, update_self]

end Kernel

theorem addTLB_agrees {v : ℕ} {pid : UInt8} {s s' : Kernel} {u : Unit}
    (hmeets : TlbOp.Meets pid s (.addTLB v)) (h : addTLB v pid s = .ok u s') :
    s'.TlbAgrees v pid := by
  obtain ⟨hslot, hperm⟩ := hmeets
  obtain ⟨i, hrow, hprobe, rfl⟩ := addTLB_ok_iff.mp h
  have hnew : s.tlbProbe (pageOf v) = none := by
    cases hp : s.tlbProbe (pageOf v) with
    | none => rfl
    | some k =>
      rw [hp, Option.getD_some] at hprobe
      rw [hp, hprobe] at hslot
      exact absurd rfl hslot
  have hdirty : (s.freeSlot.isNone || (s.mainPG i).dirty) = (s.mainPG i).dirty := by
    rcases hperm with hfree | hw
    · rw [Option.isNone_eq_false_iff.mpr (Option.isSome_iff_ne_none.mpr hfree), Bool.false_or]
    · rw [hw i hrow, Bool.or_true]
  refine ⟨i, ?_, s.tlbFill_probe _ i, fun k hk hvp => ?_⟩
  · rw [s.tlbFill_rowOf]
    exact hrow
  · rw [(Kernel.tlbFill_vpage_iff hnew hk).mp hvp, s.tlbFill_tlb, update_self, s.tlbFill_mainPG,
      hdirty]

/-- **TLB permission agrees with the page table along every run.**  In every run from an invalidated TLB
whose `addTLB` steps find their page outside slot 0, and a free slot or a writable row, the state right
after each `addTLB(v, pid)` maps `v`'s page by the row's frame with the row's permission. -/
theorem tlb_permission_along_runs (d : ℕ) (pid : UInt8) (t : TlbTrace) (v : ℕ)
    (hrun : Reaches (Guarded (StepOf (TlbTrace.step d pid)) fun t op => op.Meets pid t.kernel)
      TlbTrace.Start t)
    (hv : t.added = some v) : t.kernel.TlbAgrees v pid := by
  revert v
  refine hrun.invariant (P := fun t => ∀ v, t.added = some v → t.kernel.TlbAgrees v pid) ?_ ?_
  · intro t hstart v hv
    rw [hstart.2] at hv
    exact nomatch hv
  · -- only an `addTLB` step leaves an added address, so the states before it do not matter
    rintro t op t' - ⟨hmeets, hstep⟩ v hv
    obtain ⟨s', hs', rfl⟩ := Option.map_eq_some_iff.mp hstep
    cases op with
    | addTLB w =>
      obtain rfl := Option.some.inj hv
      exact addTLB_agrees hmeets (state?_eq_some.mp hs')
    | _ => exact nomatch hv

/-- Process 1 with page `i` in frame `i` for 66 frames, the last one read-only, and an empty TLB. -/
def lastPageReadOnly : Kernel := { Kernel.blank 0 0 noRam_le with
  vmStarted := true
  pagetableEntry := 66
  pagetableEntry_le := by decide
  mainPG := fun i => ⟨decide (i ≠ 65), true, 1, Fin.ofNat (2 ^ 20) i, 0⟩ }

/-- Sixty-four pages fill the TLB, and page 0, which is writable, replaces slot 0. -/
theorem tlb_permission_on_replacement : ∃ t : TlbTrace,
    Reaches (Guarded (StepOf (TlbTrace.step 0 1)) fun t op => op.Meets 1 t.kernel) TlbTrace.Start t ∧
      t.added = some 0 ∧ t.kernel.freeSlot = none ∧ t.kernel.tlbProbe (pageOf 0) = some 0 ∧
      t.kernel.TlbAgrees 0 1 := by
  obtain ⟨t, hrun, htest⟩ := exists_reaches_of_follow
    (restrict (TlbTrace.step 0 1) fun t op => op.Meets 1 t.kernel) TlbTrace.Start ⟨lastPageReadOnly, none⟩
    ((List.range 65).map fun i => .addTLB ((i + 1) % 65 * 4096))
    (fun t => decide (t.added = some 0 ∧ t.kernel.freeSlot = none ∧ t.kernel.tlbProbe (pageOf 0) = some 0))
    ⟨rfl, rfl⟩ (by decide +kernel)
  obtain ⟨hadded, hfull, hslot⟩ := of_decide_eq_true htest
  rw [stepOf_restrict] at hrun
  exact ⟨t, hrun, hadded, hfull, hslot, tlb_permission_along_runs 0 1 t 0 hrun hadded⟩

/-- **The replacement path makes a read-only page writable.**  Sixty-four pages fill the TLB; the page of the
last row, not writable, then replaces slot 0 and its entry has the dirty bit. -/
theorem tlb_permission_lost_on_replacement : ∃ t : TlbTrace,
    Reaches (StepOf (TlbTrace.step 0 1)) TlbTrace.Start t ∧ t.added = some 0x41000 ∧
      ¬ t.kernel.TlbAgrees 0x41000 1 := by
  obtain ⟨t, hrun, htest⟩ := exists_reaches_of_follow (TlbTrace.step 0 1) TlbTrace.Start
    ⟨lastPageReadOnly, none⟩ ((List.range 65).map fun i => .addTLB ((i + 1) * 4096))
    (fun t => decide (t.added = some 0x41000 ∧ t.kernel.rowOf (pageOf 0x41000) 1 = some 65 ∧
      (t.kernel.tlb 0).vpage = pageOf 0x41000 ∧ (t.kernel.tlb 0).dirty = true ∧
      (t.kernel.mainPG 65).dirty = false)) ⟨rfl, rfl⟩ (by decide +kernel)
  obtain ⟨hadded, hrow, hvp, hd, hd'⟩ := of_decide_eq_true htest
  refine ⟨t, hrun, hadded, fun ⟨i, hi, _, hall⟩ => ?_⟩
  obtain rfl : 65 = i := Option.some.inj (hrow.symm.trans hi)
  have hslot := hall 0 (by decide) hvp
  rw [hslot] at hd
  exact absurd (hd.symm.trans hd') (by decide)

end Os161Kernel
