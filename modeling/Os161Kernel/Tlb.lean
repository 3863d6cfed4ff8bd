import Os161Kernel.Machine
import Os161Kernel.Lib.Search

/-!
# The TLB: `vm_tlb.c`

`addTLB` looks up the first valid row of `main_PG` with the page and the pid, refuses a page that is
already mapped, and writes the first slot without the valid bit or, when there is none, the
round-robin victim.  Three details of the source are kept as they stand:

* the duplicate test is `tlb_probe(..) > 0`, so a page mapped in slot 0 passes it;
* the replacement path sets the dirty bit whatever the row says;
* `freeTLBEntries` is not changed by a replacement.
-/

namespace Os161Kernel

open StateProg Search Function

/-- `TLBHI_INVALID(i)`, `TLBLO_INVALID()`: a kernel page that no user access matches. -/
def tlbInvalid (i : ℕ) : TlbEntry := ⟨Fin.ofNat (2 ^ 20) (0x80000 + i), 0, false, false⟩

namespace Kernel

/-- `tlb_probe`: the slot with this virtual page, valid or not. -/
def tlbProbe (s : Kernel) (p : PageNo) : Option ℕ := firstBelow (fun i => (s.tlb i).vpage = p) numTLB

/-- The slot a write goes to when one is free. -/
def freeSlot (s : Kernel) : Option ℕ := firstBelow (fun i => (s.tlb i).valid = false) numTLB

/-- A row of `main_PG` that maps page `p` for process `pid`. -/
def Maps (s : Kernel) (p : PageNo) (pid : UInt8) (i : ℕ) : Prop :=
  s.Valid i ∧ (s.mainPG i).pageNumber = p ∧ (s.mainPG i).pid = pid

instance (s : Kernel) (p : PageNo) (pid : UInt8) (i : ℕ) : Decidable (s.Maps p pid i) :=
  inferInstanceAs (Decidable (_ ∧ _))

/-- The row `addTLB` takes the frame from. -/
def rowOf (s : Kernel) (p : PageNo) (pid : UInt8) : Option ℕ :=
  firstBelow (s.Maps p pid) s.pagetableEntry

/-- The write of `addTLB`: into a free slot with the row's permission, else over the round-robin victim
with the dirty bit set. -/
def tlbFill (s : Kernel) (p : PageNo) (i : ℕ) : Kernel :=
  match s.freeSlot with
  | some k => { s with
      tlb := update s.tlb k ⟨p, i, (s.mainPG i).dirty, true⟩
      freeTLBEntries := s.freeTLBEntries - 1 }
  | none => { s with
      tlb := update s.tlb s.nextVictim ⟨p, i, true, true⟩
      nextVictim := s.nextVictim + 1 }

/-- `removeTLBv1` on the page of an address. -/
def tlbRemove (s : Kernel) (p : PageNo) : Kernel :=
  match s.tlbProbe p with
  | some k => { s with
      tlb := update s.tlb k (tlbInvalid k)
      freeTLBEntries := s.freeTLBEntries + 1 }
  | none => s

/-- Every slot invalid, as after the fill loop of `vm_bootstrap` and `invalidate_TLB`. -/
def tlbClear (s : Kernel) : Kernel := { s with tlb := tlbInvalid, freeTLBEntries := 64 }

end Kernel

/-- `addTLB(vaddr, pid)`.  It returns 0 whenever it returns. -/
def addTLB (vaddr : ℕ) (pid : UInt8) : Kern Unit := do
  match ← .read fun s => s.rowOf (pageOf vaddr) pid with
  | none => panic "Error in addTLB from pageSearch"
  | some i =>
    let probe ← .read fun s => s.tlbProbe (pageOf vaddr)
    panicIf (0 < probe.getD 0) "TLB Error: duplicate TLB entries\n"
    .update fun s => s.tlbFill (pageOf vaddr) i

/-- `removeTLBv1(vaddr)`. -/
def removeTLBv1 (vaddr : ℕ) : Kern Unit := .update fun s => s.tlbRemove (pageOf vaddr)

/-- `invalidate_TLB()`. -/
def invalidateTLB : Kern Unit := .update fun s =>
  { s.tlbClear with stats := { s.stats with tlbInvalidations := s.stats.tlbInvalidations + 1 } }

/-! ### What these functions leave alone -/

/-- The two states differ in the TLB and its bookkeeping only. -/
def SameButTlb (s s' : Kernel) : Prop :=
  s' = { s with
    tlb := s'.tlb
    freeTLBEntries := s'.freeTLBEntries
    nextVictim := s'.nextVictim
    tlbPid := s'.tlbPid
    stats := s'.stats }

instance : Std.Refl SameButTlb := ⟨fun _ => rfl⟩

instance : IsTrans Kernel SameButTlb where
  trans s t u hst htu := by
    unfold SameButTlb at *
    rw [htu, hst]

namespace Kernel

theorem tlbFill_sameButTlb (s : Kernel) (p : PageNo) (i : ℕ) : SameButTlb s (s.tlbFill p i) := by
  unfold tlbFill SameButTlb
  cases s.freeSlot <;> rfl

theorem tlbRemove_sameButTlb (s : Kernel) (p : PageNo) : SameButTlb s (s.tlbRemove p) := by
  unfold tlbRemove SameButTlb
  cases s.tlbProbe p <;> rfl

end Kernel

theorem addTLB_ok_iff {vaddr : ℕ} {pid : UInt8} {s s' : Kernel} {u : Unit} :
    addTLB vaddr pid s = .ok u s' ↔ ∃ i, s.rowOf (pageOf vaddr) pid = some i ∧
      (s.tlbProbe (pageOf vaddr)).getD 0 = 0 ∧ s' = s.tlbFill (pageOf vaddr) i := by
  unfold addTLB
  rw [bind_of_ok (read_apply _ s)]
  cases hrow : s.rowOf (pageOf vaddr) pid with
  | none =>
    simp only [panic, stop_ok_iff, reduceCtorEq, false_and, exists_false]
  | some i =>
    simp only [bind_ok_iff, read_ok_iff, update_ok_iff, panicIf, require_ok_iff,
      Option.some.injEq, Nat.not_lt, Nat.le_zero]
    constructor
    · rintro ⟨_, _, ⟨rfl, rfl⟩, _, _, ⟨hp, rfl⟩, rfl⟩
      exact ⟨i, rfl, hp, rfl⟩
    · rintro ⟨_, rfl, hp, rfl⟩
      exact ⟨_, s, ⟨rfl, rfl⟩, (), s, ⟨hp, rfl⟩, rfl⟩

theorem addTLB_within : ∀ (vaddr : ℕ) (pid : UInt8), Within SameButTlb (addTLB vaddr pid) := by
  intro vaddr pid s u s' h
  obtain ⟨i, _, _, rfl⟩ := addTLB_ok_iff.mp h
  exact s.tlbFill_sameButTlb _ i

theorem invalidateTLB_within : Within SameButTlb invalidateTLB :=
  within_update fun _ => rfl

end Os161Kernel
