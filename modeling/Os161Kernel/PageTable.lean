import Os161Kernel.Kmalloc

/-!
# The inverted page table and the segments: `pt.c`, `segments.c`

`pageSearch` compares page numbers and never pids; `addTLB` and `victim_pageSearch` compare pids.  The
segment tests are inclusive at the upper end and computed in 32 bits.
-/

namespace Os161Kernel

open StateProg Search

/-! ### Segments -/

namespace Addrspace

/-- `is_codeSegment(vaddr, as)`. -/
def isCodeSegment (as : Addrspace) (vaddr : ℕ) : Prop :=
  vaddr ≤ (as.vbaseCode + as.npagesCode * pageSize) % 2 ^ 32 ∧ as.vbaseCode ≤ vaddr

/-- `is_dataSegment(vaddr, as)`. -/
def isDataSegment (as : Addrspace) (vaddr : ℕ) : Prop :=
  vaddr ≤ (as.vbaseData + as.npagesData * pageSize) % 2 ^ 32 ∧ as.vbaseData ≤ vaddr

/-- `is_bssSegment(vaddr, as)`: as long as the data segment, from where bss is taken to start. -/
def isBssSegment (as : Addrspace) (vaddr : ℕ) : Prop :=
  vaddr ≤ (as.vbaseBss + as.npagesData * pageSize) % 2 ^ 32 ∧ as.vbaseBss ≤ vaddr

instance (as : Addrspace) (vaddr : ℕ) : Decidable (as.isCodeSegment vaddr) :=
  inferInstanceAs (Decidable (_ ∧ _))

instance (as : Addrspace) (vaddr : ℕ) : Decidable (as.isDataSegment vaddr) :=
  inferInstanceAs (Decidable (_ ∧ _))

instance (as : Addrspace) (vaddr : ℕ) : Decidable (as.isBssSegment vaddr) :=
  inferInstanceAs (Decidable (_ ∧ _))

end Addrspace

/-! ### Searches -/

namespace Kernel

/-- `pageSearch(addr)`: the first valid row with the page number, whoever owns it. -/
def pageSearch (s : Kernel) (addr : ℕ) : Option ℕ :=
  firstBelow (fun i => s.Valid i ∧ (s.mainPG i).pageNumber = pageOf addr) s.pagetableEntry

/-- One round of the loop of `victim_pageSearch`: keep the smallest counter, the earlier row on a tie. -/
def olderVictim (s : Kernel) (best : Option ℕ) (i : ℕ) : Option ℕ :=
  match best with
  | none => some i
  | some b => if (s.mainPG b).victimCounter > (s.mainPG i).victimCounter then some i else some b

/-- `victim_pageSearch(type)` over the rows of the current process whose page lies in the segment.  The
valid bit is not looked at. -/
def victimPageSearch (s : Kernel) (inSegment : ℕ → Bool) : Option ℕ :=
  (List.range s.pagetableEntry).foldl (fun best i =>
    if (s.mainPG i).pid = s.curPid ∧ inSegment (pageAddr (s.mainPG i).pageNumber) = true then
      s.olderVictim best i
    else best) none

/-- Replace row `i`. -/
def setRow (s : Kernel) (i : ℕ) (e : InvertedPT) : Kernel :=
  { s with mainPG := Function.update s.mainPG i e }

end Kernel

/-- `addPT(frame_index, vaddr, pid, Dirty)`.  An index past the table is a write outside it. -/
def addPT (i vaddr : ℕ) (pid : UInt8) (dirty : Bool) : Kern Unit := do
  let entries ← .read Kernel.pagetableEntry
  .require (i < entries) .wildDeref
  let e ← .read fun s => s.mainPG i
  panicIf (e.valid = true ∧ ¬ (e.pageNumber = 0 ∧ e.pid = 0))
    "addPT() error: You cannot add this page table"
  .update fun s => s.setRow i { s.mainPG i with
    pageNumber := pageOf vaddr, valid := true, pid := pid, dirty := dirty }

theorem addPT_ok {i vaddr : ℕ} {pid : UInt8} {dirty : Bool} {s s' : Kernel} {u : Unit}
    (h : addPT i vaddr pid dirty s = .ok u s') :
    i < s.pagetableEntry ∧
    (s.Valid i → (s.mainPG i).pageNumber = 0 ∧ (s.mainPG i).pid = 0) ∧
    s' = s.setRow i { s.mainPG i with
      pageNumber := pageOf vaddr, valid := true, pid := pid, dirty := dirty } := by
  unfold addPT at h
  simp only [bind_ok_iff, read_ok_iff, update_ok_iff, panicIf, require_ok_iff] at h
  obtain ⟨_, _, ⟨rfl, rfl⟩, _, _, ⟨hlt, rfl⟩, _, _, ⟨rfl, rfl⟩, _, _, ⟨hfree, rfl⟩, rfl⟩ := h
  refine ⟨hlt, fun hv => ?_, rfl⟩
  by_contra hne
  exact hfree ⟨hv, hne⟩

/-! ### What the victim search returns -/

namespace Kernel

variable {s : Kernel} {inSegment : ℕ → Bool} {v : ℕ}

/-- A row that `victim_pageSearch` may choose. -/
def Candidate (s : Kernel) (inSegment : ℕ → Bool) (i : ℕ) : Prop :=
  i < s.pagetableEntry ∧ (s.mainPG i).pid = s.curPid ∧
    inSegment (pageAddr (s.mainPG i).pageNumber) = true

theorem olderVictim_eq (s : Kernel) (best : Option ℕ) (i : ℕ) :
    s.olderVictim best i = keepLeast (fun i => (s.mainPG i).victimCounter.toNat) best i := by
  unfold olderVictim keepLeast
  cases best with
  | none => rfl
  | some b => simp only [gt_iff_lt, UInt16.lt_iff_toNat_lt]

theorem victimPageSearch_eq (s : Kernel) (inSegment : ℕ → Bool) : s.victimPageSearch inSegment =
    leastBelow (fun i => (s.mainPG i).pid = s.curPid ∧ inSegment (pageAddr (s.mainPG i).pageNumber) = true)
      (fun i => (s.mainPG i).victimCounter.toNat) s.pagetableEntry := by
  unfold victimPageSearch leastBelow
  simp only [olderVictim_eq]

theorem victimPageSearch_candidate (h : s.victimPageSearch inSegment = some v) :
    s.Candidate inSegment v := by
  rw [victimPageSearch_eq] at h
  obtain ⟨hlt, hv, -⟩ := leastBelow_eq_some.mp h
  exact ⟨hlt, hv⟩

end Kernel

end Os161Kernel
