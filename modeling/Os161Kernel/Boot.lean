import Os161Kernel.Swapfile

/-!
# Power on and `vm_bootstrap`

Before the VM starts, `alloc_kpages` steals memory from the bottom of what the kernel image leaves free.
`vm_bootstrap` puts the page table at the top of memory, marks the frames below first-free and those of
the table as used by the kernel, clears the TLB and the swap table, and appends every frame in between to
the frame list.
-/

namespace Os161Kernel

open StateProg Search Memory

/-- `location`: the page table's address, rounded down to a page.  A row takes 12 bytes. -/
def tableLocation (ramSize : ℕ) : ℕ := (ramSize - ramSize / pageSize * 12) / pageSize * pageSize

theorem tableLocation_le_last {ram m : ℕ} (halign : ram % pageSize = 0) (hm : ram / pageSize = m + 1) :
    tableLocation ram ≤ m * pageSize := by
  unfold tableLocation
  unfold pageSize at *
  omega

/-- `PAGETABLE_ENTRY - (RAM_Size-location)/PAGE_SIZE`: the first frame of the page table. -/
def tableFrame (ramSize : ℕ) : ℕ :=
  ramSize / pageSize - (ramSize - tableLocation ramSize) / pageSize

namespace Kernel

/-- The tables as `vm_bootstrap` initialises them. -/
def initTables (s : Kernel) : Kernel := { s with
  firstpaddr := 0
  lastpaddr := 0
  lastpaddr_le := Nat.zero_le _
  pagetableEntry := s.lastpaddr / pageSize
  pagetableEntry_le := Nat.div_le_of_le_mul s.lastpaddr_le
  mainPGLocation := tableLocation s.lastpaddr
  mainPG := fun i =>
    ⟨false, decide (i < s.firstpaddr / pageSize ∨ tableFrame s.lastpaddr ≤ i), 0, 0, 0⟩
  tlb := tlbInvalid
  freeTLBEntries := 64 }

end Kernel

/-- `vm_bootstrap()`. -/
def vmBootstrap (d : ℕ) : Kern Unit := do
  let first ← .read fun s => s.firstpaddr / pageSize
  let last ← .read fun s => tableFrame s.lastpaddr
  .update Kernel.initTables
  swapfileInit
  .update fun s => { s with vmStarted := true }
  .forBelow (fun i => addToFrameList d (first + i) .addBOTTOM) (last - first)

/-- A machine as the boot code hands it over: no heap, no frame list, and physical memory from first-free to
its end, both page-aligned, still to be given out. -/
structure PowerOn (s : Kernel) : Prop where
  vmStarted : s.vmStarted = false
  pagetableEntry : s.pagetableEntry = 0
  frameList : s.frameList = []
  frameListEnd : s.frameListEnd = 0
  allbase : s.allbase = []
  sizebases : ∀ t, s.sizebases t = []
  kheaproots : ∀ w, s.kheaproots w = ⟨none, fun _ => false, 0⟩
  firstpaddr : s.firstpaddr % pageSize = 0
  lastpaddr : s.lastpaddr % pageSize = 0
  firstpaddr_le : s.firstpaddr ≤ s.lastpaddr

/-- A machine with the given memory bounds, everything else zero. -/
def Kernel.blank (firstpaddr lastpaddr : ℕ) (h : lastpaddr ≤ 512 * 1024 * 1024) : Kernel where
  ram := fun _ => 0
  firstpaddr := firstpaddr
  lastpaddr := lastpaddr
  lastpaddr_le := h
  vmStarted := false
  mainPG := fun _ => ⟨false, false, 0, 0, 0⟩
  mainPGLocation := 0
  pagetableEntry := 0
  pagetableEntry_le := Nat.zero_le _
  ptCounter := 0
  frameList := []
  frameListEnd := 0
  kheaproots := fun _ => ⟨none, fun _ => false, 0⟩
  pagerefs := fun _ => ⟨0, 0, [], 0⟩
  sizebases := fun _ => []
  allbase := []
  tlb := tlbInvalid
  freeTLBEntries := 64
  nextVictim := 0
  tlbPid := false
  sfList := fun i => ⟨0, 0, i, false⟩
  swapfile := fun _ => 0
  procs := fun _ => ⟨0, none, ⟨0, fun _ => 0⟩⟩
  curproc := 0
  ioResult := fun _ => 0
  ioCount := 0
  iobuf := fun _ => 0
  badfaultfunc := false
  stats := ⟨0, 0, 0, 0, 0, 0, 0, 0, 0, 0⟩

theorem noRam_le : 0 ≤ 512 * 1024 * 1024 := Nat.zero_le _

theorem smallRam_le : 65536 ≤ 512 * 1024 * 1024 := by decide

end Os161Kernel
