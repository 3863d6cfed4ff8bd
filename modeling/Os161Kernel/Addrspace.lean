import Os161Kernel.Swapfile

/-!
# Address spaces: `addrspace.c`, `alloc_pages`, `sys__exit`

An address space records where code, data, bss and stack lie and how many pages were asked for; its
pages are the rows of `main_PG` with the process's pid.  `as_create` leaves the two counts of preloaded
pages as the heap block held them, and `as_define_region` for data reads one of them.

`TLB_PID`, the remembered owner of the TLB, is a `_Bool`.
-/

namespace Os161Kernel

open StateProg Search Memory Kernel

namespace Kernel

/-- `proc_getas()`. -/
def getas (s : Kernel) : Option Addrspace := s.cur.addrspace

/-- Replace the current process's address space. -/
def setas (s : Kernel) (as : Option Addrspace) : Kernel :=
  { s with procs := Function.update s.procs s.curproc { s.cur with addrspace := as } }

/-- Edit the current process's address space in place. -/
def mapas (s : Kernel) (f : Addrspace → Addrspace) : Kernel := s.setas (s.getas.map f)

end Kernel

/-- One round of the loop of `as_destroy`. -/
def destroyFrame (d i : ℕ) : Kern Unit := do
  let row ← .read fun s => s.mainPG i
  let pid ← .read curPid
  .when (row.pid = pid ∧ row.valid = true) (freeKpages d (kvaddr i))

/-- `as_destroy(as)`, which frees the frames of the current process. -/
def asDestroy (d : ℕ) (as : Addrspace) : Kern Unit := do
  kfree d as.ptr
  let entries ← .read pagetableEntry
  .forBelow (destroyFrame d) entries
  invalidateTLB

/-- `as_activate()`. -/
def asActivate : Kern Unit := do
  match ← .read getas with
  | none => pure ()
  | some _ =>
    let pid ← .read curPid
    let owner ← .read tlbPid
    .when (pid.toNat ≠ owner.toNat) do
      invalidateTLB
      .update fun s => { s with tlbPid := decide (s.curPid ≠ 0) }

/-- The end of `thread_switch` and `thread_startup`: a thread of process `n` runs and activates its address
space. -/
def switchTo (n : ℕ) : Kern Unit := do
  .update fun s => { s with curproc := n }
  asActivate

/-- `alloc_pages(1, vaddr, Dirty)`. -/
def allocPages (d vaddr : ℕ) (dirty : Bool) : Kern Unit := do
  let pid ← .read curPid
  let started ← .read vmStarted
  kassert (started = true) "VM_Started"
  let paddr ← allocKpages d 1
  panicIf (paddr = 0) "Error in alloc_pages() during kmalloc()"
  addPT (frameIndex paddr) vaddr pid dirty

/-- One round of the loops of `as_define_region`: a frame for the page, and a TLB entry while slots are
free. -/
def definePage (d vbase i : ℕ) : Kern Unit := do
  allocPages d ((vbase + i * pageSize) % 2 ^ 32) true
  let free ← .read freeTLBEntries
  let pid ← .read curPid
  .when (free ≠ 0) (addTLB ((vbase + i * pageSize) % 2 ^ 32) pid)

/-- `memsize/PAGE_SIZE + 1` in a `uint16_t`. -/
def pagesFor (memsize : ℕ) : ℕ := (memsize / pageSize + 1) % 2 ^ 16

/-- `as_npages_code_loaded` for a code segment. -/
def codeLoaded (npages : ℕ) : ℕ := if npages > 16 then 16 else npages

/-- `as_npages_data_loaded`: above `MAX_DATA_SEGMENT_PAGES` it is
`MAX_PAGES_PER_PROCESS - (as_npages_code_loaded - MAX_STACK_SEGMENT_PAGES)`, cut to 16 bits. -/
def dataLoaded (npages npagesCodeLoaded : ℕ) : ℕ :=
  if npages > 100 then (2 ^ 16 + 136 - npagesCodeLoaded % 2 ^ 16) % 2 ^ 16 else npages

/-- `as_define_region(as, vaddr, memsize, readable, writeable, executable)`. -/
def asDefineRegion (d vaddr memsize : ℕ) (readable writeable executable : Bool) : Kern Unit :=
  if executable then do
    .update fun s => s.mapas fun as => { as with
      vbaseCode := vaddr
      npagesCode := pagesFor memsize
      npagesCodeLoaded := codeLoaded (pagesFor memsize) }
    .forBelow (definePage d vaddr) (codeLoaded (pagesFor memsize))
  else do
    panicIf (writeable = false) "Function not developed yet"
    panicIf (readable = false) "Function not developed yet"
    match ← .read getas with
    | none => .stop .nullDeref
    | some as =>
      .update fun s => s.mapas fun as => { as with
        vbaseData := vaddr
        npagesData := pagesFor memsize
        npagesDataLoaded := dataLoaded (pagesFor memsize) as.npagesCodeLoaded }
      .forBelow (definePage d vaddr) (dataLoaded (pagesFor memsize) as.npagesCodeLoaded)

/-- `as_prepare_load(as)`: the stack page right behind the pages asked for the data segment. -/
def asPrepareLoad (d : ℕ) : Kern Unit := do
  match ← .read getas with
  | none => .stop .nullDeref
  | some as =>
    let stack := (as.vbaseData + pageSize * as.npagesData) % 2 ^ 32
    .update fun s => s.mapas fun as => { as with vbaseStack := stack }
    allocPages d stack true

/-- `as_define_stack(as, &stackptr)`. -/
def asDefineStack : Kern ℕ := do
  match ← .read getas with
  | none => .stop .nullDeref
  | some as =>
    kassert (as.vbaseStack ≠ 0) "as->as_vbase_stack != 0"
    pure as.vbaseStack

/-- `sys__exit(status)`: the address space goes and the thread does not come back. -/
def sysExit {α : Type} (d : ℕ) : Kern α := do
  match ← .read getas with
  | none => .stop .nullDeref
  | some as =>
    asDestroy d as
    .stopWith Stop.exited

end Os161Kernel
