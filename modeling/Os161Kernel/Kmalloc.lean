import Os161Kernel.Tlb

/-!
# Frames and kernel memory: `kmalloc.c`, `list.c`, `coremap.c`

`alloc_kpages` takes frames from `frame_list` and `free_kpages` gives them back.  The nodes of that list
are themselves `kmalloc`ed, so the five functions of this file call each other in a circle:
`alloc_kpages` frees the node it popped, `kfree` may release an emptied heap page, `free_kpages`
allocates a node for the frame it returns and `kmalloc` may ask for a new heap page.

Each body is written over the two page functions it calls (`Allocator`) and `allocator d` ties the
circle `d` calls deep; a deeper recursion stops with `Stop.depth`.  Theorems are stated for every `d`.

A change of the state is a named edit (`popFrame`, `release`, `pushTop`, …), a body is the source's
control flow around the edits.  Freed blocks, list nodes and fresh heap pages are written to physical
memory as the source writes them.
-/

namespace Os161Kernel

open StateProg Search Memory Function Kernel

/-- `kvaddr - MIPS_KSEG0` in 32-bit arithmetic. -/
@[irreducible] def physAddr (kvaddr : ℕ) : ℕ := (2 ^ 32 - kseg0 + kvaddr) % 2 ^ 32

/-- The block sizes 16, 32, …, 2048. -/
def sizes (blocktype : ℕ) : ℕ := 16 * 2 ^ blocktype

/-- Blocks on a heap page. -/
def blocksPerPage (blocktype : ℕ) : ℕ := pageSize / sizes blocktype

/-- `enum positionList`, the two members `addToFrameList` handles. -/
inductive Position where
  | addTOP
  | addBOTTOM
deriving DecidableEq

/-! ### Edits of the state -/

namespace Kernel

/-- The pointer `frame_list`. -/
def frameListHead (s : Kernel) : ℕ :=
  match s.frameList with
  | [] => s.frameListEnd
  | node :: _ => node.ptr

/-- Take the first node off the list and give its frame to the kernel. -/
def popFrame (s : Kernel) (f : ℕ) : Kernel := { s with
  ptCounter := s.ptCounter + 1
  mainPG := update s.mainPG f { s.mainPG f with
    valid := true, pid := 0, pageNumber := 0, victimCounter := (s.ptCounter + 1).toUInt16 }
  frameList := s.frameList.tail }

/-- Write bytes to physical memory. -/
def write (s : Kernel) (a n : ℕ) (src : ℕ → UInt8) : Kernel := { s with ram := overlay s.ram a n src }

/-- `main_PG[f]` cleared, with the TLB entry of a user page removed first. -/
def release (s : Kernel) (f : ℕ) : Kernel :=
  let t := if (s.mainPG f).pid ≠ 0 then s.tlbRemove (s.mainPG f).pageNumber else s
  { t with mainPG := update s.mainPG f { s.mainPG f with
      valid := false, pid := 0, pageNumber := 0 } }

/-- A node for frame `f` at `ptr` becomes the head. -/
def pushTop (s : Kernel) (f ptr : ℕ) : Kernel := { s with
  ram := store32 s.ram (physAddr ptr + 4) s.frameListHead
  frameList := ⟨f, ptr⟩ :: s.frameList }

/-- The node is linked behind the last one.  Its own link is not written: it keeps what the block
held. -/
def pushBottom (s : Kernel) (f ptr last : ℕ) : Kernel := { s with
  ram := store32 s.ram (physAddr last + 4) ptr
  frameList := s.frameList ++ [⟨f, ptr⟩]
  frameListEnd := load32 s.ram (physAddr ptr + 4) }

def setPageref (s : Kernel) (p : ℕ) (pr : Pageref) : Kernel :=
  { s with pagerefs := update s.pagerefs p pr }

def setRoot (s : Kernel) (w : ℕ) (r : KheapRoot) : Kernel :=
  { s with kheaproots := update s.kheaproots w r }

/-- The first pageref that is free, by root and index. -/
def freePageref (s : Kernel) : Option (ℕ × ℕ) := do
  let free := fun w => firstBelow (fun j => (s.kheaproots w).inuse j = false) 256
  let w ← firstBelow (fun w => (s.kheaproots w).numinuse < 256 ∧ (free w).isSome = true) 16
  let j ← free w
  pure (w, j)

/-- Mark pageref `j` of root `w`. -/
def takePageref (s : Kernel) (w j : ℕ) : Kernel :=
  s.setRoot w { s.kheaproots w with
    inuse := update (s.kheaproots w).inuse j true
    numinuse := (s.kheaproots w).numinuse + 1 }

/-- Clear pageref `j` of root `w`. -/
def dropPageref (s : Kernel) (w j : ℕ) : Kernel :=
  s.setRoot w { s.kheaproots w with
    inuse := update (s.kheaproots w).inuse j false
    numinuse := (s.kheaproots w).numinuse - 1 }

/-- Cut the page at `prpage` into free blocks, chain them from the last to the first, and enter the
pageref `p` in both lists. -/
def newHeapPage (s : Kernel) (p prpage blktype : ℕ) : Kernel :=
  let size := sizes blktype
  let link := fun k => if k / size = 0 then 0 else prpage + (k / size - 1) * size
  { s with
    ram := overlay s.ram (physAddr prpage) pageSize fun k =>
      if k % size < 4 then byteOf (link k) (k % size) else s.ram (physAddr prpage + k)
    pagerefs := update s.pagerefs p {
      page := frameIndex prpage
      blocktype := blktype
      freelist := (List.range (blocksPerPage blktype)).reverse.map (· * size)
      nfree := blocksPerPage blktype }
    sizebases := update s.sizebases blktype (p :: s.sizebases blktype)
    allbase := p :: s.allbase }

/-- Put the block at `offset` of pageref `p` on its free list: the block is filled with `0xdeadbeef` and
its first word links to the former head. -/
def freeBlock (s : Kernel) (p offset : ℕ) : Kernel :=
  let pr := s.pagerefs p
  let a := pr.page * pageSize + offset
  let next := match pr.freelist with
    | [] => 0
    | o :: _ => kvaddr pr.page + o
  let beef := overlay s.ram a (sizes pr.blocktype) fun k => byteOf 0xdeadbeef (k % 4)
  { s with
    ram := store32 beef a next
    pagerefs := update s.pagerefs p { pr with
      freelist := offset :: pr.freelist, nfree := pr.nfree + 1 } }

/-- `remove_lists`. -/
def removeLists (s : Kernel) (p : ℕ) : Kernel :=
  let t := (s.pagerefs p).blocktype
  { s with
    sizebases := update s.sizebases t ((s.sizebases t).erase p)
    allbase := s.allbase.erase p }

end Kernel

/-! ### The boot-time allocator -/

/-- `ram_stealmem(npages)`. -/
def ramStealmem (npages : ℕ) : Kern ℕ := do
  let paddr ← .read firstpaddr
  let last ← .read lastpaddr
  if paddr + npages * pageSize > last then
    pure 0
  else do
    .update fun s => { s with firstpaddr := s.firstpaddr + npages * pageSize }
    pure paddr

/-! ### Taking frames -/

/-- `currentFrame->next_frame == NULL` for the head; a dangling head is dereferenced. -/
def headIsLast : Kern Bool := do
  let list ← .read frameList
  let last ← .read frameListEnd
  match list with
  | [] => .stop .wildDeref
  | [_] => pure (decide (last = 0))
  | _ :: _ :: _ => pure false

/-- The loop of `check_free_frame`, which never leaves the head. -/
def countFrames : ℕ → ℕ → Kern ℕ
  | 0, fifoSize => pure fifoSize
  | k + 1, fifoSize => do
    if ← headIsLast then pure fifoSize else countFrames k (fifoSize + 1)

/-- `check_free_frame(npages)`. -/
def checkFreeFrame (npages : ℕ) : Kern ℕ := do
  let null ← .read fun s => s.frameList.isEmpty && s.frameListEnd == 0
  if null then pure 0 else countFrames (npages - 1) 1

/-- The dereference of `frame_list`. -/
def headFrame : Kern FrameListStruct := do
  let list ← .read frameList
  let last ← .read frameListEnd
  match list with
  | node :: _ => pure node
  | [] => .stop (if last = 0 then .nullDeref else .wildDeref)

/-- One round of the loop of `alloc_kpages`; `addr` is 0 until the first frame is taken. -/
def takeFrame (kfree : ℕ → Kern Unit) (addr : ℕ) : Kern ℕ := do
  let node ← headFrame
  let entries ← .read pagetableEntry
  kassert (node.frameNumber < entries) "index < PAGETABLE_ENTRY"
  let valid ← .read fun s => (s.mainPG node.frameNumber).valid
  panicIf (valid = true) "This should not happen"
  let location ← .read mainPGLocation
  panicIf (addr = 0 ∧ location ≤ node.frameNumber * pageSize) "You're trying to write over the PG"
  panicIf (addr = 0 ∧ node.frameNumber = 0) "Error in alloc_kpages"
  .update fun s => s.popFrame node.frameNumber
  kfree node.ptr
  pure (if addr = 0 then node.frameNumber * pageSize else addr)

def takeFrames (kfree : ℕ → Kern Unit) : ℕ → ℕ → Kern ℕ
  | 0, addr => pure addr
  | n + 1, addr => do
    let addr' ← takeFrame kfree addr
    takeFrames kfree n addr'

/-- The body of `alloc_kpages`.  Only the first of the frames is cleared. -/
def allocKpagesBody (kfree : ℕ → Kern Unit) (npages : ℕ) : Kern ℕ := do
  kassert (npages < 10) "npages < MAX_PAGES_ALLOC"
  if ← .read vmStarted then
    let fifoSize ← checkFreeFrame npages
    if fifoSize = 0 then
      pure 0
    else do
      panicIf (fifoSize ≠ npages) "Error in alloc_kpages"
      let addr ← takeFrames kfree npages 0
      .update fun s => s.write addr pageSize fun _ => 0
      pure (kseg0 + addr)
  else do
    let addr ← ramStealmem npages
    panicIf (addr = 0) "Error in alloc_kpages: Not enough RAM"
    pure (kseg0 + addr)

/-! ### Giving frames back -/

/-- The part of `addToFrameList` both positions share: a node holding the frame number. -/
def newNode (kmalloc : ℕ → Kern ℕ) (value : ℕ) : Kern ℕ := do
  let ptr ← kmalloc 8
  panicIf (ptr = 0) "Error kmalloc in addToList()\n"
  panicIf (ptr = 0xdeadeef) "1"
  .update fun s => s.write (physAddr ptr) 4 (byteOf value)
  let entries ← .read pagetableEntry
  kassert (value ≤ entries) "value <= PAGETABLE_ENTRY"
  pure ptr

/-- `addToFrameList(value, addTOP)`. -/
def addTop (kmalloc : ℕ → Kern ℕ) (value : ℕ) : Kern Unit := do
  let ptr ← newNode kmalloc value
  .update fun s => s.pushTop value ptr

/-- `addToFrameList(value, addBOTTOM)`.  On an empty list the node is dropped and the call starts over at
the top. -/
def addBottom (kmalloc : ℕ → Kern ℕ) (value : ℕ) : Kern Unit := do
  let ptr ← newNode kmalloc value
  let list ← .read frameList
  let last ← .read frameListEnd
  match list.getLast? with
  | none => if last = 0 then addTop kmalloc value else .stop .wildDeref
  | some node =>
    if last = 0 ∨ last = 0xdeadbeef then
      .update fun s => s.pushBottom value ptr node.ptr
    else
      .stop .wildDeref

/-- The body of `addToFrameList`. -/
def addToFrameListBody (kmalloc : ℕ → Kern ℕ) (value : ℕ) : Position → Kern Unit
  | .addTOP => addTop kmalloc value
  | .addBOTTOM => addBottom kmalloc value

/-- The body of `free_kpages`. -/
def freeKpagesBody (kmalloc : ℕ → Kern ℕ) (paddr : ℕ) : Kern Unit := do
  if ← .read vmStarted then
    let entries ← .read pagetableEntry
    kassert (frameIndex paddr < entries) "frame_index < PAGETABLE_ENTRY"
    let valid ← .read fun s => (s.mainPG (frameIndex paddr)).valid
    panicIf (valid = false) "You're trying to free an already empty memory region"
    .update fun s => s.release (frameIndex paddr)
    .update fun s => s.write (physAddr paddr) pageSize fun _ => 0
    addToFrameListBody kmalloc (frameIndex paddr) .addTOP
  else
    pure ()

/-! ### The subpage allocator -/

/-- The page functions a body calls. -/
structure Allocator where
  alloc : ℕ → Kern ℕ
  free : ℕ → Kern Unit

/-- `allocpagerefpage(&kheaproots[w])`. -/
def allocpagerefpage (A : Allocator) (w : ℕ) : Kern Unit := do
  let page ← .read fun s => (s.kheaproots w).page
  kassert (page = none) "root->page == NULL"
  let va ← A.alloc 1
  if va = 0 then
    pure ()
  else do
    kassert (va % pageSize = 0) "va % PAGE_SIZE == 0"
    let page ← .read fun s => (s.kheaproots w).page
    if page = none then
      .update fun s => s.setRoot w { s.kheaproots w with page := some (frameIndex va) }
    else
      A.free va

/-- `allocpageref()`: the address of a pageref, unless its page cannot be had. -/
def allocpageref (A : Allocator) : Kern (Option ℕ) := do
  match ← .read freePageref with
  | none => pure none
  | some (w, j) =>
    .update fun s => s.takePageref w j
    let page ← .read fun s => (s.kheaproots w).page
    .when (page = none) (allocpagerefpage A w)
    let page ← .read fun s => (s.kheaproots w).page
    pure (page.map fun f => kvaddr f + 16 * j)

/-- The loop of `freepageref(p)` over the `k` roots from `w` on. -/
def freepagerefFrom (p : ℕ) : ℕ → ℕ → Kern Unit
  | 0, _ => kassert False "0"
  | k + 1, w => do
    let root ← .read fun s => s.kheaproots w
    match root.page with
    | none => do
      kassert (root.numinuse = 0) "root->numinuse == 0"
      freepagerefFrom p k (w + 1)
    | some f =>
      if kvaddr f ≤ p ∧ p < kvaddr f + pageSize then do
        kassert (root.inuse ((p - kvaddr f) / 16) = true) "(root->pagerefs_inuse[i] & k) != 0"
        kassert (0 < root.numinuse) "root->numinuse > 0"
        .update fun s => s.dropPageref w ((p - kvaddr f) / 16)
      else
        freepagerefFrom p k (w + 1)

def freepageref (p : ℕ) : Kern Unit := freepagerefFrom p 16 0

/-- The search of `subpage_kmalloc` for a page with a free block. -/
def findFreePage (blktype : ℕ) : List ℕ → Kern (Option ℕ)
  | [] => pure none
  | p :: ps => do
    let pr ← .read fun s => s.pagerefs p
    kassert (pr.blocktype = blktype) "PR_BLOCKTYPE(pr) == blktype"
    if 0 < pr.nfree then pure (some p) else findFreePage blktype ps

/-- `doalloc`: take the head of the page's free list. -/
def doalloc (p : ℕ) : Kern ℕ := do
  let pr ← .read fun s => s.pagerefs p
  match pr.freelist with
  | [] => .stop (.kassert "pr->freelist_offset < PAGE_SIZE")
  | offset :: rest =>
    kassert (offset < pageSize) "pr->freelist_offset < PAGE_SIZE"
    kassert (rest ≠ [] → 0 < pr.nfree - 1) "pr->nfree > 0"
    kassert (rest.headD 0 < pageSize) "fla - prpage < PAGE_SIZE"
    kassert (rest = [] → pr.nfree - 1 = 0) "pr->nfree == 0"
    .update fun s => s.setPageref p { pr with freelist := rest, nfree := pr.nfree - 1 }
    pure (kvaddr pr.page + offset)

/-- `subpage_kmalloc` for a block type. -/
def subpageKmalloc (A : Allocator) (blktype : ℕ) : Kern ℕ := do
  let base ← .read fun s => s.sizebases blktype
  match ← findFreePage blktype base with
  | some p => doalloc p
  | none =>
    let prpage ← A.alloc 1
    if prpage = 0 then
      pure 0
    else do
      kassert (prpage % pageSize = 0) "prpage % PAGE_SIZE == 0"
      match ← allocpageref A with
      | none => do
        A.free prpage
        pure 0
      | some p => do
        .update fun s => s.newHeapPage p prpage blktype
        doalloc p

/-- The pages that `kmalloc(sz)` asks `alloc_kpages` for, unless it has the block on a heap page. -/
def kmallocPages (sz : ℕ) : ℕ := (sz + pageSize - 1) % 2 ^ 32 / pageSize

/-- The body of `kmalloc`. -/
def kmallocBody (A : Allocator) (sz : ℕ) : Kern ℕ :=
  if 2048 ≤ sz then do
    let address ← A.alloc (kmallocPages sz)
    kassert (address % pageSize = 0) "address % PAGE_SIZE == 0"
    pure address
  else
    match firstBelow (fun t => sz ≤ sizes t) 8 with
    | some blktype => subpageKmalloc A blktype
    | none => panic "Subpage allocator cannot handle allocation of size %zu\n"

/-- The search of `subpage_kfree` for the heap page that contains an address. -/
def findPage (ptr : ℕ) : List ℕ → Kern (Option ℕ)
  | [] => pure none
  | p :: ps => do
    let pr ← .read fun s => s.pagerefs p
    kassert (pr.blocktype < 8) "blktype >= 0 && blktype < NSIZES"
    if kvaddr pr.page ≤ ptr ∧ ptr < kvaddr pr.page + pageSize then
      pure (some p)
    else
      findPage ptr ps

/-- `subpage_kfree(ptr)`; `false` is the source's -1. -/
def subpageKfree (free : ℕ → Kern Unit) (ptr : ℕ) : Kern Bool := do
  let base ← .read allbase
  match ← findPage ptr base with
  | none => pure false
  | some p =>
    let pr ← .read fun s => s.pagerefs p
    let offset := ptr - kvaddr pr.page
    panicIf (offset % sizes pr.blocktype ≠ 0) "kfree: subpage free of invalid addr %p\n"
    kassert (pr.freelist.head? ≠ some offset) "fl != fl->next"
    .update fun s => s.freeBlock p offset
    kassert (pr.nfree + 1 ≤ blocksPerPage pr.blocktype) "pr->nfree <= PAGE_SIZE / sizes[blktype]"
    .when (pr.nfree + 1 = blocksPerPage pr.blocktype) do
      .update fun s => s.removeLists p
      freepageref p
      free (kvaddr pr.page)
    pure true

/-- The body of `kfree`. -/
def kfreeBody (free : ℕ → Kern Unit) (ptr : ℕ) : Kern Unit :=
  if ptr = 0 then
    pure ()
  else do
    if ← subpageKfree free ptr then
      pure ()
    else do
      kassert (ptr % pageSize = 0) "(vaddr_t)ptr%PAGE_SIZE==0"
      free ptr

/-! ### The circle, `d` calls deep -/

def allocator : ℕ → Allocator
  | 0 => ⟨fun _ => .stop .depth, fun _ => .stop .depth⟩
  | d + 1 => ⟨allocKpagesBody (kfreeBody (allocator d).free), freeKpagesBody (kmallocBody (allocator d))⟩

/-- `alloc_kpages(npages)`. -/
def allocKpages (d npages : ℕ) : Kern ℕ := (allocator d).alloc npages

/-- `free_kpages(paddr)`. -/
def freeKpages (d paddr : ℕ) : Kern Unit := (allocator d).free paddr

/-- `kmalloc(sz)`. -/
def kmalloc (d sz : ℕ) : Kern ℕ := kmallocBody (allocator d) sz

/-- **`kmalloc` never returns a block of ten pages**: `alloc_kpages` asserts `npages < MAX_PAGES_ALLOC`. -/
theorem kmalloc_ten_pages {d sz : ℕ} (hlt : sz < 2 ^ 32) (h : 10 ≤ kmallocPages sz) (s : Kernel) :
    ∃ e, kmalloc d sz s = .stop e := by
  have hlarge : 2048 ≤ sz := by
    unfold kmallocPages pageSize at h
    omega
  unfold kmalloc kmallocBody
  rw [if_pos hlarge]
  cases d with
  | zero => exact ⟨_, rfl⟩
  | succ d =>
    have hstop : (allocator (d + 1)).alloc (kmallocPages sz) s = .stop (.kassert "npages < MAX_PAGES_ALLOC") := by
      show allocKpagesBody _ _ s = _
      unfold allocKpagesBody kassert
      rw [require_of_not (Nat.not_lt.mpr h)]
      rfl
    exact ⟨_, bind_of_stop hstop⟩

/-- `kfree(ptr)`. -/
def kfree (d ptr : ℕ) : Kern Unit := kfreeBody (allocator d).free ptr

/-- `addToFrameList(value, position)`. -/
def addToFrameList (d value : ℕ) (position : Position) : Kern Unit :=
  addToFrameListBody (kmalloc d) value position

end Os161Kernel
