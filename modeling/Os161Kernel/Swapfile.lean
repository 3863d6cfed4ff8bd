import Os161Kernel.PageTable

/-!
# The swap file: `swapfile.c`

Slot `i` of `sf_list` stands for the page at `p_offset * PAGE_SIZE` of the swap file.  A slot with page
number 0 and pid 0 is free.  `swapOut` writes a frame to the lowest free slot and frees the frame;
`swapIn` takes a frame, enters it in the page table and the TLB, reads the page back and clears the slot.

The calls into the file system are one oracle: the `n`-th call returns `ioResult n`.  A call that returns
0 has transferred all its bytes.  Opening the swap file allocates nothing in this model.
-/

namespace Os161Kernel

open StateProg Search Memory

/-- One call into the file system. -/
def vfsCall : Kern ℕ := do
  let r ← .read fun s => s.ioResult s.ioCount
  .update fun s => { s with ioCount := s.ioCount + 1 }
  pure r

namespace ListParam

/-- A slot that holds nothing. -/
def Free (slot : ListParam) : Prop := slot.number = 0 ∧ slot.pid = 0

instance (slot : ListParam) : Decidable slot.Free := inferInstanceAs (Decidable (_ ∧ _))

end ListParam

namespace Kernel

/-- `sf_pageSearch(page_num, pid)`, which is all `swapfile_checkv1` does. -/
def sfPageSearch (s : Kernel) (p : PageNo) (pid : UInt8) : Option ℕ :=
  firstBelow (fun i => (s.sfList i).number = p ∧ (s.sfList i).pid = pid) swapfileSize

/-- `sf_freeSearch()`. -/
def sfFreeSearch (s : Kernel) : Option ℕ := firstBelow (fun i => (s.sfList i).Free) swapfileSize

/-- The byte offset of a slot. -/
def slotOffset (s : Kernel) (index : ℕ) : ℕ := (s.sfList index).offset * pageSize % 2 ^ 32

/-- The page of a frame goes to the slot's place in the swap file. -/
def writeSlot (s : Kernel) (index f : ℕ) : Kernel := { s with
  swapfile := overlay s.swapfile (s.slotOffset index) pageSize fun k => s.ram (f * pageSize + k) }

/-- The slot takes the row's page number, pid and dirty bit. -/
def enterSlot (s : Kernel) (index f : ℕ) : Kernel := { s with
  sfList := Function.update s.sfList index { s.sfList index with
    number := (s.mainPG f).pageNumber, pid := (s.mainPG f).pid, dirty := (s.mainPG f).dirty } }

/-- The slot's page comes back into a frame. -/
def readSlot (s : Kernel) (index f : ℕ) : Kernel := { s with
  ram := overlay s.ram (f * pageSize) pageSize fun k => s.swapfile (s.slotOffset index + k) }

/-- The slot is free again; its offset stays. -/
def clearSlot (s : Kernel) (index : ℕ) : Kernel := { s with
  sfList := Function.update s.sfList index { s.sfList index with number := 0, pid := 0, dirty := false } }

end Kernel

/-- `swapfile_init()`. -/
def swapfileInit : Kern Unit := do
  let result ← vfsCall
  panicIf (result ≠ 0) "Something has gone wrong with swapfile creation\n"
  .update fun s => { s with sfList := fun i => ⟨0, 0, i, false⟩ }

/-- `swapOut(RAM_address)`: 0, or -1 (here 1) when the write fails.  A frame outside the machine is
dereferenced. -/
def swapOut (d address : ℕ) : Kern ℕ := do
  match ← .read Kernel.sfFreeSearch with
  | none => panic "ERROR: Out of swap space!!\n"
  | some index =>
    let opened ← vfsCall
    panicIf (0 < opened) "ERROR in SWAPFILE opening operation\n"
    let entries ← .read Kernel.pagetableEntry
    .require (frameIndex address < entries) .wildDeref
    let err ← vfsCall
    if err ≠ 0 then
      pure 1
    else do
      .update fun s => s.writeSlot index (frameIndex address)
      .update fun s => s.enterSlot index (frameIndex address)
      freeKpages d address
      pure 0

/-- `swapIn(index)`: 0, or -1 (here 1) when the read fails, with the frame already mapped and the slot
still taken. -/
def swapIn (d index : ℕ) : Kern ℕ := do
  let address ← allocKpages d 1
  panicIf (address = 0) "swapIn not allowed!\n"
  let slot ← .read fun s => s.sfList index
  addPT (frameIndex address) (pageAddr slot.number) slot.pid slot.dirty
  addTLB (pageAddr slot.number) slot.pid
  let opened ← vfsCall
  panicIf (0 < opened) "ERROR in SWAPFILE opening operation\n"
  let err ← vfsCall
  if err ≠ 0 then
    pure 1
  else do
    .update fun s => s.readSlot index (frameIndex address)
    .update fun s => s.clearSlot index
    pure 0

/-! ### Slots in the file -/

theorem Kernel.slotOffset_eq {s : Kernel} {i : ℕ} (h : (s.sfList i).offset = i) (hi : i < swapfileSize) :
    s.slotOffset i = i * pageSize := by
  unfold Kernel.slotOffset
  rw [h]
  unfold swapfileSize at hi
  unfold pageSize
  omega

theorem slot_apart {i j k : ℕ} (h : j ≠ i) (hk : k < 4096) :
    j * pageSize + k < i * pageSize ∨ i * pageSize + pageSize ≤ j * pageSize + k := by
  unfold pageSize
  omega

end Os161Kernel
