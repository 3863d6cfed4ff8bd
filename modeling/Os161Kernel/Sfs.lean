import Mathlib.Algebra.Group.Int.Defs
import Os161Kernel.Vfs
import Os161Kernel.Lib.Search

/-!
# SFS: blocks and inodes

A volume is an array of blocks of 512 bytes.  Block 0 is the superblock, block 1 the inode of the root directory and
blocks from 2 on hold the free block map; an inode fills a block and its number is the number of that block.  The
inodes in use are also kept in memory, in `sfs_vnodes`, and written back when the last reference goes away.

The on-disk structures are laid over the bytes of their blocks, as in C: an inode is a block read at fixed offsets, and
so is an indirect block.  The device does not fail.  Every call holds the big lock, so a call is one step.
-/

namespace Os161Kernel

open Calls Memory Search Function

/-- The contents of a block, bytes 0 to 511. -/
abbrev Block := Bytes

/-! ### `struct sfs_dinode` -/

namespace Dinode

def size (i : Block) : ℕ := load32 i 0

def type (i : Block) : ℕ := load16 i 4

def linkcount (i : Block) : ℕ := load16 i 6

def direct (i : Block) (k : ℕ) : ℕ := load32 i (8 + 4 * k)

def indirect (i : Block) : ℕ := load32 i 68

def setSize (i : Block) (n : ℕ) : Block := store32 i 0 n

def setType (i : Block) (n : ℕ) : Block := store16 i 4 n

def setLinkcount (i : Block) (n : ℕ) : Block := store16 i 6 n

def setDirect (i : Block) (k b : ℕ) : Block := store32 i (8 + 4 * k) b

def setIndirect (i : Block) (b : ℕ) : Block := store32 i 68 b

variable {i : Block} {k k' n b : ℕ}

/-! A field keeps its value when another one is set. -/

@[simp] theorem size_setSize : size (setSize i n) = n % 2 ^ 32 := load32_store32 ..

@[simp] theorem type_setSize : type (setSize i n) = type i := load16_store32_of_disjoint (by omega)

@[simp] theorem linkcount_setSize : linkcount (setSize i n) = linkcount i := load16_store32_of_disjoint (by omega)

@[simp] theorem direct_setSize : direct (setSize i n) k = direct i k := load32_store32_of_disjoint (by omega)

@[simp] theorem indirect_setSize : indirect (setSize i n) = indirect i := load32_store32_of_disjoint (by omega)

@[simp] theorem size_setType : size (setType i n) = size i := load32_store16_of_disjoint (by omega)

@[simp] theorem type_setType : type (setType i n) = n % 2 ^ 16 := load16_store16 ..

@[simp] theorem linkcount_setType : linkcount (setType i n) = linkcount i := load16_store16_of_disjoint (by omega)

@[simp] theorem direct_setType : direct (setType i n) k = direct i k := load32_store16_of_disjoint (by omega)

@[simp] theorem indirect_setType : indirect (setType i n) = indirect i := load32_store16_of_disjoint (by omega)

@[simp] theorem size_setLinkcount : size (setLinkcount i n) = size i := load32_store16_of_disjoint (by omega)

@[simp] theorem type_setLinkcount : type (setLinkcount i n) = type i := load16_store16_of_disjoint (by omega)

@[simp] theorem linkcount_setLinkcount : linkcount (setLinkcount i n) = n % 2 ^ 16 := load16_store16 ..

@[simp] theorem direct_setLinkcount : direct (setLinkcount i n) k = direct i k :=
  load32_store16_of_disjoint (by omega)

@[simp] theorem indirect_setLinkcount : indirect (setLinkcount i n) = indirect i :=
  load32_store16_of_disjoint (by omega)

@[simp] theorem size_setDirect : size (setDirect i k b) = size i := load32_store32_of_disjoint (by omega)

@[simp] theorem type_setDirect : type (setDirect i k b) = type i := load16_store32_of_disjoint (by omega)

@[simp] theorem linkcount_setDirect : linkcount (setDirect i k b) = linkcount i :=
  load16_store32_of_disjoint (by omega)

@[simp] theorem direct_setDirect_self : direct (setDirect i k b) k = b % 2 ^ 32 := load32_store32 ..

theorem direct_setDirect_of_ne (h : k' ≠ k) : direct (setDirect i k b) k' = direct i k' :=
  load32_store32_of_disjoint (by omega)

theorem indirect_setDirect (h : k < 15) : indirect (setDirect i k b) = indirect i :=
  load32_store32_of_disjoint (by omega)

@[simp] theorem size_setIndirect : size (setIndirect i b) = size i := load32_store32_of_disjoint (by omega)

@[simp] theorem type_setIndirect : type (setIndirect i b) = type i := load16_store32_of_disjoint (by omega)

@[simp] theorem linkcount_setIndirect : linkcount (setIndirect i b) = linkcount i :=
  load16_store32_of_disjoint (by omega)

theorem direct_setIndirect (h : k < 15) : direct (setIndirect i b) k = direct i k :=
  load32_store32_of_disjoint (by omega)

@[simp] theorem indirect_setIndirect : indirect (setIndirect i b) = b % 2 ^ 32 := load32_store32 ..

end Dinode

/-! ### Volumes -/

/-- `struct sfs_vnode`. -/
structure SfsVnode where
  ino : ℕ
  inode : Block
  dirty : Bool
  refcount : ℕ

/-- `struct sfs_fs` with its device.  A vnode structure has a number in place of its address; `sfs_vnodes` holds such
numbers, and `kmalloc` hands out the numbers from `fresh` on. -/
structure Sfs where
  nblocks : ℕ
  freemap : ℕ → Bool
  disk : ℕ → Block
  vnodes : List ℕ
  sv : ℕ → SfsVnode
  fresh : ℕ

/-- Whether `sfs_loadvnode` gets memory for a vnode and for its place in the table. -/
structure SfsMemory where
  vnode : Bool
  vnodes : Bool

namespace SfsMemory

def Enough (memory : SfsMemory) : Prop := memory.vnode = true ∧ memory.vnodes = true

instance (memory : SfsMemory) : Decidable memory.Enough := inferInstanceAs (Decidable (_ ∧ _))

def plenty : SfsMemory := ⟨true, true⟩

end SfsMemory

abbrev SfsCall := Call VfsStop Errno Sfs

namespace Sfs

/-- `SFS_FREEMAPBITS`, in 32-bit arithmetic. -/
def freemapBits (nblocks : ℕ) : ℕ := (nblocks + 4095) % 2 ^ 32 / 4096 * 4096

/-- `SFS_FREEMAPBLOCKS`. -/
def freemapBlocks (nblocks : ℕ) : ℕ := freemapBits nblocks / 4096

/-- `sfs_readblock`. -/
def readblock (block : ℕ) : SfsCall Block := .read fun s => s.disk block

/-- `sfs_writeblock`. -/
def writeblock (block : ℕ) (data : Block) : SfsCall Unit :=
  .update fun s => { s with disk := update s.disk block data }

/-! ### Block allocation -/

/-- `sfs_balloc`. -/
def balloc : SfsCall ℕ := do
  match ← .read fun s => firstBelow (fun b => s.freemap b = false) (freemapBits s.nblocks) with
  | none => .fail .enospc
  | some block => do
    .update fun s => { s with freemap := update s.freemap block true }
    let nblocks ← .read Sfs.nblocks
    .require (block < nblocks) (.panic "sfs: %s: balloc: invalid block %u\n")
    writeblock block fun _ => 0
    pure block

/-- `sfs_bfree`. -/
def bfree (block : ℕ) : SfsCall Unit := do
  let nblocks ← .read Sfs.nblocks
  .require (block < freemapBits nblocks) (.kassert "index < b->nbits")
  let used ← .read fun s => s.freemap block
  .require (used = true) (.kassert "(b->v[ix] & mask)!=0")
  .update fun s => { s with freemap := update s.freemap block false }

/-- `sfs_bused`. -/
def bused (block : ℕ) : SfsCall Bool := do
  let nblocks ← .read Sfs.nblocks
  .require (block < nblocks) (.panic "sfs: %s: sfs_bused called on out of range block %u\n")
  .read fun s => s.freemap block

/-! ### Block mapping -/

/-- Change the inode of a vnode and mark it dirty. -/
def setInode (h : ℕ) (f : Block → Block) : SfsCall Unit :=
  .update fun s => { s with
    sv := update s.sv h { s.sv h with inode := f (s.sv h).inode, dirty := true } }

/-- The test before `sfs_bmap` hands a block back. -/
def checkUsed (block : ℕ) : SfsCall Unit :=
  .when (block ≠ 0) do
    let used ← bused block
    .require (used = true) (.panic "sfs: %s: Data block %u (block %u of file %u) marked free\n")

/-- Allocate a direct block if it is missing and wanted. -/
def bmapDirectBlock (h fileblock block : ℕ) (doalloc : Bool) : SfsCall ℕ :=
  if block = 0 ∧ doalloc = true then do
    let b ← balloc
    setInode h fun i => Dinode.setDirect i fileblock b
    pure b
  else pure block

/-- `sfs_bmap` for the direct blocks. -/
def bmapDirect (h fileblock : ℕ) (doalloc : Bool) : SfsCall ℕ := do
  let old ← .read fun s => Dinode.direct (s.sv h).inode fileblock
  let block ← bmapDirectBlock h fileblock old doalloc
  checkUsed block
  pure block

/-- The number of the indirect block and its contents; a new one is empty. -/
def bmapIdblock (h idblock : ℕ) : SfsCall (ℕ × Block) :=
  if idblock = 0 then do
    let b ← balloc
    setInode h fun i => Dinode.setIndirect i b
    pure (b, fun _ => 0)
  else do
    let idbuf ← readblock idblock
    pure (idblock, idbuf)

/-- Allocate the block of an entry of the indirect block if it is missing and wanted. -/
def bmapEntry (idblock : ℕ) (idbuf : Block) (idoff : ℕ) (doalloc : Bool) : SfsCall ℕ :=
  if load32 idbuf (4 * idoff) = 0 ∧ doalloc = true then do
    let b ← balloc
    writeblock idblock (store32 idbuf (4 * idoff) b)
    pure b
  else pure (load32 idbuf (4 * idoff))

/-- `sfs_bmap` beyond the direct blocks. -/
def bmapIndirect (h fileblock : ℕ) (doalloc : Bool) : SfsCall ℕ :=
  if 1 ≤ fileblock / 128 then .fail .efbig
  else do
    let old ← .read fun s => Dinode.indirect (s.sv h).inode
    if old = 0 ∧ doalloc = false then pure 0
    else do
      let id ← bmapIdblock h old
      let block ← bmapEntry id.1 id.2 (fileblock % 128) doalloc
      checkUsed block
      pure block

/-- `sfs_bmap`: the disk block of a block of the file, 0 if there is none. -/
def bmap (h fileblock : ℕ) (doalloc : Bool) : SfsCall ℕ :=
  if fileblock < 15 then bmapDirect h fileblock doalloc else bmapIndirect h (fileblock - 15) doalloc

/-! ### Truncation -/

/-- The first loop of `sfs_itrunc`. -/
def itruncDirect (h blocklen i : ℕ) : SfsCall Unit := do
  let block ← .read fun s => Dinode.direct (s.sv h).inode i
  .when (blocklen ≤ i ∧ block ≠ 0) do
    bfree block
    setInode h fun inode => Dinode.setDirect inode i 0

/-- `idbuf`, `hasnonzero` and `iddirty` of `sfs_itrunc`. -/
structure IdScan where
  idbuf : Block
  hasnonzero : Bool
  iddirty : Bool

/-- Discard an entry of the indirect block. -/
def discardEntry (blocklen j : ℕ) (scan : IdScan) : SfsCall IdScan :=
  if blocklen < 15 + j ∧ load32 scan.idbuf (4 * j) ≠ 0 then do
    bfree (load32 scan.idbuf (4 * j))
    pure { scan with idbuf := store32 scan.idbuf (4 * j) 0, iddirty := true }
  else pure scan

/-- The second loop of `sfs_itrunc`.  Its limit differs from that of the first by one. -/
def itruncEntry (blocklen j : ℕ) (scan : IdScan) : SfsCall IdScan := do
  let scan ← discardEntry blocklen j scan
  pure { scan with hasnonzero := scan.hasnonzero || load32 scan.idbuf (4 * j) != 0 }

/-- The indirect block is freed when it is empty and written back when it has changed. -/
def itruncIdblock (h idblock : ℕ) (scan : IdScan) : SfsCall Unit :=
  if scan.hasnonzero = false then do
    bfree idblock
    setInode h fun inode => Dinode.setIndirect inode 0
  else .when (scan.iddirty = true) (writeblock idblock scan.idbuf)

def itruncIndirect (h blocklen idblock : ℕ) : SfsCall Unit := do
  let idbuf ← readblock idblock
  let scan ← .loopBelow (itruncEntry blocklen) 128 ⟨idbuf, false, false⟩
  itruncIdblock h idblock scan

/-- `blocklen` of `sfs_itrunc`: `DIVROUNDUP` of a signed length, cut to 32 bits. -/
def blocklen (len : Int) : ℕ := ((len + 511).tdiv 512 % 2 ^ 32).toNat

/-- `sfs_itrunc`. -/
def itrunc (h : ℕ) (len : Int) : SfsCall Unit := do
  .loopBelow (fun i _ => itruncDirect h (blocklen len) i) 15 ()
  let idblock ← .read fun s => Dinode.indirect (s.sv h).inode
  .when (blocklen len < 142 ∧ idblock ≠ 0) (itruncIndirect h (blocklen len) idblock)
  setInode h fun inode => Dinode.setSize inode (len % 2 ^ 32).toNat

/-! ### Vnodes -/

/-- `sfs_sync_inode`. -/
def syncInode (h : ℕ) : SfsCall Unit := do
  let sv ← .read fun s => s.sv h
  .when (sv.dirty = true) do
    writeblock sv.ino sv.inode
    .update fun s => { s with sv := update s.sv h { s.sv h with dirty := false } }

/-- `v->vn_refcount = n`. -/
def setRefcount (h n : ℕ) : SfsCall Unit :=
  .update fun s => { s with sv := update s.sv h { s.sv h with refcount := n } }

/-- The second half of `sfs_reclaim`: the inode is written back, its block is freed if it has no links, and the vnode
leaves the table. -/
def reclaimDrop (h : ℕ) : SfsCall Unit := do
  syncInode h
  let sv ← .read fun s => s.sv h
  .when (Dinode.linkcount sv.inode = 0) (bfree sv.ino)
  let table ← .read Sfs.vnodes
  .require (h ∈ table) (.panic "sfs: %s: reclaim vnode %u not in vnode pool\n")
  .update fun s => { s with vnodes := s.vnodes.erase h }

/-- `sfs_reclaim` once the count is known to be one: a file without links loses its blocks. -/
def reclaimLast (h : ℕ) : SfsCall Unit := do
  let links ← .read fun s => Dinode.linkcount (s.sv h).inode
  .when (links = 0) (itrunc h 0)
  reclaimDrop h

/-- `sfs_reclaim`. -/
def reclaim (h : ℕ) : SfsCall Unit := do
  let refcount ← .read fun s => (s.sv h).refcount
  if refcount ≠ 1 then do
    .require (1 < refcount) (.kassert "v->vn_refcount>1")
    setRefcount h (refcount - 1)
    .fail .ebusy
  else reclaimLast h

/-- `VOP_DECREF`; an error of `VOP_RECLAIM` is only printed. -/
def decref (h : ℕ) : SfsCall Unit := do
  let refcount ← .read fun s => (s.sv h).refcount
  .require (0 < refcount) (.kassert "vn->vn_refcount > 0")
  if 1 < refcount then setRefcount h (refcount - 1)
  else do
    let _ ← .attempt (reclaim h)
    pure ()

/-- The search of `sfs_loadvnode` in the vnode table. -/
def findVnode (ino : ℕ) : List ℕ → SfsCall (Option ℕ)
  | [] => pure none
  | h :: rest => do
    let sv ← .read fun s => s.sv h
    let used ← bused sv.ino
    .require (used = true) (.panic "sfs: %s: Found inode %u in unallocated block\n")
    if sv.ino = ino then pure (some h) else findVnode ino rest

/-- The new vnode of `sfs_loadvnode`.  Types: 0 is `SFS_TYPE_INVAL`, 1 a file, 2 a directory. -/
def addVnode (ino : ℕ) (inode : Block) (dirty : Bool) (memory : SfsMemory) : SfsCall ℕ := do
  .require (Dinode.type inode = 1 ∨ Dinode.type inode = 2)
    (.panic "sfs: %s: loadvnode: Invalid inode type (inode %u, type %u)\n")
  if memory.vnodes = false then .fail .enomem
  else do
    let h ← .read Sfs.fresh
    .update fun s => { s with
      vnodes := s.vnodes ++ [h]
      sv := update s.sv h { ino := ino, inode := inode, dirty := dirty, refcount := 1 }
      fresh := h + 1 }
    pure h

/-- `sfs_loadvnode` of an inode that is not in memory. -/
def loadInode (ino forcetype : ℕ) (memory : SfsMemory) : SfsCall ℕ :=
  if memory.vnode = false then .fail .enomem
  else do
    let used ← bused ino
    .require (used = true) (.panic "sfs: %s: Tried to load inode %u from unallocated block\n")
    let inode ← readblock ino
    if forcetype ≠ 0 then do
      .require (Dinode.type inode = 0) (.kassert "sv->sv_i.sfi_type == SFS_TYPE_INVAL")
      addVnode ino (Dinode.setType inode forcetype) true memory
    else addVnode ino inode false memory

/-- `sfs_loadvnode`. -/
def loadvnode (ino forcetype : ℕ) (memory : SfsMemory) : SfsCall ℕ := do
  let table ← .read Sfs.vnodes
  match ← findVnode ino table with
  | some h => do
    .require (forcetype = 0) (.kassert "forcetype==SFS_TYPE_INVAL")
    let refcount ← .read fun s => (s.sv h).refcount
    setRefcount h (refcount + 1)
    pure h
  | none => loadInode ino forcetype memory

/-- `sfs_makeobj`. -/
def makeobj (type : ℕ) (memory : SfsMemory) : SfsCall ℕ := do
  let ino ← balloc
  match ← .attempt (loadvnode ino type memory) with
  | .ok h => pure h
  | .error e => do
    bfree ino
    .fail e

/-- `sfs_getroot`. -/
def getroot (memory : SfsMemory) : SfsCall ℕ := do
  let h ← loadvnode 1 0 memory
  let type ← .read fun s => Dinode.type (s.sv h).inode
  if type ≠ 2 then .fail .einval else pure h

end Sfs

end Os161Kernel
