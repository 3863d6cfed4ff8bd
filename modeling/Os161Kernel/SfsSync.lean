import Os161Kernel.SfsAccounting

/-!
# Syncing a volume: `sfs_sync` and `sfs_unmount`

`sfs_sync` writes the inodes in memory and then the free map to the disk.  It does not look at the result for an inode,
and it stops at the first block of the map that the device refuses.  When it succeeds the disk is enough: a mount finds
the free map and every file whose inode was not refused, whether the volume was unmounted or the machine has stopped.
-/

namespace Os161Kernel

open Calls Memory Ledger Function

attribute [local irreducible] Ends

/-- A mounted `struct sfs_fs`.  Nothing sets `sfs_superdirty`, so `sfs_sync_superblock` does nothing. -/
structure MountedSfs where
  fs : Sfs
  freemapdirty : Bool

abbrev MountCall := Call VfsStop Errno MountedSfs

namespace Sfs

/-! ### The code

A device answers each block with an error or not; no call writes a block twice. -/

/-- `sfs_writeblock` on a device that may fail. -/
def writeblockOr (error : ℕ → Option Errno) (block : ℕ) (data : Block) : SfsCall Unit :=
  match error block with
  | some e => .fail e
  | none => writeblock block data

/-- `VOP_FSYNC`: `sfs_sync_inode` on such a device. -/
def fsync (error : ℕ → Option Errno) (h : ℕ) : SfsCall Unit := do
  let sv ← .read fun s => s.sv h
  .when (sv.dirty = true) do
    writeblockOr error sv.ino sv.inode
    .update fun s => { s with sv := update s.sv h { s.sv h with dirty := false } }

/-- `sfs_sync_vnodes`. -/
def syncVnodes (error : ℕ → Option Errno) : SfsCall Unit := do
  let vnodes ← .read Sfs.vnodes
  .loopBelow (fun i _ => do
    let _ ← .attempt (fsync error (vnodes.getD i 0))
    pure ()) vnodes.length ()

/-- Block `j` of `bitmap_getdata(sfs->sfs_freemap)`; a byte has the bits of eight blocks, the lowest first. -/
def mapBlock (freemap : ℕ → Bool) (j : ℕ) : Block := fun i =>
  .ofBitVec ((BitVec.ofBoolListLE ((List.range 8).map fun k => freemap (4096 * j + 8 * i + k))).setWidth 8)

/-- `sfs_freemapio` with `UIO_WRITE`. -/
def freemapioWrite (error : ℕ → Option Errno) : SfsCall Unit := do
  let s ← .read id
  .loopBelow (fun j _ => writeblockOr error (2 + j) (mapBlock s.freemap j)) (freemapBlocks s.nblocks) ()

end Sfs

namespace MountedSfs

def onFs (call : SfsCall Unit) : MountCall Unit := .onPart fs (fun m s => { m with fs := s }) call

/-- `sfs_sync`. -/
def sync (error : ℕ → Option Errno) : MountCall Unit := do
  onFs (Sfs.syncVnodes error)
  let dirty ← .read freemapdirty
  .when (dirty = true) do
    onFs (Sfs.freemapioWrite error)
    .update fun m => { m with freemapdirty := false }

/-- `sfs_unmount`. -/
def unmount : MountCall Unit := do
  let m ← .read id
  if 0 < m.fs.vnodes.length then .fail .ebusy
  else .require (m.freemapdirty = false) (.kassert "sfs->sfs_freemapdirty == false")

end MountedSfs

namespace Sfs

variable {s t : Sfs} {h b j : ℕ} {error : ℕ → Option Errno} {E : Errno → Sfs → Prop}

/-- Blocks were written, and the volume is the same. -/
structure Flushed (s t : Sfs) : Prop extends SameFiles s t where
  acct : t.Acct
  freemap : t.freemap = s.freemap

theorem Flushed.trans {u : Sfs} (hf : Flushed s t) (hf' : Flushed t u) : Flushed s u :=
  ⟨hf.toSameFiles.trans hf'.toSameFiles, hf'.acct, hf'.freemap.trans hf.freemap⟩

theorem Flushed.reserved (hf : Flushed s t) : t.Reserved b ↔ s.Reserved b := by
  unfold Reserved
  rw [hf.nblocks]

/-! ### The free map -/

end Sfs

namespace MountedSfs

open Sfs

variable {m : MountedSfs} {error : ℕ → Option Errno}

end MountedSfs

end Os161Kernel
