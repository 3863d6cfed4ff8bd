import Os161Kernel.Sfs

/-!
# SFS: the root directory

SFS has one directory.  It is a file of slots of 64 bytes, an inode number and a name of up to 59 bytes each; inode 0
marks a free slot, which the next new name reuses.  A link is made by writing a slot and then counting it in the inode
of the file; a name is taken away in the same order.
-/

namespace Os161Kernel

open Calls Memory Dinode

/-- A C string: it has no NUL inside. -/
def CString := { name : List UInt8 // 0 ∉ name }

/-- `enum uio_rw`. -/
inductive UioRw where
  | read
  | write
deriving DecidableEq

/-! ### `struct sfs_direntry` -/

namespace Direntry

def ino (sd : Bytes) : ℕ := load32 sd 0

/-- The name as `strcmp` sees it once byte 59 of it has been set to NUL. -/
def name (sd : Bytes) : List UInt8 := ((List.range 59).map fun k => sd (4 + k)).takeWhile (· ≠ 0)

/-- A cleared entry with an inode number and a name. -/
def make (ino : ℕ) (name : List UInt8) : Bytes :=
  overlay (store32 (fun _ => 0) 0 ino) 4 name.length fun k => name.getD k 0

end Direntry

namespace Sfs

/-! ### Metadata I/O -/

/-- Raise the size of a file to `endpos`. -/
def growSize (h endpos : ℕ) : SfsCall Unit := do
  let size ← .read fun s => Dinode.size (s.sv h).inode
  .when (size < endpos) (setInode h fun i => setSize i endpos)

/-- `sfs_metaio` once the block is known. -/
def metaioBlock (h diskblock actualpos : ℕ) (data : Bytes) (len : ℕ) : UioRw → SfsCall Bytes
  | .read => do
    let metaiobuf ← readblock diskblock
    pure (overlay data 0 len fun k => metaiobuf (actualpos % 512 + k))
  | .write => do
    let metaiobuf ← readblock diskblock
    writeblock diskblock (overlay metaiobuf (actualpos % 512) len data)
    growSize h (actualpos + len)
    pure data

/-- `sfs_metaio`; the result is `data` afterwards. -/
def metaio (h actualpos : ℕ) (data : Bytes) (len : ℕ) (rw : UioRw) : SfsCall Bytes := do
  let diskblock ← bmap h (actualpos / 512) (rw == .write)
  if diskblock = 0 then do
    .require (rw = .read) (.kassert "rw == UIO_READ")
    pure (overlay data 0 len fun _ => 0)
  else metaioBlock h diskblock actualpos data len rw

/-! ### Directory I/O -/

/-- `sfs_readdir`. -/
def readdir (h slot : ℕ) : SfsCall Bytes := metaio h (slot * 64) (fun _ => 0) 64 .read

/-- `sfs_writedir`. -/
def writedir (h slot : ℕ) (sd : Bytes) : SfsCall Unit := do
  let _ ← metaio h (slot * 64) sd 64 .write
  pure ()

/-- `sfs_dir_nentries`. -/
def dirNentries (h : ℕ) : SfsCall ℕ := do
  let inode ← .read fun s => (s.sv h).inode
  .require (Dinode.type inode = 2) (.kassert "sv->sv_i.sfi_type == SFS_TYPE_DIR")
  .require (Dinode.size inode % 64 = 0) (.panic "sfs: %s: directory %u: Invalid size %llu\n")
  pure (Dinode.size inode / 64)

/-- What `sfs_dir_findname` hands back: the slot and the inode number of the name, and a free slot. -/
structure FoundName where
  entry : Option (ℕ × ℕ)
  emptyslot : Option ℕ

/-- The loop of `sfs_dir_findname`. -/
def findnameSlot (h : ℕ) (name : CString) (i : ℕ) (found : FoundName) : SfsCall FoundName := do
  let tsd ← readdir h i
  if Direntry.ino tsd = 0 then pure { found with emptyslot := some i }
  else if Direntry.name tsd = name.val then do
    .require (found.entry = none) (.kassert "found==0")
    pure { found with entry := some (i, Direntry.ino tsd) }
  else pure found

/-- `sfs_dir_findname`; `ENOENT` is an empty `entry`. -/
def dirFindname (h : ℕ) (name : CString) : SfsCall FoundName := do
  let nentries ← dirNentries h
  .loopBelow (findnameSlot h name) nentries ⟨none, none⟩

/-- The free slot that was found, or the end of the directory. -/
def linkSlot (h : ℕ) : Option ℕ → SfsCall ℕ
  | some slot => pure slot
  | none => dirNentries h

/-- `sfs_dir_link`; the result is the slot. -/
def dirLink (h : ℕ) (name : CString) (ino : ℕ) : SfsCall ℕ := do
  let found ← dirFindname h name
  match found.entry with
  | some _ => .fail .eexist
  | none =>
    if name.val.length + 1 > 60 then .fail .enametoolong
    else do
      let slot ← linkSlot h found.emptyslot
      writedir h slot (Direntry.make ino name.val)
      pure slot

/-- `sfs_dir_unlink`. -/
def dirUnlink (h slot : ℕ) : SfsCall Unit := writedir h slot (Direntry.make 0 [])

/-- `sfs_lookonce`: the vnode and the slot. -/
def lookonce (h : ℕ) (name : CString) (memory : SfsMemory) : SfsCall (ℕ × ℕ) := do
  let found ← dirFindname h name
  match found.entry with
  | none => .fail .enoent
  | some (slot, ino) => do
    let v ← loadvnode ino 0 memory
    let links ← .read fun s => linkcount (s.sv v).inode
    .require (links ≠ 0) (.panic "sfs: %s: name %s (inode %u) in dir %u has linkcount 0\n")
    pure (v, slot)

/-! ### Vnode operations -/

/-- `sfi_linkcount++`, and the inode is dirty. -/
def countLink (h : ℕ) : SfsCall Unit := setInode h fun i => setLinkcount i (linkcount i + 1)

/-- `sfi_linkcount--` after the test that it is positive, and the inode is dirty. -/
def uncountLink (h : ℕ) : SfsCall Unit := do
  let links ← .read fun s => linkcount (s.sv h).inode
  .require (0 < links) (.kassert "sfi_linkcount > 0")
  setInode h fun i => setLinkcount i (linkcount i - 1)

/-- `sfs_creat` from the new object on: it is linked, or taken back. -/
def creatLink (h : ℕ) (name : CString) (newguy : ℕ) : SfsCall ℕ := do
  let ino ← .read fun s => (s.sv newguy).ino
  match ← .attempt (dirLink h name ino) with
  | .error e => do
    decref newguy
    .fail e
  | .ok _ => do
    countLink newguy
    pure newguy

/-- `sfs_creat`. -/
def creat (h : ℕ) (name : CString) (excl : Bool) (memory : SfsMemory) : SfsCall ℕ := do
  let found ← dirFindname h name
  match found.entry with
  | some (_, ino) => if excl = true then .fail .eexist else loadvnode ino 0 memory
  | none => do
    let newguy ← makeobj 1 memory
    creatLink h name newguy

/-- `sfs_link`. -/
def link (h : ℕ) (name : CString) (f : ℕ) : SfsCall Unit := do
  let sv ← .read fun s => s.sv f
  if Dinode.type sv.inode = 2 then .fail .einval
  else do
    let _ ← dirLink h name sv.ino
    countLink f

/-- `sfs_remove`. -/
def remove (h : ℕ) (name : CString) (memory : SfsMemory) : SfsCall Unit := do
  let victim ← lookonce h name memory
  match ← .attempt (dirUnlink h victim.2) with
  | .ok _ => do
    uncountLink victim.1
    decref victim.1
  | .error e => do
    decref victim.1
    .fail e

/-- `puke_harder` of `sfs_rename`. -/
def renameUndo (h g slot2 : ℕ) (e : Errno) : SfsCall Unit := do
  match ← .attempt (dirUnlink h slot2) with
  | .error _ => .stop (.panic "sfs: %s: rename: Cannot recover\n")
  | .ok _ => do
    .update fun s => { s with
      sv := Function.update s.sv g { s.sv g with
        inode := setLinkcount (s.sv g).inode (linkcount (s.sv g).inode - 1) } }
    decref g
    .fail e

/-- `sfs_rename` once the new name is linked. -/
def renameUnlink (h g slot1 slot2 : ℕ) : SfsCall Unit := do
  countLink g
  match ← .attempt (dirUnlink h slot1) with
  | .error e => renameUndo h g slot2 e
  | .ok _ => do
    uncountLink g
    decref g

/-- `sfs_rename`. -/
def rename (d1 : ℕ) (n1 : CString) (d2 : ℕ) (n2 : CString) (memory : SfsMemory) : SfsCall Unit := do
  .require (d1 = d2) (.kassert "d1==d2")
  let dir ← .read fun s => s.sv d1
  .require (dir.ino = 1) (.kassert "sv->sv_ino == SFS_ROOTDIR_INO")
  let g ← lookonce d1 n1 memory
  let sv ← .read fun s => s.sv g.1
  .require (Dinode.type sv.inode = 1) (.kassert "g1->sv_i.sfi_type == SFS_TYPE_FILE")
  match ← .attempt (dirLink d1 n2 sv.ino) with
  | .error e => do
    decref g.1
    .fail e
  | .ok slot2 => renameUnlink d1 g.1 g.2 slot2

/-- `sfs_truncate`. -/
def truncate (h : ℕ) (len : Int) : SfsCall Unit := itrunc h len

end Sfs

end Os161Kernel
