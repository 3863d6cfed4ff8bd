import Os161Kernel.Machine
import Os161Kernel.Lib.Calls
import Os161Kernel.Lib.Runs

/-!
# Names and the current directory

Every swap of a page opens its file anew, by the name `swapfile`.  The name has neither a colon nor a leading slash,
so `getdevice` starts from the current directory of the running process, and the menu can change that directory
before it starts a program.

The model has the lookup functions of `vfslookup.c`, `vfscwd.c`, `vfslist.c` and `vfspath.c` over a table of vnodes
with their operations: directories of emufs, which hand a whole path to the host, directories of SFS, which know one
level of names, plain files and devices.  A vnode stands for its file; reference counts do not matter here.
-/

namespace Os161Kernel

open Calls Runs Function

/-! ### Vnodes, file systems and devices -/

/-- A C string. -/
abbrev Name := List Char

/-- The table of operations of a vnode. -/
inductive VnodeOps where
  | emufsFile
  | emufsDir
  | sfsFile
  | sfsDir
  | device
deriving DecidableEq

/-- `VOP_GETTYPE` says `S_IFDIR`. -/
def VnodeOps.isDir : VnodeOps → Bool
  | .emufsDir | .sfsDir => true
  | .emufsFile | .sfsFile | .device => false

/-- The operations of the plain files in a directory. -/
def VnodeOps.fileOps : VnodeOps → VnodeOps
  | .sfsDir | .sfsFile => .sfsFile
  | .emufsDir | .emufsFile | .device => .emufsFile

/-- `struct fs`. -/
structure Filesystem where
  root : ℕ
  volname : Option Name

/-- `struct knowndev`; `fs` is the file system mounted on it. -/
structure KnownDev where
  name : Name
  rawname : Option Name
  fs : Option ℕ
  vnode : ℕ

/-- What name lookup works on. -/
structure Vfs where
  knowndevs : List KnownDev
  fs : ℕ → Filesystem
  ops : ℕ → VnodeOps
  vnFs : ℕ → Option ℕ
  /-- The entries of the directories. -/
  entry : ℕ → Name → Option ℕ
  /-- The vnodes that exist are those below. -/
  vnodes : ℕ
  bootfs : Option ℕ
  cwd : ℕ → Option ℕ
  procs : ℕ

inductive VfsStop where
  | kassert (condition : String)
  | panic (message : String)
  | nullDeref

abbrev VfsCall := Call VfsStop Errno Vfs

namespace Vfs

/-! ### Operations of vnodes -/

/-- The host resolves a path that starts at a directory of an emufs. -/
def hostWalk (v : Vfs) : ℕ → List Name → Except Errno ℕ
  | d, [] => .ok d
  | d, name :: rest =>
    if (v.ops d).isDir then
      match v.entry d name with
      | none => .error .enoent
      | some x => hostWalk v x rest
    else .error .enotdir

/-- `VOP_LOOKUP`. -/
def vopLookup (dir : ℕ) (path : Name) : VfsCall ℕ := do
  match ← .read fun v => v.ops dir with
  | .device => if path ≠ [] then .fail .enoent else pure dir
  | .emufsFile | .sfsFile => .fail .enotdir
  | .sfsDir =>
    match ← .read fun v => v.entry dir path with
    | none => .fail .enoent
    | some x => pure x
  | .emufsDir =>
    if path.length + 1 > 16384 then .fail .enametoolong
    else
      match ← .read fun v => v.hostWalk dir ((path.splitOn '/').filter fun name => name ≠ []) with
      | .error e => .fail e
      | .ok x => pure x

/-- `VOP_LOOKPARENT` with a buffer of `NAME_MAX + 1` bytes. -/
def vopLookparent (dir : ℕ) (path : Name) : VfsCall (ℕ × Name) := do
  match ← .read fun v => v.ops dir with
  | .device | .emufsFile | .sfsFile => .fail .enotdir
  | .sfsDir => if path.length + 1 > 256 then .fail .enametoolong else pure (dir, path)
  | .emufsDir =>
    let (last, before) := path.reverse.span fun c => c ≠ '/'
    if last.length + 1 > 256 then .fail .enametoolong
    else
      match before with
      | [] => pure (dir, path)
      | _ :: parent => do
        let x ← vopLookup dir parent.reverse
        pure (x, last.reverse)

/-- `VOP_CREAT`; `error` is what the file system answers when it cannot make a new file. -/
def vopCreat (dir : ℕ) (name : Name) (excl : Bool) (error : Option Errno) : VfsCall ℕ := do
  let ops ← .read fun v => v.ops dir
  if ops.isDir then
    match ← .read fun v => v.entry dir name with
    | some x => if excl then .fail .eexist else pure x
    | none =>
      match error with
      | some e => .fail e
      | none => do
        let x ← .read Vfs.vnodes
        .update fun v => { v with
          ops := update v.ops x ops.fileOps
          vnFs := update v.vnFs x (v.vnFs dir)
          entry := update v.entry dir (update (v.entry dir) name (some x))
          vnodes := x + 1 }
        pure x
  else .fail .enotdir

/-- `VOP_EACHOPEN`. -/
def vopEachopen (x : ℕ) (canwrite : Bool) : VfsCall Unit := do
  let ops ← .read fun v => v.ops x
  if ops.isDir && canwrite then .fail .eisdir else pure ()

/-! ### Path names -/

/-- `vfs_getcurdir` of process `p`. -/
def getcurdir (p : ℕ) : VfsCall ℕ := do
  match ← .read fun v => v.cwd p with
  | some dir => pure dir
  | none => .fail .enoent

/-- `vfs_setcurdir`. -/
def setcurdir (p dir : ℕ) : VfsCall Unit := do
  let ops ← .read fun v => v.ops dir
  if ops.isDir then .update fun v => { v with cwd := update v.cwd p (some dir) }
  else .fail .enotdir

/-- The loop of `vfs_getroot` over the known devices. -/
def getrootFrom (v : Vfs) (devname : Name) : List KnownDev → Except Errno ℕ
  | [] => .error .enodev
  | kd :: rest =>
    match kd.fs with
    | some i =>
      if kd.name = devname ∨ (v.fs i).volname = some devname then .ok (v.fs i).root
      else if kd.rawname = some devname then .ok kd.vnode
      else getrootFrom v devname rest
    | none =>
      if kd.rawname ≠ none ∧ kd.name = devname then .error .enxio
      else if kd.name = devname then .ok kd.vnode
      else if kd.rawname = some devname then .ok kd.vnode
      else getrootFrom v devname rest

/-- `vfs_getroot`. -/
def getroot (devname : Name) : VfsCall ℕ := do
  match ← .read fun v => v.getrootFrom devname v.knowndevs with
  | .error e => .fail e
  | .ok x => pure x

/-- `getdevice`: the vnode to start from and the rest of the path, cut at the first colon or slash. -/
def getdevice (p : ℕ) (path : Name) : VfsCall (ℕ × Name) :=
  match path.span fun c => c ≠ ':' && c ≠ '/' with
  | ([], []) => .fail .einval
  | ([], c :: sub) =>
    if c = '/' then do
      match ← .read Vfs.bootfs with
      | none => .fail .enoent
      | some dir => pure (dir, sub.dropWhile fun c => c = '/')
    else do
      let dir ← getcurdir p
      match ← .read fun v => v.vnFs dir with
      | none => .stop (.kassert "vn->vn_fs!=NULL")
      | some i => do
        let root ← .read fun v => (v.fs i).root
        pure (root, sub.dropWhile fun c => c = '/')
  | (device, ':' :: sub) => do
    let root ← getroot device
    pure (root, sub.dropWhile fun c => c = '/')
  | _ => do
    let dir ← getcurdir p
    pure (dir, path)

/-- `vfs_lookup`. -/
def lookup (p : ℕ) (path : Name) : VfsCall ℕ := do
  let (start, sub) ← getdevice p path
  if sub = [] then pure start else vopLookup start sub

/-- `vfs_lookparent`. -/
def lookparent (p : ℕ) (path : Name) : VfsCall (ℕ × Name) := do
  let (start, sub) ← getdevice p path
  if sub = [] then .fail .einval else vopLookparent start sub

/-- The vnode that `vfs_open` opens: with `O_CREAT` the file is made in the directory of the path. -/
def openVnode (p : ℕ) (path : Name) (creat excl : Bool) (error : Option Errno) : VfsCall ℕ :=
  if creat then do
    let (dir, name) ← lookparent p path
    vopCreat dir name excl error
  else lookup p path

/-- `vfs_open` without `O_TRUNC`. -/
def openFile (p : ℕ) (path : Name) (creat excl canwrite : Bool) (error : Option Errno) : VfsCall ℕ := do
  let x ← openVnode p path creat excl error
  vopEachopen x canwrite
  pure x

/-- `vfs_chdir`. -/
def chdir (p : ℕ) (path : Name) : VfsCall Unit := do
  let dir ← lookup p path
  setcurdir p dir

/-- `vfs_setbootfs`.  The name is cut to the buffer; one with a colon is refused wherever the colon stands. -/
def setbootfs (p : ℕ) (fsname : Name) : VfsCall Unit :=
  if ':' ∈ fsname.take 254 then .fail .einval
  else do
    chdir p (fsname.take 254 ++ [':'])
    let dir ← getcurdir p
    .update fun v => { v with bootfs := some dir }

/-- `proc_create_runprogram` as far as directories go: the new process starts where its parent is. -/
def procCreateRunprogram (p : ℕ) : VfsCall ℕ := do
  let n ← .read Vfs.procs
  .update fun v => { v with cwd := update v.cwd n (v.cwd p), procs := n + 1 }
  pure n

/-! ### The swap file -/

/-- `filename` of `swapfile.c`. -/
def swapfileName : Name := ['s', 'w', 'a', 'p', 'f', 'i', 'l', 'e']

/-- `swapfile_init`. -/
def swapfileInit (p : ℕ) (error : Option Errno) : VfsCall ℕ := do
  match ← .attempt (openFile p swapfileName true false true error) with
  | .ok x => pure x
  | .error _ => .stop (.panic "Something has gone wrong with swapfile creation\n")

/-- The open of `swapOut` and `swapIn`. -/
def openSwapfile (p : ℕ) : VfsCall ℕ := do
  match ← .attempt (openFile p swapfileName false false true none) with
  | .ok x => pure x
  | .error _ => .stop (.panic "ERROR in SWAPFILE opening operation\n")

/-- `boot`: the default boot file system, whose failure is ignored, then `vm_bootstrap`. -/
def boot (error : Option Errno) : VfsCall ℕ := do
  let _ ← .attempt (setbootfs 0 ['e', 'm', 'u', '0'])
  swapfileInit 0 error

end Vfs

end Os161Kernel
