import Os161Kernel.Lib.Slots
import Os161Kernel.Vfs

/-!
# The semaphore file system

Three tables describe the semaphores: the semaphores themselves, the root directory, and the vnodes that exist.  A
semaphore is referred to by its index.  It lives while it has a directory entry or a vnode, and whichever goes last,
in `semfs_remove` or `semfs_reclaim`, empties its slot.

Every call is one step.
-/

namespace Os161Kernel

open Calls Runs Slots

/-- `struct semfs_sem` as far as the tables go. -/
structure SemfsSem where
  hasvnode : Bool
  linked : Bool

/-- `struct semfs_direntry`. -/
structure SemfsDirentry where
  name : Name
  semnum : ℕ

/-- `struct semfs_vnode`. -/
structure SemfsVnode where
  semnum : ℕ
  refcount : ℕ

/-- `struct semfs`.  A vnode has a number in place of its address; `kmalloc` hands out those from `fresh` on. -/
structure Semfs where
  sems : List (Option SemfsSem)
  dents : List (Option SemfsDirentry)
  vnodes : List ℕ
  vn : ℕ → SemfsVnode
  fresh : ℕ

/-- Which of the allocations of a call have memory. -/
structure SemfsMemory where
  sem : Bool
  sems : Bool
  dent : Bool
  dents : Bool
  vnode : Bool
  vnodes : Bool

abbrev SemfsCall := Call VfsStop Errno Semfs

namespace Semfs

/-- `SEMFS_ROOTDIR`. -/
def rootdir : ℕ := 0xffffffff

/-- `semfs_create`. -/
def create : Semfs where
  sems := []
  dents := []
  vnodes := []
  vn _ := ⟨0, 0⟩
  fresh := 0

/-! ### The tables -/

def setSem (n : ℕ) (o : Option SemfsSem) : SemfsCall Unit := .update fun s => { s with sems := setSlot s.sems n o }

def setDent (i : ℕ) (o : Option SemfsDirentry) : SemfsCall Unit :=
  .update fun s => { s with dents := setSlot s.dents i o }

def setRefcount (v n : ℕ) : SemfsCall Unit :=
  .update fun s => { s with vn := Function.update s.vn v { s.vn v with refcount := n } }

/-- `semfs_sem_insert`. -/
def semInsert (sem : SemfsSem) (memory : Bool) : SemfsCall ℕ := do
  let sems ← .read Semfs.sems
  if sems.length = rootdir then .fail .enospc
  else if freeSlot sems = sems.length ∧ memory = false then .fail .enomem
  else do
    setSem (freeSlot sems) (some sem)
    pure (freeSlot sems)

/-- The directory entry of a name, by its index. -/
def findDent (name : Name) (s : Semfs) : Option ℕ := s.dents.findIdx? fun o => o.any fun dent => dent.name == name

/-- The number of the semaphore of a directory entry. -/
def dentSemnum (i : ℕ) (s : Semfs) : ℕ := ((slotAt s.dents i).map SemfsDirentry.semnum).getD 0

/-- The semaphore notes that it has a vnode now. -/
def noteVnode (semnum : ℕ) : SemfsCall Unit := do
  match ← .read fun s => slotAt s.sems semnum with
  | none => .stop (.kassert "sem != NULL")
  | some sem => do
    .require (sem.hasvnode = false) (.kassert "sem->sems_hasvnode == false")
    setSem semnum (some { sem with hasvnode := true })

/-- `semfs_getvnode`. -/
def getvnode (semnum : ℕ) (memory : SemfsMemory) : SemfsCall ℕ := do
  match ← .read fun s => s.vnodes.find? fun v => (s.vn v).semnum = semnum with
  | some v => do
    let refcount ← .read fun s => (s.vn v).refcount
    setRefcount v (refcount + 1)
    pure v
  | none =>
    if memory.vnode = false ∨ memory.vnodes = false then .fail .enomem
    else do
      let v ← .read Semfs.fresh
      .update fun s => { s with
        vnodes := s.vnodes ++ [v]
        vn := Function.update s.vn v ⟨semnum, 1⟩
        fresh := v + 1 }
      .when (semnum ≠ rootdir) (noteVnode semnum)
      pure v

/-! ### Operations -/

/-- `semfs_getroot`. -/
def getroot (memory : SemfsMemory) : SemfsCall ℕ := getvnode rootdir memory

/-- The end of `semfs_creat`: the entry is in the directory. -/
def creatVnode (semnum empty : ℕ) (memory : SemfsMemory) : SemfsCall ℕ := do
  match ← .attempt (getvnode semnum memory) with
  | .error e => do
    setDent empty none
    setSem semnum none
    .fail e
  | .ok v => do
    .update fun s => { s with
      sems := setSlot s.sems semnum ((slotAt s.sems semnum).map fun sem => { sem with linked := true }) }
    pure v

/-- `semfs_creat` of a name that is not there.  When there is no memory for the directory entry, the semaphore is taken
out again and the result is still that of its insertion: the call returns 0 and no vnode. -/
def creatNew (name : Name) (memory : SemfsMemory) : SemfsCall (Option ℕ) :=
  if memory.sem = false then .fail .enomem
  else do
    let semnum ← semInsert ⟨false, false⟩ memory.sems
    if memory.dent = false then do
      setSem semnum none
      pure none
    else do
      let dents ← .read Semfs.dents
      if freeSlot dents = dents.length ∧ memory.dents = false then do
        setSem semnum none
        .fail .enomem
      else do
        setDent (freeSlot dents) (some ⟨name, semnum⟩)
        let v ← creatVnode semnum (freeSlot dents) memory
        pure (some v)

/-- `semfs_creat`. -/
def creat (name : Name) (excl : Bool) (memory : SemfsMemory) : SemfsCall (Option ℕ) :=
  if name = ['.'] ∨ name = ['.', '.'] then .fail .eexist
  else do
    match ← .read (findDent name) with
    | some i =>
      if excl then .fail .eexist
      else do
        let semnum ← .read (dentSemnum i)
        let v ← getvnode semnum memory
        pure (some v)
    | none => creatNew name memory

/-- `semfs_remove` of the entry in slot `i`. -/
def removeDent (i : ℕ) : SemfsCall Unit := do
  let semnum ← .read (dentSemnum i)
  match ← .read fun s => slotAt s.sems semnum with
  | none => .stop .nullDeref
  | some sem => do
    .require (sem.linked = true) (.kassert "sem->sems_linked")
    setSem semnum (if sem.hasvnode = false then none else some { sem with linked := false })
    setDent i none

/-- `semfs_remove`. -/
def remove (name : Name) : SemfsCall Unit :=
  if name = ['.'] ∨ name = ['.', '.'] then .fail .einval
  else do
    match ← .read (findDent name) with
    | some i => removeDent i
    | none => .fail .enoent

/-- `semfs_lookup` in the directory `dir`. -/
def lookup (dir : ℕ) (path : Name) (memory : SemfsMemory) : SemfsCall ℕ :=
  if path = ['.'] ∨ path = ['.', '.'] then do
    let refcount ← .read fun s => (s.vn dir).refcount
    setRefcount dir (refcount + 1)
    pure dir
  else do
    match ← .read (findDent path) with
    | some i => do
      let semnum ← .read (dentSemnum i)
      getvnode semnum memory
    | none => .fail .enoent

/-- The semaphore of a vnode that goes away. -/
def dropVnode (semnum : ℕ) : SemfsCall Unit := do
  match ← .read fun s => slotAt s.sems semnum with
  | none => .stop .nullDeref
  | some sem => do
    .require (sem.hasvnode = true) (.kassert "sem->sems_hasvnode")
    setSem semnum (if sem.linked = false then none else some { sem with hasvnode := false })

/-- `semfs_reclaim`. -/
def reclaim (v : ℕ) : SemfsCall Unit := do
  let vn ← .read fun s => s.vn v
  if 1 < vn.refcount then do
    setRefcount v (vn.refcount - 1)
    .fail .ebusy
  else do
    .update fun s => { s with vnodes := s.vnodes.erase v }
    .when (vn.semnum ≠ rootdir) (dropVnode vn.semnum)

/-- `VOP_DECREF`; an error of `semfs_reclaim` is only printed. -/
def decref (v : ℕ) : SemfsCall Unit := do
  let refcount ← .read fun s => (s.vn v).refcount
  .require (0 < refcount) (.kassert "vn->vn_refcount > 0")
  if 1 < refcount then setRefcount v (refcount - 1)
  else do
    let _ ← .attempt (reclaim v)
    pure ()

end Semfs

end Os161Kernel
