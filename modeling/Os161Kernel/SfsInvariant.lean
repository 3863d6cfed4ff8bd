import Os161Kernel.Lib.Ledger
import Os161Kernel.SfsDir

/-!
# What a consistent volume is

A file is seen through `Sfs.file`: its size, type and link count, and a byte at every position that the pointers of an
inode can reach, zero where there is no block.  The directory is such a file.

The inodes in use are the root, those that a slot of the directory holds and those in memory.  The references of the
volume are its reserved blocks, its inodes in use and their pointers.  `Acct` says that the blocks marked in the free
map are the ones owned by a reference, one each, and that the vnode table is in order.
-/

namespace Os161Kernel

open Calls Memory Ledger Function

/-- A file as its user sees it. -/
@[ext]
structure SfsFile where
  size : ℕ
  type : ℕ
  links : ℕ
  bytes : ℕ → UInt8

namespace SfsFile

/-! ### A file of directory slots -/

def nentries (f : SfsFile) : ℕ := f.size / 64

def slot (f : SfsFile) (i : ℕ) : Bytes := fun k => f.bytes (64 * i + k)

def slotIno (f : SfsFile) (i : ℕ) : ℕ := Direntry.ino (f.slot i)

def slotName (f : SfsFile) (i : ℕ) : List UInt8 := Direntry.name (f.slot i)

/-- Slot `i` is in use. -/
def UsedSlot (f : SfsFile) (i : ℕ) : Prop := i < f.nentries ∧ f.slotIno i ≠ 0

instance (f : SfsFile) (i : ℕ) : Decidable (f.UsedSlot i) := inferInstanceAs (Decidable (_ ∧ _))

/-- Some slot in use holds the inode. -/
def Holds (f : SfsFile) (ino : ℕ) : Prop := ∃ i, f.UsedSlot i ∧ f.slotIno i = ino


end SfsFile

/-- The pointers of an inode. -/
inductive Ptr where
  | direct (i : ℕ)
  | indirect
  | entry (j : ℕ)
deriving DecidableEq

namespace Ptr

/-- The pointer to block `k` of a file. -/
def block (k : ℕ) : Ptr := if k < 15 then .direct k else .entry (k - 15)

/-- The block that a pointer of an inode points to, 0 if there is none. -/
def target (i : Block) (disk : ℕ → Block) : Ptr → ℕ
  | .direct k => if k < 15 then Dinode.direct i k else 0
  | .indirect => Dinode.indirect i
  | .entry j => if j < 128 ∧ Dinode.indirect i ≠ 0 then load32 (disk (Dinode.indirect i)) (4 * j) else 0

theorem block_ne_indirect (k : ℕ) : block k ≠ .indirect := by
  unfold block
  split <;> exact nofun

theorem block_inj {k k' : ℕ} (h : block k = block k') : k = k' := by
  unfold block at h
  split at h <;> split at h <;> simp only [Ptr.direct.injEq, Ptr.entry.injEq, reduceCtorEq] at h <;> omega

end Ptr

/-- What can own a block. -/
inductive BlockRef where
  | reserved (b : ℕ)
  | inode (ino : ℕ)
  | ptr (ino : ℕ) (p : Ptr)
deriving DecidableEq

namespace Sfs

/-- The inode is in memory. -/
def Loaded (s : Sfs) (ino : ℕ) : Prop := ∃ h ∈ s.vnodes, (s.sv h).ino = ino

/-- The inode as it is now, in memory or on the disk. -/
def inodeOf (s : Sfs) (ino : ℕ) : Block :=
  match s.vnodes.find? fun h => (s.sv h).ino = ino with
  | some h => (s.sv h).inode
  | none => s.disk ino

/-- The block that a pointer of the inode `ino` points to, 0 if there is none. -/
def ptr (s : Sfs) (ino : ℕ) (p : Ptr) : ℕ := p.target (s.inodeOf ino) s.disk

/-- The disk block of block `k` of a file, 0 if there is none. -/
def fileBlock (s : Sfs) (ino k : ℕ) : ℕ := s.ptr ino (Ptr.block k)

def fileByte (s : Sfs) (ino p : ℕ) : UInt8 :=
  if s.fileBlock ino (p / 512) = 0 then 0 else s.disk (s.fileBlock ino (p / 512)) (p % 512)

/-- The file of an inode. -/
def file (s : Sfs) (ino : ℕ) : SfsFile where
  size := Dinode.size (s.inodeOf ino)
  type := Dinode.type (s.inodeOf ino)
  links := Dinode.linkcount (s.inodeOf ino)
  bytes := s.fileByte ino

/-- The inode is in use. -/
def Live (s : Sfs) (ino : ℕ) : Prop := ino = 1 ∨ (s.file 1).Holds ino ∨ s.Loaded ino

/-- The superblock and the blocks of the free map. -/
def Reserved (s : Sfs) (b : ℕ) : Prop := b = 0 ∨ (2 ≤ b ∧ b < 2 + freemapBlocks s.nblocks)

open Classical in
/-- **The ledger of the volume.** -/
noncomputable def owns (s : Sfs) : BlockRef → Option ℕ
  | .reserved b => if s.Reserved b then some b else none
  | .inode ino => if s.Live ino then some ino else none
  | .ptr ino p => if s.Live ino ∧ s.ptr ino p ≠ 0 then some (s.ptr ino p) else none

def Used (s : Sfs) (b : ℕ) : Prop := b < s.nblocks ∧ s.freemap b = true

/-- The vnode table is in order; an inode that is not dirty is on the disk. -/
structure TableOk (s : Sfs) : Prop where
  nodup : s.vnodes.Nodup
  unique : ∀ h ∈ s.vnodes, ∀ h' ∈ s.vnodes, (s.sv h).ino = (s.sv h').ino → h = h'
  fresh : ∀ h ∈ s.vnodes, h < s.fresh
  refs : ∀ h ∈ s.vnodes, 0 < (s.sv h).refcount
  clean : ∀ h ∈ s.vnodes, (s.sv h).dirty = false → s.disk (s.sv h).ino = (s.sv h).inode

/-- The free map covers the volume, marks what lies beyond it, and agrees with the ledger. -/
structure SpaceOk (s : Sfs) : Prop where
  ledger : Exact s.owns s.Used
  high : ∀ b, s.nblocks ≤ b → b < freemapBits s.nblocks → s.freemap b = true
  covers : s.nblocks ≤ freemapBits s.nblocks

/-- The root is the directory, every other inode is a file. -/
structure KindsOk (s : Sfs) : Prop where
  types : ∀ ino, s.Live ino → (s.file ino).type = if ino = 1 then 2 else 1
  slots : (s.file 1).size % 64 = 0
  small : (s.file 1).size ≤ 73216

/-- **The accounts of the volume are in order.** -/
structure Acct (s : Sfs) : Prop extends TableOk s, SpaceOk s, KindsOk s

variable {s s' : Sfs} {ino h b k p : ℕ}

/-! ### Inodes in memory and on the disk -/

theorem TableOk.inodeOf (ht : s.TableOk) (hh : h ∈ s.vnodes) : s.inodeOf (s.sv h).ino = (s.sv h).inode := by
  unfold Sfs.inodeOf
  cases hfind : s.vnodes.find? fun h' => (s.sv h').ino = (s.sv h).ino with
  | none =>
    have := List.find?_eq_none.mp hfind h hh
    simp at this
  | some h' =>
    have hino := List.find?_some hfind
    have heq : h' = h := ht.unique h' (List.mem_of_find?_eq_some hfind) h hh (by simpa using hino)
    rw [heq]

theorem inodeOf_of_not_loaded (hno : ¬ s.Loaded ino) : s.inodeOf ino = s.disk ino := by
  unfold inodeOf
  cases hfind : s.vnodes.find? fun h' => (s.sv h').ino = ino with
  | none => rfl
  | some h' =>
    have hino := List.find?_some hfind
    exact absurd ⟨h', List.mem_of_find?_eq_some hfind, by simpa using hino⟩ hno

theorem live_root (s : Sfs) : s.Live 1 := .inl rfl

theorem loaded_of_mem (hh : h ∈ s.vnodes) : s.Loaded (s.sv h).ino := ⟨h, hh, rfl⟩

theorem live_of_mem (hh : h ∈ s.vnodes) : s.Live (s.sv h).ino := .inr (.inr (loaded_of_mem hh))

theorem ptr_congr (hinode : s'.inodeOf ino = s.inodeOf ino)
    (hdisk : s'.disk (Dinode.indirect (s.inodeOf ino)) = s.disk (Dinode.indirect (s.inodeOf ino))) (p : Ptr) :
    s'.ptr ino p = s.ptr ino p := by
  unfold ptr
  rw [hinode]
  cases p with
  | direct k => rfl
  | indirect => rfl
  | entry j => simp only [Ptr.target, hdisk]

theorem file_congr (hinode : s'.inodeOf ino = s.inodeOf ino) (hbytes : ∀ p, s'.fileByte ino p = s.fileByte ino p) :
    s'.file ino = s.file ino := by
  unfold file
  rw [hinode, funext hbytes]

/-! ### Owners -/

theorem owns_inode (hl : s.Live ino) : s.owns (.inode ino) = some ino := if_pos hl

theorem owns_ptr {p : Ptr} (hl : s.Live ino) (hp : s.ptr ino p ≠ 0) : s.owns (.ptr ino p) = some (s.ptr ino p) :=
  if_pos ⟨hl, hp⟩

theorem owns_ptr_none {p : Ptr} (hp : s.ptr ino p = 0) : s.owns (.ptr ino p) = none := if_neg fun h => h.2 hp

theorem owns_ptr_of_not_live {p : Ptr} (hl : ¬ s.Live ino) : s.owns (.ptr ino p) = none := if_neg fun h => hl h.1

theorem owns_congr_ptr {p : Ptr} (hl' : s'.Live ino) (hl : s.Live ino) (hp : s'.ptr ino p = s.ptr ino p) :
    s'.owns (.ptr ino p) = s.owns (.ptr ino p) := by
  by_cases hzero : s.ptr ino p = 0
  · rw [owns_ptr_none hzero, owns_ptr_none (hp.trans hzero)]
  · have hzero' : s'.ptr ino p ≠ 0 := by rwa [hp]
    rw [owns_ptr hl hzero, owns_ptr hl' hzero', hp]

theorem owns_congr {r : BlockRef} (hlive : ∀ ino, s'.Live ino ↔ s.Live ino) (hn : s'.nblocks = s.nblocks)
    (hptr : ∀ ino p, r = .ptr ino p → s.Live ino → s'.ptr ino p = s.ptr ino p) : s'.owns r = s.owns r := by
  classical
  cases r with
  | reserved b =>
    exact if_congr (by rw [Reserved, Reserved, hn]) rfl rfl
  | inode ino =>
    exact if_congr (hlive ino) rfl rfl
  | ptr ino p =>
    by_cases hl : s.Live ino
    · exact owns_congr_ptr ((hlive ino).mpr hl) hl (hptr ino p rfl hl)
    · rw [owns_ptr_of_not_live hl, owns_ptr_of_not_live ((hlive ino).not.mpr hl)]

namespace SpaceOk

theorem live_used (hs : s.SpaceOk) (hl : s.Live ino) : s.Used ino := hs.ledger.used_of_owns (owns_inode hl)

theorem ptr_used {p : Ptr} (hs : s.SpaceOk) (hl : s.Live ino) (hp : s.ptr ino p ≠ 0) : s.Used (s.ptr ino p) :=
  hs.ledger.used_of_owns (owns_ptr hl hp)

theorem zero_used (hs : s.SpaceOk) : s.Used 0 :=
  hs.ledger.used_of_owns (show s.owns (.reserved 0) = some 0 from if_pos (.inl rfl))

theorem live_ne_zero (hs : s.SpaceOk) (hl : s.Live ino) : ino ≠ 0 := by
  rintro rfl
  exact nomatch hs.ledger.inj _ _ 0 (owns_inode hl) (show s.owns (.reserved 0) = some 0 from if_pos (.inl rfl))

theorem ptr_inj {ino' : ℕ} {p p' : Ptr} (hs : s.SpaceOk) (hl : s.Live ino) (hl' : s.Live ino') (hp : s.ptr ino p ≠ 0)
    (heq : s.ptr ino' p' = s.ptr ino p) : ino' = ino ∧ p' = p := by
  have h := hs.ledger.inj _ _ _ (owns_ptr hl' (heq ▸ hp)) (heq ▸ owns_ptr hl hp)
  exact BlockRef.ptr.inj h

theorem ptr_ne_inode {ino' : ℕ} {p : Ptr} (hs : s.SpaceOk) (hl : s.Live ino) (hl' : s.Live ino') :
    s.ptr ino p ≠ ino' := by
  intro heq
  have hp : s.ptr ino p ≠ 0 := heq ▸ hs.live_ne_zero hl'
  have hown := owns_ptr hl hp
  rw [heq] at hown
  exact nomatch hs.ledger.inj _ _ _ hown (owns_inode hl')

theorem nblocks_lt (hs : s.SpaceOk) : s.nblocks < 2 ^ 32 := by
  have h := hs.covers
  unfold freemapBits at h
  omega

end SpaceOk

/-! ### A block is written -/

/-- The inode and the indirect block of `ino` are not in block `b`. -/
structure Off (s : Sfs) (b ino : ℕ) : Prop where
  inode : s.Loaded ino ∨ ino ≠ b
  indirect : s.ptr ino .indirect ≠ b

/-- The volume with one block replaced. -/
def withBlock (s : Sfs) (b : ℕ) (data : Block) : Sfs := { s with disk := update s.disk b data }

variable {data : Block}

theorem inodeOf_withBlock (hoff : s.Loaded ino ∨ ino ≠ b) : (s.withBlock b data).inodeOf ino = s.inodeOf ino := by
  by_cases hl : s.Loaded ino
  · obtain ⟨h, hh, hino⟩ := hl
    unfold inodeOf
    show (match s.vnodes.find? fun h => (s.sv h).ino = ino with
      | some h => (s.sv h).inode
      | none => update s.disk b data ino) = _
    cases hfind : s.vnodes.find? fun h => (s.sv h).ino = ino with
    | some h' => rfl
    | none =>
      have := List.find?_eq_none.mp hfind h hh
      simp [hino] at this
  · have hl' : ¬ (s.withBlock b data).Loaded ino := hl
    rw [inodeOf_of_not_loaded hl, inodeOf_of_not_loaded hl']
    exact update_of_ne (hoff.resolve_left hl) ..

theorem ptr_withBlock (hoff : Off s b ino) (p : Ptr) : (s.withBlock b data).ptr ino p = s.ptr ino p :=
  ptr_congr (inodeOf_withBlock hoff.inode) (update_of_ne hoff.indirect ..) p

theorem fileByte_withBlock (hoff : Off s b ino) (hblock : s.fileBlock ino (p / 512) ≠ b) :
    (s.withBlock b data).fileByte ino p = s.fileByte ino p := by
  have heq : (s.withBlock b data).fileBlock ino (p / 512) = s.fileBlock ino (p / 512) := ptr_withBlock hoff _
  unfold fileByte
  rw [heq, show (s.withBlock b data).disk _ = s.disk _ from update_of_ne hblock ..]

theorem file_withBlock (hoff : Off s b ino) (hblock : ∀ k, s.fileBlock ino k ≠ b) :
    (s.withBlock b data).file ino = s.file ino :=
  file_congr (inodeOf_withBlock hoff.inode) fun p => fileByte_withBlock hoff (hblock (p / 512))

theorem SpaceOk.off_free (hs : s.SpaceOk) (hl : s.Live ino) (hb : ¬ s.Used b) :
    Off s b ino ∧ ∀ k, s.fileBlock ino k ≠ b := by
  have hptr : ∀ p, s.ptr ino p ≠ b := by
    intro p heq
    by_cases hp : s.ptr ino p = 0
    · exact hb (heq ▸ hp ▸ hs.zero_used)
    · exact hb (heq ▸ hs.ptr_used hl hp)
  refine ⟨⟨.inr ?_, hptr .indirect⟩, fun k => hptr _⟩
  rintro rfl
  exact hb (hs.live_used hl)

theorem SpaceOk.off_data {ino' : ℕ} (hs : s.SpaceOk) (hl : s.Live ino) (hl' : s.Live ino')
    (hb : s.fileBlock ino k ≠ 0) :
    Off s (s.fileBlock ino k) ino' ∧ ∀ k', s.fileBlock ino' k' = s.fileBlock ino k → ino' = ino ∧ k' = k := by
  refine ⟨⟨.inr ?_, ?_⟩, ?_⟩
  · intro heq
    exact hs.ptr_ne_inode hl hl' heq.symm
  · intro heq
    exact Ptr.block_ne_indirect k (hs.ptr_inj hl hl' hb heq).2.symm
  · intro k' heq
    obtain ⟨hino, hblock⟩ := hs.ptr_inj hl hl' hb heq
    exact ⟨hino, Ptr.block_inj hblock⟩

/-! ### An inode in memory is changed -/

/-- The volume with the inode of a vnode replaced, and dirty. -/
def withInode (s : Sfs) (h : ℕ) (i : Block) : Sfs :=
  { s with sv := update s.sv h { s.sv h with inode := i, dirty := true } }

variable {i : Block}

theorem sv_withInode_of_ne {h' : ℕ} (hne : h' ≠ h) : (s.withInode h i).sv h' = s.sv h' := update_of_ne hne ..

theorem sv_withInode_self : (s.withInode h i).sv h = { s.sv h with inode := i, dirty := true } :=
  update_self ..

/-! ### States that differ in a few places -/

/-- The same vnodes are there for the same inodes. -/
structure SameTable (s s' : Sfs) : Prop where
  nblocks : s'.nblocks = s.nblocks
  vnodes : s'.vnodes = s.vnodes
  fresh : s'.fresh = s.fresh
  ino : ∀ h, (s'.sv h).ino = (s.sv h).ino
  refcount : ∀ h, (s'.sv h).refcount = (s.sv h).refcount

theorem SameTable.refl (s : Sfs) : SameTable s s := ⟨rfl, rfl, rfl, fun _ => rfl, fun _ => rfl⟩

theorem SameTable.trans {s'' : Sfs} (h : SameTable s s') (h' : SameTable s' s'') : SameTable s s'' :=
  ⟨h'.nblocks.trans h.nblocks, h'.vnodes.trans h.vnodes, h'.fresh.trans h.fresh,
    fun v => (h'.ino v).trans (h.ino v), fun v => (h'.refcount v).trans (h.refcount v)⟩

theorem SameTable.loaded (hst : SameTable s s') : s'.Loaded ino ↔ s.Loaded ino := by
  unfold Loaded
  simp only [hst.vnodes, hst.ino]

theorem sameTable_withBlock : SameTable s (s.withBlock b data) := ⟨rfl, rfl, rfl, fun _ => rfl, fun _ => rfl⟩

theorem sameTable_withInode : SameTable s (s.withInode h i) := by
  refine ⟨rfl, rfl, rfl, fun h' => ?_, fun h' => ?_⟩
  · by_cases hne : h' = h
    · rw [hne, sv_withInode_self]
    · rw [sv_withInode_of_ne hne]
  · by_cases hne : h' = h
    · rw [hne, sv_withInode_self]
    · rw [sv_withInode_of_ne hne]

theorem TableOk.of_same (ht : s.TableOk) (hst : SameTable s s')
    (hclean : ∀ h ∈ s.vnodes, (s'.sv h).dirty = false → s'.disk (s.sv h).ino = (s'.sv h).inode) : s'.TableOk where
  nodup := hst.vnodes ▸ ht.nodup
  unique := by
    rw [hst.vnodes]
    intro h hh h' hh' heq
    exact ht.unique h hh h' hh' (by rwa [hst.ino, hst.ino] at heq)
  fresh := by
    rw [hst.vnodes, hst.fresh]
    exact ht.fresh
  refs := by
    rw [hst.vnodes]
    intro h hh
    rw [hst.refcount]
    exact ht.refs h hh
  clean := by
    rw [hst.vnodes]
    intro h hh hd
    rw [hst.ino]
    exact hclean h hh hd

theorem TableOk.withBlock (ht : s.TableOk) (hb : ∀ h ∈ s.vnodes, (s.sv h).ino ≠ b) : (s.withBlock b data).TableOk := by
  apply ht.of_same sameTable_withBlock
  intro h hh hd
  exact (update_of_ne (hb h hh) ..).trans (ht.clean h hh hd)

theorem TableOk.withInode (ht : s.TableOk) : (s.withInode h i).TableOk := by
  apply ht.of_same sameTable_withInode
  intro h' hh' hd
  by_cases hne : h' = h
  · rw [hne, sv_withInode_self] at hd
    exact nomatch hd
  · rw [sv_withInode_of_ne hne] at hd ⊢
    exact ht.clean h' hh' hd

theorem inodeOf_withInode_self (ht : s.TableOk) (hh : h ∈ s.vnodes) :
    (s.withInode h i).inodeOf (s.sv h).ino = i := by
  have hin : ((s.withInode h i).sv h).ino = (s.sv h).ino := sameTable_withInode.ino h
  rw [← hin, ht.withInode.inodeOf hh, sv_withInode_self]

theorem inodeOf_withInode_of_ne (ht : s.TableOk) (hne : ino ≠ (s.sv h).ino) :
    (s.withInode h i).inodeOf ino = s.inodeOf ino := by
  by_cases hl : s.Loaded ino
  · obtain ⟨h', hh', rfl⟩ := hl
    have hne' : h' ≠ h := fun heq => hne (heq ▸ rfl)
    have hin : ((s.withInode h i).sv h').ino = (s.sv h').ino := sameTable_withInode.ino h'
    rw [ht.inodeOf hh', ← hin, ht.withInode.inodeOf hh', sv_withInode_of_ne hne']
  · rw [inodeOf_of_not_loaded hl, inodeOf_of_not_loaded (sameTable_withInode.loaded.not.mpr hl)]
    rfl

theorem ptr_withInode_of_ne (ht : s.TableOk) (hne : ino ≠ (s.sv h).ino) (p : Ptr) :
    (s.withInode h i).ptr ino p = s.ptr ino p :=
  ptr_congr (inodeOf_withInode_of_ne ht hne) rfl p

theorem file_withInode_of_ne (ht : s.TableOk) (hne : ino ≠ (s.sv h).ino) : (s.withInode h i).file ino = s.file ino := by
  apply file_congr (inodeOf_withInode_of_ne ht hne)
  intro p
  unfold fileByte fileBlock
  rw [ptr_withInode_of_ne ht hne]
  rfl

theorem fileByte_congr (hptr : s'.fileBlock ino (p / 512) = s.fileBlock ino (p / 512)) (hdisk : s'.disk = s.disk) :
    s'.fileByte ino p = s.fileByte ino p := by
  unfold fileByte
  rw [hptr, hdisk]

end Sfs

end Os161Kernel
