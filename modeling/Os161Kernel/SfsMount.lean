import Os161Kernel.Bitmap
import Os161Kernel.Sfs

/-!
# Mounting a volume: `sfs_domount`

A mount reads the superblock, creates the bitmap of the free block map and reads the map into it, block by block.  It may
lack memory, and the device may fail at any block.  `kmalloc` does not hand out ten pages, so that `bitmap_create` stops
the machine for a volume of more than 294912 blocks: none of that size is ever mounted.
-/

namespace Os161Kernel

open Calls Memory PackedBits

attribute [local irreducible] Ends

/-- What `sfs_domount` meets: the block size of the device, whether there is memory for the `struct sfs_fs`, its vnode
table and the free map, and the error of `sfs_readblock` for each block.  No block is read twice. -/
structure MountEnv where
  blocksize : ℕ
  fs : Bool
  vnodes : Bool
  freemap : BitmapMemory
  error : ℕ → Option Errno

/-- The device has blocks of 512 bytes and does not fail, and there is memory. -/
structure MountEnv.Fine (env : MountEnv) : Prop where
  blocksize : env.blocksize = 512
  fs : env.fs = true
  vnodes : env.vnodes = true
  freemap : env.freemap = .plenty
  error : ∀ b, env.error b = none

namespace Sfs

/-! ### The code -/

/-- `SFS_MAGIC`. -/
def magic : ℕ := 0xabadf001

/-- `sfs_readblock` on a device that may fail. -/
def readblockOr (error : ℕ → Option Errno) (block : ℕ) : SfsCall Block :=
  match error block with
  | some e => .fail e
  | none => readblock block

/-- `sfs_fs_create`; the structure is for the device with the disk at hand. -/
def fsCreate (env : MountEnv) : SfsCall Unit :=
  if env.fs = false then .fail .enomem
  else if env.vnodes = false then .fail .enomem
  else .update fun s => ⟨0, fun _ => false, s.disk, [], fun _ => ⟨0, fun _ => 0, false, 0⟩, 0⟩

/-- `sfs->sfs_freemap` is what `bitmap_create` returns. -/
def setFreemap : Reply BitmapStop Errno Bitmap Bool → SfsCall Unit
  | .ok true bitmap => .update fun s => { s with freemap := bitAt bitmap.v }
  | .stop (.kassert condition) => .stop (.kassert condition)
  | _ => .fail .enomem

/-- `sfs->sfs_freemap = bitmap_create(SFS_FS_FREEMAPBITS(sfs))`. -/
def createFreemap (memory : BitmapMemory) : SfsCall Unit := do
  let nblocks ← .read Sfs.nblocks
  setFreemap (Bitmap.create (freemapBits nblocks) memory ⟨0, []⟩)

/-- The bit of block `b` in a block of the map. -/
def mapBit (data : Block) (b : ℕ) : Bool := (data (b % 4096 / 8)).toBitVec.getLsbD (b % 8)

/-- `sfs_freemapio` with `UIO_READ`. -/
def freemapioRead (error : ℕ → Option Errno) : SfsCall Unit := do
  let nblocks ← .read Sfs.nblocks
  .loopBelow (fun j _ => do
    let data ← readblockOr error (2 + j)
    .update fun s => { s with freemap := fun b => if b / 4096 = j then mapBit data b else s.freemap b })
    (freemapBlocks nblocks) ()

/-- `sfs_domount`. -/
def domount (env : MountEnv) : SfsCall Unit :=
  if env.blocksize ≠ 512 then .fail .enxio
  else do
    fsCreate env
    let sb ← readblockOr env.error 0
    if load32 sb 0 ≠ magic then .fail .einval
    else do
      .update fun s => { s with nblocks := load32 sb 4 }
      createFreemap env.freemap
      freemapioRead env.error

/-! ### What a mount finds -/

variable {s t : Sfs} {b : ℕ} {env : MountEnv} {E : Errno → Sfs → Prop}

/-- The free map on the disk. -/
def diskMap (disk : ℕ → Block) (b : ℕ) : Bool := mapBit (disk (2 + b / 4096)) b

/-- The pages that the mount asks `kmalloc` for. -/
def freemapPages (nblocks : ℕ) : ℕ := kmallocPages (Bitmap.words (freemapBits nblocks))

/-- `t` is the volume on the disk of `s`, with nothing in memory but the free map. -/
structure FoundOn (s t : Sfs) : Prop where
  magic : load32 (s.disk 0) 0 = magic
  nblocks : t.nblocks = load32 (s.disk 0) 4
  pages : freemapPages t.nblocks < 10
  disk : t.disk = s.disk
  vnodes : t.vnodes = []
  freemap : ∀ b < freemapBits t.nblocks, t.freemap b = diskMap s.disk b

variable {error : ℕ → Option Errno} {u : Unit}

theorem readblockOr_eq_ok {data : Block} (h : readblockOr error b s = .ok data t) :
    data = s.disk b ∧ t = s := by
  unfold readblockOr at h
  cases herr : error b with
  | some e => rw [herr] at h; cases h
  | none =>
    rw [herr] at h
    obtain ⟨rfl, rfl⟩ := Reply.ok.inj h
    exact ⟨rfl, rfl⟩

theorem fsCreate_eq_ok (h : fsCreate env s = .ok u t) :
    t.disk = s.disk ∧ t.vnodes = [] := by
  unfold fsCreate at h
  split at h
  · cases h
  · split at h
    · cases h
    · obtain ⟨-, rfl⟩ := Reply.ok.inj h
      exact ⟨rfl, rfl⟩

/-- Only the free map has changed. -/
structure SameButMap (s t : Sfs) : Prop where
  nblocks : t.nblocks = s.nblocks
  disk : t.disk = s.disk
  vnodes : t.vnodes = s.vnodes

theorem createFreemap_eq_ok {memory : BitmapMemory} (h : createFreemap memory s = .ok u t) :
    freemapPages s.nblocks < 10 ∧ SameButMap s t := by
  unfold createFreemap at h
  rw [bind_of_ok (read_apply _ s)] at h
  cases hcreate : Bitmap.create (freemapBits s.nblocks) memory ⟨0, []⟩ with
  | fail e b => rw [hcreate] at h; cases h
  | stop e => rw [hcreate] at h; cases e <;> cases h
  | ok r bitmap =>
    rw [hcreate] at h
    cases r with
    | false => cases h
    | true =>
      obtain ⟨-, rfl⟩ := Reply.ok.inj h
      refine ⟨?_, rfl, rfl, rfl⟩
      unfold Bitmap.create at hcreate
      split at hcreate
      · cases hcreate
      · obtain ⟨_, _, hreq, -⟩ := bind_ok_iff.mp hcreate
        exact (require_ok_iff.mp hreq).1

/-- By induction on the rounds of the loop: the first blocks of the map have been read. -/
theorem freemapioRead_eq_ok (h : freemapioRead error s = .ok u t) :
    SameButMap s t ∧ ∀ b < freemapBits s.nblocks, t.freemap b = diskMap s.disk b := by
  have hloop : ∀ n a t, Call.loopBelow (fun j (_ : Unit) => do
      let data ← readblockOr error (2 + j)
      Call.update fun s => { s with freemap := fun b => if b / 4096 = j then mapBit data b else s.freemap b })
      n () s = .ok a t → SameButMap s t ∧ ∀ b, b / 4096 < n → t.freemap b = diskMap s.disk b := by
    intro n
    induction n with
    | zero =>
      intro a t ht
      obtain ⟨-, rfl⟩ := Reply.ok.inj ht
      exact ⟨⟨rfl, rfl, rfl⟩, fun b hb => absurd hb (Nat.not_lt_zero _)⟩
    | succ n ih =>
      intro a t ht
      obtain ⟨_, u, hn, hround⟩ := bind_ok_iff.mp ht
      obtain ⟨hsame, hmap⟩ := ih _ _ hn
      obtain ⟨data, _, hread, hset⟩ := bind_ok_iff.mp hround
      obtain ⟨rfl, rfl⟩ := readblockOr_eq_ok hread
      obtain ⟨-, rfl⟩ := Reply.ok.inj hset
      refine ⟨⟨hsame.nblocks, hsame.disk, hsame.vnodes⟩, fun b hb => ?_⟩
      by_cases hbn : b / 4096 = n
      · refine (if_pos hbn).trans ?_
        rw [hsame.disk, ← hbn]
        rfl
      · exact (if_neg hbn).trans (hmap b (by omega))
  obtain ⟨hsame, hmap⟩ := hloop _ u t (by simpa [freemapioRead, bind_apply] using h)
  refine ⟨hsame, fun b hb => hmap b ?_⟩
  unfold freemapBlocks
  unfold freemapBits at hb ⊢
  omega

theorem domount_eq_ok (h : domount env s = .ok u t) : FoundOn s t := by
  unfold domount at h
  split at h
  · cases h
  · obtain ⟨_, s₁, hfs, h⟩ := bind_ok_iff.mp h
    obtain ⟨hdisk, hvnodes⟩ := fsCreate_eq_ok hfs
    obtain ⟨sb, s₂, hread, h⟩ := bind_ok_iff.mp h
    obtain ⟨rfl, rfl⟩ := readblockOr_eq_ok hread
    rw [hdisk] at h
    split at h
    · cases h
    · next hmagic =>
      obtain ⟨_, s₃, hset, h⟩ := bind_ok_iff.mp h
      have hs₃ := (Reply.ok.inj hset).2
      obtain ⟨_, s₄, hcreate, hmap⟩ := bind_ok_iff.mp h
      obtain ⟨hpages, hsame⟩ := createFreemap_eq_ok hcreate
      obtain ⟨hsame', hbits⟩ := freemapioRead_eq_ok hmap
      have hn : s₃.nblocks = load32 (s.disk 0) 4 := by rw [← hs₃]
      have hd : s₄.disk = s.disk := by rw [hsame.disk, ← hs₃, hdisk]
      have hn' : t.nblocks = s₃.nblocks := hsame'.nblocks.trans hsame.nblocks
      refine ⟨not_not.mp hmagic, hn'.trans hn, hn' ▸ hpages, hsame'.disk.trans hd, ?_, fun b hb => ?_⟩
      · rw [hsame'.vnodes, hsame.vnodes, ← hs₃, hvnodes]
      · rw [hbits b (hsame'.nblocks ▸ hb), hd]

/-! ### When a mount succeeds -/

theorem ends_readblockOr {Q : Block → Sfs → Prop} (herr : error b = none) :
    Ends (readblockOr error b) s Q E ↔ Q (s.disk b) s := by
  unfold readblockOr
  rw [herr]
  exact ends_read

theorem createFreemap_ends (hpages : freemapPages s.nblocks < 10) :
    Ends (createFreemap .plenty) s (fun _ _ => True) E := by
  have hbits : freemapBits s.nblocks + 7 < 2 ^ 32 := by
    unfold freemapBits
    omega
  obtain ⟨⟨⟩, bitmap, hinit, -⟩ := (Bitmap.init_ends (b := ⟨0, []⟩) hbits).exists_ok
  have hcreated := Bitmap.created_of_init (P := fun _ => True) ⟨bitmap, hinit, trivial⟩ .plenty
  unfold Bitmap.Created at hcreated
  rw [if_neg fun h => Nat.not_lt.mpr h.2 hpages, if_pos (by decide)] at hcreated
  obtain ⟨bitmap, hcreate, -⟩ := hcreated
  unfold createFreemap
  rw [ends_bind, ends_read, hcreate]
  exact ends_update.mpr trivial

theorem freemapioRead_ends (herr : ∀ b, error b = none) :
    Ends (freemapioRead error) s (fun _ _ => True) E := by
  unfold freemapioRead
  rw [ends_bind, ends_read]
  apply ends_loopBelow (P := fun _ _ _ => True) trivial
  intro j _ _ u _
  rw [ends_bind, ends_readblockOr (herr _)]
  exact ends_update.mpr trivial

theorem exists_domount (hf : env.Fine) (hmagic : load32 (s.disk 0) 0 = magic)
    (hpages : freemapPages (load32 (s.disk 0) 4) < 10) : ∃ t, domount env s = .ok () t := by
  have hends : Ends (domount env) s (fun _ _ => True) fun _ _ => False := by
    unfold domount fsCreate
    rw [if_neg (not_not.mpr hf.blocksize), hf.fs, hf.vnodes, hf.freemap]
    simp only [ends_bind, ends_update, ends_readblockOr (hf.error 0), Bool.true_eq_false, if_false]
    rw [if_neg (not_not.mpr hmagic)]
    simp only [ends_bind, ends_update]
    refine Ends.mono (createFreemap_ends ?_) (fun _ _ _ => freemapioRead_ends hf.error) fun _ _ => id
    exact hpages
  obtain ⟨⟨⟩, t, hrun, -⟩ := hends.exists_ok
  exact ⟨t, hrun⟩

/-! ### The size of a volume -/

/-- A volume of this size has been mounted. -/
def WasMounted (s : Sfs) : Prop := ∃ env s₁ s₂, domount env s₁ = .ok () s₂ ∧ s.nblocks = s₂.nblocks

/-- The free map of a mounted volume has at most nine pages. -/
theorem WasMounted.small (hm : s.WasMounted) (hcov : s.nblocks ≤ freemapBits s.nblocks) : s.nblocks ≤ 294912 := by
  obtain ⟨env, s₁, s₂, hrun, heq⟩ := hm
  have hpages := (domount_eq_ok hrun).pages
  rw [← heq] at hpages
  unfold freemapPages kmallocPages Bitmap.words pageSize at hpages
  unfold freemapBits at hpages hcov
  omega

/-- The superblock of a volume of `n` blocks. -/
def superblock (n : ℕ) : Block := store32 (store32 (fun _ => 0) 0 magic) 4 n

theorem load32_superblock (n : ℕ) : load32 (superblock n) 0 = magic ∧ load32 (superblock n) 4 = n % 2 ^ 32 :=
  ⟨(load32_store32_of_disjoint (by omega)).trans (load32_store32 ..), load32_store32 ..⟩

theorem wasMounted_of_pages (hlt : s.nblocks < 2 ^ 32) (hpages : freemapPages s.nblocks < 10) : s.WasMounted := by
  obtain ⟨hmagic, hn⟩ := load32_superblock s.nblocks
  rw [Nat.mod_eq_of_lt hlt] at hn
  have hfine : MountEnv.Fine ⟨512, true, true, .plenty, fun _ => none⟩ := ⟨rfl, rfl, rfl, rfl, fun _ => rfl⟩
  obtain ⟨t, hrun⟩ :=
    exists_domount (s := { s with disk := fun _ => superblock s.nblocks }) hfine hmagic (by rwa [hn])
  exact ⟨_, _, t, hrun, ((domount_eq_ok hrun).nblocks.trans hn).symm⟩

end Sfs

end Os161Kernel
