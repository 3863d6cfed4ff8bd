import Os161Kernel.Uio

/-!
# Files over a block device

`sfs_bmap` and `sfs_io` over a device that may fail.  A device holds a volume and moves blocks; `sfs_rwblock` moves the
bytes of a request that the caller has made, `sfs_readblock` and `sfs_writeblock` are requests for one block.
-/

namespace Os161Kernel

open Calls Memory Search

/-- A device with a volume on it: `sfs_readblock` and `sfs_writeblock`. -/
structure BlockDev (σ : Type) where
  fs : σ → Sfs
  withFs : σ → Sfs → σ
  readblock : ℕ → Call VfsStop Errno σ Block
  writeblock : ℕ → Block → Call VfsStop Errno σ Unit

/-- A device and a request to it. -/
structure Request (σ : Type) where
  dev : σ
  uio : Uio

abbrev RequestCall (σ : Type) := Call VfsStop Errno (Request σ)

namespace Request

variable {σ α : Type}

def onDev (m : Call VfsStop Errno σ α) : RequestCall σ α := .onPart Request.dev (fun r d => { r with dev := d }) m

def onUio (m : UioCall α) : RequestCall σ α := .onPart Request.uio (fun r u => { r with uio := u }) m

variable {r : Request σ} {Q : α → Request σ → Prop} {E : Errno → Request σ → Prop} {S : Prop}

theorem ends_onDev {m : Call VfsStop Errno σ α} :
    Ends (onDev m) r Q E S ↔ Ends m r.dev (fun a d => Q a ⟨d, r.uio⟩) (fun e d => E e ⟨d, r.uio⟩) S := ends_onPart

theorem ends_onUio {m : UioCall α} :
    Ends (onUio m) r Q E S ↔ Ends m r.uio (fun a u => Q a ⟨r.dev, u⟩) (fun e u => E e ⟨r.dev, u⟩) S := ends_onPart

end Request

/-- A device with `sfs_rwblock`. -/
structure IoDev (σ : Type) extends BlockDev σ where
  rwblock : RequestCall σ Unit

/-! ### Block mapping -/

namespace BlockDev

variable {σ α : Type} (D : BlockDev σ)

def onFs (m : SfsCall α) : Call VfsStop Errno σ α := .onPart D.fs D.withFs m

/-- The end of `sfs_balloc`: a block that could not be cleared is free again. -/
def ballocCleared (block : ℕ) : Except Errno Unit → Call VfsStop Errno σ ℕ
  | .ok () => pure block
  | .error e => do
    D.onFs (Sfs.bfree block)
    .fail e

/-- `sfs_balloc`. -/
def balloc : Call VfsStop Errno σ ℕ := do
  match ← D.onFs (.read fun s => firstBelow (fun b => s.freemap b = false) (Sfs.freemapBits s.nblocks)) with
  | none => .fail .enospc
  | some block => do
    D.onFs (.update fun s => { s with freemap := Function.update s.freemap block true })
    let nblocks ← D.onFs (.read Sfs.nblocks)
    .require (block < nblocks) (.panic "sfs: %s: balloc: invalid block %u\n")
    let result ← .attempt (D.writeblock block fun _ => 0)
    D.ballocCleared block result

/-- Allocate a direct block if it is missing and wanted. -/
def bmapDirectBlock (h fileblock block : ℕ) (doalloc : Bool) : Call VfsStop Errno σ ℕ :=
  if block = 0 ∧ doalloc = true then do
    let b ← D.balloc
    D.onFs (Sfs.setInode h fun i => Dinode.setDirect i fileblock b)
    pure b
  else pure block

/-- `sfs_bmap` for the direct blocks. -/
def bmapDirect (h fileblock : ℕ) (doalloc : Bool) : Call VfsStop Errno σ ℕ := do
  let old ← D.onFs (.read fun s => Dinode.direct (s.sv h).inode fileblock)
  let block ← D.bmapDirectBlock h fileblock old doalloc
  D.onFs (Sfs.checkUsed block)
  pure block

/-- The number of the indirect block and its contents; a new one is empty. -/
def bmapIdblock (h idblock : ℕ) : Call VfsStop Errno σ (ℕ × Block) :=
  if idblock = 0 then do
    let b ← D.balloc
    D.onFs (Sfs.setInode h fun i => Dinode.setIndirect i b)
    pure (b, fun _ => 0)
  else do
    let idbuf ← D.readblock idblock
    pure (idblock, idbuf)

/-- Allocate the block of an entry of the indirect block if it is missing and wanted. -/
def bmapEntry (idblock : ℕ) (idbuf : Block) (idoff : ℕ) (doalloc : Bool) : Call VfsStop Errno σ ℕ :=
  if load32 idbuf (4 * idoff) = 0 ∧ doalloc = true then do
    let b ← D.balloc
    D.writeblock idblock (store32 idbuf (4 * idoff) b)
    pure b
  else pure (load32 idbuf (4 * idoff))

/-- `sfs_bmap` beyond the direct blocks. -/
def bmapIndirect (h fileblock : ℕ) (doalloc : Bool) : Call VfsStop Errno σ ℕ :=
  if 1 ≤ fileblock / 128 then .fail .efbig
  else do
    let old ← D.onFs (.read fun s => Dinode.indirect (s.sv h).inode)
    if old = 0 ∧ doalloc = false then pure 0
    else do
      let id ← D.bmapIdblock h old
      let block ← D.bmapEntry id.1 id.2 (fileblock % 128) doalloc
      D.onFs (Sfs.checkUsed block)
      pure block

/-- `sfs_bmap`. -/
def bmap (h fileblock : ℕ) (doalloc : Bool) : Call VfsStop Errno σ ℕ :=
  if fileblock < 15 then D.bmapDirect h fileblock doalloc else D.bmapIndirect h (fileblock - 15) doalloc

variable {D} {d : σ} {h b fileblock idblock idoff : ℕ} {idbuf : Block} {doalloc : Bool} {F : Errno → Prop}

theorem ends_onFs {m : SfsCall α} {Q : α → σ → Prop} {E : Errno → σ → Prop} {S : Prop} : Ends (D.onFs m) d Q E S ↔
    Ends m (D.fs d) (fun a s => Q a (D.withFs d s)) (fun e s => E e (D.withFs d s)) S := ends_onPart

/-- The device reports no other errors. -/
structure Reports (D : BlockDev σ) (F : Errno → Prop) : Prop where
  readblock : ∀ b d, Ends (D.readblock b) d (fun _ _ => True) (fun e _ => F e) True
  writeblock : ∀ b data d, Ends (D.writeblock b data) d (fun _ _ => True) (fun e _ => F e) True

theorem reports_any (D : BlockDev σ) : D.Reports fun _ => True :=
  ⟨fun _ _ => ends_any (fun _ _ => trivial) fun _ _ => trivial,
    fun _ _ _ => ends_any (fun _ _ => trivial) fun _ _ => trivial⟩

theorem checked_or_stop {Q : ℕ → σ → Prop} {E : Errno → σ → Prop} (hQ : Q b (D.withFs d (D.fs d))) :
    Ends (D.onFs (Sfs.checkUsed b) >>= fun _ => pure b) d Q E True := by
  unfold Sfs.checkUsed Sfs.bused
  simp only [ends_bind, ends_onFs, ends_when, ends_read, ends_require_or_stop, ends_pure]
  exact ⟨fun _ _ _ => hQ, fun _ => hQ⟩

theorem balloc_or_stop (hD : D.Reports F) :
    Ends D.balloc d (fun b _ => b < 2 ^ 32) (fun e _ => F e ∨ e = .enospc) True := by
  unfold balloc
  rw [ends_bind, ends_onFs, ends_read]
  cases hfound : firstBelow (fun b => (D.fs d).freemap b = false) (Sfs.freemapBits (D.fs d).nblocks) with
  | none => exact .inr rfl
  | some c =>
    have hbits := lt_of_firstBelow hfound
    unfold Sfs.freemapBits at hbits
    simp only [ends_bind, ends_onFs, ends_update, ends_read, ends_require_or_stop, ends_attempt]
    intro _
    apply (hD.writeblock ..).mono
    · intro _ t _
      show c < 2 ^ 32
      omega
    · intro e t he
      simp only [ballocCleared, Sfs.bfree, ends_bind, ends_onFs, ends_read, ends_require_or_stop, ends_update, ends_fail]
      exact fun _ _ => .inl he

theorem bmapDirectBlock_or_stop {block : ℕ} (hD : D.Reports F) (hblock : block < 2 ^ 32) :
    Ends (D.bmapDirectBlock h fileblock block doalloc) d (fun b _ => b < 2 ^ 32) (fun e _ => F e ∨ e = .enospc) True := by
  unfold bmapDirectBlock
  rw [ends_ite, ends_bind, ends_pure]
  exact ⟨fun _ => (balloc_or_stop hD).mono (fun _ _ hb => hb) fun _ _ => id, fun _ => hblock⟩

theorem bmapIdblock_or_stop (hD : D.Reports F) :
    Ends (D.bmapIdblock h idblock) d (fun _ _ => True) (fun e _ => F e ∨ e = .enospc) True := by
  unfold bmapIdblock
  rw [ends_ite, ends_bind, ends_bind]
  exact ⟨fun _ => (balloc_or_stop hD).mono (fun _ _ _ => trivial) fun _ _ => id,
    fun _ => (hD.readblock ..).mono (fun _ _ _ => trivial) fun _ _ => .inl⟩

theorem bmapEntry_or_stop (hD : D.Reports F) :
    Ends (D.bmapEntry idblock idbuf idoff doalloc) d (fun b _ => b < 2 ^ 32) (fun e _ => F e ∨ e = .enospc) True := by
  unfold bmapEntry
  rw [ends_ite, ends_bind, ends_pure]
  refine ⟨fun _ => (balloc_or_stop hD).mono (fun b t hb => ?_) fun _ _ => id, fun _ => load32_lt ..⟩
  rw [ends_bind]
  exact (hD.writeblock ..).mono (fun _ _ _ => hb) fun _ _ => .inl

/-- **What `sfs_bmap` hands back** is a block number, and it fails for want of a block or with the block out of range,
if not for the device. -/
theorem bmap_or_stop (hD : D.Reports F) : Ends (D.bmap h fileblock doalloc) d (fun b _ => fileblock < 143 ∧ b < 2 ^ 32)
    (fun e _ => (F e ∨ e = .enospc) ∨ 143 ≤ fileblock) True := by
  unfold bmap
  rw [ends_ite]
  refine ⟨fun hk => ?_, fun hk => ?_⟩
  · unfold bmapDirect
    rw [ends_bind, ends_onFs, ends_read, ends_bind]
    exact (bmapDirectBlock_or_stop hD (load32_lt ..)).mono (fun b t hb => checked_or_stop ⟨by omega, hb⟩) fun _ _ => .inl
  · unfold bmapIndirect
    rw [ends_ite, ends_fail, ends_bind, ends_onFs, ends_read, ends_ite, ends_pure, ends_bind]
    refine ⟨fun hbig => .inr (by omega), fun hbig => ⟨fun _ => ⟨by omega, by decide⟩, fun _ => ?_⟩⟩
    apply (bmapIdblock_or_stop hD).mono _ fun _ _ => .inl
    intro id t _
    rw [ends_bind]
    exact (bmapEntry_or_stop hD).mono (fun b t hb => checked_or_stop ⟨by omega, hb⟩) fun _ _ => .inl

theorem ends_bmap_big {Q : ℕ → σ → Prop} {E : Errno → σ → Prop} {S : Prop} (hk : 143 ≤ fileblock) :
    Ends (D.bmap h fileblock doalloc) d Q E S ↔ E .efbig d := by
  have hdirect : ¬ fileblock < 15 := by omega
  have hbig : 1 ≤ (fileblock - 15) / 128 := by omega
  unfold bmap bmapIndirect
  rw [if_neg hdirect, if_pos hbig, ends_fail]

end BlockDev

/-! ### Input and output -/

namespace IoDev

variable {σ : Type} (D : IoDev σ)

/-- The block that `sfs_partialio` reads in; a hole is zeros. -/
def partialBlock (rw : UioRw) (diskblock : ℕ) : Call VfsStop Errno σ Block :=
  if diskblock = 0 then do
    .require (rw = .read) (.kassert "uio->uio_rw == UIO_READ")
    pure fun _ => 0
  else D.readblock diskblock

/-- `sfs_partialio`. -/
def partialio (h skipstart len : ℕ) : RequestCall σ Unit := do
  let u ← .read Request.uio
  .require (skipstart + len ≤ 512) (.kassert "skipstart + len <= SFS_BLOCKSIZE")
  let diskblock ← Request.onDev (D.bmap h (u.offset / 512 % 2 ^ 32) (decide (u.rw = .write)))
  let iobuf ← Request.onDev (D.partialBlock u.rw diskblock)
  let iobuf ← Request.onUio (Uio.uiomove iobuf skipstart len)
  .when (u.rw = .write) (Request.onDev (D.writeblock diskblock iobuf))

/-- The request that `sfs_blockio` makes of the caller's: one block at `diskblock * SFS_BLOCKSIZE`, a product in 32
bits. -/
def toDevice (diskblock : ℕ) (u : Uio) : Uio := { u with offset := diskblock * 512 % 2 ^ 32, resid := 512 }

/-- The caller's request again, updated by what has been moved. -/
def fromDevice (diskblock : ℕ) (saved u : Uio) : Uio :=
  { u with offset := u.offset - diskblock * 512 % 2 ^ 32 + saved.offset, resid := u.resid + saved.resid - 512 }

/-- `sfs_blockio` on a block that is there. -/
def blockTransfer (diskblock : ℕ) : RequestCall σ Unit := do
  let saved ← .read Request.uio
  .require (512 ≤ saved.resid) (.kassert "uio->uio_resid >= SFS_BLOCKSIZE")
  .update fun r => { r with uio := toDevice diskblock r.uio }
  let result ← .attempt D.rwblock
  .update fun r => { r with uio := fromDevice diskblock saved r.uio }
  match result with
  | .ok () => pure ()
  | .error e => .fail e

/-- `sfs_blockio`. -/
def blockio (h : ℕ) : RequestCall σ Unit := do
  let u ← .read Request.uio
  let diskblock ← Request.onDev (D.bmap h (u.offset / 512 % 2 ^ 32) (decide (u.rw = .write)))
  if diskblock = 0 then do
    .require (u.rw = .read) (.kassert "uio->uio_rw == UIO_READ")
    Request.onUio (Uio.uiomovezeros 512)
  else D.blockTransfer diskblock

/-- The leading partial block of `sfs_io`. -/
def ioHead (h : ℕ) : RequestCall σ Unit := do
  let u ← .read Request.uio
  .when (u.offset % 512 ≠ 0) (D.partialio h (u.offset % 512) (min (512 - u.offset % 512) u.resid))

/-- The whole blocks of `sfs_io` and the partial block at the end. -/
def ioBody (h : ℕ) : RequestCall σ Unit := do
  let u ← .read Request.uio
  .when (u.resid ≠ 0) do
    .require (u.offset % 512 = 0) (.kassert "uio->uio_offset % SFS_BLOCKSIZE == 0")
    .loopBelow (fun _ _ => D.blockio h) (u.resid / 512) ()
    let u ← .read Request.uio
    .require (u.resid < 512) (.kassert "uio->uio_resid < SFS_BLOCKSIZE")
    .when (0 < u.resid) (D.partialio h 0 u.resid)

/-- `out:` of `sfs_io`: the file has grown if something was written behind its end. -/
def ioOut (h origresid extraresid : ℕ) : RequestCall σ Unit := do
  let u ← .read Request.uio
  let size ← .read fun r => Dinode.size ((D.fs r.dev).sv h).inode
  .when (u.resid ≠ origresid ∧ u.rw = .write ∧ size < u.offset)
    (Request.onDev (D.onFs (Sfs.setInode h fun i => Dinode.setSize i u.offset)))
  .update fun r => { r with uio := { r.uio with resid := r.uio.resid + extraresid } }

/-- What a read asks for beyond the end of the file. -/
def extraresid (u : Uio) (size : ℕ) : ℕ := if u.rw = .read then u.offset + u.resid - size else 0

/-- `sfs_io`. -/
def io (h : ℕ) : RequestCall σ Unit := do
  let u ← .read Request.uio
  let size ← .read fun r => Dinode.size ((D.fs r.dev).sv h).inode
  if u.rw = .read ∧ size ≤ u.offset then pure ()
  else do
    let extra := extraresid u size
    .require (extra = 0 ∨ extra < u.resid) (.kassert "uio->uio_resid > extraresid")
    .update fun r => { r with uio := { r.uio with resid := r.uio.resid - extra } }
    let result ← .attempt do
      D.ioHead h
      D.ioBody h
    D.ioOut h u.resid extra
    match result with
    | .ok () => pure ()
    | .error e => .fail e

variable {D} {d : σ} {u : Uio} {b : ℕ}

theorem blockTransfer_eq (hresid : 512 ≤ u.resid) :
    D.blockTransfer b ⟨d, u⟩ = match D.rwblock ⟨d, toDevice b u⟩ with
      | .ok _ r => .ok () ⟨r.dev, fromDevice b u r.uio⟩
      | .fail e r => .fail e ⟨r.dev, fromDevice b u r.uio⟩
      | .stop x => .stop x := by
  unfold blockTransfer
  simp only [bind_apply, read_apply, Call.require, if_pos hresid, Call.ret, Call.update, Call.attempt]
  cases D.rwblock ⟨d, toDevice b u⟩ with
  | ok a r => rfl
  | fail e r => rfl
  | stop x => rfl

end IoDev

/-! ### A device that never fails -/

namespace Sfs

/-- `sfs_rwblock` for one block on a device that never fails. -/
def rwblock : RequestCall Sfs Unit := do
  let u ← .read Request.uio
  let sector := u.offset / 512 % 2 ^ 32
  match u.rw with
  | .read => do
    let buf ← Request.onDev (readblock sector)
    let _ ← Request.onUio (Uio.uiomove buf 0 512)
    pure ()
  | .write => do
    let buf ← Request.onUio (Uio.uiomove (fun _ => 0) 0 512)
    Request.onDev (writeblock sector buf)

/-- The volume on a device that never fails. -/
def device : IoDev Sfs where
  fs := id
  withFs _ s := s
  readblock := readblock
  writeblock := writeblock
  rwblock := rwblock

theorem device_reports : device.Reports fun _ => False := ⟨fun _ _ => trivial, fun _ _ _ => trivial⟩

theorem rwblock_device : device.rwblock = rwblock := rfl

theorem onFs_device {α : Type} (m : SfsCall α) : device.onFs m = m := by
  funext s
  have hs : device.fs s = s := rfl
  unfold BlockDev.onFs Call.onPart
  rw [hs]
  cases m s with
  | ok a t => rfl
  | fail x t => rfl
  | stop e => rfl

theorem balloc_device : device.balloc = balloc := by
  unfold BlockDev.balloc balloc
  simp only [onFs_device]
  rfl

theorem bmap_device (h fileblock : ℕ) (doalloc : Bool) : device.bmap h fileblock doalloc = bmap h fileblock doalloc := by
  unfold BlockDev.bmap bmap BlockDev.bmapDirect bmapDirect BlockDev.bmapIndirect bmapIndirect BlockDev.bmapDirectBlock
    bmapDirectBlock BlockDev.bmapIdblock bmapIdblock BlockDev.bmapEntry bmapEntry
  simp only [onFs_device, balloc_device]
  rfl

end Sfs

end Os161Kernel
