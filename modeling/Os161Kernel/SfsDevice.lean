import Os161Kernel.BlockDevice
import Os161Kernel.SfsNames

/-!
# The disk under a volume

`sfs_readblock` and `sfs_writeblock` set up a request for one block; `sfs_rwblock` hands it to the driver, and hands it to
the driver again when that reports `EIO`.  The driver moves the bytes of a write to its buffer before the hardware says
how the operation went, and those of a read after that.
-/

namespace Os161Kernel

open Calls Memory

-- Specifications are used through their rules; unfolding them would run the loops.
attribute [local irreducible] Ends

/-- What the hardware reports for a sector that it has: `LHD_OK` or `LHD_MEDIA`. -/
inductive LhdResult where
  | ok
  | media
deriving DecidableEq

/-- `struct lhd_softc`: the number of sectors, what the hardware is going to report, and the operations that have been
started, the latest one first. -/
structure Lhd where
  blocks : ℕ
  results : ℕ → LhdResult
  commands : List (ℕ × UioRw)

/-- A volume with its device.  The sectors are `fs.disk`. -/
structure Volume where
  fs : Sfs
  lh : Lhd

abbrev VolumeCall := Call VfsStop Errno Volume

namespace Volume

/-- The volume with a sector replaced. -/
def withSector (v : Volume) (sector : ℕ) (data : Block) : Volume :=
  { v with fs := { v.fs with disk := Function.update v.fs.disk sector data } }

/-- The volume after an operation has been started. -/
def started (v : Volume) (sector : ℕ) (rw : UioRw) : Volume :=
  { v with lh := { v.lh with
      results := fun n => v.lh.results (n + 1)
      commands := (sector, rw) :: v.lh.commands } }

/-- Start an operation with `buf` in the buffer of the card and wait for its result. -/
def command (sector : ℕ) (rw : UioRw) (buf : Bytes) : VolumeCall Bytes := do
  let lh ← .read lh
  .update fun v => v.started sector rw
  if lh.blocks ≤ sector then .fail .einval
  else
    match lh.results 0, rw with
    | .media, _ => .fail .eio
    | .ok, .read => .read fun v => v.fs.disk sector
    | .ok, .write => do
      .update fun v => v.withSector sector buf
      pure buf

/-- One round of the loop of `lhd_io`. -/
def lhdSector (sector : ℕ) : RequestCall Volume Unit := do
  match ← .read fun r => r.uio.rw with
  | .write => do
    let buf ← Request.onUio (Uio.uiomove (fun _ => 0) 0 512)
    let _ ← Request.onDev (command sector .write buf)
    pure ()
  | .read => do
    let buf ← Request.onDev (command sector .read fun _ => 0)
    let _ ← Request.onUio (Uio.uiomove buf 0 512)
    pure ()

/-- `lhd_io`, in 32-bit arithmetic. -/
def lhdIo : RequestCall Volume Unit := do
  let u ← .read Request.uio
  let blocks ← .read fun r => r.dev.lh.blocks
  let sector := u.offset / 512 % 2 ^ 32
  let len := u.resid / 512
  if u.offset % 512 ≠ 0 ∨ u.resid % 512 ≠ 0 then .fail .einval
  else if blocks < (sector + len) % 2 ^ 32 then .fail .einval
  else .loopBelow (fun i _ => lhdSector ((sector + i) % 2 ^ 32)) len ()

/-- What `sfs_rwblock` makes of a result of the driver; `again` is what it does on `EIO`. -/
def rwblockResult (again : RequestCall Volume Unit) : Except Errno Unit → RequestCall Volume Unit
  | .ok () => pure ()
  | .error .einval => .stop (.panic "sfs: %s: DEVOP_IO returned EINVAL\n")
  | .error .eio => again
  | .error e => .fail e

/-- The loop of `sfs_rwblock`, with the number of retries that are left. -/
def rwblockFrom : ℕ → RequestCall Volume Unit
  | 0 => do
    let result ← .attempt lhdIo
    rwblockResult (.fail .eio) result
  | n + 1 => do
    let result ← .attempt lhdIo
    rwblockResult (rwblockFrom n) result

/-- `sfs_rwblock`. -/
def rwblock : RequestCall Volume Unit := rwblockFrom 10

/-- `SFSUIO`. -/
def sfsuio (data : Block) (block : ℕ) (rw : UioRw) : Uio where
  iov := [⟨512, 512⟩]
  offset := block * 512
  resid := 512
  rw := rw
  buf := data
  moved := 0

/-- Make a request of one's own. -/
def request (u : Uio) : VolumeCall (Unit × Request Volume) := .onLarger (fun v => ⟨v, u⟩) Request.dev rwblock

/-- `sfs_readblock` into a buffer that holds `data`. -/
def readblock (block : ℕ) (data : Block) : VolumeCall Block := do
  let r ← request (sfsuio data block .read)
  pure r.2.uio.buf

/-- `sfs_writeblock`. -/
def writeblock (block : ℕ) (data : Block) : VolumeCall Unit := do
  let _ ← request (sfsuio data block .write)
  pure ()

/-- The volume on its disk.  What the static buffers of `sfs_bmap` and `sfs_partialio` hold before a block is read is
lost. -/
def device : IoDev Volume where
  fs := fs
  withFs v s := { v with fs := s }
  readblock b := readblock b fun _ => 0
  writeblock := writeblock
  rwblock := rwblock

theorem rwblock_device : device.rwblock = rwblock := rfl

/-! ### One operation -/

variable {v : Volume} {sector block : ℕ} {data buf : Block} {rw : UioRw}

theorem command_out (hout : v.lh.blocks ≤ sector) :
    command sector rw buf v = .fail .einval (v.started sector rw) := by
  unfold command
  simp only [bind_apply, read_apply, Call.update]
  rw [if_pos hout]
  rfl

theorem command_media (hin : sector < v.lh.blocks) (hres : v.lh.results 0 = .media) :
    command sector rw buf v = .fail .eio (v.started sector rw) := by
  unfold command
  simp only [bind_apply, read_apply, Call.update]
  rw [if_neg (Nat.not_le.mpr hin), hres]
  rfl

theorem command_read (hin : sector < v.lh.blocks) (hres : v.lh.results 0 = .ok) :
    command sector .read buf v = .ok (v.fs.disk sector) (v.started sector .read) := by
  unfold command
  simp only [bind_apply, read_apply, Call.update]
  rw [if_neg (Nat.not_le.mpr hin), hres]
  rfl

theorem command_write (hin : sector < v.lh.blocks) (hres : v.lh.results 0 = .ok) :
    command sector .write buf v = .ok buf ((v.started sector .write).withSector sector buf) := by
  unfold command
  simp only [bind_apply, read_apply, Call.update]
  rw [if_neg (Nat.not_le.mpr hin), hres]
  rfl

/-- The request for a block when it has been served. -/
def served (data : Block) (block : ℕ) (rw : UioRw) (ptr : Bytes) : Uio :=
  { (sfsuio data block rw).advance ptr 0 512 with iov := [⟨0, 0⟩] }

theorem uiomove_sfsuio (ptr : Bytes) : Uio.uiomove ptr 0 512 (sfsuio data block rw) =
    .ok ((sfsuio data block rw).kernelSide ptr 0 512) (served data block rw ptr) := by
  show Uio.uiomoveIov [⟨512, 512⟩] ptr 0 512 (sfsuio data block rw) = _
  rw [Uio.uiomoveIov_cons]
  rfl

/-- What a write puts in the buffer of the card. -/
def card (data : Block) : Block := overlay (fun _ => 0) 0 512 data

theorem card_eq {k : ℕ} (hk : k < 512) : card data k = data k := overlay_inside (Nat.zero_le k) (by omega)

/-! ### The results of an attempt -/

variable {b n : ℕ} {r : Request Volume}

theorem lhdIo_one (hoff : r.uio.offset = b * 512) (hres : r.uio.resid = 512) :
    lhdIo r = if r.dev.lh.blocks < (b % 2 ^ 32 + 1) % 2 ^ 32 then .fail .einval r else lhdSector (b % 2 ^ 32) r := by
  have hoff' : r.uio.offset / 512 % 2 ^ 32 = b % 2 ^ 32 := by omega
  have hmod : (b % 2 ^ 32 + 0) % 2 ^ 32 = b % 2 ^ 32 := by omega
  have haligned : ¬ (r.uio.offset % 512 ≠ 0 ∨ r.uio.resid % 512 ≠ 0) := by omega
  unfold lhdIo
  simp only [bind_apply, read_apply]
  rw [if_neg haligned, hoff', hres]
  by_cases hout : r.dev.lh.blocks < (b % 2 ^ 32 + 1) % 2 ^ 32
  · rw [if_pos hout, if_pos hout]
    rfl
  · rw [if_neg hout, if_neg hout]
    show lhdSector ((b % 2 ^ 32 + 0) % 2 ^ 32) r = _
    rw [hmod]

theorem lhdIo_none (hoff : r.uio.offset = b * 512) (hres : r.uio.resid = 0) (hb : b ≤ r.dev.lh.blocks)
    (hblocks : r.dev.lh.blocks < 2 ^ 32) : lhdIo r = .ok () r := by
  have haligned : ¬ (r.uio.offset % 512 ≠ 0 ∨ r.uio.resid % 512 ≠ 0) := by omega
  have hin : ¬ r.dev.lh.blocks < (r.uio.offset / 512 % 2 ^ 32 + 0) % 2 ^ 32 := by omega
  unfold lhdIo
  simp only [bind_apply, read_apply]
  rw [if_neg haligned, hres, Nat.zero_div, if_neg hin]
  rfl

variable {r' : Request Volume} {u : Uio}

theorem rwblockFrom_of_ok (h : lhdIo r = .ok () r') (n : ℕ) : rwblockFrom n r = .ok () r' := by
  cases n with
  | zero => simp only [rwblockFrom, bind_apply, Call.attempt, h, rwblockResult, pure_apply]
  | succ n => simp only [rwblockFrom, bind_apply, Call.attempt, h, rwblockResult, pure_apply]

theorem rwblockFrom_of_eio (h : lhdIo r = .fail .eio r') (n : ℕ) :
    rwblockFrom (n + 1) r = rwblockFrom n r' := by
  simp only [rwblockFrom, bind_apply, Call.attempt, h, rwblockResult]

theorem rwblockFrom_zero_of_eio (h : lhdIo r = .fail .eio r') :
    rwblockFrom 0 r = .fail .eio r' := by
  simp only [rwblockFrom, bind_apply, Call.attempt, h, rwblockResult, fail_apply]

theorem rwblockFrom_of_efault (h : lhdIo r = .fail .efault r') (n : ℕ) :
    rwblockFrom n r = .fail .efault r' := by
  cases n with
  | zero => simp only [rwblockFrom, bind_apply, Call.attempt, h, rwblockResult, fail_apply]
  | succ n => simp only [rwblockFrom, bind_apply, Call.attempt, h, rwblockResult, fail_apply]

theorem rwblockFrom_of_einval (h : lhdIo r = .fail .einval r') (n : ℕ) :
    rwblockFrom n r = .stop (.panic "sfs: %s: DEVOP_IO returned EINVAL\n") := by
  cases n with
  | zero =>
    simp only [rwblockFrom, bind_apply, Call.attempt, h, rwblockResult]
    rfl
  | succ n =>
    simp only [rwblockFrom, bind_apply, Call.attempt, h, rwblockResult]
    rfl

/-! ### One attempt -/

theorem lhdSector_write (hrw : u.rw = .write) (v : Volume) (sector : ℕ) :
    lhdSector sector ⟨v, u⟩ = match Uio.uiomove (fun _ => 0) 0 512 u with
      | .ok buf u' => match command sector .write buf v with
        | .ok _ v' => .ok () ⟨v', u'⟩
        | .fail e v' => .fail e ⟨v', u'⟩
        | .stop e => .stop e
      | .fail e u' => .fail e ⟨v, u'⟩
      | .stop e => .stop e := by
  unfold lhdSector
  rw [bind_apply, read_apply]
  simp only [hrw, bind_apply, Request.onUio, Request.onDev, Call.onPart]
  cases Uio.uiomove (fun _ => 0) 0 512 u with
  | ok buf u' =>
    cases hc : command sector .write buf v with
    | ok a v' => simp only [hc, pure_apply]
    | fail e v' => simp only [hc]
    | stop e => simp only [hc]
  | fail e u' => rfl
  | stop e => rfl

theorem lhdSector_read (hrw : u.rw = .read) (v : Volume) (sector : ℕ) :
    lhdSector sector ⟨v, u⟩ = match command sector .read (fun _ => 0) v with
      | .ok buf v' => match Uio.uiomove buf 0 512 u with
        | .ok _ u' => .ok () ⟨v', u'⟩
        | .fail e u' => .fail e ⟨v', u'⟩
        | .stop e => .stop e
      | .fail e v' => .fail e ⟨v', u⟩
      | .stop e => .stop e := by
  unfold lhdSector
  rw [bind_apply, read_apply]
  simp only [hrw, bind_apply, Request.onUio, Request.onDev, Call.onPart]
  cases command sector .read (fun _ => 0) v with
  | ok buf v' =>
    cases hc : Uio.uiomove buf 0 512 u with
    | ok a u' => simp only [hc, pure_apply]
    | fail e u' => simp only [hc]
    | stop e => simp only [hc]
  | fail e v' => rfl
  | stop e => rfl

theorem lhdIo_out (hb : block < 2 ^ 32) (hout : v.lh.blocks ≤ block) (data : Block)
    (rw : UioRw) : ∃ r', lhdIo ⟨v, sfsuio data block rw⟩ = .fail .einval r' := by
  have hone := lhdIo_one (r := ⟨v, sfsuio data block rw⟩) rfl rfl
  rw [Nat.mod_eq_of_lt hb] at hone
  rw [hone]
  by_cases hcheck : v.lh.blocks < (block + 1) % 2 ^ 32
  · exact ⟨_, if_pos hcheck⟩
  · rw [if_neg hcheck]
    cases rw with
    | read =>
      rw [lhdSector_read rfl, command_out hout]
      exact ⟨_, rfl⟩
    | write =>
      rw [lhdSector_write rfl, uiomove_sfsuio]
      simp only [command_out hout]
      exact ⟨_, rfl⟩

theorem lhdIo_in (hin : block < v.lh.blocks) (hblocks : v.lh.blocks < 2 ^ 32) (data : Block) (rw : UioRw) :
    lhdIo ⟨v, sfsuio data block rw⟩ = lhdSector block ⟨v, sfsuio data block rw⟩ := by
  have hone := lhdIo_one (r := ⟨v, sfsuio data block rw⟩) rfl rfl
  have hmod : block % 2 ^ 32 = block := by omega
  rw [hmod] at hone
  have hcheck : ¬ v.lh.blocks < (block + 1) % 2 ^ 32 := by omega
  exact hone.trans (if_neg hcheck)

/-- **Writes are not retried.**  The bytes are moved to the card before the operation; after a media error the request
is used up, and the next attempt has nothing to do. -/
theorem rwblock_write (hin : block < v.lh.blocks) (hblocks : v.lh.blocks < 2 ^ 32) :
    rwblock ⟨v, sfsuio data block .write⟩ = .ok () ⟨match v.lh.results 0 with
      | .ok => (v.started block .write).withSector block (card data)
      | .media => v.started block .write, served data block .write fun _ => 0⟩ := by
  have hcard : (sfsuio data block .write).kernelSide (fun _ => 0) 0 512 = card data := by
    simp only [Uio.kernelSide, card, sfsuio, Nat.zero_add]
  have hio := (lhdIo_in hin hblocks data .write).trans (lhdSector_write rfl v block)
  rw [uiomove_sfsuio, hcard] at hio
  cases hres : v.lh.results 0 with
  | ok =>
    simp only [command_write hin hres] at hio
    exact rwblockFrom_of_ok hio 10
  | media =>
    simp only [command_media hin hres] at hio
    have hoff : (served data block .write fun _ => 0).offset = (block + 1) * 512 := by
      simp only [served, Uio.advance, sfsuio]
      omega
    have hresid : (served data block .write fun _ => 0).resid = 0 := by
      simp only [served, Uio.advance, sfsuio]
    have hnone : lhdIo ⟨v.started block .write, served data block .write fun _ => 0⟩ =
        .ok () ⟨v.started block .write, served data block .write fun _ => 0⟩ :=
      lhdIo_none hoff hresid hin hblocks
    exact (rwblockFrom_of_eio hio 9).trans (rwblockFrom_of_ok hnone 9)

theorem rwblockFrom_read (n : ℕ) (data : Block) (hin : block < v.lh.blocks) (hblocks : v.lh.blocks < 2 ^ 32) :
    (∃ v', rwblockFrom n ⟨v, sfsuio data block .read⟩ =
        .ok () ⟨v', served data block .read (v.fs.disk block)⟩ ∧ v'.fs = v.fs) ∨
      ∃ r', rwblockFrom n ⟨v, sfsuio data block .read⟩ = .fail .eio r' := by
  induction n generalizing v with
  | zero =>
    have hio := (lhdIo_in hin hblocks data .read).trans (lhdSector_read rfl v block)
    cases hres : v.lh.results 0 with
    | ok =>
      simp only [command_read hin hres, uiomove_sfsuio] at hio
      exact .inl ⟨_, rwblockFrom_of_ok hio 0, rfl⟩
    | media =>
      simp only [command_media hin hres] at hio
      exact .inr ⟨_, rwblockFrom_zero_of_eio hio⟩
  | succ n ih =>
    have hio := (lhdIo_in hin hblocks data .read).trans (lhdSector_read rfl v block)
    cases hres : v.lh.results 0 with
    | ok =>
      simp only [command_read hin hres, uiomove_sfsuio] at hio
      exact .inl ⟨_, rwblockFrom_of_ok hio (n + 1), rfl⟩
    | media =>
      simp only [command_media hin hres] at hio
      rw [rwblockFrom_of_eio hio]
      exact ih (v := v.started block .read) hin hblocks

/-- What `sfs_writeblock` reports as written is on the disk. -/
def WriteKept (v : Volume) (block : ℕ) (data : Block) : Prop :=
  ∀ v', writeblock block data v = .ok () v' → ∀ k < 512, v'.fs.disk block k = data k

/-- What `sfs_readblock` reports as read is what the sector holds. -/
def ReadKept (v : Volume) (block : ℕ) (data : Block) : Prop :=
  ∀ buf v', readblock block data v = .ok buf v' → ∀ k < 512, buf k = v'.fs.disk block k

theorem writeblock_eq (hin : block < v.lh.blocks) (hblocks : v.lh.blocks < 2 ^ 32) :
    writeblock block data v = .ok () (match v.lh.results 0 with
      | .ok => (v.started block .write).withSector block (card data)
      | .media => v.started block .write) := by
  unfold writeblock request
  rw [bind_apply]
  simp only [Call.onLarger, rwblock_write hin hblocks, pure_apply]

theorem writeblock_out (hb : block < 2 ^ 32) (hout : v.lh.blocks ≤ block) :
    writeblock block data v = .stop (.panic "sfs: %s: DEVOP_IO returned EINVAL\n") := by
  obtain ⟨r', hio⟩ := lhdIo_out hb hout data .write
  have hstop := rwblockFrom_of_einval hio 10
  unfold writeblock request rwblock
  rw [bind_apply]
  simp only [Call.onLarger, hstop]

theorem writeKept_iff (hb : block < 2 ^ 32) (hblocks : v.lh.blocks < 2 ^ 32) :
    WriteKept v block data ↔
      (block < v.lh.blocks → v.lh.results 0 = .media → ∀ k < 512, v.fs.disk block k = data k) := by
  unfold WriteKept
  by_cases hin : block < v.lh.blocks
  · rw [writeblock_eq hin hblocks]
    cases hres : v.lh.results 0 with
    | ok =>
      refine ⟨fun _ _ h => (nomatch h), fun _ v' h k hk => ?_⟩
      simp only [Reply.ok.injEq, true_and] at h
      rw [← h]
      simp only [withSector, Function.update_self]
      exact card_eq hk
    | media =>
      refine ⟨fun h _ _ => h (v.started block .write) rfl, fun h v' hv' => ?_⟩
      simp only [Reply.ok.injEq, true_and] at hv'
      rw [← hv']
      exact h hin rfl
  · rw [writeblock_out hb (Nat.not_lt.mp hin)]
    exact ⟨fun _ h => absurd h hin, fun _ v' h => (nomatch h)⟩

theorem readblock_out (hb : block < 2 ^ 32) (hout : v.lh.blocks ≤ block) :
    readblock block data v = .stop (.panic "sfs: %s: DEVOP_IO returned EINVAL\n") := by
  obtain ⟨r', hio⟩ := lhdIo_out hb hout data .read
  have hstop := rwblockFrom_of_einval hio 10
  unfold readblock request rwblock
  rw [bind_apply]
  simp only [Call.onLarger, hstop]

theorem readblock_in (data : Block) (hin : block < v.lh.blocks) (hblocks : v.lh.blocks < 2 ^ 32) :
    (∃ v', readblock block data v = .ok (overlay data 0 512 (v.fs.disk block)) v' ∧ v'.fs = v.fs) ∨
      ∃ v', readblock block data v = .fail .eio v' := by
  have hbuf : (served data block .read (v.fs.disk block)).buf = overlay data 0 512 (v.fs.disk block) := by
    simp only [served, Uio.advance, sfsuio, Nat.zero_add]
  unfold readblock request rwblock
  rw [bind_apply]
  rcases rwblockFrom_read 10 data hin hblocks with ⟨v', hr, hfs⟩ | ⟨r', hr⟩
  · simp only [Call.onLarger, hr, pure_apply, hbuf]
    exact .inl ⟨v', rfl, hfs⟩
  · simp only [Call.onLarger, hr]
    exact .inr ⟨r'.dev, rfl⟩

theorem readKept (hb : block < 2 ^ 32) (hblocks : v.lh.blocks < 2 ^ 32) : ReadKept v block data := by
  intro buf v' h k hk
  by_cases hin : block < v.lh.blocks
  · rcases readblock_in data hin hblocks with ⟨w, hr, hfs⟩ | ⟨w, hr⟩
    · obtain ⟨rfl, rfl⟩ := Reply.ok.inj (hr.symm.trans h)
      rw [hfs]
      exact overlay_inside (Nat.zero_le k) (by omega)
    · exact nomatch hr.symm.trans h
  · exact nomatch (readblock_out hb (Nat.not_lt.mp hin)).symm.trans h

/-- **Block transfers that are reported.**  A read that is reported has taken place.  A write that is reported has taken
place unless the first attempt meets a media error: then nothing is written and the write is reported all the same. -/
theorem block_io_reported_iff (hb : block < 2 ^ 32) (hblocks : v.lh.blocks < 2 ^ 32) :
    (WriteKept v block data ∧ ReadKept v block data) ↔
      (block < v.lh.blocks → v.lh.results 0 = .media → ∀ k < 512, v.fs.disk block k = data k) := by
  rw [writeKept_iff hb hblocks]
  exact ⟨fun h => h.1, fun h => ⟨h, readKept hb hblocks⟩⟩

/-- A volume of `n` blocks with an empty directory on a disk that reports `results`. -/
def ofResults (n : ℕ) (results : ℕ → LhdResult) : Volume := ⟨Sfs.emptyVolume n, n, results, []⟩

theorem block_io_reported_on_good_disk :
    WriteKept (ofResults 16 fun _ => .ok) 5 (fun _ => 1) ∧ ReadKept (ofResults 16 fun _ => .ok) 5 fun _ => 1 :=
  (block_io_reported_iff (by decide) (by decide)).mpr fun _ h => (nomatch h)

/-- The first attempt meets a media error, every later one would succeed: the write is reported, and the sector holds
zeros. -/
theorem writeblock_reports_lost_write :
    ¬ WriteKept (ofResults 16 fun n => if n = 0 then .media else .ok) 5 fun _ => 1 := by
  intro h
  have hw : writeblock 5 (fun _ => 1) (ofResults 16 fun n => if n = 0 then .media else .ok) = _ :=
    writeblock_eq (by decide) (by decide)
  exact absurd (h _ hw 0 (by decide)) (by decide)

end Volume

end Os161Kernel
