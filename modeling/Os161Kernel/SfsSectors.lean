import Os161Kernel.SfsDevice

/-!
# Which sector a transfer goes to

`sfs_partialio` reaches a block through `sfs_readblock` and `sfs_writeblock`, whose macro computes the offset on the device
in 64 bits.  `sfs_blockio` computes it by hand: a product of 32-bit numbers, before it is widened.  The two agree on the
first 2²³ blocks.
-/

namespace Os161Kernel

open Calls Memory

-- Specifications are used through their rules; unfolding them would run the loops.
attribute [local irreducible] Ends

namespace Volume

variable {v v' v₁ : Volume} {u : Uio} {b c h k n : ℕ} {rw : UioRw} {data : Block}

/-- `n` operations have been started, all of them at sector `c`. -/
def Started (v : Volume) (n c : ℕ) (rw : UioRw) (v' : Volume) : Prop :=
  v'.lh.commands = List.replicate n (c, rw) ++ v.lh.commands

theorem started_zero : Started v 0 c rw v := rfl

theorem Started.head (hs : Started (v.started c rw) n c rw v') : Started v (n + 1) c rw v' := by
  unfold Started at *
  rw [hs, List.replicate_succ', List.append_assoc]
  rfl

/-- `m` bytes have been moved and the request tells so. -/
structure MovedBy (u : Uio) (m : ℕ) (w : Uio) : Prop where
  offset : w.offset = u.offset + m
  resid : w.resid + m = u.resid
  moved : w.moved = u.moved + m

theorem MovedBy.zero : MovedBy u 0 u := ⟨rfl, rfl, rfl⟩

theorem MovedBy.of_advanced {w : Uio} {ptr : Bytes} {pos m : ℕ} (hm : m ≤ u.resid) (ha : u.Advanced ptr pos m w) :
    MovedBy u m w := by
  refine ⟨ha.offset_eq, ?_, ha.moved_eq⟩
  rw [ha.resid_eq]
  omega

/-! ### One request -/

/-- The request is for the block `c`. -/
structure Asks (u : Uio) (c : ℕ) : Prop where
  offset : u.offset = c * 512
  resid : u.resid = 512
  room : u.Room

theorem lhdIo_asks (ha : Asks u c) (hin : c < v.lh.blocks) (hblocks : v.lh.blocks < 2 ^ 32) :
    lhdIo ⟨v, u⟩ = lhdSector c ⟨v, u⟩ := by
  have hone := lhdIo_one (r := ⟨v, u⟩) ha.offset ha.resid
  have hmod : c % 2 ^ 32 = c := by omega
  have hcheck : ¬ v.lh.blocks < (c + 1) % 2 ^ 32 := by omega
  rw [hmod] at hone
  exact hone.trans (if_neg hcheck)

/-- What is known when a request for the block `c` has been handed to the driver.  Nothing has been started only if the
buffers cannot be accessed. -/
def Handed (v : Volume) (u : Uio) (c : ℕ) (done : Prop) (r : Request Volume) : Prop :=
  (∃ n, (done ∨ u.Good → 0 < n) ∧ Started v n c u.rw r.dev) ∧ ∃ m ≤ 512, (done → m = 512) ∧ MovedBy u m r.uio

theorem rwblockFrom_write_ends (ha : Asks u c) (hrw : u.rw = .write) (hin : c < v.lh.blocks)
    (hblocks : v.lh.blocks < 2 ^ 32) (n : ℕ) :
    Ends (rwblockFrom n) ⟨v, u⟩ (fun _ => Handed v u c True) fun _ => Handed v u c False := by
  have hio := (lhdIo_asks ha hin hblocks).trans (lhdSector_write hrw v c)
  have hmoves := Uio.uiomove_ends (n := 512) (u := u) (by rw [ha.resid]) ha.room (fun _ => 0) 0
  have hfull : (512 : ℕ) ≤ u.resid := by rw [ha.resid]
  have hone : ∀ v', v'.lh.commands = (v.started c .write).lh.commands → Started v 1 c u.rw v' := by
    intro v' hv'
    rw [hrw]
    exact hv'
  cases hmove : Uio.uiomove (fun _ => 0) 0 512 u with
  | ok buf w =>
    rw [hmove] at hio
    have hadv := (hmoves.of_ok hmove).2
    have hby := MovedBy.of_advanced hfull hadv
    cases hres : v.lh.results 0 with
    | ok =>
      simp only [command_write hin hres] at hio
      rw [ends_of_ok_iff (rwblockFrom_of_ok hio n)]
      exact ⟨⟨1, fun _ => Nat.one_pos, hone _ rfl⟩, 512, Nat.le_refl 512, fun _ => rfl, hby⟩
    | media =>
      simp only [command_media hin hres] at hio
      cases n with
      | zero =>
        rw [ends_of_fail_iff (rwblockFrom_zero_of_eio hio)]
        exact ⟨⟨1, fun _ => Nat.one_pos, hone _ rfl⟩, 512, Nat.le_refl 512, nofun, hby⟩
      | succ n =>
        have hoff : w.offset = (c + 1) * 512 := by
          rw [hadv.offset_eq, ha.offset]
          omega
        have hresid : w.resid = 0 := by
          rw [hadv.resid_eq, ha.resid]
        have hnone : lhdIo ⟨v.started c .write, w⟩ = .ok () ⟨v.started c .write, w⟩ :=
          lhdIo_none hoff hresid hin hblocks
        rw [ends_of_ok_iff ((rwblockFrom_of_eio hio n).trans (rwblockFrom_of_ok hnone n))]
        exact ⟨⟨1, fun _ => Nat.one_pos, hone _ rfl⟩, 512, Nat.le_refl 512, fun _ => rfl, hby⟩
  | fail e w =>
    rw [hmove] at hio
    obtain ⟨rfl, hbad, m, hm, hadv⟩ := hmoves.of_fail hmove
    rw [ends_of_fail_iff (rwblockFrom_of_efault hio n)]
    exact ⟨⟨0, fun hg => absurd (hg.resolve_left id) hbad, started_zero⟩, m, hm.le, nofun, .of_advanced (hm.le.trans hfull) hadv⟩
  | stop x => exact absurd hmove hmoves.not_stop

theorem rwblockFrom_read_ok_ends (ha : Asks u c) (hrw : u.rw = .read) (hin : c < v.lh.blocks)
    (hblocks : v.lh.blocks < 2 ^ 32) (hres : v.lh.results 0 = .ok) (n : ℕ) :
    Ends (rwblockFrom n) ⟨v, u⟩ (fun _ => Handed v u c True) fun _ => Handed v u c False := by
  have hfull : (512 : ℕ) ≤ u.resid := by rw [ha.resid]
  have hio := (lhdIo_asks ha hin hblocks).trans (lhdSector_read hrw v c)
  have hmoves := Uio.uiomove_ends (n := 512) (u := u) hfull ha.room (v.fs.disk c) 0
  have hone : Started v 1 c u.rw (v.started c .read) := by
    rw [hrw]
    rfl
  rw [command_read hin hres] at hio
  cases hmove : Uio.uiomove (v.fs.disk c) 0 512 u with
  | ok buf w =>
    simp only [hmove] at hio
    rw [ends_of_ok_iff (rwblockFrom_of_ok hio n)]
    exact ⟨⟨1, fun _ => Nat.one_pos, hone⟩, 512, Nat.le_refl 512, fun _ => rfl,
      .of_advanced hfull (hmoves.of_ok hmove).2⟩
  | fail e w =>
    simp only [hmove] at hio
    obtain ⟨rfl, -, m, hm, hadv⟩ := hmoves.of_fail hmove
    rw [ends_of_fail_iff (rwblockFrom_of_efault hio n)]
    exact ⟨⟨1, fun _ => Nat.one_pos, hone⟩, m, hm.le, nofun, .of_advanced (hm.le.trans hfull) hadv⟩
  | stop x => exact absurd hmove hmoves.not_stop

variable {done : Prop} {r : Request Volume}

theorem Handed.started (hh : Handed (v.started c u.rw) u c done r) :
    Handed v u c done r := by
  obtain ⟨⟨n, _, hn⟩, hmoved⟩ := hh
  exact ⟨⟨n + 1, fun _ => Nat.succ_pos n, hn.head⟩, hmoved⟩

theorem rwblockFrom_read_ends (ha : Asks u c) (hrw : u.rw = .read) (hin : c < v.lh.blocks)
    (hblocks : v.lh.blocks < 2 ^ 32) (n : ℕ) :
    Ends (rwblockFrom n) ⟨v, u⟩ (fun _ => Handed v u c True) fun _ => Handed v u c False := by
  induction n generalizing v with
  | zero =>
    cases hres : v.lh.results 0 with
    | ok => exact rwblockFrom_read_ok_ends ha hrw hin hblocks hres 0
    | media =>
      have hio := (lhdIo_asks ha hin hblocks).trans (lhdSector_read hrw v c)
      simp only [command_media hin hres] at hio
      have hone : Started v 1 c u.rw (v.started c .read) := by
        rw [hrw]
        rfl
      rw [ends_of_fail_iff (rwblockFrom_zero_of_eio hio)]
      exact ⟨⟨1, fun _ => Nat.one_pos, hone⟩, 0, Nat.zero_le 512, nofun, .zero⟩
  | succ n ih =>
    cases hres : v.lh.results 0 with
    | ok => exact rwblockFrom_read_ok_ends ha hrw hin hblocks hres (n + 1)
    | media =>
      have hio := (lhdIo_asks ha hin hblocks).trans (lhdSector_read hrw v c)
      simp only [command_media hin hres] at hio
      rw [ends_congr (rwblockFrom_of_eio hio n), ← hrw]
      exact (ih (v := v.started c u.rw) hin hblocks).mono (fun _ _ => Handed.started) fun _ _ => Handed.started

/-- **`sfs_rwblock`** on a request for a block that is on the disk: every operation is at that block, and the request
tells how much has been moved. -/
theorem rwblock_ends (ha : Asks u c) (hin : c < v.lh.blocks) (hblocks : v.lh.blocks < 2 ^ 32) :
    Ends rwblock ⟨v, u⟩ (fun _ => Handed v u c True) fun _ => Handed v u c False := by
  cases hrw : u.rw with
  | read => exact rwblockFrom_read_ends ha hrw hin hblocks 10
  | write => exact rwblockFrom_write_ends ha hrw hin hblocks 10

theorem rwblock_out (ha : Asks u c) (hout : v.lh.blocks ≤ c) (hc : c + 1 < 2 ^ 32) :
    rwblock ⟨v, u⟩ = .stop (.panic "sfs: %s: DEVOP_IO returned EINVAL\n") := by
  have hone := lhdIo_one (r := ⟨v, u⟩) ha.offset ha.resid
  have hcheck : v.lh.blocks < (c % 2 ^ 32 + 1) % 2 ^ 32 := by omega
  exact rwblockFrom_of_einval (hone.trans (if_pos hcheck)) 10

/-! ### Whole blocks -/

/-- A transfer of the block `b` goes to its sector and the request tells how much has been moved; the machine stops only
if the block is not on the disk. -/
def TransfersAt (v : Volume) (u : Uio) (b : ℕ) : Reply VfsStop Errno (Request Volume) Unit → Prop
  | .ok _ r => Handed v u b True r
  | .fail _ r => Handed v u b False r
  | .stop _ => v.lh.blocks ≤ b

theorem toDevice_asks (hresid : 512 ≤ u.resid) (hroom : u.Room) (b : ℕ) : Asks (IoDev.toDevice b u) (b % 2 ^ 23) := by
  refine ⟨?_, rfl, le_trans hresid hroom⟩
  simp only [IoDev.toDevice]
  omega

theorem Handed.fromDevice (hresid : 512 ≤ u.resid)
    (hh : Handed v (IoDev.toDevice b u) c done r) :
    Handed v u c done { r with uio := IoDev.fromDevice b u r.uio } := by
  obtain ⟨hstarted, m, hm, hdone, hmoved⟩ := hh
  have hoff : r.uio.offset = b * 512 % 2 ^ 32 + m := hmoved.offset
  have hres : r.uio.resid + m = 512 := hmoved.resid
  refine ⟨hstarted, m, hm, hdone, ?_, ?_, hmoved.moved⟩
  · simp only [IoDev.fromDevice]
    omega
  · simp only [IoDev.fromDevice]
    omega

theorem blockTransfer_transfersAt (hresid : 512 ≤ u.resid) (hroom : u.Room) (hblocks : v.lh.blocks < 2 ^ 32) (b : ℕ) :
    TransfersAt v u (b % 2 ^ 23) (device.blockTransfer b ⟨v, u⟩) := by
  have ha := toDevice_asks hresid hroom b
  rw [IoDev.blockTransfer_eq hresid, rwblock_device]
  by_cases hin : b % 2 ^ 23 < v.lh.blocks
  · have hends := rwblock_ends ha hin hblocks
    cases hrun : rwblock ⟨v, IoDev.toDevice b u⟩ with
    | ok a r => exact (hends.of_ok hrun).fromDevice hresid
    | fail e r => exact (hends.of_fail hrun).fromDevice hresid
    | stop x => exact absurd hrun hends.not_stop
  · rw [rwblock_out ha (Nat.not_lt.mp hin) (by omega)]
    exact Nat.not_lt.mp hin

theorem blockTransfer_out (hresid : 512 ≤ u.resid) (hroom : u.Room) (hout : v.lh.blocks ≤ b % 2 ^ 23) :
    device.blockTransfer b ⟨v, u⟩ = .stop (.panic "sfs: %s: DEVOP_IO returned EINVAL\n") := by
  rw [IoDev.blockTransfer_eq hresid, rwblock_device, rwblock_out (toDevice_asks hresid hroom b) hout (by omega)]

theorem blockio_of_bmap (hmap : device.bmap h (u.offset / 512 % 2 ^ 32) (decide (u.rw = .write)) v = .ok b v₁)
    (hb : b ≠ 0) : device.blockio h ⟨v, u⟩ = device.blockTransfer b ⟨v₁, u⟩ := by
  unfold IoDev.blockio
  rw [bind_of_ok (read_apply _ _)]
  have hmap' : Request.onDev (device.bmap h (u.offset / 512 % 2 ^ 32) (decide (u.rw = .write))) ⟨v, u⟩ =
      .ok b (⟨v₁, u⟩ : Request Volume) := by
    unfold Request.onDev Call.onPart
    rw [hmap]
  rw [bind_of_ok hmap', if_neg hb]

theorem Handed.unique (hgood : u.Good) (hh : Handed v u b done r)
    (hh' : Handed v u c done r) : b = c := by
  obtain ⟨⟨n, hn, hs⟩, -⟩ := hh
  obtain ⟨⟨n', hn', hs'⟩, -⟩ := hh'
  obtain ⟨n, rfl⟩ := Nat.exists_eq_succ_of_ne_zero (Nat.pos_iff_ne_zero.mp (hn (.inr hgood)))
  obtain ⟨n', rfl⟩ := Nat.exists_eq_succ_of_ne_zero (Nat.pos_iff_ne_zero.mp (hn' (.inr hgood)))
  have heq := hs.symm.trans hs'
  simp only [List.replicate_succ, List.cons_append, List.cons.injEq, Prod.mk.injEq] at heq
  exact heq.1.1

/-! ### Blocks through the buffer -/

/-- Every operation of the transfer is at the sector `b`. -/
def GoesTo {α : Type} (v : Volume) (b : ℕ) (rw : UioRw) : Reply VfsStop Errno Volume α → Prop
  | .ok _ v' => ∃ n, 0 < n ∧ Started v n b rw v'
  | .fail _ v' => ∃ n, 0 < n ∧ Started v n b rw v'
  | .stop _ => v.lh.blocks ≤ b

theorem sfsuio_asks (data : Block) (b : ℕ) (rw : UioRw) : Asks (sfsuio data b rw) b := ⟨rfl, rfl, Nat.le_refl 512⟩

theorem sfsuio_good : (sfsuio data b rw).Good := by
  intro iov hiov
  rw [List.mem_singleton.mp hiov]

theorem request_goesTo (hb : b < 2 ^ 32) (hblocks : v.lh.blocks < 2 ^ 32) (data : Block) (rw : UioRw) :
    GoesTo v b rw (request (sfsuio data b rw) v) := by
  unfold request Call.onLarger
  by_cases hin : b < v.lh.blocks
  · have hends := rwblock_ends (sfsuio_asks data b rw) hin hblocks
    cases hrun : rwblock ⟨v, sfsuio data b rw⟩ with
    | ok a r =>
      obtain ⟨n, hn, hs⟩ := (hends.of_ok hrun).1
      exact ⟨n, hn (.inr sfsuio_good), hs⟩
    | fail e r =>
      obtain ⟨n, hn, hs⟩ := (hends.of_fail hrun).1
      exact ⟨n, hn (.inr sfsuio_good), hs⟩
    | stop x => exact absurd hrun hends.not_stop
  · obtain ⟨r, hio⟩ := lhdIo_out hb (Nat.not_lt.mp hin) data rw
    have hstop : rwblock ⟨v, sfsuio data b rw⟩ = _ := rwblockFrom_of_einval hio 10
    rw [hstop]
    exact Nat.not_lt.mp hin

theorem readblock_goesTo (hb : b < 2 ^ 32) (hblocks : v.lh.blocks < 2 ^ 32) : GoesTo v b .read (readblock b data v) := by
  have hreq := request_goesTo hb hblocks data .read
  unfold readblock
  rw [bind_apply]
  cases hrun : request (sfsuio data b .read) v with
  | ok a v' =>
    rw [hrun] at hreq
    exact hreq
  | fail e v' =>
    rw [hrun] at hreq
    exact hreq
  | stop x =>
    rw [hrun] at hreq
    exact hreq

theorem writeblock_goesTo (hb : b < 2 ^ 32) (hblocks : v.lh.blocks < 2 ^ 32) :
    GoesTo v b .write (writeblock b data v) := by
  have hreq := request_goesTo hb hblocks data .write
  unfold writeblock
  rw [bind_apply]
  cases hrun : request (sfsuio data b .write) v with
  | ok a v' =>
    rw [hrun] at hreq
    exact hreq
  | fail e v' =>
    rw [hrun] at hreq
    exact hreq
  | stop x =>
    rw [hrun] at hreq
    exact hreq

/-- A request for one whole block at block `k` of a file, with a buffer of its own. -/
def wholeBlock (k : ℕ) (rw : UioRw) : Uio := ⟨[⟨512, 512⟩], k * 512, 512, rw, fun _ => 0, 0⟩

/-- `sfs_blockio` and the transfers through the buffer all go to the sector `b`. -/
structure SameSector (v v₁ : Volume) (h k b : ℕ) (rw : UioRw) : Prop where
  whole : ∀ u : Uio, u.rw = rw → u.offset / 512 % 2 ^ 32 = k → 512 ≤ u.resid → u.Room →
    TransfersAt v₁ u b (device.blockio h ⟨v, u⟩)
  read : ∀ data, GoesTo v₁ b .read (readblock b data v₁)
  write : ∀ data, GoesTo v₁ b .write (writeblock b data v₁)

/-- **The sector of a whole block.**  When block `k` of a file is mapped to the disk block `b`, `sfs_blockio` transfers it
at the sector `b`, as `sfs_readblock` and `sfs_writeblock` do, and leaves the request advanced by what has been moved,
exactly if `b` is below 2²³, or if the sector that it goes to instead is not on the disk. -/
theorem blockio_sector_iff (hmap : device.bmap h k (decide (rw = .write)) v = .ok b v₁) (hb : b ≠ 0)
    (hblocks : v₁.lh.blocks < 2 ^ 32) :
    SameSector v v₁ h k b rw ↔ (b < 2 ^ 23 ∨ v₁.lh.blocks ≤ b % 2 ^ 23) := by
  obtain ⟨hk, hlt⟩ := (BlockDev.bmap_or_stop device.reports_any).of_ok hmap
  have hruns : ∀ u : Uio, u.rw = rw → u.offset / 512 % 2 ^ 32 = k → 512 ≤ u.resid → u.Room →
      TransfersAt v₁ u (b % 2 ^ 23) (device.blockio h ⟨v, u⟩) := by
    intro u hrw hoff hresid hroom
    subst hrw hoff
    rw [blockio_of_bmap hmap hb]
    exact blockTransfer_transfersAt hresid hroom hblocks b
  constructor
  · intro hsame
    have hrw : (wholeBlock k rw).rw = rw := rfl
    have hoff : (wholeBlock k rw).offset / 512 % 2 ^ 32 = k := by
      simp only [wholeBlock]
      omega
    have hroom : (wholeBlock k rw).Room := Nat.le_refl 512
    have hgood : (wholeBlock k rw).Good := by
      intro iov hiov
      rw [List.mem_singleton.mp hiov]
    have hright := hsame.whole _ hrw hoff (Nat.le_refl 512) hroom
    have hreal := hruns _ hrw hoff (Nat.le_refl 512) hroom
    cases hrun : device.blockio h ⟨v, wholeBlock k rw⟩ with
    | ok a r =>
      rw [hrun] at hright hreal
      have := Handed.unique hgood hright hreal
      omega
    | fail e r =>
      rw [hrun] at hright hreal
      have := Handed.unique hgood hright hreal
      omega
    | stop x =>
      rw [hrun] at hreal
      exact .inr hreal
  · intro hcond
    refine ⟨fun u hrw hoff hresid hroom => ?_, fun _ => readblock_goesTo hlt hblocks,
      fun _ => writeblock_goesTo hlt hblocks⟩
    rcases hcond with hlow | hout
    · have hreal := hruns u hrw hoff hresid hroom
      rw [Nat.mod_eq_of_lt hlow] at hreal
      exact hreal
    · subst hrw hoff
      rw [blockio_of_bmap hmap hb, blockTransfer_out hresid hroom hout]
      exact hout.trans (Nat.mod_le b _)

/-- A volume of `n` blocks whose directory has its first block at the disk block `b`, on a disk of as many sectors. -/
def ofBlock (n b : ℕ) : Volume where
  fs := { Sfs.emptyVolume n with
    freemap := fun c => decide (c < 2 + Sfs.freemapBlocks n ∨ c = b ∨ n ≤ c)
    sv := fun _ => ⟨1, Dinode.setDirect Sfs.rootInode 0 b, true, 1⟩ }
  lh := ⟨n, fun _ => .ok, []⟩

theorem blockio_sector_low : ∃ v₁, device.bmap 0 0 false (ofBlock 16 5) = .ok 5 v₁ ∧
    SameSector (ofBlock 16 5) v₁ 0 0 5 .read := by
  have hrun : (device.bmap 0 0 false (ofBlock 16 5)).returnedIn (fun b v => b == 5 && v.lh.blocks == 16) = true := by
    decide +kernel
  obtain ⟨b, v₁, hmap, hp⟩ := Reply.ok_of_returnedIn hrun
  obtain ⟨hb, hblocks⟩ := Bool.and_eq_true_iff.mp hp
  obtain rfl := eq_of_beq hb
  have hblocks' : v₁.lh.blocks < 2 ^ 32 := by
    rw [eq_of_beq hblocks]
    decide
  have hread : device.bmap 0 0 (decide (UioRw.read = .write)) (ofBlock 16 5) = .ok 5 v₁ := hmap
  exact ⟨v₁, hmap, (blockio_sector_iff hread (by decide) hblocks').mpr (.inl (by decide))⟩

/-- Block 8388613 of a large volume: `sfs_blockio` reads the sector 5, `sfs_readblock` the sector 8388613. -/
theorem blockio_reads_other_sector :
    (∃ v₁, device.bmap 0 0 false (ofBlock 8388624 8388613) = .ok 8388613 v₁) ∧
    (∃ r, device.blockio 0 ⟨ofBlock 8388624 8388613, wholeBlock 0 .read⟩ = .ok () r ∧
      r.dev.lh.commands = [(5, .read)]) ∧
    ∃ data v', readblock 8388613 (fun _ => 0) (ofBlock 8388624 8388613) = .ok data v' ∧
      v'.lh.commands = [(8388613, .read)] := by
  have hmap : (device.bmap 0 0 false (ofBlock 8388624 8388613)).returnedIn (fun b _ => b == 8388613) = true := by
    decide +kernel
  have hwhole : (device.blockio 0 ⟨ofBlock 8388624 8388613, wholeBlock 0 .read⟩).returnedIn
      (fun _ r => r.dev.lh.commands == [(5, .read)]) = true := by
    decide +kernel
  have hbuffer : (readblock 8388613 (fun _ => 0) (ofBlock 8388624 8388613)).returnedIn
      (fun _ v => v.lh.commands == [(8388613, .read)]) = true := by
    decide +kernel
  obtain ⟨b, v₁, hmap, hb⟩ := Reply.ok_of_returnedIn hmap
  obtain ⟨_, r, hwhole, hr⟩ := Reply.ok_of_returnedIn hwhole
  obtain ⟨data, v', hbuffer, hv'⟩ := Reply.ok_of_returnedIn hbuffer
  obtain rfl := eq_of_beq hb
  exact ⟨⟨v₁, hmap⟩, ⟨r, hwhole, eq_of_beq hr⟩, data, v', hbuffer, eq_of_beq hv'⟩

end Volume

end Os161Kernel
