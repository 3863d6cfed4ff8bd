import Os161Kernel.BlockDevice
import Os161Kernel.SfsFiles

/-!
# Reading and writing files

`sfs_io` cuts a request into a leading partial block, whole blocks and a trailing partial block.  A partial block goes
through a buffer, a whole block straight to the device; missing blocks are allocated for a write and read as zeros.
Whatever the cut, the request is served as one `uiomove` with the bytes of the file in place of a kernel buffer.
-/

namespace Os161Kernel

open Calls Memory Dinode IoDev

-- Specifications are used through their rules; unfolding them would run the loops.
attribute [local irreducible] Ends

namespace Sfs

/-- Where an offset lies in a file: the block number is cut to 32 bits. -/
def place (o : ℕ) : ℕ := o % 2 ^ 41

variable {s t : Sfs} {u w : Uio} {h own k b n a m : ℕ} {f g : SfsFile} {e : Errno} {r r' : Request Sfs}

theorem place_eq (o : ℕ) : place o = 512 * (o / 512 % 2 ^ 32) + o % 512 := by
  unfold place
  omega

theorem place_add {o : ℕ} (hfits : place o + a ≤ 73216) : place (o + a) = place o + a := by
  unfold place at *
  omega

/-! ### One file changes -/

/-- The file `own` has become `f`, and no other file has changed. -/
structure Rewritten (s t : Sfs) (own : ℕ) (f : SfsFile) : Prop where
  acct : t.Acct
  table : SameTable s t
  live : ∀ ino, t.Live ino ↔ s.Live ino
  file : t.file own = f
  other : ∀ ino, ino ≠ own → s.Live ino → t.file ino = s.file ino

theorem Rewritten.refl (ha : s.Acct) : Rewritten s s own (s.file own) :=
  ⟨ha, .refl s, fun _ => Iff.rfl, rfl, fun _ _ _ => rfl⟩

theorem Rewritten.trans {v : Sfs} (hst : Rewritten s t own f) (htv : Rewritten t v own g) : Rewritten s v own g := by
  refine ⟨htv.acct, hst.table.trans htv.table, fun ino => (htv.live ino).trans (hst.live ino), htv.file, ?_⟩
  intro ino hne hl
  rw [htv.other ino hne ((hst.live ino).mpr hl), hst.other ino hne hl]

theorem Rewritten.mem (hst : Rewritten s t own f) (hh : h ∈ s.vnodes) : h ∈ t.vnodes := hst.table.vnodes ▸ hh

theorem Rewritten.bytes {bytes : ℕ → UInt8} (hst : Rewritten s t own { f with bytes := bytes }) :
    t.fileByte own = bytes :=
  congrArg SfsFile.bytes hst.file

theorem Grown.rewritten (hg : Grown s t) (hl : s.Live own) : Rewritten s t own (s.file own) :=
  ⟨hg.acct, hg.same.toSameTable, fun _ => hg.same.live, hg.same.file own hl, fun ino _ hl' => hg.same.file ino hl'⟩

theorem Grown.bytes (hg : Grown s t) (hl : s.Live own) : t.fileByte own = s.fileByte own :=
  congrArg SfsFile.bytes (hg.same.file own hl)

variable {d : Block} {skip len size : ℕ} {Q : Unit → Request Sfs → Prop} {E : Errno → Request Sfs → Prop}

theorem Acct.writePart {src : ℕ → UInt8} (ha : s.Acct) (hl : s.Live own) (hne : own ≠ 1)
    (hb : s.fileBlock own k ≠ 0) (hpart : skip + len ≤ 512)
    (hd : ∀ j < 512, d j = overlay (s.disk (s.fileBlock own k)) skip len src j) :
    Rewritten s (s.withBlock (s.fileBlock own k) d) own
      { s.file own with bytes := overlay (s.fileByte own) (512 * k + skip) len src } := by
  have hdir : (s.withBlock (s.fileBlock own k) d).file 1 = s.file 1 :=
    file_writeData_of_ne ha.toSpaceOk hl hb (live_root s) hne.symm
  refine ⟨ha.writeData hl hne hb, sameTable_withBlock, fun ino => live_congr sameTable_withBlock hdir,
    file_writePart ha.toSpaceOk hl hb hpart hd, fun ino hno hl' => ?_⟩
  exact file_writeData_of_ne ha.toSpaceOk hl hb hl' hno

/-! ### What a part of a request comes to -/

/-- `n` bytes of the request have been moved to or from their place in the file. -/
structure Done (s : Sfs) (u : Uio) (own n : ℕ) (r : Request Sfs) : Prop where
  dev : Rewritten s r.dev own { s.file own with bytes := u.kernelSide (s.fileByte own) (place u.offset) n }
  uio : u.Advanced (s.fileByte own) (place u.offset) n r.uio
  fits : n ≠ 0 → place u.offset + n ≤ 73216

/-- The reasons for which a transfer fails after `m` bytes. -/
def Excuse (u : Uio) (m : ℕ) (e : Errno) : Prop :=
  (e = .enospc ∧ u.rw = .write) ∨ (e = .efault ∧ ¬ u.Good) ∨ (e = .efbig ∧ 73216 ≤ place u.offset + m)

/-- The request has failed after `m` bytes.  Of these, `a` bytes have reached the file. -/
structure Failed (s : Sfs) (u : Uio) (own n a m : ℕ) (e : Errno) (r : Request Sfs) : Prop where
  le : a ≤ m
  upTo : m ≤ n
  lt : n ≠ 0 → m < n
  dev : Rewritten s r.dev own { s.file own with bytes := u.kernelSide (s.fileByte own) (place u.offset) a }
  uio : u.Advanced (s.fileByte own) (place u.offset) m r.uio
  excuse : Excuse u m e

theorem Done.refl (ha : s.Acct) : Done s u own 0 ⟨s, u⟩ := by
  refine ⟨?_, .refl, fun hn => absurd rfl hn⟩
  rw [Uio.kernelSide_zero]
  exact .refl ha

theorem Done.place_eq (hd : Done s u own a r) : place r.uio.offset = place u.offset + a := by
  rw [hd.uio.offset_eq]
  by_cases ha : a = 0
  · rw [ha, Nat.add_zero, Nat.add_zero]
  · exact place_add (hd.fits ha)

theorem Done.kernelSide_eq (hd : Done s u own a r) :
    r.uio.kernelSide (r.dev.fileByte own) (place r.uio.offset) n =
      u.kernelSide (s.fileByte own) (place u.offset) (a + n) := by
  obtain ⟨iov, hw⟩ := hd.uio.eq
  rw [hd.place_eq, hd.dev.bytes, hw]
  exact Uio.kernelSide_kernelSide ..

theorem Done.rewritten (hd : Done s u own a r)
    (hdev : Rewritten r.dev r'.dev own
      { r.dev.file own with bytes := r.uio.kernelSide (r.dev.fileByte own) (place r.uio.offset) n }) :
    Rewritten s r'.dev own { s.file own with bytes := u.kernelSide (s.fileByte own) (place u.offset) (a + n) } := by
  have htrans := hd.dev.trans hdev
  rw [hd.kernelSide_eq, hd.dev.file] at htrans
  exact htrans

theorem Done.advanced (hd : Done s u own a r)
    (huio : r.uio.Advanced (r.dev.fileByte own) (place r.uio.offset) n r'.uio) :
    u.Advanced (s.fileByte own) (place u.offset) (a + n) r'.uio := by
  rw [hd.place_eq, hd.dev.bytes] at huio
  exact hd.uio.trans huio

theorem Done.trans (hd : Done s u own a r) (hd' : Done r.dev r.uio own n r') : Done s u own (a + n) r' := by
  refine ⟨hd.rewritten hd'.dev, hd.advanced hd'.uio, fun hn => ?_⟩
  have hfits := hd.fits
  have hfits' := hd'.fits
  rw [hd.place_eq] at hfits'
  omega

theorem Done.failed {n' : ℕ} (hd : Done s u own n' r) (hn : n ≠ 0) (hf : Failed r.dev r.uio own n a m e r') :
    Failed s u own (n' + n) (n' + a) (n' + m) e r' := by
  have hle := hf.le
  have hlt := hf.lt hn
  refine ⟨by omega, by omega, fun _ => by omega, hd.rewritten hf.dev, hd.advanced hf.uio, ?_⟩
  rcases hf.excuse with ⟨he, hrw⟩ | ⟨he, hbad⟩ | ⟨he, hbig⟩
  · exact .inl ⟨he, hd.uio.rw_eq.symm.trans hrw⟩
  · exact .inr (.inl ⟨he, fun hg => hbad (hd.uio.good hg)⟩)
  · rw [hd.place_eq] at hbig
    exact .inr (.inr ⟨he, by omega⟩)

/-! ### One block -/

theorem fileByte_block {j : ℕ} (hj : j < 512) :
    s.fileByte own (512 * k + j) = if s.fileBlock own k = 0 then 0 else s.disk (s.fileBlock own k) j := by
  have hdiv : (512 * k + j) / 512 = k := by omega
  have hmod : (512 * k + j) % 512 = j := by omega
  unfold fileByte
  rw [hdiv, hmod]

theorem ends_partialBlock {rw : UioRw} {Q : Block → Sfs → Prop} {E : Errno → Sfs → Prop} (hrw : b = 0 → rw = .read) :
    Ends (device.partialBlock rw b) s Q E ↔ Q (if b = 0 then fun _ => 0 else s.disk b) s := by
  unfold partialBlock
  by_cases hb : b = 0
  · rw [if_pos hb, if_pos hb, ends_bind, ends_require, ends_pure]
    exact and_iff_right (hrw hb)
  · rw [if_neg hb, if_neg hb]
    exact ends_read

theorem Grown.failed (hg : Grown s t) (hl : s.Live own) (hm : m ≤ n) (hlt : n ≠ 0 → m < n)
    (hw : u.Advanced (s.fileByte own) (place u.offset) m w) (he : Excuse u m e) : Failed s u own n 0 m e ⟨t, w⟩ := by
  refine ⟨Nat.zero_le m, hm, hlt, ?_, hw, he⟩
  rw [Uio.kernelSide_zero]
  exact hg.rewritten hl

theorem Grown.done (hg : Grown s t) (hl : s.Live own) (hne : own ≠ 1) (hrw : u.rw = .write)
    (hb : t.fileBlock own k ≠ 0) (hk : k < 143) (hplace : place u.offset = 512 * k + skip) (hpart : skip + len ≤ 512)
    (hd : ∀ j < 512, d j = u.kernelSide (t.disk (t.fileBlock own k)) skip len j)
    (hw : u.Advanced (s.fileByte own) (place u.offset) len w) :
    Done s u own len ⟨t.withBlock (t.fileBlock own k) d, w⟩ := by
  rw [Uio.kernelSide_of_write hrw] at hd
  have hwrite := (hg.rewritten hl).trans (hg.acct.writePart (hg.same.live.mpr hl) hne hb hpart hd)
  rw [hg.bytes hl, hg.same.file own hl] at hwrite
  refine ⟨?_, hw, fun _ => by omega⟩
  rw [Uio.kernelSide_of_write hrw, hplace]
  exact hwrite

theorem Grown.efault (hg : Grown s t) (hl : s.Live own) (hm : m < n) (hbad : ¬ u.Good)
    (hw : u.Advanced (s.fileByte own) (place u.offset) m w) : ∃ a k, Failed s u own n a k .efault ⟨t, w⟩ :=
  ⟨0, m, hg.failed hl hm.le (fun _ => hm) hw (.inr (.inl ⟨rfl, hbad⟩))⟩

theorem Grown.served (hg : Grown s t) (hl : s.Live own) (hrw : u.rw = .read) (hfits : place u.offset + n ≤ 73216)
    (hw : u.Advanced (s.fileByte own) (place u.offset) n w) : Done s u own n ⟨t, w⟩ := by
  refine ⟨?_, hw, fun _ => hfits⟩
  rw [Uio.kernelSide_of_read hrw]
  exact hg.rewritten hl

/-- A file that can be read and written: the accounts are in order, the vnode is that of a file, the blocks are below
2²³, and the buffers have room for the request. -/
structure Ready (h own : ℕ) (r : Request Sfs) : Prop where
  acct : r.dev.Acct
  mem : h ∈ r.dev.vnodes
  ino : (r.dev.sv h).ino = own
  ne : own ≠ 1
  small : r.dev.nblocks ≤ 2 ^ 23
  room : r.uio.Room

theorem Ready.live (hr : Ready h own r) : r.dev.Live own := hr.ino ▸ live_of_mem hr.mem

theorem bmap_request_ends (hr : Ready h own ⟨s, u⟩) :
    Ends (device.bmap h (u.offset / 512 % 2 ^ 32) (decide (u.rw = .write))) s
      (fun b t => Grown s t ∧ t.fileBlock own (u.offset / 512 % 2 ^ 32) = b ∧ u.offset / 512 % 2 ^ 32 < 143 ∧
        (b = 0 → u.rw = .read))
      fun e t => ∃ a m, Failed s u own n a m e ⟨t, u⟩ := by
  have hl := hr.live
  have hplace := place_eq u.offset
  have hbig : ∀ {t}, Grown s t → 143 ≤ u.offset / 512 % 2 ^ 32 → ∃ a m, Failed s u own n a m .efbig ⟨t, u⟩ :=
    fun hg hk => ⟨0, 0, hg.failed hl (Nat.zero_le n) Nat.pos_of_ne_zero .refl (.inr (.inr ⟨rfl, by omega⟩))⟩
  obtain ⟨ha, hh, rfl, -⟩ := hr
  cases hrw : u.rw with
  | write =>
    rw [bmap_device]
    apply (bmap_alloc_ends ha hh (u.offset / 512 % 2 ^ 32)).mono
    · rintro b t ⟨hg, hb, hne, hk⟩
      exact ⟨hg, hb, hk, fun hzero => absurd hzero hne⟩
    · rintro e t ⟨rfl | ⟨rfl, hk⟩, hg⟩
      · exact ⟨0, 0, hg.failed hl (Nat.zero_le n) Nat.pos_of_ne_zero .refl (.inl ⟨rfl, hrw⟩)⟩
      · exact hbig hg hk
  | read =>
    by_cases hk : u.offset / 512 % 2 ^ 32 < 143
    · have hno : false = true → s.fileBlock (s.sv h).ino (u.offset / 512 % 2 ^ 32) ≠ 0 := nofun
      rw [bmap_device]
      show Ends (bmap h (u.offset / 512 % 2 ^ 32) false) s _ _
      rw [ends_bmap_mapped ha hh hk hno]
      exact ⟨.refl ha, rfl, hk, fun _ => rfl⟩
    · rw [BlockDev.ends_bmap_big (Nat.not_lt.mp hk)]
      exact hbig (.refl ha) (Nat.not_lt.mp hk)

theorem partialio_ends (hr : Ready h own ⟨s, u⟩) (hskip : u.offset % 512 = skip)
    (hlen : skip + len ≤ 512) (hres : len ≤ u.resid) :
    Ends (device.partialio h skip len) ⟨s, u⟩ (fun _ r => Done s u own len r)
      fun e r => ∃ a m, Failed s u own len a m e r := by
  have hl := hr.live
  have hplace := place_eq u.offset
  rw [hskip] at hplace
  unfold partialio
  rw [ends_bind, ends_read, ends_bind, ends_require]
  refine ⟨hlen, ?_⟩
  rw [ends_bind, Request.ends_onDev]
  apply (bmap_request_ends hr).mono _ fun _ _ => id
  rintro b t ⟨hg, rfl, hk, hb⟩
  generalize u.offset / 512 % 2 ^ 32 = k at *
  have hbytes : ∀ i < len, (if t.fileBlock own k = 0 then fun _ => 0 else t.disk (t.fileBlock own k)) (skip + i) =
      s.fileByte own (place u.offset + i) := by
    intro i hi
    rw [hplace, Nat.add_assoc, ← hg.bytes hl, fileByte_block (by omega)]
    split <;> rfl
  rw [ends_bind, Request.ends_onDev, ends_partialBlock hb, ends_bind, Request.ends_onUio]
  apply (Uio.uiomove_ends hres hr.room _ skip).mono
  · rintro q w ⟨rfl, hw⟩
    have hmoved := hw.congr fun _ => hbytes
    rw [ends_when]
    constructor
    · intro hrw
      have hb0 : t.fileBlock own k ≠ 0 := fun hzero => nomatch (hb hzero).symm.trans hrw
      rw [Request.ends_onDev]
      show Ends (writeblock _ _) t _ _
      rw [ends_writeblock, if_neg hb0]
      exact hg.done hl hr.ne hrw hb0 hk hplace hlen (fun _ _ => rfl) hmoved
    · intro hwrite
      have hrw : u.rw = .read := by
        cases hcase : u.rw with
        | read => rfl
        | write => exact absurd hcase hwrite
      exact hg.served hl hrw (by omega) hmoved
  · rintro e w ⟨rfl, hbad, m, hm, hw⟩
    exact hg.efault hl hm hbad (hw.congr fun _ i hi => hbytes i (hi.trans hm))

/-! ### A whole block -/

theorem ends_blockTransfer (hresid : 512 ≤ u.resid) :
    Ends (device.blockTransfer b) ⟨s, u⟩ Q E ↔ Ends rwblock ⟨s, toDevice b u⟩
      (fun _ r => Q () ⟨r.dev, fromDevice b u r.uio⟩) fun e r => E e ⟨r.dev, fromDevice b u r.uio⟩ := by
  unfold blockTransfer
  rw [ends_bind, ends_read, ends_bind, ends_require, and_iff_right hresid, ends_bind, ends_update, ends_bind,
    ends_attempt]
  simp only [ends_bind, ends_update, ends_pure, ends_fail]
  rfl

theorem ends_rwblock_write (hrw : u.rw = .write)
    (hsector : u.offset / 512 % 2 ^ 32 = b) :
    Ends rwblock ⟨s, u⟩ Q E ↔
      Ends (Uio.uiomove (fun _ => 0) 0 512) u (fun buf w => Q () ⟨s.withBlock b buf, w⟩) fun e w => E e ⟨s, w⟩ := by
  unfold rwblock
  rw [ends_bind, ends_read]
  simp only [hrw, hsector]
  rw [ends_bind, Request.ends_onUio]
  simp only [Request.ends_onDev, ends_writeblock]

theorem ends_rwblock_read (hrw : u.rw = .read)
    (hsector : u.offset / 512 % 2 ^ 32 = b) :
    Ends rwblock ⟨s, u⟩ Q E ↔
      Ends (Uio.uiomove (s.disk b) 0 512) u (fun _ w => Q () ⟨s, w⟩) fun e w => E e ⟨s, w⟩ := by
  unfold rwblock readblock
  rw [ends_bind, ends_read]
  simp only [hrw, hsector]
  rw [ends_bind, Request.ends_onDev, ends_read, ends_bind, Request.ends_onUio]
  simp only [ends_pure]

theorem advanced_fromDevice {ptr ptr' : Bytes} {pos pos' : ℕ} (hm : m ≤ 512) (hresid : 512 ≤ u.resid)
    (hw : (toDevice b u).Advanced ptr pos m w)
    (heq : u.rw = .read → ∀ k < m, ptr (pos + k) = ptr' (pos' + k)) :
    u.Advanced ptr' pos' m (fromDevice b u w) := by
  obtain ⟨iov, rfl⟩ := (hw.congr heq).eq
  refine ⟨⟨iov, ?_⟩, hw.space, hw.good⟩
  have hoff : b * 512 % 2 ^ 32 + m - b * 512 % 2 ^ 32 + u.offset = u.offset + m := by omega
  have hres : 512 - m + u.resid - 512 = u.resid - m := by omega
  simp only [fromDevice, toDevice, Uio.advance, hoff, hres]

theorem sector_toDevice (hb : b < 2 ^ 23) : (toDevice b u).offset / 512 % 2 ^ 32 = b := by
  simp only [toDevice]
  omega

theorem blockio_ends (hr : Ready h own ⟨s, u⟩) (haligned : u.offset % 512 = 0) (hresid : 512 ≤ u.resid) :
    Ends (device.blockio h) ⟨s, u⟩ (fun _ r => Done s u own 512 r) fun e r => ∃ a m, Failed s u own 512 a m e r := by
  have hl := hr.live
  have hplace := place_eq u.offset
  rw [haligned] at hplace
  unfold blockio
  rw [ends_bind, ends_read, ends_bind, Request.ends_onDev]
  apply (bmap_request_ends hr).mono _ fun _ _ => id
  rintro b t ⟨hg, rfl, hk, hb⟩
  generalize u.offset / 512 % 2 ^ 32 = k at *
  have hbyte : ∀ i < 512, s.fileByte own (place u.offset + i) =
      if t.fileBlock own k = 0 then 0 else t.disk (t.fileBlock own k) i := by
    intro i hi
    rw [hplace, Nat.add_assoc, Nat.zero_add, ← hg.bytes hl, fileByte_block hi]
  have hroom : (toDevice (t.fileBlock own k) u).Room := le_trans hresid hr.room
  by_cases hb0 : t.fileBlock own k = 0
  · have hrw := hb hb0
    rw [if_pos hb0, ends_bind, ends_require, and_iff_right hrw, Request.ends_onUio]
    apply (Uio.uiomovezeros_ends hrw hresid hr.room).mono
    · intro _ w hw
      exact hg.served hl hrw (by omega) (hw.congr fun _ i hi => by rw [hbyte i hi, if_pos hb0])
    · rintro e w ⟨rfl, hbad, m, hm, hw⟩
      exact hg.efault hl hm hbad (hw.congr fun _ i hi => by rw [hbyte i (hi.trans hm), if_pos hb0])
  · have hlow : t.fileBlock own k < 2 ^ 23 :=
      lt_of_lt_of_le (hg.acct.ptr_used (hg.same.live.mpr hl) hb0).1 (hg.same.nblocks ▸ hr.small)
    rw [if_neg hb0, ends_blockTransfer hresid]
    cases hrw : u.rw with
    | write =>
      have hread : u.rw = .read → False := fun hr => nomatch hr.symm.trans hrw
      rw [ends_rwblock_write (u := toDevice _ u) hrw (sector_toDevice hlow)]
      apply (Uio.uiomove_ends (Nat.le_refl 512) hroom _ 0).mono
      · rintro q w ⟨rfl, hw⟩
        refine hg.done hl hr.ne hrw hb0 hk hplace (Nat.le_refl 512) (fun j hj => ?_)
          (advanced_fromDevice (Nat.le_refl 512) hresid hw fun hr => (hread hr).elim)
        rw [Uio.kernelSide_of_write hrw, Uio.kernelSide_of_write (u := toDevice _ u) hrw,
          overlay_inside (Nat.zero_le j) (by omega), overlay_inside (Nat.zero_le j) (by omega)]
        rfl
      · rintro e w ⟨rfl, hbad, m, hm, hw⟩
        exact hg.efault hl hm hbad (advanced_fromDevice hm.le hresid hw fun hr => (hread hr).elim)
    | read =>
      have hbytes : ∀ i < 512, t.disk (t.fileBlock own k) (0 + i) = s.fileByte own (place u.offset + i) := by
        intro i hi
        rw [hbyte i hi, if_neg hb0, Nat.zero_add]
      rw [ends_rwblock_read (u := toDevice _ u) hrw (sector_toDevice hlow)]
      apply (Uio.uiomove_ends (Nat.le_refl 512) hroom _ 0).mono
      · rintro q w ⟨-, hw⟩
        exact hg.served hl hrw (by omega) (advanced_fromDevice (Nat.le_refl 512) hresid hw fun _ => hbytes)
      · rintro e w ⟨rfl, hbad, m, hm, hw⟩
        exact hg.efault hl hm hbad
          (advanced_fromDevice hm.le hresid hw fun _ i hi => hbytes i (hi.trans hm))

/-! ### The whole request -/

theorem Done.ready (hd : Done s u own n r) (hn : n ≤ u.resid) (hr : Ready h own ⟨s, u⟩) : Ready h own r :=
  ⟨hd.dev.acct, hd.dev.mem hr.mem, (hd.dev.table.ino h).trans hr.ino, hr.ne, hd.dev.table.nblocks ▸ hr.small,
    hd.uio.room hn hr.room⟩

/-- The call serves `n` bytes of the request, or fails on the way; it does not fail on no bytes. -/
def Serves (s : Sfs) (u : Uio) (own n : ℕ) (m : RequestCall Sfs Unit) : Prop :=
  Ends m ⟨s, u⟩ (fun _ r => Done s u own n r) fun e r => n ≠ 0 ∧ ∃ a k, Failed s u own n a k e r

theorem Serves.bind {m m' : RequestCall Sfs Unit} (hm : Serves s u own a m)
    (hm' : ∀ r, Done s u own a r → Serves r.dev r.uio own b m') :
    Serves s u own (a + b) (m >>= fun _ => m') := by
  unfold Serves at *
  rw [ends_bind]
  apply hm.mono
  · intro _ r hd
    apply (hm' r hd).mono
    · intro _ r' hd'
      exact hd.trans hd'
    · rintro e r' ⟨hb, a', k, hf⟩
      exact ⟨by omega, a + a', a + k, hd.failed hb hf⟩
  · rintro e r ⟨ha, a', k, hf⟩
    have hlt : k < a + b := Nat.lt_of_lt_of_le (hf.lt ha) (Nat.le_add_right a b)
    exact ⟨by omega, a', k, hf.le, hlt.le, fun _ => hlt, hf.dev, hf.uio, hf.excuse⟩

theorem serves_none (ha : s.Acct) : Serves s u own 0 (pure ()) := by
  unfold Serves
  rw [ends_pure]
  exact .refl ha

theorem partialio_serves (hr : Ready h own ⟨s, u⟩) (hskip : u.offset % 512 = skip)
    (hlen : skip + len ≤ 512) (hpos : len ≠ 0) (hres : len ≤ u.resid) :
    Serves s u own len (device.partialio h skip len) := by
  apply (partialio_ends hr hskip hlen hres).mono
  · intro _ r hd
    exact hd
  · intro e r hf
    exact ⟨hpos, hf⟩

theorem blockio_serves (hr : Ready h own ⟨s, u⟩) (haligned : u.offset % 512 = 0) (hresid : 512 ≤ u.resid) :
    Serves s u own 512 (device.blockio h) := by
  apply (blockio_ends hr haligned hresid).mono
  · intro _ r hd
    exact hd
  · intro e r hf
    exact ⟨by decide, hf⟩

theorem blocks_serve (hr : Ready h own ⟨s, u⟩) (haligned : u.offset % 512 = 0) (n : ℕ) (hn : 512 * n ≤ u.resid) :
    Serves s u own (512 * n) (Call.loopBelow (fun _ _ => device.blockio h) n ()) := by
  induction n with
  | zero => exact serves_none hr.acct
  | succ n ih =>
    have hfirst := ih (by omega)
    rw [Nat.mul_succ]
    apply hfirst.bind
    intro r hd
    have hoff := hd.uio.offset_eq
    have hresid := hd.uio.resid_eq
    exact blockio_serves (hd.ready (by omega) hr) (by omega) (by omega)

/-- What the leading partial block takes. -/
def headLen (u : Uio) : ℕ := if u.offset % 512 = 0 then 0 else min (512 - u.offset % 512) u.resid

theorem ioHead_serves (hr : Ready h own ⟨s, u⟩) (hpos : u.resid ≠ 0) :
    Serves s u own (headLen u) (device.ioHead h) := by
  unfold Serves ioHead headLen
  rw [ends_bind, ends_read, ends_when]
  constructor
  · intro hoff
    rw [if_neg hoff]
    show Serves s u own _ (device.partialio h (u.offset % 512) (min (512 - u.offset % 512) u.resid))
    exact partialio_serves hr rfl (by omega) (by omega) (by omega)
  · intro hoff
    rw [if_pos (not_not.mp hoff)]
    exact .refl hr.acct

theorem tail_serves (hr : Ready h own ⟨s, u⟩) (haligned : u.offset % 512 = 0) (hresid : u.resid < 512) :
    Serves s u own u.resid (do
      let u ← Call.read Request.uio
      Call.require (u.resid < 512) (.kassert "uio->uio_resid < SFS_BLOCKSIZE")
      Call.when (0 < u.resid) (device.partialio h 0 u.resid)) := by
  unfold Serves
  rw [ends_bind, ends_read, ends_bind, ends_require, and_iff_right hresid, ends_when]
  constructor
  · intro hpos
    show Serves s u own u.resid (device.partialio h 0 u.resid)
    exact partialio_serves hr haligned (by omega) hpos.ne' (Nat.le_refl _)
  · intro hzero
    have hnone : u.resid = 0 := Nat.eq_zero_of_not_pos hzero
    rw [hnone]
    exact .refl hr.acct

theorem ioBody_serves (hr : Ready h own ⟨s, u⟩) (haligned : u.resid ≠ 0 → u.offset % 512 = 0) :
    Serves s u own u.resid (device.ioBody h) := by
  unfold Serves ioBody
  rw [ends_bind, ends_read, ends_when]
  constructor
  · intro hne
    have hsum : u.resid = 512 * (u.resid / 512) + (u.resid - 512 * (u.resid / 512)) := by omega
    rw [ends_bind, ends_require, and_iff_right (haligned hne)]
    have hblocks := blocks_serve hr (haligned hne) (u.resid / 512) (by omega)
    have hall := hblocks.bind (b := u.resid - 512 * (u.resid / 512)) fun r hd => by
      have hoff := hd.uio.offset_eq
      have hresid := hd.uio.resid_eq
      rw [← hresid]
      exact tail_serves (hd.ready (by omega) hr) (by have := haligned hne; omega) (by omega)
    rw [← hsum] at hall
    exact hall
  · intro hzero
    rw [not_not.mp hzero]
    exact .refl hr.acct

theorem transfer_serves (hr : Ready h own ⟨s, u⟩) (hpos : u.resid ≠ 0) : Serves s u own u.resid (do
    device.ioHead h
    device.ioBody h) := by
  have hle : headLen u ≤ u.resid := by
    unfold headLen
    split <;> omega
  have hsum : u.resid = headLen u + (u.resid - headLen u) := by omega
  have hall := (ioHead_serves hr hpos).bind (b := u.resid - headLen u) fun r hd => by
    have hoff := hd.uio.offset_eq
    have hresid := hd.uio.resid_eq
    rw [← hresid]
    apply ioBody_serves (hd.ready hle hr)
    intro hmore
    unfold headLen at hoff hresid
    split at hoff <;> split at hresid <;> omega
  rw [← hsum] at hall
  exact hall

/-- A request for nothing looks up the block of its offset all the same, unless the offset is the beginning of one. -/
theorem transfer_none_ends (hr : Ready h own ⟨s, u⟩) (hnone : u.resid = 0) :
    Ends (do
      device.ioHead h
      device.ioBody h) ⟨s, u⟩ (fun _ r => Done s u own 0 r) fun e r => ∃ a m, Failed s u own 0 a m e r := by
  have hbody : ∀ r, Done s u own 0 r → Ends (device.ioBody h) r (fun _ r => Done s u own 0 r)
      fun e r => ∃ a m, Failed s u own 0 a m e r := by
    intro r hd
    have hresid := hd.uio.resid_eq
    have hzero : r.uio.resid = 0 := by omega
    unfold ioBody
    rw [ends_bind, ends_read, ends_when]
    exact ⟨fun hno => absurd hzero hno, fun _ => hd⟩
  rw [ends_bind]
  unfold ioHead
  rw [ends_bind, ends_read, ends_when]
  constructor
  · intro hoff
    have hlen : min (512 - u.offset % 512) u.resid = 0 := by omega
    rw [hlen]
    have hshort : u.offset % 512 + 0 ≤ 512 := by omega
    apply (partialio_ends hr rfl hshort (Nat.zero_le _)).mono
    · intro _ r hd
      exact hbody r hd
    · intro e r hf
      exact hf
  · intro _
    exact hbody ⟨s, u⟩ (.refl hr.acct)

/-- **The transfer of `sfs_io`** serves the whole request. -/
theorem transfer_ends (hr : Ready h own ⟨s, u⟩) :
    Ends (do
      device.ioHead h
      device.ioBody h) ⟨s, u⟩ (fun _ r => Done s u own u.resid r)
        fun e r => ∃ a m, Failed s u own u.resid a m e r := by
  by_cases hnone : u.resid = 0
  · rw [hnone]
    exact transfer_none_ends hr hnone
  · apply (transfer_serves hr hnone).mono
    · intro _ r hd
      exact hd
    · intro e r hf
      exact hf.2

/-! ### The size -/

/-- The size of a file after `m` bytes have been moved from offset `o` on. -/
def grownSize (size o m : ℕ) : ℕ := if m ≠ 0 ∧ size < o + m then (o + m) % 2 ^ 32 else size

theorem Acct.setSize (ha : s.Acct) (hh : h ∈ s.vnodes) (hino : (s.sv h).ino = own) (hne : own ≠ 1) (n : ℕ) :
    Rewritten s (s.withInode h (setSize (s.sv h).inode n)) own { s.file own with size := n % 2 ^ 32 } := by
  subst hino
  have hfile := file_withInode_self ha.toTableOk hh (fun p => target_setSize (n := n)) (type_setSize (n := n))
  have hlinks : linkcount (setSize (s.sv h).inode n) = (s.file (s.sv h).ino).links := by
    rw [linkcount_setSize, file, ha.inodeOf hh]
  rw [size_setSize, hlinks] at hfile
  have hother : ∀ ino, ino ≠ (s.sv h).ino → (s.withInode h (setSize (s.sv h).inode n)).file ino = s.file ino :=
    fun ino hino => file_withInode_of_ne ha.toTableOk hino
  exact ⟨ha.setAttr hh hne (fun p => target_setSize) type_setSize, sameTable_withInode,
    fun ino => live_congr sameTable_withInode (hother 1 hne.symm), hfile, fun ino hino _ => hother ino hino⟩

/-- `m` bytes of a write have been moved, `a` of them to the file, and the size is what it has to be. -/
structure Written (s : Sfs) (u : Uio) (own a m : ℕ) (r : Request Sfs) : Prop where
  dev : Rewritten s r.dev own { s.file own with
    size := grownSize (s.file own).size u.offset m
    bytes := u.kernelSide (s.fileByte own) (place u.offset) a }
  uio : u.Advanced (s.fileByte own) (place u.offset) m r.uio

theorem ioOut_write_ends (hr : Ready h own ⟨s, u⟩) (hrw : u.rw = .write) (hm : m ≤ u.resid)
    (hdev : Rewritten s r.dev own { s.file own with bytes := u.kernelSide (s.fileByte own) (place u.offset) a })
    (huio : u.Advanced (s.fileByte own) (place u.offset) m r.uio) :
    Ends (device.ioOut h u.resid 0) r (fun _ r' => Written s u own a m r') fun _ _ => False := by
  have hh := hdev.mem hr.mem
  have hino : (r.dev.sv h).ino = own := (hdev.table.ino h).trans hr.ino
  have hsize : Dinode.size (r.dev.sv h).inode = (s.file own).size := by
    have hinode : (r.dev.file (r.dev.sv h).ino).size = Dinode.size (r.dev.sv h).inode := by
      rw [file, hdev.acct.inodeOf hh]
    rw [← hinode, hino, hdev.file]
  have hresid := huio.resid_eq
  have hoff := huio.offset_eq
  have hcond : (r.uio.resid ≠ u.resid ∧ r.uio.rw = .write ∧ Dinode.size (r.dev.sv h).inode < r.uio.offset) ↔
      (m ≠ 0 ∧ (s.file own).size < u.offset + m) := by
    rw [hsize, hoff, huio.rw_eq, and_iff_right hrw]
    have : r.uio.resid ≠ u.resid ↔ m ≠ 0 := by omega
    rw [this]
  unfold ioOut
  rw [ends_bind, ends_read, ends_bind, ends_read, ends_bind, ends_when]
  constructor
  · intro hgrow
    rw [Request.ends_onDev, onFs_device, ends_setInode, ends_update]
    refine ⟨?_, huio⟩
    have hset := hdev.trans (hdev.acct.setSize hh hino hr.ne r.uio.offset)
    rw [hdev.file] at hset
    unfold grownSize
    rw [if_pos (hcond.mp hgrow), ← hoff]
    exact hset
  · intro hno
    rw [ends_update]
    refine ⟨?_, huio⟩
    unfold grownSize
    rw [if_neg (hcond.not.mp hno)]
    exact hdev

/-- **`sfs_io` for a write** replaces bytes of the file and lets it grow. -/
theorem io_write_ends (hr : Ready h own ⟨s, u⟩) (hrw : u.rw = .write) :
    Ends (device.io h) ⟨s, u⟩
      (fun _ r => Written s u own u.resid u.resid r ∧ (u.resid ≠ 0 → place u.offset + u.resid ≤ 73216))
      fun e r => ∃ a m, a ≤ m ∧ m ≤ u.resid ∧ (u.resid ≠ 0 → m < u.resid) ∧ Written s u own a m r ∧ Excuse u m e := by
  have hextra : ∀ size, extraresid u size = 0 := by
    intro size
    unfold extraresid
    rw [if_neg fun hread => nomatch hread.symm.trans hrw]
  have hno : ∀ size, ¬ (u.rw = .read ∧ size ≤ u.offset) := fun _ hread => nomatch hread.1.symm.trans hrw
  unfold io
  rw [ends_bind, ends_read, ends_bind, ends_read, if_neg (hno _)]
  simp only [hextra]
  rw [ends_bind, ends_require, and_iff_right (.inl (hextra _)), ends_bind, ends_update, ends_bind, ends_attempt]
  apply (transfer_ends hr).mono
  · intro _ r hd
    rw [ends_bind]
    apply (ioOut_write_ends hr hrw (Nat.le_refl _) hd.dev hd.uio).mono
    · intro _ r' hw
      rw [ends_pure]
      exact ⟨hw, hd.fits⟩
    · intro _ _ hfalse
      exact hfalse.elim
  · rintro e r ⟨a, m, hf⟩
    rw [ends_bind]
    apply (ioOut_write_ends hr hrw hf.upTo hf.dev hf.uio).mono
    · intro _ r' hw
      rw [ends_fail]
      exact ⟨a, m, hf.le, hf.upTo, hf.lt, hw, hf.excuse⟩
    · intro _ _ hfalse
      exact hfalse.elim

/-- The request without what lies beyond the end of the file. -/
def untilEnd (u : Uio) (size : ℕ) : Uio := { u with resid := u.resid - extraresid u size }

/-- What the file can serve of a read. -/
def readLen (u : Uio) (size : ℕ) : ℕ := min u.resid (size - u.offset)

theorem resid_untilEnd (hrw : u.rw = .read) (hsize : u.offset < size) :
    (untilEnd u size).resid = readLen u size ∧ extraresid u size = u.resid - readLen u size := by
  unfold untilEnd readLen extraresid
  simp only [if_pos hrw]
  omega

theorem ioOut_read_ends (hrw : u.rw = .read) (hsize : u.offset < size) (hm : m ≤ readLen u size)
    (hdev : Rewritten s r.dev own { s.file own with bytes := (untilEnd u size).kernelSide (s.fileByte own) n a })
    (huio : (untilEnd u size).Advanced (s.fileByte own) (place u.offset) m r.uio) :
    Ends (device.ioOut h u.resid (extraresid u size)) r
      (fun _ r' => Rewritten s r'.dev own (s.file own) ∧ u.Advanced (s.fileByte own) (place u.offset) m r'.uio)
      fun _ _ => False := by
  obtain ⟨hresid, hextra⟩ := resid_untilEnd hrw hsize
  have hread : r.uio.rw = .read := huio.rw_eq.trans hrw
  rw [Uio.kernelSide_of_read (u := untilEnd u size) hrw] at hdev
  unfold ioOut
  rw [ends_bind, ends_read, ends_bind, ends_read, ends_bind, ends_when]
  refine ⟨fun hcond => (nomatch hread.symm.trans hcond.2.1), fun _ => ?_⟩
  rw [ends_update]
  refine ⟨hdev, ?_, huio.space, huio.good⟩
  obtain ⟨iov, hw⟩ := huio.eq
  refine ⟨iov, ?_⟩
  have hback : (untilEnd u size).resid - m + extraresid u size = u.resid - m := by
    have hle : readLen u size ≤ u.resid := Nat.min_le_left ..
    omega
  rw [hw]
  simp only [Uio.advance, hback]
  rfl

/-- **`sfs_io` for a read** serves what lies before the end of the file, from the bytes of the file. -/
theorem io_read_ends (hr : Ready h own ⟨s, u⟩) (hrw : u.rw = .read) :
    Ends (device.io h) ⟨s, u⟩
      (fun _ r => Rewritten s r.dev own (s.file own) ∧
        u.Advanced (s.fileByte own) (place u.offset) (readLen u (s.file own).size) r.uio ∧
        (readLen u (s.file own).size ≠ 0 → place u.offset + readLen u (s.file own).size ≤ 73216))
      fun e r => u.offset < (s.file own).size ∧ ∃ m ≤ readLen u (s.file own).size,
        (readLen u (s.file own).size ≠ 0 → m < readLen u (s.file own).size) ∧
        Rewritten s r.dev own (s.file own) ∧ u.Advanced (s.fileByte own) (place u.offset) m r.uio ∧ Excuse u m e := by
  have hsize : Dinode.size ((device.fs s).sv h).inode = (s.file own).size := by
    rw [← hr.ino, file, hr.acct.inodeOf hr.mem]
    rfl
  unfold io
  rw [ends_bind, ends_read, ends_bind, ends_read, hsize]
  by_cases hend : (s.file own).size ≤ u.offset
  · have hnone : readLen u (s.file own).size = 0 := by
      unfold readLen
      omega
    rw [if_pos ⟨hrw, hend⟩, ends_pure, hnone]
    exact ⟨.refl hr.acct, .refl, fun hn => absurd rfl hn⟩
  · have hlt : u.offset < (s.file own).size := Nat.not_le.mp hend
    obtain ⟨hresid, hextra⟩ := resid_untilEnd hrw hlt
    have hok : extraresid u (s.file own).size = 0 ∨ extraresid u (s.file own).size < u.resid := by
      unfold readLen at hextra
      omega
    have hready : Ready h own ⟨s, untilEnd u (s.file own).size⟩ :=
      ⟨hr.acct, hr.mem, hr.ino, hr.ne, hr.small, le_trans (Nat.sub_le ..) hr.room⟩
    rw [if_neg fun hcond => hend hcond.2, ends_bind, ends_require]
    refine ⟨hok, ?_⟩
    rw [ends_bind, ends_update, ends_bind, ends_attempt]
    have hends := transfer_ends hready
    rw [hresid] at hends
    apply hends.mono
    · intro _ r hd
      rw [ends_bind]
      apply (ioOut_read_ends hrw hlt (Nat.le_refl _) hd.dev hd.uio).mono
      · intro _ r' hw
        rw [ends_pure]
        exact ⟨hw.1, hw.2, hd.fits⟩
      · intro _ _ hfalse
        exact hfalse.elim
    · rintro e r ⟨a, m, hf⟩
      rw [ends_bind]
      apply (ioOut_read_ends hrw hlt hf.upTo hf.dev hf.uio).mono
      · intro _ r' hw
        rw [ends_fail]
        exact ⟨hlt, m, hf.upTo, hf.lt, hw.1, hw.2, hf.excuse⟩
      · intro _ _ hfalse
        exact hfalse.elim

end Sfs

end Os161Kernel
