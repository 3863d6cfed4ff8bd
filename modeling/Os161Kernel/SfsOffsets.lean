import Os161Kernel.BlockDevice
import Os161Kernel.SfsLinks

/-!
# Offsets beyond the end of what a file can hold

A file has 143 blocks at most, and only `sfs_bmap` checks it, on a block number that `sfs_partialio` and `sfs_blockio`
have cut to 32 bits.  An offset of 2⁴¹ is the first byte of the file to them.
-/

namespace Os161Kernel

open Calls Memory Runs IoDev

-- Specifications are used through their rules; unfolding them would run the loops.
attribute [local irreducible] Ends

/-! ### Refusal -/

section Refusal

variable {σ : Type} {D : IoDev σ} {d : σ} {u : Uio} {h skip len : ℕ}

variable (hk : 143 ≤ u.offset / 512 % 2 ^ 32)

include hk

theorem IoDev.partialio_refused_ends (hlen : skip + len ≤ 512) :
    Ends (D.partialio h skip len) ⟨d, u⟩ (fun _ _ => False) fun e r => e = .efbig ∧ r = ⟨d, u⟩ := by
  unfold partialio
  rw [ends_bind, ends_read, ends_bind, ends_require]
  refine ⟨hlen, ?_⟩
  rw [ends_bind, Request.ends_onDev, BlockDev.ends_bmap_big hk]
  exact ⟨rfl, rfl⟩

theorem IoDev.blockio_refused_ends :
    Ends (D.blockio h) ⟨d, u⟩ (fun _ _ => False) fun e r => e = .efbig ∧ r = ⟨d, u⟩ := by
  unfold blockio
  rw [ends_bind, ends_read, ends_bind, Request.ends_onDev, BlockDev.ends_bmap_big hk]
  exact ⟨rfl, rfl⟩

/-- The first block that is tried is refused: the partial one at the beginning, a whole one, or the one at the end. -/
theorem IoDev.transfer_refused_ends (hresid : 0 < u.resid) :
    Ends (do
      D.ioHead h
      D.ioBody h) ⟨d, u⟩ (fun _ _ => False) fun e r => e = .efbig ∧ r = ⟨d, u⟩ := by
  rw [ends_bind]
  unfold ioHead
  rw [ends_bind, ends_read, ends_when]
  refine ⟨fun hoff => ?_, fun haligned => ?_⟩
  · show Ends (D.partialio h (u.offset % 512) (min (512 - u.offset % 512) u.resid)) _ _ _
    exact (partialio_refused_ends hk (by omega)).mono (fun _ _ => False.elim) fun _ _ => id
  · have haligned' : u.offset % 512 = 0 := not_not.mp haligned
    unfold ioBody
    rw [ends_bind, ends_read, ends_when]
    refine ⟨fun _ => ?_, fun hzero => absurd hresid.ne' hzero⟩
    rw [ends_bind, ends_require, and_iff_right haligned', ends_bind]
    -- a whole block ends the loop at once; without one the request is shorter than a block
    apply (ends_loopBelow (P := fun i _ r => i = 0 ∧ r = ⟨d, u⟩) (E := fun e r => e = .efbig ∧ r = ⟨d, u⟩) ⟨rfl, rfl⟩
      ?_).mono
    · rintro _ r ⟨hwhole, rfl⟩
      have hshort : u.resid < 512 := by
        have hdiv : u.resid / 512 = 0 := hwhole
        omega
      rw [ends_bind, ends_read, ends_bind, ends_require, and_iff_right hshort, ends_when]
      refine ⟨fun _ => partialio_refused_ends hk ?_, fun hno => absurd hresid hno⟩
      show 0 + u.resid ≤ 512
      omega
    · intro e r hr
      exact hr
    · rintro i _ _ r ⟨-, rfl⟩
      exact (blockio_refused_ends hk).mono (fun _ _ => False.elim) fun _ _ => id

/-- **A write whose block number is out of range** fails and changes nothing. -/
theorem IoDev.io_refused_ends (hrw : u.rw = .write) (hresid : 0 < u.resid) :
    Ends (D.io h) ⟨d, u⟩ (fun _ _ => False) fun e r => e = .efbig ∧ r = ⟨d, u⟩ := by
  have hextra : ∀ size, extraresid u size = 0 := by
    intro size
    unfold extraresid
    rw [if_neg fun hread => nomatch hread.symm.trans hrw]
  have hno : ∀ size, ¬ (u.rw = .read ∧ size ≤ u.offset) := fun _ hread => nomatch hread.1.symm.trans hrw
  unfold io
  rw [ends_bind, ends_read, ends_bind, ends_read, if_neg (hno _)]
  simp only [hextra]
  rw [ends_bind, ends_require, and_iff_right (.inl (hextra _)), ends_bind, ends_update, ends_bind, ends_attempt]
  apply (transfer_refused_ends hk hresid).mono fun _ _ => False.elim
  rintro e r ⟨rfl, rfl⟩
  unfold ioOut
  rw [ends_bind, ends_bind, ends_read, ends_bind, ends_read, ends_bind, ends_when]
  refine ⟨fun hcond => absurd rfl hcond.1, fun _ => ?_⟩
  rw [ends_update, ends_fail]
  exact ⟨rfl, rfl⟩

end Refusal

/-! ### Acceptance -/

namespace Sfs

variable {s : Sfs} {u : Uio} {q r r' : Request Sfs} {h b skip len : ℕ} {e : Errno}

/-- The write has moved something and goes on. -/
def Onward (u : Uio) (r : Request Sfs) : Prop := r.uio.rw = .write ∧ u.moved < r.uio.moved

/-- How a write fails: nothing is taken back, and `EFBIG` comes for the first block, if it is out of range, or after
something has been moved. -/
def FailsAt (u : Uio) (e : Errno) (r : Request Sfs) : Prop :=
  u.moved ≤ r.uio.moved ∧ (e = .efbig → 143 ≤ u.offset / 512 % 2 ^ 32 ∨ u.moved < r.uio.moved)

theorem Onward.trans (hr : Onward u r) (h : Onward r.uio r') : Onward u r' := ⟨h.1, Nat.lt_trans hr.2 h.2⟩

theorem Onward.fails (hr : Onward u r) (h : FailsAt r.uio e r') : FailsAt u e r' :=
  have hlt : u.moved < r'.uio.moved := Nat.lt_of_lt_of_le hr.2 h.1
  ⟨Nat.le_of_lt hlt, fun _ => .inr hlt⟩

theorem failsAt_efault {w : Uio} (h : e = .efault ∧ u.moved ≤ w.moved) : FailsAt u e ⟨s, w⟩ :=
  ⟨h.2, fun he => nomatch h.1.symm.trans he⟩

theorem bmap_or_stop {Q : ℕ → Request Sfs → Prop} (hQ : ∀ b d, Q b ⟨d, q.uio⟩) (doalloc : Bool) :
    Ends (Request.onDev (device.bmap h (q.uio.offset / 512 % 2 ^ 32) doalloc)) q Q (FailsAt q.uio) True := by
  rw [Request.ends_onDev]
  apply (BlockDev.bmap_or_stop device_reports).mono (fun b d _ => hQ b d)
  rintro e d ((hno | rfl) | hk)
  · exact hno.elim
  · exact ⟨Nat.le_refl _, nofun⟩
  · exact ⟨Nat.le_refl _, fun _ => .inl hk⟩

variable (hrw : q.uio.rw = .write)

include hrw

theorem partialio_or_stop (hlen : len ≠ 0) (hresid : q.uio.resid ≠ 0) :
    Ends (device.partialio h skip len) q (fun _ => Onward q.uio) (FailsAt q.uio) True := by
  unfold partialio
  rw [ends_bind, ends_read, ends_bind, ends_require_or_stop]
  intro _
  rw [ends_bind]
  refine bmap_or_stop (fun b d => ?_) _
  have hmoved : ∀ buf d, Ends (Request.onUio (Uio.uiomove buf skip len) >>= fun iobuf =>
      Call.when (q.uio.rw = .write) (Request.onDev (device.writeblock b iobuf))) ⟨d, q.uio⟩
      (fun _ => Onward q.uio) (FailsAt q.uio) True := by
    intro buf d
    rw [ends_bind, Request.ends_onUio]
    apply (Uio.uiomove_or_stop hlen hresid).mono _ fun _ _ => failsAt_efault
    intro buf w hw
    rw [ends_when, Request.ends_onDev]
    exact ⟨fun _ => ends_update.mpr ⟨hw.1.trans hrw, hw.2⟩, fun _ => ⟨hw.1.trans hrw, hw.2⟩⟩
  rw [ends_bind, Request.ends_onDev]
  unfold partialBlock
  rw [ends_ite, ends_bind, ends_require_or_stop, ends_pure]
  exact ⟨fun _ _ => hmoved _ d, fun _ => ends_read.mpr (hmoved _ d)⟩

theorem blockTransfer_or_stop : Ends (device.blockTransfer b) q (fun _ => Onward q.uio) (FailsAt q.uio) True := by
  unfold blockTransfer
  rw [ends_bind, ends_read, ends_bind, ends_require_or_stop]
  intro _
  rw [ends_bind, ends_update, ends_bind, ends_attempt, rwblock_device]
  unfold rwblock
  rw [ends_bind, ends_read]
  simp only [toDevice, hrw]
  rw [ends_bind, Request.ends_onUio]
  apply (Uio.uiomove_or_stop (by decide) (Nat.succ_ne_zero 511)).mono
  · intro buf w hw
    rw [Request.ends_onDev, writeblock, ends_update, ends_bind, ends_update]
    exact ends_pure.mpr ⟨hw.1, hw.2⟩
  · intro e w hw
    rw [ends_bind, ends_update]
    exact ends_fail.mpr (failsAt_efault hw)

theorem blockio_or_stop : Ends (device.blockio h) q (fun _ => Onward q.uio) (FailsAt q.uio) True := by
  unfold blockio
  rw [ends_bind, ends_read, ends_bind]
  refine bmap_or_stop (fun b d => ?_) _
  rw [ends_ite, ends_bind, ends_require_or_stop]
  exact ⟨fun _ hread => (nomatch hrw.symm.trans hread), fun _ => blockTransfer_or_stop (q := ⟨d, q.uio⟩) hrw⟩

/-- **The loop over the whole blocks** moves something if there is a block. -/
theorem blocks_or_stop (n : ℕ) : Ends (Call.loopBelow (fun _ _ => device.blockio h) n ()) q
    (fun _ r => (n = 0 ∧ r = q) ∨ Onward q.uio r) (FailsAt q.uio) True := by
  apply ends_loopBelow (P := fun i _ r => (i = 0 ∧ r = q) ∨ Onward q.uio r) (.inl ⟨rfl, rfl⟩)
  rintro i - _ r (⟨-, rfl⟩ | hr)
  · exact (blockio_or_stop hrw).mono (fun _ _ => .inr) fun _ _ => id
  · exact (blockio_or_stop hr.1).mono (fun _ _ h => .inr (hr.trans h)) fun _ _ => hr.fails

theorem ioBody_or_stop : Ends (device.ioBody h) q (fun _ _ => True) (FailsAt q.uio) True := by
  unfold ioBody
  rw [ends_bind, ends_read, ends_when]
  refine ⟨fun _ => ?_, fun _ => trivial⟩
  rw [ends_bind, ends_require_or_stop]
  intro _
  rw [ends_bind]
  apply (blocks_or_stop hrw _).mono _ fun _ _ => id
  rintro _ r hr
  rw [ends_bind, ends_read, ends_bind, ends_require_or_stop, ends_when]
  refine fun _ => ⟨fun hpos => ?_, fun _ => trivial⟩
  obtain ⟨-, rfl⟩ | hr := hr
  · exact (partialio_or_stop hrw hpos.ne' hpos.ne').mono (fun _ _ _ => trivial) fun _ _ => id
  · exact (partialio_or_stop hr.1 hpos.ne' hpos.ne').mono (fun _ _ _ => trivial) fun _ _ => hr.fails

theorem transfer_or_stop (hresid : 0 < q.uio.resid) : Ends (do
    device.ioHead h
    device.ioBody h) q (fun _ _ => True) (FailsAt q.uio) True := by
  unfold ioHead
  rw [ends_bind, ends_bind, ends_read, ends_when]
  refine ⟨fun _ => ?_, fun _ => ioBody_or_stop hrw⟩
  apply (partialio_or_stop hrw (by omega) hresid.ne').mono _ fun _ _ => id
  exact fun _ r hr => (ioBody_or_stop hr.1).mono (fun _ _ => id) fun _ _ => hr.fails

/-- **A write that fails** reports `EFBIG` for the first block it is to write, or after it has moved something. -/
theorem io_or_stop (hresid : 0 < q.uio.resid) :
    Ends (device.io h) q (fun _ _ => True) (FailsAt q.uio) True := by
  have hno : ∀ size, ¬ (q.uio.rw = .read ∧ size ≤ q.uio.offset) := fun _ hread => nomatch hread.1.symm.trans hrw
  have hextra : ∀ size, extraresid q.uio size = 0 := fun _ => if_neg fun hread => nomatch hread.symm.trans hrw
  have hout : ∀ (r : Request Sfs) {Q : Unit → Request Sfs → Prop} {E}, (∀ d u, u.moved = r.uio.moved → Q () ⟨d, u⟩) →
      Ends (device.ioOut h q.uio.resid 0) r Q E True := by
    intro r Q E hQ
    unfold ioOut
    rw [ends_bind, ends_read, ends_bind, ends_read, ends_bind, ends_when, onFs_device, Request.ends_onDev, setInode]
    simp only [ends_update]
    exact ⟨fun _ => hQ _ _ rfl, fun _ => hQ _ _ rfl⟩
  unfold io
  rw [ends_bind, ends_read, ends_bind, ends_read, if_neg (hno _)]
  simp only [hextra]
  rw [ends_bind, ends_require_or_stop]
  intro _
  rw [ends_bind, ends_update, ends_bind, ends_attempt]
  apply (transfer_or_stop hrw hresid).mono
  · intro _ r _
    rw [ends_bind]
    refine hout r fun _ _ _ => ?_
    rw [ends_pure]
    exact trivial
  · intro e r hr
    rw [ends_bind]
    refine hout r fun d u hu => ?_
    rw [ends_fail]
    exact ⟨hu ▸ hr.1, hu ▸ hr.2⟩

omit hrw

/-- The write is refused: it reports `EFBIG`, nothing has been moved, and no block and no size has changed. -/
def RefusesWrite (s : Sfs) (h : ℕ) (u : Uio) : Prop :=
  ∃ r, device.io h ⟨s, u⟩ = .fail .efbig r ∧ r.uio.moved = u.moved ∧ r.uio.resid = u.resid ∧ r.dev.disk = s.disk ∧
    Dinode.size (r.dev.sv h).inode = Dinode.size (s.sv h).inode

/-- **A write is refused exactly if its block number is out of range after the cut to 32 bits**, in every state and
whatever its length is. -/
theorem io_write_efbig_iff (hrw : u.rw = .write) (hresid : 0 < u.resid) :
    RefusesWrite s h u ↔ 143 ≤ u.offset / 512 % 2 ^ 32 := by
  constructor
  · rintro ⟨r, hfail, hmoved, -⟩
    have hends := io_or_stop (q := ⟨s, u⟩) (h := h) hrw hresid
    exact ((hends.of_fail hfail).2 rfl).resolve_right fun hlt => Nat.ne_of_lt hlt hmoved.symm
  · intro hk
    have hends := io_refused_ends (D := device) (d := s) (h := h) hk hrw hresid
    cases hrun : device.io h ⟨s, u⟩ with
    | ok a r => exact (hends.of_ok hrun).elim
    | fail e r =>
      obtain ⟨rfl, rfl⟩ := hends.of_fail hrun
      exact ⟨_, hrun, rfl, rfl, rfl, rfl⟩
    | stop x => exact (hends.not_stop hrun).elim

/-- The first byte that a file cannot have. -/
theorem io_write_efbig_at_limit : RefusesWrite (emptyVolume 32) 0 (Uio.writeByte 73216 7) :=
  (io_write_efbig_iff rfl (by decide)).mpr (by decide)

/-- Writing one byte at 2⁴¹ of a new file puts it at the beginning of the file, whose size is then 1. -/
theorem io_write_accepts_offset_past_limit :
    ∃ s r, Reaches (StepOf dirStep) (· = emptyVolume 32) s ∧ 1 ∈ s.vnodes ∧ (s.sv 1).ino ≠ 1 ∧
      device.io 1 ⟨s, Uio.writeByte (2 ^ 41) 7⟩ = .ok () r ∧ r.uio.resid = 0 ∧ Dinode.size (s.sv 1).inode = 0 ∧
      Dinode.size (r.dev.sv 1).inode = 1 ∧ r.dev.disk (Dinode.direct (r.dev.sv 1).inode 0) 0 = 7 := by
  have hrun : (follow dirStep [.creat 0 (letter 97 (by decide)) false .plenty] (emptyVolume 32)).any (fun s =>
      decide (1 ∈ s.vnodes ∧ (s.sv 1).ino ≠ 1) &&
        (device.io 1 ⟨s, Uio.writeByte (2 ^ 41) 7⟩).returnedIn fun _ r =>
          decide (r.uio.resid = 0 ∧ Dinode.size (s.sv 1).inode = 0 ∧ Dinode.size (r.dev.sv 1).inode = 1 ∧
            r.dev.disk (Dinode.direct (r.dev.sv 1).inode 0) 0 = 7)) = true := by
    decide +kernel
  obtain ⟨s, hs, hp⟩ := exists_reaches_of_follow dirStep (· = emptyVolume 32) (emptyVolume 32) _ _ rfl hrun
  obtain ⟨hfile, hwrite⟩ := Bool.and_eq_true_iff.mp hp
  obtain ⟨hmem, hne⟩ := of_decide_eq_true hfile
  obtain ⟨⟨⟩, r, hok, hr⟩ := Reply.ok_of_returnedIn hwrite
  obtain ⟨hresid, hsize, hsize', hbyte⟩ := of_decide_eq_true hr
  exact ⟨s, r, hs, hmem, hne, hok, hresid, hsize, hsize', hbyte⟩

end Sfs

end Os161Kernel
