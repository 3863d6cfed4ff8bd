import Os161Kernel.BlockDevice
import Os161Kernel.SfsNames

/-!
# Block lookups that fail

`sfs_bmap` allocates up to two blocks, and the device may fail at each transfer in between.  A new indirect block is in
the inode before the next thing can fail, and a block that cannot be cleared is free again.  The entry of a new data block
is written last; when that write fails the block stays marked and nothing leads to it.
-/

namespace Os161Kernel

open Calls Memory Search Function Dinode

-- Specifications are used through their rules; unfolding them would run the searches.
attribute [local irreducible] Ends

/-- A volume, with what `sfs_rwblock` is going to return for the transfers to come; `none` is success. -/
structure Answering where
  fs : Sfs
  answers : ℕ → Option Errno

abbrev AnsweringCall := Call VfsStop Errno Answering

namespace Answering

/-- The device after a transfer. -/
def next (d : Answering) : Answering := { d with answers := fun n => d.answers (n + 1) }

/-- The result of a transfer. -/
def answer : AnsweringCall Unit := do
  let result ← .read fun d => d.answers 0
  .update next
  match result with
  | none => pure ()
  | some e => .fail e

/-- A device that answers as it likes.  A transfer that fails changes nothing. -/
def device : BlockDev Answering where
  fs := fs
  withFs d s := { d with fs := s }
  readblock b := do
    answer
    .read fun d => d.fs.disk b
  writeblock b data := do
    answer
    .update fun d => { d with fs := d.fs.withBlock b data }

/-- The block that `bitmap_alloc` finds. -/
def firstFree (s : Sfs) : Option ℕ := firstBelow (fun b => s.freemap b = false) (Sfs.freemapBits s.nblocks)

variable {d d' : Answering} {s : Sfs} {h b block fileblock idblock idoff : ℕ} {e : Errno} {data idbuf : Block}

theorem freemap_firstFree (hb : firstFree s = some b) : s.freemap b = false := prop_of_firstBelow hb

variable {α : Type} {c : ℕ} {t : Sfs}

theorem onFs_of_ok {m : SfsCall α} {a : α} (hm : m d.fs = .ok a s) :
    device.onFs m d = .ok a { d with fs := s } := by
  show Call.onPart Answering.fs _ m d = _
  unfold Call.onPart
  rw [hm]
  rfl

/-! ### One transfer -/

theorem writeblock_of_none (hd : d.answers 0 = none) :
    device.writeblock b data d = .ok () { d.next with fs := d.fs.withBlock b data } := by
  simp only [device, answer, bind_apply, read_apply, Call.update, hd]
  rfl

theorem writeblock_of_some (hd : d.answers 0 = some e) : device.writeblock b data d = .fail e d.next := by
  simp only [device, answer, bind_apply, read_apply, Call.update, hd]
  rfl

theorem readblock_of_none (hd : d.answers 0 = none) : device.readblock b d = .ok (d.fs.disk b) d.next := by
  simp only [device, answer, bind_apply, read_apply, Call.update, hd]
  rfl

theorem readblock_of_some (hd : d.answers 0 = some e) : device.readblock b d = .fail e d.next := by
  simp only [device, answer, bind_apply, read_apply, Call.update, hd]
  rfl

/-! ### Allocation -/

/-- The device after `bitmap_alloc`. -/
def take (d : Answering) (b : ℕ) : Answering :=
  { d with fs := { d.fs with freemap := update d.fs.freemap b true } }

theorem balloc_or_stop : Ends device.balloc d (fun b t => firstFree d.fs = some b ∧ b < d.fs.nblocks ∧
    d.answers 0 = none ∧ t = { d.next with fs := d.fs.alloc b }) (fun _ t => t.fs = d.fs) True := by
  unfold BlockDev.balloc
  rw [ends_bind, BlockDev.ends_onFs, ends_read]
  cases hfree : firstBelow (fun b => (device.fs d).freemap b = false) (Sfs.freemapBits (device.fs d).nblocks) with
  | none => exact ends_fail.mpr rfl
  | some b =>
    simp only [ends_bind, BlockDev.ends_onFs, ends_update, ends_read, ends_require_or_stop, ends_attempt]
    intro hin
    change Ends (device.writeblock b fun _ => 0) (d.take b) _ _ _
    cases hd : d.answers 0 with
    | none =>
      rw [ends_of_ok_iff (writeblock_of_none (d := d.take b) hd)]
      exact ends_pure.mpr ⟨hfree, hin, rfl, rfl⟩
    | some e =>
      have hback : update (update d.fs.freemap b true) b false = d.fs.freemap := by
        rw [update_idem, ← freemap_firstFree (s := d.fs) hfree, update_eq_self]
      rw [ends_of_fail_iff (writeblock_of_some (d := d.take b) hd)]
      simp only [BlockDev.ballocCleared, Sfs.bfree, ends_bind, BlockDev.ends_onFs, ends_read, ends_require_or_stop,
        ends_update, ends_fail]
      intro _ _
      show { d.fs with freemap := update (update d.fs.freemap b true) b false } = d.fs
      rw [hback]

/-! ### Lookup -/

theorem bmapEntry_or_stop : Ends (device.bmapEntry idblock idbuf idoff true) d (fun _ _ => True)
    (fun e t => t.fs = d.fs ∨ (load32 idbuf (4 * idoff) = 0 ∧ d.answers 0 = none ∧ d.answers 1 = some e ∧
      ∃ b, firstFree d.fs = some b ∧ b < d.fs.nblocks ∧ t.fs = d.fs.alloc b)) True := by
  unfold BlockDev.bmapEntry
  rw [ends_ite, ends_bind, ends_pure]
  refine ⟨fun hmissing => balloc_or_stop.mono ?_ fun _ _ => .inl, fun _ => trivial⟩
  rintro b _ ⟨hfree, hin, hd, rfl⟩
  rw [ends_bind]
  cases hd1 : d.answers 1 with
  | none =>
    rw [ends_of_ok_iff (writeblock_of_none (d := { d.next with fs := d.fs.alloc b }) hd1)]
    exact ends_pure.mpr trivial
  | some e =>
    rw [ends_of_fail_iff (writeblock_of_some (d := { d.next with fs := d.fs.alloc b }) hd1)]
    exact .inr ⟨hmissing.1, hd, rfl, b, hfree, hin, rfl⟩

/-- The volume with a new indirect block in an inode. -/
def withIndirect (s : Sfs) (h b : ℕ) : Sfs := (s.alloc b).withInode h (setIndirect (s.sv h).inode b)

theorem bmapIdblock_or_stop : Ends (device.bmapIdblock h idblock) d
    (fun id t => d.answers 0 = none ∧ t.answers = d.next.answers ∧
      ((idblock = 0 ∧ ∃ b, firstFree d.fs = some b ∧ b < d.fs.nblocks ∧ id = (b, fun _ => 0) ∧
          t.fs = withIndirect d.fs h b) ∨
        (idblock ≠ 0 ∧ id = (idblock, d.fs.disk idblock) ∧ t.fs = d.fs)))
    (fun _ t => t.fs = d.fs) True := by
  unfold BlockDev.bmapIdblock
  rw [ends_ite, ends_bind, ends_bind]
  refine ⟨fun hmissing => balloc_or_stop.mono ?_ fun _ _ => id, fun hmissing => ?_⟩
  · rintro b _ ⟨hfree, hin, hd, rfl⟩
    rw [ends_bind, BlockDev.ends_onFs, Sfs.setInode, ends_update, ends_pure]
    exact ⟨hd, rfl, .inl ⟨hmissing, b, hfree, hin, rfl, rfl⟩⟩
  · cases hd : d.answers 0 with
    | none =>
      rw [ends_of_ok_iff (readblock_of_none hd)]
      exact ends_pure.mpr ⟨rfl, rfl, .inr ⟨hmissing, rfl, rfl⟩⟩
    | some e =>
      rw [ends_of_fail_iff (readblock_of_some hd)]
      exact rfl

/-- The file has no block `k`, and its number belongs in the indirect block. -/
def LacksEntry (s : Sfs) (h k : ℕ) : Prop :=
  15 ≤ k ∧ k < 143 ∧ (indirect (s.sv h).inode = 0 ∨
    load32 (s.disk (indirect (s.sv h).inode)) (4 * (k - 15)) = 0)

/-- The volume once the indirect block is there. -/
def indirectReady (s : Sfs) (h : ℕ) : Option Sfs :=
  if indirect (s.sv h).inode = 0 then (firstFree s).map (withIndirect s h) else some s

theorem bmap_indirect (hlow : 15 ≤ fileblock) (hhigh : fileblock < 143) (d : Answering) :
    device.bmap h fileblock true d = (do
      let id ← device.bmapIdblock h (indirect (d.fs.sv h).inode)
      let block ← device.bmapEntry id.1 id.2 (fileblock - 15) true
      device.onFs (Sfs.checkUsed block)
      pure block : AnsweringCall ℕ) d := by
  have hdirect : ¬ fileblock < 15 := by omega
  have hbig : ¬ 1 ≤ (fileblock - 15) / 128 := by omega
  have hoff : (fileblock - 15) % 128 = fileblock - 15 := by omega
  unfold BlockDev.bmap BlockDev.bmapIndirect
  rw [if_neg hdirect, if_neg hbig, hoff, bind_apply, onFs_of_ok (read_apply _ _)]
  simp only
  rw [if_neg fun hfalse => nomatch hfalse.2]

/-- **The ways in which a lookup fails.**  It has done nothing; or it has a new indirect block, which is in the inode; or
it could not write the entry of a block that it has taken. -/
theorem bmap_or_stop : Ends (device.bmap h fileblock true) d (fun _ _ => True)
    (fun e t => t.fs = d.fs ∨ (∃ b, firstFree d.fs = some b ∧ t.fs = withIndirect d.fs h b) ∨
      (LacksEntry d.fs h fileblock ∧ d.answers 0 = none ∧ d.answers 1 = none ∧ d.answers 2 = some e ∧
        ∃ t' b, indirectReady d.fs h = some t' ∧ firstFree t' = some b ∧ b < d.fs.nblocks ∧ t.fs = t'.alloc b)) True := by
  by_cases hdirect : fileblock < 15
  · unfold BlockDev.bmap BlockDev.bmapDirect BlockDev.bmapDirectBlock
    rw [if_pos hdirect, ends_bind, BlockDev.ends_onFs, ends_read, ends_bind, ends_ite, ends_bind]
    refine ⟨fun _ => balloc_or_stop.mono (fun _ _ _ => ?_) fun _ _ => .inl, fun _ => ?_⟩
    · rw [ends_bind, BlockDev.ends_onFs, Sfs.setInode, ends_update, ends_pure]
      exact BlockDev.checked_or_stop trivial
    · rw [ends_pure]
      exact BlockDev.checked_or_stop trivial
  by_cases hbig : 143 ≤ fileblock
  · exact (BlockDev.ends_bmap_big hbig).mpr (.inl rfl)
  rw [ends_congr (bmap_indirect (by omega) (by omega) d), ends_bind]
  apply bmapIdblock_or_stop.mono _ fun _ _ => .inl
  rintro id t ⟨hd, hanswers, hid⟩
  rw [ends_bind]
  apply bmapEntry_or_stop.mono
  · exact fun block u _ => BlockDev.checked_or_stop trivial
  · rintro e u hentry
    rw [hanswers] at hentry
    obtain ⟨hzero, b, hfree, -, rfl, hfs⟩ | ⟨hne, rfl, hfs⟩ := hid
    · rw [hfs] at hentry
      obtain hsame | ⟨-, hd1, hd2, c, hfree', hin, hfs'⟩ := hentry
      · exact .inr (.inl ⟨b, hfree, hsame⟩)
      · have hready : indirectReady d.fs h = some (withIndirect d.fs h b) := by
          unfold indirectReady
          rw [if_pos hzero, hfree]
          rfl
        exact .inr (.inr ⟨⟨by omega, by omega, .inl hzero⟩, hd, hd1, hd2, _, c, hready, hfree', hin, hfs'⟩)
    · rw [hfs] at hentry
      obtain hsame | ⟨hmissing, hd1, hd2, c, hfree', hin, hfs'⟩ := hentry
      · exact .inl hsame
      · exact .inr (.inr ⟨⟨by omega, by omega, .inr hmissing⟩, hd, hd1, hd2, _, c, if_neg hne, hfree', hin, hfs'⟩)

end Answering

end Os161Kernel
