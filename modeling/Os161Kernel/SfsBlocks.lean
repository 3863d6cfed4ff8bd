import Os161Kernel.SfsTable

/-!
# What the block functions do

Specifications of `sfs_balloc`, `sfs_bfree`, `sfs_bused` and `sfs_bmap` on a volume whose accounts are in order.  None of
them stops, and mapping a block changes no file even when it fails half way.
-/

namespace Os161Kernel

open Calls Memory Search Dinode

-- Specifications are used through their rules; unfolding them would run the loops.
attribute [local irreducible] Ends

namespace Sfs

variable {s t : Sfs} {ino h b k : ℕ} {p : Ptr} {E : Errno → Sfs → Prop}

/-! ### The free map -/

/-- **`sfs_balloc`** takes a free block and clears it, or fails and changes nothing. -/
theorem balloc_ends (hs : s.SpaceOk) :
    Ends balloc s (fun b t => b < s.nblocks ∧ s.freemap b = false ∧ t = s.alloc b)
      fun e t => e = .enospc ∧ t = s := by
  unfold balloc
  simp only [ends_bind, ends_read]
  cases hfind : firstBelow (fun b => s.freemap b = false) (freemapBits s.nblocks) with
  | none =>
    simp only [ends_fail]
    trivial
  | some b =>
    obtain ⟨hbits, hfree, -⟩ := firstBelow_eq_some.mp hfind
    have hb : b < s.nblocks := by
      by_contra hge
      cases hfree.symm.trans (hs.high b (by omega) hbits)
    simp only [ends_bind, ends_update, ends_read, ends_require, ends_pure, writeblock]
    exact ⟨hb, hb, hfree, rfl⟩

variable {Q : Unit → Sfs → Prop}

theorem ends_bfree (hcov : s.nblocks ≤ freemapBits s.nblocks) (hu : s.Used b) :
    Ends (bfree b) s Q E ↔ Q () (s.free b) := by
  have hbits : b < freemapBits s.nblocks := Nat.lt_of_lt_of_le hu.1 hcov
  unfold bfree
  simp only [ends_bind, ends_read, ends_require, ends_update, hbits, hu.2, true_and]
  rfl

theorem ends_bused {Q : Bool → Sfs → Prop} (hb : b < s.nblocks) : Ends (bused b) s Q E ↔ Q (s.freemap b) s := by
  unfold bused
  simp only [ends_bind, ends_read, ends_require, hb, true_and]

theorem ends_checkUsed (hu : b ≠ 0 → s.Used b) : Ends (checkUsed b) s Q E ↔ Q () s := by
  unfold checkUsed
  rw [ends_when]
  by_cases hb : b = 0
  · simp [hb]
  · obtain ⟨hlt, hfm⟩ := hu hb
    simp only [ne_eq, hb, not_false_eq_true, forall_const, not_true_eq_false, false_implies, and_true, ends_bind,
      ends_bused hlt, hfm, ends_require, true_and]

theorem ends_setInode {f : Block → Block} :
    Ends (setInode h f) s Q E ↔ Q () (s.withInode h (f (s.sv h).inode)) := by
  unfold setInode
  rw [ends_update]
  rfl

theorem ends_writeblock {data : Block} :
    Ends (writeblock b data) s Q E ↔ Q () (s.withBlock b data) := by
  unfold writeblock
  rw [ends_update]
  rfl

/-! ### Block mapping -/

theorem fileBlock_direct (hk : k < 15) : s.fileBlock ino k = s.ptr ino (.direct k) := by
  unfold fileBlock Ptr.block
  rw [if_pos hk]

theorem fileBlock_entry (hk : 15 ≤ k) : s.fileBlock ino k = s.ptr ino (.entry (k - 15)) := by
  unfold fileBlock Ptr.block
  rw [if_neg (by omega)]

theorem ptr_direct (ht : s.TableOk) (hh : h ∈ s.vnodes) (hk : k < 15) :
    s.ptr (s.sv h).ino (.direct k) = direct (s.sv h).inode k := by
  unfold ptr
  rw [ht.inodeOf hh]
  exact if_pos hk

theorem ptr_indirect (ht : s.TableOk) (hh : h ∈ s.vnodes) :
    s.ptr (s.sv h).ino .indirect = indirect (s.sv h).inode := by
  unfold ptr
  rw [ht.inodeOf hh]
  rfl

theorem Acct.used_fileBlock (ha : s.Acct) (hl : s.Live ino) (hb : s.fileBlock ino k ≠ 0) :
    s.Used (s.fileBlock ino k) :=
  ha.ptr_used hl hb

/-- **`sfs_bmap` of a block that is there**, or without allocation, only looks the block up. -/
theorem ends_bmap_mapped {Q : ℕ → Sfs → Prop} {doalloc : Bool} (ha : s.Acct) (hh : h ∈ s.vnodes) (hk : k < 143)
    (hb : doalloc = true → s.fileBlock (s.sv h).ino k ≠ 0) :
    Ends (bmap h k doalloc) s Q E ↔ Q (s.fileBlock (s.sv h).ino k) s := by
  have hused : s.fileBlock (s.sv h).ino k ≠ 0 → s.Used (s.fileBlock (s.sv h).ino k) :=
    ha.used_fileBlock (live_of_mem hh)
  unfold bmap
  by_cases hk15 : k < 15
  · have heq : s.fileBlock (s.sv h).ino k = direct (s.sv h).inode k := by
      rw [fileBlock_direct hk15, ptr_direct ha.toTableOk hh hk15]
    rw [heq] at hb hused ⊢
    rw [if_pos hk15]
    unfold bmapDirect bmapDirectBlock
    rw [ends_bind, ends_read, if_neg fun hc => hb hc.2 hc.1, ends_bind, ends_pure, ends_bind, ends_checkUsed hused,
      ends_pure]
  · have hj : k - 15 < 128 := by omega
    have hid := ptr_indirect ha.toTableOk hh
    rw [if_neg hk15]
    unfold bmapIndirect
    rw [if_neg (by omega), ends_bind, ends_read]
    by_cases hzero : indirect (s.sv h).inode = 0
    · have heq : s.fileBlock (s.sv h).ino k = 0 := by
        rw [fileBlock_entry (by omega)]
        exact if_neg fun hc => hc.2 (hid.trans hzero)
      have hno : doalloc = false := by
        cases doalloc with
        | false => rfl
        | true => exact absurd heq (hb rfl)
      rw [if_pos ⟨hzero, hno⟩, heq, ends_pure]
    · have heq : s.fileBlock (s.sv h).ino k = load32 (s.disk (indirect (s.sv h).inode)) (4 * (k - 15)) := by
        rw [fileBlock_entry (by omega), ptr_entry hj (hid ▸ hzero), hid]
      rw [heq] at hb hused ⊢
      rw [if_neg fun hc => hzero hc.1]
      unfold bmapIdblock readblock bmapEntry
      rw [if_neg hzero]
      simp only [ends_bind, ends_read, ends_pure]
      rw [Nat.mod_eq_of_lt hj, if_neg fun hc => hb hc.2 hc.1, ends_pure, ends_checkUsed hused]

/-- What `sfs_bmap` leaves behind when it allocates: no file has changed. -/
structure Grown (s t : Sfs) : Prop where
  acct : t.Acct
  same : SameFiles s t

theorem Grown.refl (ha : s.Acct) : Grown s s := ⟨ha, .refl s⟩

theorem Grown.mem (hg : Grown s t) (hh : h ∈ s.vnodes) : h ∈ t.vnodes := hg.same.vnodes ▸ hh

theorem bmapDirectBlock_ends (ha : s.Acct) (hh : h ∈ s.vnodes) (hk : k < 15) :
    Ends (bmapDirectBlock h k (direct (s.sv h).inode k) true) s
      (fun b t => Grown s t ∧ t.ptr (s.sv h).ino (.direct k) = b ∧ b ≠ 0)
      fun e t => e = .enospc ∧ Grown s t := by
  unfold bmapDirectBlock
  by_cases hzero : direct (s.sv h).inode k = 0
  · rw [if_pos ⟨hzero, rfl⟩, ends_bind]
    apply (balloc_ends ha.toSpaceOk).mono
    · rintro b t ⟨hb, hfree, rfl⟩
      simp only [ends_bind, ends_setInode, ends_pure]
      obtain ⟨hacct, hsame, hptr⟩ := ha.allocDirect hh hk hzero hb hfree
      refine ⟨⟨hacct, hsame⟩, hptr, ?_⟩
      rintro rfl
      exact not_used_of_free hfree ha.zero_used
    · rintro e t ⟨rfl, rfl⟩
      exact ⟨rfl, .refl ha⟩
  · rw [if_neg fun hc => hzero hc.1, ends_pure]
    exact ⟨.refl ha, ptr_direct ha.toTableOk hh hk, hzero⟩

theorem bmapIdblock_ends (ha : s.Acct) (hh : h ∈ s.vnodes) :
    Ends (bmapIdblock h (indirect (s.sv h).inode)) s
      (fun id t => Grown s t ∧ t.ptr (s.sv h).ino .indirect = id.1 ∧ id.1 ≠ 0 ∧ id.2 = t.disk id.1)
      fun e t => e = .enospc ∧ Grown s t := by
  unfold bmapIdblock
  by_cases hzero : indirect (s.sv h).inode = 0
  · rw [if_pos hzero, ends_bind]
    apply (balloc_ends ha.toSpaceOk).mono
    · rintro b t ⟨hb, hfree, rfl⟩
      simp only [ends_bind, ends_setInode, ends_pure]
      obtain ⟨hacct, hsame, hptr⟩ := ha.allocIndirect hh hzero hb hfree
      refine ⟨⟨hacct, hsame⟩, hptr, ?_, disk_alloc_self.symm⟩
      rintro rfl
      exact not_used_of_free hfree ha.zero_used
    · rintro e t ⟨rfl, rfl⟩
      exact ⟨rfl, .refl ha⟩
  · rw [if_neg hzero]
    simp only [readblock, ends_bind, ends_read, ends_pure]
    exact ⟨.refl ha, ptr_indirect ha.toTableOk hh, hzero, trivial⟩

theorem bmapEntry_ends {idb j : ℕ} (ha : s.Acct) (hl : s.Live ino) (hid : s.ptr ino .indirect = idb) (hne : idb ≠ 0)
    (hj : j < 128) :
    Ends (bmapEntry idb (s.disk idb) j true) s (fun b t => Grown s t ∧ t.ptr ino (.entry j) = b ∧ b ≠ 0)
      fun e t => e = .enospc ∧ Grown s t := by
  unfold bmapEntry
  by_cases hzero : load32 (s.disk idb) (4 * j) = 0
  · rw [if_pos ⟨hzero, rfl⟩, ends_bind]
    apply (balloc_ends ha.toSpaceOk).mono
    · rintro b t ⟨hb, hfree, rfl⟩
      simp only [ends_bind, ends_writeblock, ends_pure]
      obtain ⟨hacct, hsame, hptr⟩ := ha.allocEntry hl hid hne hj hzero hb hfree
      refine ⟨⟨hacct, hsame⟩, hptr, ?_⟩
      rintro rfl
      exact not_used_of_free hfree ha.zero_used
    · rintro e t ⟨rfl, rfl⟩
      exact ⟨rfl, .refl ha⟩
  · rw [if_neg fun hc => hzero hc.1, ends_pure]
    refine ⟨.refl ha, ?_, hzero⟩
    rw [ptr_entry hj (hid ▸ hne), hid]

/-- **`sfs_bmap` with allocation** hands back the block of the file, and changes no file, whether or not it fails. -/
theorem bmap_alloc_ends (ha : s.Acct) (hh : h ∈ s.vnodes) (k : ℕ) :
    Ends (bmap h k true) s
      (fun b t => Grown s t ∧ t.fileBlock (s.sv h).ino k = b ∧ b ≠ 0 ∧ k < 143)
      fun e t => (e = .enospc ∨ e = .efbig ∧ 143 ≤ k) ∧ Grown s t := by
  have hl := live_of_mem hh
  have hused : ∀ {b t} {p : Ptr}, Grown s t → t.ptr (s.sv h).ino p = b → b ≠ 0 → t.Used b := by
    rintro b t p hg rfl hb
    exact hg.acct.ptr_used (hg.same.live.mpr hl) hb
  unfold bmap
  by_cases hk : k < 15
  · rw [if_pos hk]
    unfold bmapDirect
    rw [ends_bind, ends_read, ends_bind]
    apply (bmapDirectBlock_ends ha hh hk).mono
    · rintro b t ⟨hg, hptr, hb⟩
      rw [ends_bind, ends_checkUsed fun hb' => hused hg hptr hb', ends_pure, fileBlock_direct hk]
      exact ⟨hg, hptr, hb, by omega⟩
    · rintro e t ⟨rfl, hg⟩
      exact ⟨.inl rfl, hg⟩
  · rw [if_neg hk]
    unfold bmapIndirect
    by_cases hbig : 1 ≤ (k - 15) / 128
    · rw [if_pos hbig, ends_fail]
      exact ⟨.inr ⟨rfl, by omega⟩, .refl ha⟩
    · have hj : k - 15 < 128 := by omega
      rw [if_neg hbig, ends_bind, ends_read, if_neg nofun, ends_bind]
      apply (bmapIdblock_ends ha hh).mono
      · rintro id t ⟨hg, hid, hne, hbuf⟩
        rw [ends_bind, Nat.mod_eq_of_lt hj, hbuf]
        apply (bmapEntry_ends hg.acct (hg.same.live.mpr hl) hid hne hj).mono
        · rintro b u ⟨hg', hptr, hb⟩
          have hgu : Grown s u := ⟨hg'.acct, hg.same.trans hg'.same⟩
          rw [ends_bind, ends_checkUsed fun hb' => hused hgu hptr hb', ends_pure, fileBlock_entry (by omega)]
          exact ⟨hgu, hptr, hb, by omega⟩
        · rintro e u ⟨rfl, hg'⟩
          exact ⟨.inl rfl, hg'.acct, hg.same.trans hg'.same⟩
      · rintro e t ⟨rfl, hg⟩
        exact ⟨.inl rfl, hg⟩

end Sfs

end Os161Kernel
