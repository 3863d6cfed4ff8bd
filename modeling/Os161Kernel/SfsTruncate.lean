import Os161Kernel.SfsBlocks

/-!
# What truncation does

`sfs_itrunc` goes through the direct blocks and then through the entries of the indirect block, each time with a test of
its own for the blocks past the new end.  The second test keeps the first block past the end, and the second loop is
skipped altogether when the new end is at the last entry or behind it.
-/

namespace Os161Kernel

open Calls Memory Search Function Dinode

-- Specifications are used through their rules; unfolding them would run the loops.
attribute [local irreducible] Ends

namespace Sfs

variable {s t u : Sfs} {ino h b k n : ℕ} {p : Ptr} {E : Errno → Sfs → Prop}

/-! ### The other files -/

theorem SameFiles.toSameOthers (hsf : SameFiles s t) (hl : s.Live ino) : SameOthers ino s t where
  toSameTable := hsf.toSameTable
  file ino' _ hl' := hsf.file ino' hl'
  type := by rw [hsf.file ino hl]
  links := by rw [hsf.file ino hl]

/-- What truncation leaves behind: the accounts are in order and the other files have not changed. -/
structure Cut (own : ℕ) (s t : Sfs) : Prop where
  acct : t.Acct
  same : SameOthers own s t

theorem Cut.refl (ha : s.Acct) : Cut ino s s := ⟨ha, .refl ino s⟩

theorem Cut.mem (hc : Cut ino s t) (hh : h ∈ s.vnodes) : h ∈ t.vnodes := hc.same.vnodes ▸ hh

theorem withBlock_withBlock {d d' : Block} : (s.withBlock b d).withBlock b d' = s.withBlock b d' := by
  simp only [withBlock, update_idem]

theorem withBlock_self : s.withBlock b (s.disk b) = s := by
  simp only [withBlock, update_eq_self]

theorem freemap_free : (s.free b).freemap = update s.freemap b false := rfl

theorem free_eq_false_iff {b' : ℕ} : (s.free b).freemap b' = false ↔ b' = b ∨ s.freemap b' = false := by
  by_cases hb : b' = b
  · simp [freemap_free, hb]
  · simp [freemap_free, hb]

/-! ### The direct blocks -/

/-- The first loop has dealt with `i` direct blocks: those from `n` on are free. -/
structure DirectCut (s : Sfs) (h n i : ℕ) (t : Sfs) : Prop where
  cut : Cut (s.sv h).ino s t
  direct : ∀ k < 15, direct (t.sv h).inode k = if k < i ∧ n ≤ k then 0 else direct (s.sv h).inode k
  indirect : indirect (t.sv h).inode = indirect (s.sv h).inode
  disk : t.disk = s.disk
  freed : ∀ b, t.freemap b = false ↔
    s.freemap b = false ∨ ∃ k < i, n ≤ k ∧ Dinode.direct (s.sv h).inode k = b ∧ b ≠ 0

theorem DirectCut.start (ha : s.Acct) : DirectCut s h n 0 s where
  cut := .refl ha
  direct k _ := by simp
  indirect := rfl
  disk := rfl
  freed b := by simp

section Direct

variable {i : ℕ} (hne : (s.sv h).ino ≠ 1) (hh : h ∈ s.vnodes)

include hne hh

theorem itruncDirect_ends (hi : i < 15) (hc : DirectCut s h n i t) :
    Ends (itruncDirect h n i) t (fun _ => DirectCut s h n (i + 1)) E := by
  have hmem := hc.cut.mem hh
  have hino : (t.sv h).ino = (s.sv h).ino := hc.cut.same.ino h
  have hsame : direct (t.sv h).inode i = direct (s.sv h).inode i := by
    rw [hc.direct i hi, if_neg (by omega)]
  unfold itruncDirect
  rw [ends_bind, ends_read, ends_when]
  constructor
  · intro hfree
    have hlive : t.Live (t.sv h).ino := live_of_mem hmem
    have hptr := ptr_direct hc.cut.acct.toTableOk hmem hi
    have hused : t.Used (direct (t.sv h).inode i) := hptr ▸ hc.cut.acct.ptr_used hlive (hptr ▸ hfree.2)
    rw [ends_bind, ends_bfree hc.cut.acct.covers hused, ends_setInode]
    obtain ⟨hacct, hothers⟩ := hc.cut.acct.freeDirect hmem (hino ▸ hne) hi rfl hfree.2
    refine ⟨⟨hacct, hc.cut.same.trans hne (hino ▸ hothers)⟩, fun k hk => ?_, ?_, hc.disk, fun b => ?_⟩
    · rw [sv_withInode_self]
      by_cases hki : k = i
      · rw [hki, if_pos ⟨by omega, hfree.1⟩]
        exact direct_setDirect_self
      · have hlt : k < i + 1 ∧ n ≤ k ↔ k < i ∧ n ≤ k := by omega
        rw [if_congr hlt rfl rfl, ← hc.direct k hk]
        exact direct_setDirect_of_ne hki
    · rw [sv_withInode_self]
      exact (indirect_setDirect hi).trans hc.indirect
    · have hfm : (t.free (direct (t.sv h).inode i)).freemap b = false ↔
          b = direct (s.sv h).inode i ∨ t.freemap b = false := by
        rw [free_eq_false_iff, hsame]
      rw [hc.freed b] at hfm
      refine hfm.trans ?_
      constructor
      · intro hor
        rcases hor with rfl | hold | ⟨k, hk, hrest⟩
        · exact .inr ⟨i, by omega, hfree.1, rfl, fun hz => hfree.2 (hsame.trans hz)⟩
        · exact .inl hold
        · exact .inr ⟨k, by omega, hrest⟩
      · intro hor
        rcases hor with hold | ⟨k, hk, hnk, hkb, hb⟩
        · exact .inr (.inl hold)
        · by_cases hki : k = i
          · exact .inl (hki ▸ hkb).symm
          · exact .inr (.inr ⟨k, by omega, hnk, hkb, hb⟩)
  · intro hkeep
    have hzero : n ≤ i → direct (s.sv h).inode i = 0 := by
      intro hni
      by_contra hnz
      exact hkeep ⟨hni, fun hz => hnz (hsame.symm.trans hz)⟩
    refine ⟨hc.cut, fun k hk => ?_, hc.indirect, hc.disk, fun b => ?_⟩
    · rw [hc.direct k hk]
      by_cases hki : k = i
      · by_cases hni : n ≤ i
        · simp [hki, hni, hzero hni]
        · simp [hki, hni]
      · exact if_congr (by omega) rfl rfl
    · rw [hc.freed b]
      refine or_congr_right ⟨fun ⟨k, hk, hrest⟩ => ⟨k, by omega, hrest⟩, fun ⟨k, hk, hnk, hkb, hb⟩ => ?_⟩
      by_cases hki : k = i
      · subst hki
        exact absurd (hkb.symm.trans (hzero hnk)) hb
      · exact ⟨k, by omega, hnk, hkb, hb⟩

theorem itruncDirect_loop_ends (ha : s.Acct) (n : ℕ) :
    Ends (Call.loopBelow (fun i _ => itruncDirect h n i) 15 ()) s (fun _ => DirectCut s h n 15) E := by
  apply ends_loopBelow (P := fun i _ t => DirectCut s h n i t) (.start ha)
  intro i hi _ t hc
  exact itruncDirect_ends hne hh hi hc

end Direct

/-! ### The entries of the indirect block -/

/-- The state of the second loop after `j` entries: were the entries on the disk, the accounts would be in order. -/
structure Scanning (s : Sfs) (own idb n j : ℕ) (scan : IdScan) (t : Sfs) : Prop where
  cut : Cut own s (t.withBlock idb scan.idbuf)
  disk : t.disk = s.disk
  sv : t.sv = s.sv
  entry : ∀ j' < 128, load32 scan.idbuf (4 * j') = if j' < j ∧ n < 15 + j' then 0 else load32 (s.disk idb) (4 * j')
  nonzero : scan.hasnonzero = false ↔ ∀ j' < j, load32 scan.idbuf (4 * j') = 0
  dirty : scan.iddirty = false → scan.idbuf = s.disk idb
  freed : ∀ b, t.freemap b = false ↔
    s.freemap b = false ∨ ∃ j' < j, n < 15 + j' ∧ load32 (s.disk idb) (4 * j') = b ∧ b ≠ 0

/-- Truncation to `n` blocks leaves no entry in the indirect block `idb`. -/
def EmptiesId (s : Sfs) (idb n : ℕ) : Prop := ∀ j < 128, load32 (s.disk idb) (4 * j) = 0 ∨ n < 15 + j

/-- The second loop is over, and the indirect block is freed, written back or left alone. -/
structure EntriesCut (s : Sfs) (h idb n : ℕ) (t : Sfs) : Prop where
  cut : Cut (s.sv h).ino s t
  direct : ∀ k < 15, direct (t.sv h).inode k = direct (s.sv h).inode k
  emptied : EmptiesId s idb n → indirect (t.sv h).inode = 0
  kept : ¬ EmptiesId s idb n → indirect (t.sv h).inode = idb
  entry : ∀ j < 128, ¬ EmptiesId s idb n →
    load32 (t.disk idb) (4 * j) = if n < 15 + j then 0 else load32 (s.disk idb) (4 * j)
  disk : ∀ b, b ≠ idb → t.disk b = s.disk b
  freed : ∀ b, t.freemap b = false ↔ s.freemap b = false ∨
    (∃ j < 128, n < 15 + j ∧ load32 (s.disk idb) (4 * j) = b ∧ b ≠ 0) ∨ b = idb ∧ EmptiesId s idb n

section Entries

variable {idb j : ℕ} {scan : IdScan} (hne : (s.sv h).ino ≠ 1) (hh : h ∈ s.vnodes)
  (hid : indirect (s.sv h).inode = idb) (hidb : idb ≠ 0)

theorem Scanning.start (ha : s.Acct) : Scanning s (s.sv h).ino idb n 0 ⟨s.disk idb, false, false⟩ s where
  cut := by
    rw [withBlock_self]
    exact .refl ha
  disk := rfl
  sv := rfl
  entry j' _ := by simp
  nonzero := by simp
  dirty _ := rfl
  freed b := by simp

theorem Scanning.sv_eq (hsc : Scanning s (s.sv h).ino idb n j scan t) :
    (t.withBlock idb scan.idbuf).sv h = s.sv h := congrFun hsc.sv h

theorem Scanning.nonzero_iff (hsc : Scanning s (s.sv h).ino idb n 128 scan t) :
    scan.hasnonzero = false ↔ EmptiesId s idb n := by
  rw [hsc.nonzero]
  refine forall₂_congr fun j hj => ?_
  rw [hsc.entry j hj]
  by_cases hn : n < 15 + j
  · simp [hj, hn]
  · simp [hn]

include hh hid

theorem Scanning.ptr_indirect (hsc : Scanning s (s.sv h).ino idb n j scan t) :
    (t.withBlock idb scan.idbuf).ptr (s.sv h).ino .indirect = idb := by
  have hmem : h ∈ (t.withBlock idb scan.idbuf).vnodes := hsc.cut.mem hh
  have hptr := Sfs.ptr_indirect hsc.cut.acct.toTableOk hmem
  rw [hsc.sv_eq] at hptr
  rw [hptr, hid]

include hne hidb

theorem Scanning.used (hsc : Scanning s (s.sv h).ino idb n j scan t) :
    t.Used idb ∧ ∀ k < 128, load32 scan.idbuf (4 * k) ≠ 0 → t.Used (load32 scan.idbuf (4 * k)) := by
  have hidV := hsc.ptr_indirect hh hid
  have hlive : (t.withBlock idb scan.idbuf).Live (s.sv h).ino := (hsc.cut.same.live hne).mpr (live_of_mem hh)
  have hidV0 : (t.withBlock idb scan.idbuf).ptr (s.sv h).ino .indirect ≠ 0 := by rwa [hidV]
  have hdiskV : (t.withBlock idb scan.idbuf).disk idb = scan.idbuf := update_self ..
  constructor
  · have hused := hsc.cut.acct.ptr_used hlive hidV0
    rwa [hidV] at hused
  · intro k hk hnz
    have hptr : (t.withBlock idb scan.idbuf).ptr (s.sv h).ino (.entry k) = load32 scan.idbuf (4 * k) := by
      rw [ptr_entry hk hidV0, hidV, hdiskV]
    have hused := hsc.cut.acct.ptr_used (p := .entry k) hlive (by rwa [hptr])
    rwa [hptr] at hused

omit hne hh hid hidb in
theorem Scanning.keep (hj : j < 128) (hsc : Scanning s (s.sv h).ino idb n j scan t)
    (hc : ¬ (n < 15 + j ∧ load32 scan.idbuf (4 * j) ≠ 0)) :
    Scanning s (s.sv h).ino idb n (j + 1)
      { scan with hasnonzero := scan.hasnonzero || load32 scan.idbuf (4 * j) != 0 } t := by
  have hold : load32 scan.idbuf (4 * j) = load32 (s.disk idb) (4 * j) := by
    rw [hsc.entry j hj, if_neg (by omega)]
  have hzero : n < 15 + j → load32 (s.disk idb) (4 * j) = 0 := by
    intro hn
    by_contra hnz
    exact hc ⟨hn, fun hz => hnz (hold.symm.trans hz)⟩
  refine ⟨hsc.cut, hsc.disk, hsc.sv, fun j' hj' => ?_, ?_, hsc.dirty, fun b => ?_⟩
  · rw [hsc.entry j' hj']
    by_cases heq : j' = j
    · by_cases hn : n < 15 + j
      · simp [heq, hn, hzero hn]
      · simp [heq, hn]
    · exact if_congr (by omega) rfl rfl
  · rw [Bool.or_eq_false_iff, bne_eq_false_iff_eq, Nat.forall_lt_succ_right, hsc.nonzero]
  · rw [hsc.freed b]
    refine or_congr_right ⟨fun ⟨j', hj', hrest⟩ => ⟨j', by omega, hrest⟩, fun ⟨j', hj', hn, hb, hb0⟩ => ?_⟩
    by_cases heq : j' = j
    · subst heq
      exact absurd (hb.symm.trans (hzero hn)) hb0
    · exact ⟨j', by omega, hn, hb, hb0⟩

theorem Scanning.discard (hj : j < 128) (hsc : Scanning s (s.sv h).ino idb n j scan t)
    (hc : n < 15 + j ∧ load32 scan.idbuf (4 * j) ≠ 0) :
    Scanning s (s.sv h).ino idb n (j + 1)
      { scan with
        idbuf := store32 scan.idbuf (4 * j) 0
        hasnonzero := scan.hasnonzero || load32 (store32 scan.idbuf (4 * j) 0) (4 * j) != 0
        iddirty := true } (t.free (load32 scan.idbuf (4 * j))) := by
  have hdiskV : (t.withBlock idb scan.idbuf).disk idb = scan.idbuf := update_self ..
  have hlive : (t.withBlock idb scan.idbuf).Live (s.sv h).ino := (hsc.cut.same.live hne).mpr (live_of_mem hh)
  have hold : load32 scan.idbuf (4 * j) = load32 (s.disk idb) (4 * j) := by
    rw [hsc.entry j hj, if_neg (by omega)]
  have hself : load32 (store32 scan.idbuf (4 * j) 0) (4 * j) = 0 := load32_store32 ..
  have hothers : ∀ {j'}, j' ≠ j → load32 (store32 scan.idbuf (4 * j) 0) (4 * j') = load32 scan.idbuf (4 * j') :=
    fun hj' => load32_store32_of_disjoint (by omega)
  obtain ⟨hacct, hsame⟩ := hsc.cut.acct.freeEntry hlive hne (hsc.ptr_indirect hh hid) hidb hj
    (congrArg (load32 · (4 * j)) hdiskV) hc.2
  have hstate : ((t.withBlock idb scan.idbuf).free (load32 scan.idbuf (4 * j))).withBlock idb
      (store32 ((t.withBlock idb scan.idbuf).disk idb) (4 * j) 0) =
      (t.free (load32 scan.idbuf (4 * j))).withBlock idb (store32 scan.idbuf (4 * j) 0) := by
    rw [hdiskV]
    exact withBlock_withBlock (s := t.free _)
  rw [hstate] at hacct hsame
  refine ⟨⟨hacct, hsc.cut.same.trans hne hsame⟩, hsc.disk, hsc.sv, fun j' hj' => ?_, ?_, nofun, fun b => ?_⟩
  · show load32 (store32 scan.idbuf (4 * j) 0) (4 * j') = _
    by_cases heq : j' = j
    · rw [heq, hself, if_pos ⟨by omega, hc.1⟩]
    · rw [hothers heq, hsc.entry j' hj']
      exact if_congr (by omega) rfl rfl
  · rw [Bool.or_eq_false_iff, bne_eq_false_iff_eq, Nat.forall_lt_succ_right, hsc.nonzero]
    exact and_congr_left fun _ => forall₂_congr fun j' hj' => by rw [hothers (by omega)]
  · rw [free_eq_false_iff, hsc.freed b, hold]
    constructor
    · intro hor
      rcases hor with rfl | hfree | ⟨j', hj', hrest⟩
      · exact .inr ⟨j, by omega, hc.1, rfl, fun hz => hc.2 (hold.trans hz)⟩
      · exact .inl hfree
      · exact .inr ⟨j', by omega, hrest⟩
    · intro hor
      rcases hor with hfree | ⟨j', hj', hn, hb, hb0⟩
      · exact .inr (.inl hfree)
      · by_cases heq : j' = j
        · exact .inl (heq ▸ hb).symm
        · exact .inr (.inr ⟨j', by omega, hn, hb, hb0⟩)

theorem itruncEntry_ends (hj : j < 128) (hsc : Scanning s (s.sv h).ino idb n j scan t) :
    Ends (itruncEntry n j scan) t (Scanning s (s.sv h).ino idb n (j + 1)) E := by
  unfold itruncEntry discardEntry
  rw [ends_bind]
  by_cases hc : n < 15 + j ∧ load32 scan.idbuf (4 * j) ≠ 0
  · have hused := (hsc.used hne hh hid hidb).2 j hj hc.2
    have hbits : load32 scan.idbuf (4 * j) < freemapBits t.nblocks := Nat.lt_of_lt_of_le hused.1 hsc.cut.acct.covers
    rw [if_pos hc]
    unfold bfree
    simp only [ends_bind, ends_read, ends_require, ends_update, ends_pure, hbits, true_and]
    exact ⟨hused.2, hsc.discard hne hh hid hidb hj hc⟩
  · rw [if_neg hc, ends_pure, ends_pure]
    exact hsc.keep hj hc

/-- An indirect block without entries is given back.  The entries that were discarded are still on the disk, in a
block that is free now. -/
theorem Scanning.freeId (hsc : Scanning s (s.sv h).ino idb n 128 scan t) (hzero : scan.hasnonzero = false) :
    Cut (s.sv h).ino s ((t.free idb).withInode h (setIndirect (t.sv h).inode 0)) := by
  have hmem : h ∈ (t.withBlock idb scan.idbuf).vnodes := hsc.cut.mem hh
  have hempty : ∀ j < 128, load32 ((t.withBlock idb scan.idbuf).disk idb) (4 * j) = 0 := by
    intro j hj
    rw [show (t.withBlock idb scan.idbuf).disk idb = scan.idbuf from update_self ..]
    exact hsc.nonzero.mp hzero j hj
  have hne' : ((t.withBlock idb scan.idbuf).sv h).ino ≠ 1 := by rwa [hsc.sv_eq]
  have hid' : indirect ((t.withBlock idb scan.idbuf).sv h).inode = idb := by rwa [hsc.sv_eq]
  obtain ⟨hacct, hsame⟩ := hsc.cut.acct.freeIndirect hmem hne' hid' hidb hempty
  have hunused := not_used_of_free (s := ((t.withBlock idb scan.idbuf).free idb).withInode h
    (setIndirect ((t.withBlock idb scan.idbuf).sv h).inode 0)) (b := idb) (update_self ..)
  obtain ⟨hacct', hsame'⟩ := hacct.writeFree (t.disk idb) hunused
  have hstate : (((t.withBlock idb scan.idbuf).free idb).withInode h
      (setIndirect ((t.withBlock idb scan.idbuf).sv h).inode 0)).withBlock idb (t.disk idb) =
      (t.free idb).withInode h (setIndirect (t.sv h).inode 0) := by
    simp only [withBlock, withInode, free, update_idem, update_eq_self]
  rw [hstate] at hacct' hsame'
  have hown : ((t.withBlock idb scan.idbuf).sv h).ino = (s.sv h).ino := by rw [hsc.sv_eq]
  rw [hown] at hsame
  have hlive := (hsame.live hne).mpr ((hsc.cut.same.live hne).mpr (live_of_mem hh))
  exact ⟨hacct', hsc.cut.same.trans hne (hsame.trans hne (hsame'.toSameOthers hlive))⟩

theorem itruncIdblock_ends (hsc : Scanning s (s.sv h).ino idb n 128 scan t) :
    Ends (itruncIdblock h idb scan) t (fun _ => EntriesCut s h idb n) E := by
  have hsv : t.sv h = s.sv h := congrFun hsc.sv h
  have hiff := hsc.nonzero_iff
  unfold itruncIdblock
  by_cases hzero : scan.hasnonzero = false
  · have hempty := hiff.mp hzero
    have hused := (hsc.used hne hh hid hidb).1
    have hbits : idb < freemapBits t.nblocks := Nat.lt_of_lt_of_le hused.1 hsc.cut.acct.covers
    rw [if_pos hzero]
    unfold bfree
    simp only [ends_bind, ends_read, ends_require, ends_update, ends_setInode, hbits, true_and]
    refine ⟨hused.2, hsc.freeId hne hh hid hidb hzero, fun k hk => ?_, fun _ => ?_, fun hno => absurd hempty hno,
      fun _ _ hno => absurd hempty hno, fun b _ => congrFun hsc.disk b, fun b => ?_⟩
    · rw [sv_withInode_self]
      exact (direct_setIndirect hk).trans (by rw [← hsv])
    · rw [sv_withInode_self]
      exact indirect_setIndirect
    · refine (free_eq_false_iff (s := t)).trans ?_
      rw [hsc.freed b]
      constructor
      · intro hor
        rcases hor with hb | hfree | hentry
        · exact .inr (.inr ⟨hb, hempty⟩)
        · exact .inl hfree
        · exact .inr (.inl hentry)
      · intro hor
        rcases hor with hfree | hentry | hb
        · exact .inr (.inl hfree)
        · exact .inr (.inr hentry)
        · exact .inl hb.1
  · have hno : ¬ EmptiesId s idb n := fun hempty => hzero (hiff.mpr hempty)
    have hentry : ∀ j < 128, load32 scan.idbuf (4 * j) = if n < 15 + j then 0 else load32 (s.disk idb) (4 * j) := by
      intro j hj
      rw [hsc.entry j hj]
      exact if_congr (and_iff_right hj) rfl rfl
    have hfreed : ∀ b, t.freemap b = false ↔ s.freemap b = false ∨
        (∃ j < 128, n < 15 + j ∧ load32 (s.disk idb) (4 * j) = b ∧ b ≠ 0) ∨ b = idb ∧ EmptiesId s idb n := by
      intro b
      simp only [hsc.freed b, hno, and_false, or_false]
    rw [if_neg hzero, ends_when, ends_writeblock]
    constructor
    · intro _
      refine ⟨hsc.cut, fun k _ => by rw [hsc.sv_eq], fun hempty => absurd hempty hno, fun _ => ?_, fun j hj _ => ?_,
        fun b hb => ?_, hfreed⟩
      · rw [hsc.sv_eq, hid]
      · rw [← hentry j hj]
        exact congrArg (load32 · (4 * j)) (update_self ..)
      · exact (update_of_ne hb ..).trans (congrFun hsc.disk b)
    · intro hclean
      have hbuf : scan.idbuf = s.disk idb := hsc.dirty (Bool.eq_false_iff.mpr hclean)
      have hcut := hsc.cut
      rw [hbuf, ← hsc.disk, withBlock_self] at hcut
      refine ⟨hcut, fun k _ => by rw [hsv], fun hempty => absurd hempty hno, fun _ => by rw [hsv, hid],
        fun j hj _ => ?_, fun b _ => congrFun hsc.disk b, hfreed⟩
      rw [hsc.disk, ← hentry j hj, hbuf]

theorem itruncIndirect_ends (ha : s.Acct) : Ends (itruncIndirect h n idb) s (fun _ => EntriesCut s h idb n) E := by
  unfold itruncIndirect readblock
  rw [ends_bind, ends_read, ends_bind]
  apply (ends_loopBelow (P := fun j scan t => Scanning s (s.sv h).ino idb n j scan t) (.start ha)
    fun j hj scan t hsc => itruncEntry_ends hne hh hid hidb hj hsc).mono _ fun _ _ => id
  intro scan t hsc
  exact itruncIdblock_ends hne hh hid hidb hsc

end Entries

/-! ### The whole file -/

/-- Truncation to `n` blocks takes block `k` of a file away. -/
def Discards (n k : ℕ) : Prop := n ≤ k ∧ (15 ≤ k → n < k)

instance (n k : ℕ) : Decidable (Discards n k) := inferInstanceAs (Decidable (_ ∧ _))

/-- Truncation to `n` blocks looks into the indirect block and leaves nothing there. -/
def Empties (s : Sfs) (own n : ℕ) : Prop := n < 142 ∧ ∀ k, 15 ≤ k → s.fileBlock own k = 0 ∨ n < k

/-- The file has been truncated to `n` blocks. -/
structure Trimmed (own n : ℕ) (s t : Sfs) : Prop where
  cut : Cut own s t
  block : ∀ k, t.fileBlock own k = if Discards n k then 0 else s.fileBlock own k
  emptied : Empties s own n → t.ptr own .indirect = 0
  kept : ¬ Empties s own n → t.ptr own .indirect = s.ptr own .indirect
  disk : ∀ b, b ≠ s.ptr own .indirect → t.disk b = s.disk b
  freed : ∀ b, t.freemap b = false ↔ s.freemap b = false ∨
    b ≠ 0 ∧ ((∃ k, Discards n k ∧ s.fileBlock own k = b) ∨ s.ptr own .indirect = b ∧ Empties s own n)

theorem fileBlock_eq (ht : s.TableOk) (hh : h ∈ s.vnodes) (k : ℕ) :
    s.fileBlock (s.sv h).ino k = if k < 15 then direct (s.sv h).inode k
      else if k < 143 ∧ indirect (s.sv h).inode ≠ 0 then
        load32 (s.disk (indirect (s.sv h).inode)) (4 * (k - 15))
      else 0 := by
  by_cases hk : k < 15
  · rw [if_pos hk, fileBlock_direct hk, ptr_direct ht hh hk]
  · rw [if_neg hk, fileBlock_entry (by omega)]
    unfold ptr
    rw [ht.inodeOf hh]
    exact if_congr (and_congr_left' (by omega)) rfl rfl

section Whole

variable {idb : ℕ} (hh : h ∈ s.vnodes)

theorem fileBlock_of_ge (ht : s.TableOk) (hh : h ∈ s.vnodes) (hk : 143 ≤ k) : s.fileBlock (s.sv h).ino k = 0 := by
  rw [fileBlock_eq ht hh, if_neg (by omega), if_neg (by omega)]

theorem empties_iff (ht : s.TableOk) (hh : h ∈ s.vnodes) (hid : Dinode.indirect (s.sv h).inode = idb) (hidb : idb ≠ 0) :
    Empties s (s.sv h).ino n ↔ n < 142 ∧ EmptiesId s idb n := by
  refine and_congr_right fun _ => ⟨fun hall j hj => ?_, fun hall k hk => ?_⟩
  · have hblock := hall (15 + j) (by omega)
    rwa [fileBlock_eq ht hh, if_neg (by omega), hid, if_pos ⟨by omega, hidb⟩, Nat.add_sub_cancel_left] at hblock
  · by_cases hlt : k < 143
    · have hentry := hall (k - 15) (by omega)
      rw [show 15 + (k - 15) = k by omega] at hentry
      rwa [fileBlock_eq ht hh, if_neg (by omega), hid, if_pos ⟨hlt, hidb⟩]
    · exact .inl (fileBlock_of_ge ht hh (by omega))

include hh

theorem DirectCut.trimmed (ha : s.Acct) (hc : DirectCut s h n 15 t)
    (hskip : ¬ (n < 142 ∧ Dinode.indirect (t.sv h).inode ≠ 0)) : Trimmed (s.sv h).ino n s t := by
  have hmem := hc.cut.mem hh
  have hino : (t.sv h).ino = (s.sv h).ino := hc.cut.same.ino h
  have hptr : t.ptr (s.sv h).ino .indirect = s.ptr (s.sv h).ino .indirect := by
    rw [← hino, ptr_indirect hc.cut.acct.toTableOk hmem, hc.indirect, hino, ptr_indirect ha.toTableOk hh]
  have hblock : ∀ k, t.fileBlock (s.sv h).ino k = if k < 15 ∧ n ≤ k then 0 else s.fileBlock (s.sv h).ino k := by
    intro k
    rw [← hino, fileBlock_eq hc.cut.acct.toTableOk hmem, hino, fileBlock_eq ha.toTableOk hh, hc.indirect, hc.disk]
    by_cases hk : k < 15
    · simp only [hk, if_true, hc.direct k hk, true_and]
    · simp only [hk, if_false, false_and]
  have hentry : ∀ k, 15 ≤ k → n < k → s.fileBlock (s.sv h).ino k = 0 := by
    intro k hk hn
    by_cases hlt : k < 143
    · have hzero : Dinode.indirect (s.sv h).inode = 0 := by
        rw [← hc.indirect]
        by_contra hnz
        exact hskip ⟨by omega, hnz⟩
      simp [fileBlock_eq ha.toTableOk hh, hzero, show ¬ k < 15 by omega]
    · exact fileBlock_of_ge ha.toTableOk hh (by omega)
  have hempty : Empties s (s.sv h).ino n → s.ptr (s.sv h).ino .indirect = 0 := by
    intro he
    rw [ptr_indirect ha.toTableOk hh, ← hc.indirect]
    by_contra hnz
    exact hskip ⟨he.1, hnz⟩
  refine ⟨hc.cut, fun k => ?_, fun he => hptr.trans (hempty he), fun _ => hptr, fun b _ => congrFun hc.disk b,
    fun b => ?_⟩
  · rw [hblock k]
    by_cases hk : 15 ≤ k
    · by_cases hn : n < k
      · simp [hentry k hk hn]
      · simp [Discards, hk, hn, Nat.not_lt.mpr hk]
    · simp [Discards, hk, Nat.lt_of_not_le hk]
  · rw [hc.freed b]
    refine or_congr_right ⟨fun ⟨k, hk, hn, hkb, hb⟩ => ⟨hb, .inl ⟨k, ⟨hn, by omega⟩, ?_⟩⟩, fun ⟨hb, hor⟩ => ?_⟩
    · rw [fileBlock_eq ha.toTableOk hh, if_pos hk, hkb]
    · rcases hor with ⟨k, hd, hkb⟩ | ⟨hkb, he⟩
      · by_cases hk : k < 15
        · rw [fileBlock_eq ha.toTableOk hh, if_pos hk] at hkb
          exact ⟨k, hk, hd.1, hkb, hb⟩
        · exact absurd (hkb.symm.trans (hentry k (by omega) (hd.2 (by omega)))) hb
      · exact absurd (hkb.symm.trans (hempty he)) hb

theorem DirectCut.trimmed_entries (ha : s.Acct) (hc : DirectCut s h n 15 t) (hn : n < 142)
    (hid : Dinode.indirect (t.sv h).inode = idb) (hidb : idb ≠ 0) (he : EntriesCut t h idb n u)
    (hcut : Cut (s.sv h).ino s u) : Trimmed (s.sv h).ino n s u := by
  have hmem := hcut.mem hh
  have hino : (u.sv h).ino = (s.sv h).ino := hcut.same.ino h
  have hids : Dinode.indirect (s.sv h).inode = idb := hc.indirect.symm.trans hid
  have hempty : EmptiesId t idb n ↔ Empties s (s.sv h).ino n := by
    rw [empties_iff ha.toTableOk hh hids hidb, EmptiesId, EmptiesId, hc.disk]
    exact (and_iff_right hn).symm
  have hptr : s.ptr (s.sv h).ino .indirect = idb := (ptr_indirect ha.toTableOk hh).trans hids
  have hptr' : u.ptr (s.sv h).ino .indirect = Dinode.indirect (u.sv h).inode := by
    rw [← hino, ptr_indirect hcut.acct.toTableOk hmem]
  -- blocks from 15 on are entries, before and after
  have hold : ∀ k, 15 ≤ k → k < 143 → s.fileBlock (s.sv h).ino k = load32 (s.disk idb) (4 * (k - 15)) := by
    intro k hk hlt
    rw [fileBlock_eq ha.toTableOk hh, if_neg (by omega), hids, if_pos ⟨hlt, hidb⟩]
  have hnew : ∀ k, 15 ≤ k → k < 143 →
      u.fileBlock (s.sv h).ino k = if n < k then 0 else load32 (s.disk idb) (4 * (k - 15)) := by
    intro k hk hlt
    rw [← hino, fileBlock_eq hcut.acct.toTableOk hmem, if_neg (by omega)]
    by_cases hem : EmptiesId t idb n
    · have hentry := hem (k - 15) (by omega)
      rw [hc.disk, show 15 + (k - 15) = k by omega] at hentry
      rw [he.emptied hem, if_neg (by simp)]
      by_cases hnk : n < k
      · rw [if_pos hnk]
      · rw [if_neg hnk, hentry.resolve_right hnk]
    · rw [he.kept hem, if_pos ⟨hlt, hidb⟩, he.entry (k - 15) (by omega) hem, hc.disk, show 15 + (k - 15) = k by omega]
  refine ⟨hcut, fun k => ?_, fun hem => ?_, fun hem => ?_, fun b hb => ?_, fun b => ?_⟩
  · by_cases hk : k < 15
    · rw [← hino, fileBlock_eq hcut.acct.toTableOk hmem, if_pos hk, he.direct k hk, hc.direct k hk, hino,
        fileBlock_eq ha.toTableOk hh, if_pos hk]
      exact if_congr (by unfold Discards; omega) rfl rfl
    · by_cases hlt : k < 143
      · rw [hnew k (by omega) hlt, hold k (by omega) hlt]
        exact if_congr (by unfold Discards; omega) rfl rfl
      · have hzero : u.fileBlock (s.sv h).ino k = 0 := hino ▸ fileBlock_of_ge hcut.acct.toTableOk hmem (by omega)
        rw [hzero, fileBlock_of_ge ha.toTableOk hh (by omega), ite_self]
  · rw [hptr', he.emptied (hempty.mpr hem)]
  · rw [hptr', he.kept (hempty.not.mpr hem), hptr]
  · rw [he.disk b (hptr ▸ hb), hc.disk]
  · rw [he.freed b, hc.freed b, hempty, hc.disk, hptr, or_assoc]
    refine or_congr_right ⟨fun hor => ?_, fun ⟨hb, hor⟩ => ?_⟩
    · rcases hor with ⟨k, hk, hnk, hkb, hb⟩ | ⟨j, hj, hnj, hjb, hb⟩ | ⟨hb, hem⟩
      · refine ⟨hb, .inl ⟨k, ⟨hnk, by omega⟩, ?_⟩⟩
        rw [fileBlock_eq ha.toTableOk hh, if_pos hk, hkb]
      · refine ⟨hb, .inl ⟨15 + j, ⟨by omega, by omega⟩, ?_⟩⟩
        rw [hold (15 + j) (by omega) (by omega), Nat.add_sub_cancel_left, hjb]
      · exact ⟨hb ▸ hidb, .inr ⟨hb.symm, hem⟩⟩
    · rcases hor with ⟨k, hd, hkb⟩ | ⟨hkb, hem⟩
      · by_cases hk : k < 15
        · rw [fileBlock_eq ha.toTableOk hh, if_pos hk] at hkb
          exact .inl ⟨k, hk, hd.1, hkb, hb⟩
        · have hlt : k < 143 := by
            by_contra hge
            exact hb (hkb.symm.trans (fileBlock_of_ge ha.toTableOk hh (by omega)))
          rw [hold k (by omega) hlt] at hkb
          exact .inr (.inl ⟨k - 15, by omega, by have := hd.2 (by omega); omega, hkb, hb⟩)
      · exact .inr (.inr ⟨hkb.symm, hem⟩)

end Whole

theorem target_setSize {i : Block} {n : ℕ} {disk : ℕ → Block} :
    p.target (setSize i n) disk = p.target i disk := by
  cases p with
  | direct k => simp only [Ptr.target, direct_setSize]
  | indirect => exact indirect_setSize
  | entry j => simp only [Ptr.target, indirect_setSize]

theorem Cut.setSize {n : ℕ} (hc : Cut (s.sv h).ino s t) (hh : h ∈ s.vnodes) (hne : (s.sv h).ino ≠ 1) :
    Cut (s.sv h).ino s (t.withInode h (setSize (t.sv h).inode n)) := by
  have hmem := hc.mem hh
  have hino : (t.sv h).ino = (s.sv h).ino := hc.same.ino h
  have hfile := file_withInode_self hc.acct.toTableOk hmem (fun p => target_setSize (n := n))
    (type_setSize (n := n))
  rw [hino] at hfile
  refine ⟨hc.acct.setAttr hmem (by rwa [hino]) (fun p => target_setSize) type_setSize, hc.same.trans hne ?_⟩
  refine ⟨sameTable_withInode, fun ino' hino' _ => ?_, ?_, ?_⟩
  · exact file_withInode_of_ne hc.acct.toTableOk (by rwa [hino])
  · rw [hfile]
  · rw [hfile, ← hino, file, hc.acct.inodeOf hmem]
    exact linkcount_setSize

theorem Trimmed.setSize {m : ℕ} (htr : Trimmed (s.sv h).ino n s t) (hh : h ∈ s.vnodes) (hne : (s.sv h).ino ≠ 1) :
    Trimmed (s.sv h).ino n s (t.withInode h (Dinode.setSize (t.sv h).inode m)) ∧
      ((t.withInode h (Dinode.setSize (t.sv h).inode m)).file (s.sv h).ino).size = m % 2 ^ 32 := by
  have hmem := htr.cut.mem hh
  have hino : (t.sv h).ino = (s.sv h).ino := htr.cut.same.ino h
  have hptr : ∀ p, (t.withInode h (Dinode.setSize (t.sv h).inode m)).ptr (s.sv h).ino p = t.ptr (s.sv h).ino p := by
    intro p
    rw [← hino, ptr_withInode_self htr.cut.acct.toTableOk hmem, target_setSize]
    unfold ptr
    rw [htr.cut.acct.inodeOf hmem]
  refine ⟨⟨htr.cut.setSize hh hne, fun k => (hptr _).trans (htr.block k), fun he => (hptr _).trans (htr.emptied he),
    fun he => (hptr _).trans (htr.kept he), htr.disk, htr.freed⟩, ?_⟩
  have hfile := file_withInode_self htr.cut.acct.toTableOk hmem (fun p => target_setSize (n := m))
    (type_setSize (n := m))
  rw [hino] at hfile
  rw [hfile]
  exact size_setSize

/-- **`sfs_itrunc`** never fails, changes no other file, and trims its own. -/
theorem itrunc_ends (ha : s.Acct) (hh : h ∈ s.vnodes) (hne : (s.sv h).ino ≠ 1) (len : Int) :
    Ends (itrunc h len) s
      (fun _ t => Trimmed (s.sv h).ino (blocklen len) s t ∧
        (t.file (s.sv h).ino).size = (len % 2 ^ 32).toNat % 2 ^ 32) E := by
  unfold itrunc
  rw [ends_bind]
  apply (itruncDirect_loop_ends hne hh ha (blocklen len)).mono _ fun _ _ => id
  intro _ t hc
  have hino : (t.sv h).ino = (s.sv h).ino := hc.cut.same.ino h
  have hne' : (t.sv h).ino ≠ 1 := by rwa [hino]
  rw [ends_bind, ends_read, ends_bind, ends_when]
  constructor
  · intro hid
    apply (itruncIndirect_ends hne' (hc.cut.mem hh) rfl hid.2 hc.cut.acct).mono _ fun _ _ => id
    intro _ u he
    have hcut : Cut (s.sv h).ino s u := ⟨he.cut.acct, hc.cut.same.trans hne (hino ▸ he.cut.same)⟩
    rw [ends_setInode]
    exact (hc.trimmed_entries hh ha hid.1 rfl hid.2 he hcut).setSize hh hne
  · intro hskip
    rw [ends_setInode]
    exact (hc.trimmed hh ha hskip).setSize hh hne

theorem Trimmed.ptr_eq_zero (htr : Trimmed ino 0 s t) : t.ptr ino p = 0 := by
  have hblock : ∀ k, t.fileBlock ino k = 0 := by
    intro k
    rw [htr.block k, if_pos ⟨Nat.zero_le k, by omega⟩]
  cases p with
  | direct k =>
    by_cases hk : k < 15
    · rw [← fileBlock_direct hk]
      exact hblock k
    · exact if_neg hk
  | indirect => exact htr.emptied ⟨by decide, fun k hk => .inr (by omega)⟩
  | entry j =>
    have hentry := hblock (15 + j)
    rwa [fileBlock_entry (by omega), Nat.add_sub_cancel_left] at hentry

end Sfs

end Os161Kernel
