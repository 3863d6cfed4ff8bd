import Os161Kernel.SfsSlots

/-!
# Names and link counts

The directory operations on a consistent volume: no two slots in use hold the same name, and the link count of a file
is the number of slots that hold its inode.
-/

namespace Os161Kernel

open Calls Memory Dinode

-- Specifications are used through their rules; unfolding them would run the loops.
attribute [local irreducible] Ends

namespace Sfs

variable {s t : Sfs} {ino h b k i : ℕ} {E : Errno → Sfs → Prop} {sd : Bytes}

/-! ### Reading the directory -/

section Dir

variable (ha : s.Acct) (hh : h ∈ s.vnodes) (hroot : (s.sv h).ino = 1)

include ha hh hroot

theorem readdir_ends (hi : i < 1144) :
    Ends (readdir h i) s (fun sd t => t = s ∧ ∀ k < 64, sd k = (s.file 1).slot i k) E := by
  have hbyte : ∀ k < 64, (s.file 1).slot i k = if s.fileBlock 1 (i * 64 / 512) = 0 then 0
      else s.disk (s.fileBlock 1 (i * 64 / 512)) (i * 64 % 512 + k) := by
    intro k hk
    show s.fileByte 1 (64 * i + k) = _
    unfold fileByte
    rw [show (64 * i + k) / 512 = i * 64 / 512 by omega, show (64 * i + k) % 512 = i * 64 % 512 + k by omega]
  have hno : false = true → s.fileBlock (s.sv h).ino (i * 64 / 512) ≠ 0 := nofun
  unfold readdir metaio
  rw [ends_bind, show (UioRw.read == UioRw.write) = false from rfl, ends_bmap_mapped ha hh (by omega) hno, hroot]
  by_cases hzero : s.fileBlock 1 (i * 64 / 512) = 0
  · rw [if_pos hzero, ends_bind, ends_require]
    refine ⟨rfl, ?_⟩
    rw [ends_pure]
    refine ⟨rfl, fun k hk => ?_⟩
    rw [hbyte k hk, if_pos hzero]
    exact overlay_inside (Nat.zero_le k) (by omega)
  · rw [if_neg hzero]
    unfold metaioBlock readblock
    rw [ends_bind, ends_read, ends_pure]
    refine ⟨rfl, fun k hk => ?_⟩
    rw [hbyte k hk, if_neg hzero]
    exact overlay_inside (Nat.zero_le k) (by omega)

theorem ends_dirNentries {Q : ℕ → Sfs → Prop} : Ends (dirNentries h) s Q E ↔ Q (s.file 1).nentries s := by
  have htype : Dinode.type (s.sv h).inode = 2 := by
    have ht := ha.types (s.sv h).ino (live_of_mem hh)
    rw [file, ha.inodeOf hh] at ht
    exact ht.trans (if_pos hroot)
  have hsize : (s.file 1).size = Dinode.size (s.sv h).inode := by
    rw [← hroot, file, ha.inodeOf hh]
  have hslots : Dinode.size (s.sv h).inode % 64 = 0 := by
    rw [← hsize]
    exact ha.slots
  unfold dirNentries SfsFile.nentries
  simp only [ends_bind, ends_read, ends_require, ends_pure, htype, hslots, true_and, hsize]

omit hh hroot in
theorem nentries_le : (s.file 1).nentries ≤ 1144 := by
  have := ha.small
  unfold SfsFile.nentries
  omega

end Dir

/-- What the search for a name has found below slot `i`. -/
structure SearchedTo (f : SfsFile) (name : List UInt8) (i : ℕ) (found : FoundName) : Prop where
  absent : found.entry = none → ∀ j < i, f.UsedSlot j → f.slotName j ≠ name
  present : ∀ j n, found.entry = some (j, n) → j < i ∧ f.UsedSlot j ∧ f.slotName j = name ∧ f.slotIno j = n
  full : found.emptyslot = none → ∀ j < i, f.slotIno j ≠ 0
  empty : ∀ j, found.emptyslot = some j → j < f.nentries ∧ f.slotIno j = 0

variable {name : CString} {disk : ℕ → Block} {p : Ptr} {n : ℕ}

theorem findnameSlot_ends {found : FoundName} (ha : s.Acct) (hh : h ∈ s.vnodes)
    (hroot : (s.sv h).ino = 1) (hok : (s.file 1).NamesOk) (hi : i < (s.file 1).nentries)
    (hf : SearchedTo (s.file 1) name.val i found) :
    Ends (findnameSlot h name i found) s
      (fun found t => t = s ∧ SearchedTo (s.file 1) name.val (i + 1) found) E := by
  have hlt : i < 1144 := Nat.lt_of_lt_of_le hi (nentries_le ha)
  unfold findnameSlot
  rw [ends_bind]
  apply (readdir_ends ha hh hroot hlt).mono _ fun _ _ => id
  rintro sd t ⟨rfl, hsd⟩
  have hino : Direntry.ino sd = (t.file 1).slotIno i := Direntry.ino_congr hsd
  have hname : Direntry.name sd = (t.file 1).slotName i := Direntry.name_congr hsd
  have hpresent : ∀ j n, found.entry = some (j, n) →
      j < i + 1 ∧ (t.file 1).UsedSlot j ∧ (t.file 1).slotName j = name.val ∧ (t.file 1).slotIno j = n := by
    intro j n hj
    obtain ⟨hlt, hrest⟩ := hf.present j n hj
    exact ⟨by omega, hrest⟩
  rw [hino, hname]
  by_cases hzero : (t.file 1).slotIno i = 0
  · -- a free slot is remembered
    rw [if_pos hzero, ends_pure]
    refine ⟨rfl, fun hnone j hj hused => ?_, hpresent, nofun, fun j hj => ?_⟩
    · have hne : j ≠ i := fun heq => hused.2 (heq ▸ hzero)
      exact hf.absent hnone j (by omega) hused
    · rw [← Option.some.inj hj]
      exact ⟨hi, hzero⟩
  · have hused : (t.file 1).UsedSlot i := ⟨hi, hzero⟩
    have hfull : found.emptyslot = none → ∀ j < i + 1, (t.file 1).slotIno j ≠ 0 := by
      intro hnone j hj
      by_cases hji : j = i
      · exact hji ▸ hzero
      · exact hf.full hnone j (by omega)
    rw [if_neg hzero]
    by_cases heq : (t.file 1).slotName i = name.val
    · -- the name, for the first time
      have hnone : found.entry = none := by
        cases hentry : found.entry with
        | none => rfl
        | some q =>
          obtain ⟨hlt, hq, hqname, -⟩ := hf.present q.1 q.2 hentry
          have := hok.unique q.1 i hq hused (hqname.trans heq.symm)
          omega
      rw [if_pos heq, ends_bind, ends_require]
      refine ⟨hnone, ?_⟩
      rw [ends_pure]
      refine ⟨rfl, nofun, fun j n hj => ?_, hfull, hf.empty⟩
      obtain ⟨rfl, rfl⟩ := Prod.mk.inj (Option.some.inj hj)
      exact ⟨by omega, hused, heq, rfl⟩
    · rw [if_neg heq, ends_pure]
      refine ⟨rfl, fun hnone j hj hused' => ?_, hpresent, hfull, hf.empty⟩
      by_cases hji : j = i
      · exact hji ▸ heq
      · exact hf.absent hnone j (by omega) hused'

theorem dirFindname_ends (ha : s.Acct) (hh : h ∈ s.vnodes) (hroot : (s.sv h).ino = 1)
    (hok : (s.file 1).NamesOk) :
    Ends (dirFindname h name) s
      (fun found t => t = s ∧ SearchedTo (s.file 1) name.val (s.file 1).nentries found) E := by
  have hstart : SearchedTo (s.file 1) name.val 0 ⟨none, none⟩ :=
    ⟨fun _ j hj => absurd hj (Nat.not_lt_zero j), nofun, fun _ j hj => absurd hj (Nat.not_lt_zero j), nofun⟩
  unfold dirFindname
  rw [ends_bind, ends_dirNentries ha hh hroot]
  apply ends_loopBelow (P := fun i found t => t = s ∧ SearchedTo (s.file 1) name.val i found) ⟨rfl, hstart⟩
  rintro i hi found t ⟨rfl, hf⟩
  exact findnameSlot_ends ha hh hroot hok hi hf

/-! ### Writing the directory -/

/-- A slot of the directory has been written, and nothing else has changed. -/
structure Wrote (s t : Sfs) (i : ℕ) (sd : Bytes) : Prop where
  acct : t.Acct
  same : SameTable s t
  dir : t.file 1 = (s.file 1).withSlot i sd
  file : ∀ ino, ino ≠ 1 → s.Live ino → t.file ino = s.file ino
  live : ∀ ino, t.Live ino ↔ s.Live ino

/-- The slots that hold an inode may change as long as the inode is in memory. -/
def SlotsMayBe (s : Sfs) (f : SfsFile) : Prop := ∀ n, f.Holds n ∨ s.Loaded n ↔ (s.file 1).Holds n ∨ s.Loaded n

theorem Acct.wrote (ha : s.Acct) (hi : i < 1144) (hlive : SlotsMayBe s ((s.file 1).withSlot i sd)) (hst : SameTable s t)
    (ht : t.TableOk) (hfm : t.freemap = s.freemap) (hptr : ∀ ino p, s.Live ino → t.ptr ino p = s.ptr ino p)
    (hdir : t.file 1 = (s.file 1).withSlot i sd) (hfile : ∀ ino, ino ≠ 1 → s.Live ino → t.file ino = s.file ino) :
    Wrote s t i sd := by
  have hsize : (t.file 1).size = max (s.file 1).size (64 * (i + 1)) := by rw [hdir, SfsFile.withSlot]
  have hslots := ha.slots
  have hsmall := ha.small
  have hlive' : ∀ ino, t.Live ino ↔ s.Live ino := by
    intro ino
    unfold Live
    rw [hdir, hst.loaded, hlive ino]
  refine ⟨ha.keep hst ht hfm hlive' hptr ?_ (by omega) (by omega), hst, hdir, hfile, hlive'⟩
  · intro ino hl
    by_cases hino : ino = 1
    · rw [hino, hdir, SfsFile.withSlot]
    · rw [hfile ino hino hl]

/-- The block of slot `i` is written back with the slot replaced. -/
def withSlotBlock (s : Sfs) (i : ℕ) (sd : Bytes) : Sfs :=
  s.withBlock (s.fileBlock 1 (i * 64 / 512))
    (overlay (s.disk (s.fileBlock 1 (i * 64 / 512))) (i * 64 % 512) 64 sd)

theorem file_withSlotBlock (hs : s.SpaceOk) (hb : s.fileBlock 1 (i * 64 / 512) ≠ 0) :
    (s.withSlotBlock i sd).file 1 = { s.file 1 with bytes := overlay (s.fileByte 1) (64 * i) 64 sd } := by
  have hplace : 512 * (i * 64 / 512) + i * 64 % 512 = 64 * i := by omega
  unfold withSlotBlock
  rw [file_writePart hs (live_root s) hb (by omega) fun _ _ => rfl, hplace]

theorem metaioBlock_write_ends (ha : s.Acct) (hh : h ∈ s.vnodes) (hroot : (s.sv h).ino = 1) (hi : i < 1144)
    (hb : s.fileBlock 1 (i * 64 / 512) ≠ 0) (hlive : SlotsMayBe s ((s.file 1).withSlot i sd)) :
    Ends (metaioBlock h (s.fileBlock 1 (i * 64 / 512)) (i * 64) sd 64 .write) s (fun _ t => Wrote s t i sd) E := by
  have ht : (s.withSlotBlock i sd).TableOk := tableOk_writeData ha.toTableOk ha.toSpaceOk (live_root s)
  have hst : SameTable s (s.withSlotBlock i sd) := sameTable_withBlock
  have hdir : (s.withSlotBlock i sd).file 1 = _ := file_withSlotBlock ha.toSpaceOk hb
  have hptr : ∀ ino p, s.Live ino → (s.withSlotBlock i sd).ptr ino p = s.ptr ino p := fun ino p hl =>
    ptr_writeData ha.toSpaceOk (live_root s) hb hl
  have hfile : ∀ ino, ino ≠ 1 → s.Live ino → (s.withSlotBlock i sd).file ino = s.file ino := fun ino hne hl =>
    file_writeData_of_ne ha.toSpaceOk (live_root s) hb hl hne
  have hsize : (s.file 1).size = Dinode.size (s.sv h).inode := by rw [← hroot, file, ha.inodeOf hh]
  unfold metaioBlock readblock growSize
  simp only [ends_bind, ends_read, ends_writeblock, ends_when, ends_setInode, ends_pure]
  refine ⟨fun hgrow => ?_, fun hfits => ?_⟩
  · have hown : ((s.withSlotBlock i sd).sv h).ino = 1 := hroot
    have hattr := file_withInode_self ht hh (fun p => target_setSize (n := i * 64 + 64))
      (type_setSize (n := i * 64 + 64))
    rw [hown, hdir] at hattr
    refine ha.wrote hi hlive (hst.trans sameTable_withInode) ht.withInode rfl ?_ ?_ ?_
    · intro ino p hl
      exact (ptr_withInode ht hh fun p => target_setSize).trans (hptr ino p hl)
    · have hlt : Dinode.size (s.sv h).inode < i * 64 + 64 := hgrow
      refine hattr.trans (SfsFile.ext ?_ rfl ?_ rfl)
      · show Dinode.size (setSize _ _) = max (s.file 1).size (64 * (i + 1))
        rw [size_setSize, hsize]
        omega
      · show linkcount (setSize _ _) = (s.file 1).links
        rw [linkcount_setSize, ← hroot, file, ha.inodeOf hh]
        rfl
    · intro ino hne hl
      exact (file_withInode_of_ne ht (by rwa [hown])).trans (hfile ino hne hl)
  · have hge : ¬ Dinode.size (s.sv h).inode < i * 64 + 64 := hfits
    refine ha.wrote hi hlive hst ht rfl hptr (hdir.trans (SfsFile.ext ?_ rfl rfl rfl)) hfile
    show (s.file 1).size = max (s.file 1).size (64 * (i + 1))
    omega

theorem writedir_ends (ha : s.Acct) (hh : h ∈ s.vnodes) (hroot : (s.sv h).ino = 1)
    (hlive : SlotsMayBe s ((s.file 1).withSlot i sd)) :
    Ends (writedir h i sd) s (fun _ t => Wrote s t i sd) fun _ t => Grown s t := by
  unfold writedir metaio
  simp only [ends_bind, ends_pure]
  rw [show (UioRw.write == UioRw.write) = true from rfl]
  apply (bmap_alloc_ends ha hh (i * 64 / 512)).mono _ fun _ _ hfail => hfail.2
  rintro b t ⟨hg, rfl, hb, hk⟩
  rw [hroot] at hb
  have hdir : t.file 1 = s.file 1 := hg.same.file 1 (live_root s)
  have hlive' : SlotsMayBe t ((t.file 1).withSlot i sd) := by
    intro n
    rw [hdir, hg.same.loaded]
    exact hlive n
  rw [hroot, if_neg hb]
  apply (metaioBlock_write_ends hg.acct (hg.mem hh) ((hg.same.ino h).trans hroot) (by omega) hb hlive').mono _
    fun _ _ => id
  intro _ u hw
  refine ⟨hw.acct, hg.same.toSameTable.trans hw.same, by rw [hw.dir, hdir], fun ino hne hl => ?_,
    fun ino => (hw.live ino).trans hg.same.live⟩
  rw [hw.file ino hne (hg.same.live.mpr hl), hg.same.file ino hl]

theorem writedir_used_ends (ha : s.Acct) (hh : h ∈ s.vnodes) (hroot : (s.sv h).ino = 1) (hused : (s.file 1).UsedSlot i)
    (hlive : SlotsMayBe s ((s.file 1).withSlot i sd)) :
    Ends (writedir h i sd) s (fun _ t => Wrote s t i sd) E := by
  have hi : i < 1144 := Nat.lt_of_lt_of_le hused.1 (nentries_le ha)
  have hb : s.fileBlock 1 (i * 64 / 512) ≠ 0 := by
    intro hzero
    apply hused.2
    have hbytes : ∀ k < 64, (s.file 1).slot i k = (fun _ => 0) k := by
      intro k hk
      show s.fileByte 1 (64 * i + k) = 0
      rw [fileByte, show (64 * i + k) / 512 = i * 64 / 512 by omega]
      exact if_pos hzero
    show Direntry.ino ((s.file 1).slot i) = 0
    rw [Direntry.ino_congr hbytes]
    exact load32_zero 0
  have hmapped : true = true → s.fileBlock (s.sv h).ino (i * 64 / 512) ≠ 0 := by
    rw [hroot]
    exact fun _ => hb
  unfold writedir metaio
  simp only [ends_bind, ends_pure]
  rw [show (UioRw.write == UioRw.write) = true from rfl, ends_bmap_mapped ha hh (by omega) hmapped, hroot, if_neg hb]
  exact metaioBlock_write_ends ha hh hroot hi hb hlive

/-! ### Consistent volumes -/

/-- **A consistent volume**: the accounts are in order, names are unique and links are counted. -/
structure Consistent (s : Sfs) : Prop extends Acct s where
  names : (s.file 1).NamesOk
  links : ∀ ino, s.Live ino → ino ≠ 1 → (s.file ino).links = (s.file 1).slotCount ino
  rootLinks : (s.file 1).links ≠ 0

theorem Consistent.linksTell (hc : s.Consistent) (hh : h ∈ s.vnodes) : LinksTell s h := by
  have hlinks : (s.file (s.sv h).ino).links = linkcount (s.sv h).inode := by rw [file, hc.inodeOf hh]
  unfold LinksTell
  rw [← hlinks]
  by_cases hroot : (s.sv h).ino = 1
  · rw [hroot]
    exact ⟨fun hzero => absurd hzero hc.rootLinks, fun hno => absurd (.inl rfl) hno⟩
  · rw [hc.links _ (live_of_mem hh) hroot, SfsFile.slotCount_eq_zero]
    tauto

theorem Consistent.of_files (hc : s.Consistent) (ha : t.Acct) (hlive : ∀ ino, t.Live ino → s.Live ino)
    (hfile : ∀ ino, t.Live ino → t.file ino = s.file ino) : t.Consistent := by
  have hdir := hfile 1 (live_root t)
  refine ⟨ha, ?_, fun ino hl hne => ?_, ?_⟩
  · rw [hdir]
    exact hc.names
  · rw [hfile ino hl, hdir]
    exact hc.links ino (hlive ino hl) hne
  · rw [hdir]
    exact hc.rootLinks

theorem Consistent.grown (hc : s.Consistent) (hg : Grown s t) : t.Consistent :=
  hc.of_files hg.acct (fun _ hl => hg.same.live.mp hl) fun ino hl => hg.same.file ino (hg.same.live.mp hl)

theorem Consistent.shrunk (hc : s.Consistent) (hs : Shrunk s t) : t.Consistent :=
  hc.of_files hs.acct hs.live hs.file

theorem Consistent.opened (hc : s.Consistent) (ho : Opened s t) : t.Consistent :=
  hc.of_files ho.acct (fun ino hl => (ho.live ino).mp hl) fun ino _ => ho.file ino

/-- The names of the directory, each with its inode. -/
def pairs (s : Sfs) : Set (List UInt8 × ℕ) := (s.file 1).pairs

/-! ### The empty volume -/

/-- The inode of a directory without names. -/
def rootInode : Block := setLinkcount (setType (fun _ => 0) 2) 1

/-- A volume of `n` blocks with an empty directory, mounted. -/
def emptyVolume (n : ℕ) : Sfs where
  nblocks := n
  freemap b := decide (b < 2 + freemapBlocks n ∨ n ≤ b)
  disk b := if b = 1 then rootInode else fun _ => 0
  vnodes := [0]
  sv _ := ⟨1, rootInode, false, 1⟩
  fresh := 1

theorem target_eq_zero {i : Block} (hdirect : ∀ k < 15, direct i k = 0)
    (hindirect : indirect i = 0) : p.target i disk = 0 := by
  cases p with
  | direct k =>
    by_cases hk : k < 15
    · simp only [Ptr.target, hdirect k hk, ite_self]
    · simp only [Ptr.target, hk, if_false]
  | indirect => exact hindirect
  | entry j => simp [Ptr.target, hindirect]

theorem target_rootInode : p.target rootInode disk = 0 := by
  apply target_eq_zero
  · intro k _
    exact (direct_setLinkcount.trans direct_setType).trans (load32_zero _)
  · exact (indirect_setLinkcount.trans indirect_setType).trans (load32_zero _)

theorem tableOk_emptyVolume (n : ℕ) : (emptyVolume n).TableOk := by
  have hmem : ∀ h ∈ (emptyVolume n).vnodes, h = 0 := fun h hh => List.mem_singleton.mp hh
  refine ⟨List.nodup_singleton 0, fun h hh h' hh' _ => ?_, fun h hh => ?_, fun h _ => Nat.one_pos, fun h _ _ => rfl⟩
  · rw [hmem h hh, hmem h' hh']
  · rw [hmem h hh]
    exact Nat.one_pos

theorem inodeOf_emptyVolume (n : ℕ) : (emptyVolume n).inodeOf 1 = rootInode :=
  (tableOk_emptyVolume n).inodeOf (h := 0) List.mem_cons_self

theorem ptr_emptyVolume (n : ℕ) (p : Ptr) : (emptyVolume n).ptr 1 p = 0 := by
  unfold ptr
  rw [inodeOf_emptyVolume, target_rootInode]

theorem file_emptyVolume (n : ℕ) : (emptyVolume n).file 1 = ⟨0, 2, 1, fun _ => 0⟩ := by
  have hbytes : (emptyVolume n).fileByte 1 = fun _ => 0 := funext fun q => if_pos (ptr_emptyVolume n _)
  have hsize : Dinode.size rootInode = 0 := (size_setLinkcount.trans size_setType).trans (load32_zero 0)
  have htype : Dinode.type rootInode = 2 := type_setLinkcount.trans type_setType
  have hlinks : linkcount rootInode = 1 := linkcount_setLinkcount
  unfold file
  rw [inodeOf_emptyVolume, hbytes, hsize, htype, hlinks]

theorem not_usedSlot_emptyVolume (n i : ℕ) : ¬ ((emptyVolume n).file 1).UsedSlot i := by
  rw [file_emptyVolume]
  exact fun hused => Nat.not_lt_zero i hused.1

theorem live_emptyVolume (n ino : ℕ) : (emptyVolume n).Live ino ↔ ino = 1 := by
  constructor
  · rintro (rfl | ⟨i, hused, -⟩ | ⟨h, -, rfl⟩)
    · rfl
    · exact absurd hused (not_usedSlot_emptyVolume n i)
    · rfl
  · rintro rfl
    exact live_root _

theorem owns_emptyVolume (n u : ℕ) (r : BlockRef) :
    (emptyVolume n).owns r = some u ↔ r = .reserved u ∧ (emptyVolume n).Reserved u ∨ r = .inode u ∧ u = 1 := by
  classical
  cases r with
  | reserved b =>
    have howns : (emptyVolume n).owns (.reserved b) = if (emptyVolume n).Reserved b then some b else none :=
      if_congr Iff.rfl rfl rfl
    rw [howns]
    by_cases hb : (emptyVolume n).Reserved b
    · rw [if_pos hb, Option.some.injEq, BlockRef.reserved.injEq]
      exact ⟨fun heq => .inl ⟨heq, heq ▸ hb⟩, fun h => (h.resolve_right nofun).1⟩
    · rw [if_neg hb, BlockRef.reserved.injEq]
      exact ⟨nofun, fun h => absurd ((h.resolve_right nofun).1 ▸ (h.resolve_right nofun).2) hb⟩
  | inode ino =>
    by_cases hl : (emptyVolume n).Live ino
    · have hone := (live_emptyVolume n ino).mp hl
      rw [owns_inode hl, Option.some.injEq, BlockRef.inode.injEq]
      exact ⟨fun heq => .inr ⟨heq, heq ▸ hone⟩, fun h => (h.resolve_left fun h => nomatch h.1).1⟩
    · have hnone : (emptyVolume n).owns (.inode ino) = none := if_neg hl
      rw [hnone, BlockRef.inode.injEq]
      refine ⟨nofun, fun h => ?_⟩
      obtain ⟨rfl, rfl⟩ := h.resolve_left fun h => nomatch h.1
      exact absurd (live_root _) hl
  | ptr ino p =>
    have hnone : (emptyVolume n).owns (.ptr ino p) = none := by
      by_cases hl : (emptyVolume n).Live ino
      · rw [(live_emptyVolume n ino).mp hl]
        exact owns_ptr_none (ptr_emptyVolume n p)
      · exact owns_ptr_of_not_live hl
    rw [hnone]
    exact ⟨nofun, fun h => h.elim (fun h => nomatch h.1) fun h => nomatch h.1⟩

theorem consistent_emptyVolume (hfit : 2 + freemapBlocks n ≤ n) (hn : n + 4095 < 2 ^ 32) :
    (emptyVolume n).Consistent := by
  have hbits : n ≤ freemapBits n ∧ freemapBits n < n + 4096 ∧ freemapBits n = 4096 * freemapBlocks n := by
    unfold freemapBlocks freemapBits
    omega
  have hused : ∀ u, (emptyVolume n).Used u ↔ u < 2 + freemapBlocks n := by
    intro u
    show u < n ∧ decide (u < 2 + freemapBlocks n ∨ n ≤ u) = true ↔ _
    rw [decide_eq_true_eq]
    omega
  have hled : Ledger.Exact (emptyVolume n).owns (emptyVolume n).Used := by
    refine ⟨fun r r' u hr hr' => ?_, fun u => ?_⟩
    · rw [owns_emptyVolume] at hr hr'
      obtain ⟨rfl, hu⟩ | ⟨rfl, hu⟩ := hr <;> obtain ⟨rfl, hu'⟩ | ⟨rfl, hu'⟩ := hr'
      · rfl
      · unfold Reserved at hu
        omega
      · unfold Reserved at hu'
        omega
      · rfl
    · rw [hused]
      simp only [owns_emptyVolume]
      constructor
      · intro hu
        by_cases hone : u = 1
        · exact ⟨.inode u, .inr ⟨rfl, hone⟩⟩
        · refine ⟨.reserved u, .inl ⟨rfl, ?_⟩⟩
          show u = 0 ∨ 2 ≤ u ∧ u < 2 + freemapBlocks n
          omega
      · rintro ⟨r, ⟨-, hu⟩ | ⟨-, rfl⟩⟩
        · have : u = 0 ∨ 2 ≤ u ∧ u < 2 + freemapBlocks n := hu
          omega
        · omega
  have hhigh : ∀ b, n ≤ b → b < freemapBits n → decide (b < 2 + freemapBlocks n ∨ n ≤ b) = true := fun b hb _ =>
    decide_eq_true (.inr hb)
  refine ⟨⟨tableOk_emptyVolume n, ⟨hled, hhigh, hbits.1⟩, ⟨fun ino hl => ?_, ?_, ?_⟩⟩, ⟨?_, ?_⟩, fun ino hl hne => ?_, ?_⟩
  · rw [(live_emptyVolume n ino).mp hl, file_emptyVolume]
    rfl
  · rw [file_emptyVolume]
    exact Nat.zero_mod 64
  · rw [file_emptyVolume]
    exact Nat.zero_le _
  · exact fun i _ hused => absurd hused (not_usedSlot_emptyVolume n i)
  · exact fun i hused => absurd hused (not_usedSlot_emptyVolume n i)
  · exact absurd ((live_emptyVolume n ino).mp hl) hne
  · rw [file_emptyVolume]
    exact Nat.one_ne_zero

/-! ### Adding and taking away a name -/

/-- The name has been added in a free slot. -/
structure Added (s t : Sfs) (name : List UInt8) (n slot : ℕ) : Prop where
  wrote : Wrote s t slot (Direntry.make n name)
  slot_le : slot ≤ (s.file 1).nentries
  free : ¬ (s.file 1).UsedSlot slot
  fits : name.length ≤ 59
  new : ∀ j, (s.file 1).UsedSlot j → (s.file 1).slotName j ≠ name

theorem ino_make_of_loaded {name : List UInt8} (hs : s.SpaceOk) (hn : s.Loaded n) :
    Direntry.ino (Direntry.make n name) = n := by
  rw [Direntry.ino_make]
  exact Nat.mod_eq_of_lt (Nat.lt_trans (hs.live_used (.inr (.inr hn))).1 hs.nblocks_lt)

/-- **`sfs_dir_link`** adds a new name for an inode in memory, or fails and changes no file. -/
theorem dirLink_ends (hc : s.Consistent) (hh : h ∈ s.vnodes) (hroot : (s.sv h).ino = 1)
    (hn : s.Loaded n) :
    Ends (dirLink h name n) s (fun slot t => Added s t name.val n slot) fun _ t => Grown s t := by
  have hino : Direntry.ino (Direntry.make n name.val) = n := ino_make_of_loaded hc.toSpaceOk hn
  have hn0 : n ≠ 0 := hc.live_ne_zero (.inr (.inr hn))
  unfold dirLink
  rw [ends_bind]
  apply (dirFindname_ends hc.toAcct hh hroot hc.names).mono _ fun _ _ => id
  rintro found t ⟨rfl, hf⟩
  cases hentry : found.entry with
  | some q =>
    simp only [ends_fail]
    exact .refl hc.toAcct
  | none =>
    have hnew : ∀ j, (t.file 1).UsedSlot j → (t.file 1).slotName j ≠ name.val := fun j hj =>
      hf.absent hentry j hj.1 hj
    simp only []
    by_cases hlong : name.val.length + 1 > 60
    · rw [if_pos hlong, ends_fail]
      exact .refl hc.toAcct
    · have hwrite : ∀ slot ≤ (t.file 1).nentries, ¬ (t.file 1).UsedSlot slot →
          Ends (writedir h slot (Direntry.make n name.val)) t (fun _ u => Added t u name.val n slot)
            fun _ u => Grown t u := by
        intro slot hle hfree
        have hlive : SlotsMayBe t ((t.file 1).withSlot slot (Direntry.make n name.val)) := by
          intro m
          rw [SfsFile.holds_link hc.slots hle hfree hino hn0]
          constructor
          · rintro ((rfl | hm) | hm)
            · exact .inr hn
            · exact .inl hm
            · exact .inr hm
          · rintro (hm | hm)
            · exact .inl (.inr hm)
            · exact .inr hm
        apply (writedir_ends hc.toAcct hh hroot hlive).mono _ fun _ _ => id
        intro _ u hw
        exact ⟨hw, hle, hfree, by omega, hnew⟩
      rw [if_neg hlong, ends_bind]
      cases hempty : found.emptyslot with
      | some slot =>
        obtain ⟨hlt, hzero⟩ := hf.empty slot hempty
        unfold linkSlot
        rw [ends_pure, ends_bind]
        apply (hwrite slot (Nat.le_of_lt hlt) fun hused => hused.2 hzero).mono _ fun _ _ => id
        intro _ u hadd
        rw [ends_pure]
        exact hadd
      | none =>
        unfold linkSlot
        rw [ends_dirNentries hc.toAcct hh hroot, ends_bind]
        apply (hwrite _ (Nat.le_refl _) fun hused => Nat.lt_irrefl _ hused.1).mono _ fun _ _ => id
        intro _ u hadd
        rw [ends_pure]
        exact hadd

theorem dirUnlink_ends (ha : s.Acct) (hh : h ∈ s.vnodes) (hroot : (s.sv h).ino = 1) (hused : (s.file 1).UsedSlot i)
    (hn : s.Loaded ((s.file 1).slotIno i)) :
    Ends (dirUnlink h i) s (fun _ t => Wrote s t i (Direntry.make 0 [])) E := by
  apply writedir_used_ends ha hh hroot hused
  intro m
  constructor
  · rintro (hm | hm)
    · exact .inl (SfsFile.holds_of_unlink ha.slots hused Direntry.ino_make_zero hm)
    · exact .inr hm
  · rintro (hm | hm)
    · obtain hm' | rfl := SfsFile.holds_unlink ha.slots hused Direntry.ino_make_zero hm
      · exact .inl hm'
      · exact .inr hn
    · exact .inr hm

/-- The name was found and its file is in memory. -/
structure Found (s t : Sfs) (name : List UInt8) (v slot : ℕ) : Prop where
  opened : Opened s t
  mem : v ∈ t.vnodes
  used : (s.file 1).UsedSlot slot
  name : (s.file 1).slotName slot = name
  ino : (t.sv v).ino = (s.file 1).slotIno slot

theorem lookonce_ends {memory : SfsMemory} (hc : s.Consistent) (hh : h ∈ s.vnodes) (hroot : (s.sv h).ino = 1) :
    Ends (lookonce h name memory) s (fun r t => Found s t name.val r.1 r.2) fun _ t => t = s := by
  unfold lookonce
  rw [ends_bind]
  apply (dirFindname_ends hc.toAcct hh hroot hc.names).mono _ fun _ _ => id
  rintro found t ⟨rfl, hf⟩
  cases hentry : found.entry with
  | none =>
    simp only [ends_fail]
  | some q =>
    obtain ⟨-, hused, hname, hino⟩ := hf.present q.1 q.2 hentry
    have hholds : (t.file 1).Holds q.2 := ⟨q.1, hused, hino⟩
    have hlive : t.Live q.2 := .inr (.inl hholds)
    simp only []
    rw [ends_bind]
    apply (loadvnode_ends hc.toAcct hlive).mono _ fun _ _ hfail => hfail.2.1
    rintro v u ⟨ho, hmem, hvino, -⟩
    have hlinks : linkcount (u.sv v).inode ≠ 0 := by
      have htell := (hc.opened ho).linksTell hmem
      unfold LinksTell at htell
      rw [Ne, htell, hvino, ho.file]
      exact fun hno => hno (.inr hholds)
    rw [ends_bind, ends_read, ends_bind, ends_require]
    refine ⟨hlinks, ?_⟩
    rw [ends_pure]
    exact ⟨ho, hmem, hused, hname, hvino.trans hino.symm⟩

end Sfs

end Os161Kernel
