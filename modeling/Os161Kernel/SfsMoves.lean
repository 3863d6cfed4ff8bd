import Os161Kernel.SfsInvariant

/-!
# Moves of blocks

The ways in which the file system changes a volume, each with what it does to the accounts and to the files: a block is
given to a pointer, a pointer gives its block back, a data block is written, an inode in memory is changed or synced.
-/

namespace Os161Kernel

open Memory Ledger Function Dinode

namespace Sfs

variable {s s' : Sfs} {ino h b k : ℕ} {p : Ptr}

/-! ### Files that stay -/

/-- The same vnodes are there and every file in use is the same. -/
structure SameFiles (s s' : Sfs) : Prop extends SameTable s s' where
  file : ∀ ino, s.Live ino → s'.file ino = s.file ino

theorem live_congr (hst : SameTable s s') (hdir : s'.file 1 = s.file 1) : s'.Live ino ↔ s.Live ino := by
  unfold Live
  rw [hdir, hst.loaded]

theorem SameFiles.live (hsf : SameFiles s s') : s'.Live ino ↔ s.Live ino :=
  live_congr hsf.toSameTable (hsf.file 1 (live_root s))

theorem SameFiles.refl (s : Sfs) : SameFiles s s := ⟨.refl s, fun _ _ => rfl⟩

variable {s'' : Sfs} {i data d : Block} {ino' idb j : ℕ}

theorem SameFiles.trans (h : SameFiles s s') (h' : SameFiles s' s'') : SameFiles s s'' :=
  ⟨h.toSameTable.trans h'.toSameTable, fun ino hl => (h'.file ino (h.live.mpr hl)).trans (h.file ino hl)⟩

theorem KindsOk.of_sameFiles (hk : s.KindsOk) (hsf : SameFiles s s') : s'.KindsOk where
  types ino hl := by
    have hl' := hsf.live.mp hl
    rw [hsf.file ino hl']
    exact hk.types ino hl'
  slots := by
    rw [hsf.file 1 (live_root s)]
    exact hk.slots
  small := by
    rw [hsf.file 1 (live_root s)]
    exact hk.small

/-! ### A pointer receives a block -/

theorem not_used_of_free (hfree : s.freemap b = false) : ¬ s.Used b := fun hu => nomatch hfree.symm.trans hu.2

theorem used_assign (hn : s'.nblocks = s.nblocks) (hfm : s'.freemap = update s.freemap b true)
    (hb : b < s.nblocks) (v : ℕ) : s'.Used v ↔ v = b ∨ s.Used v := by
  unfold Used
  rw [hn, hfm]
  by_cases hv : v = b
  · simp [hv, hb]
  · simp [hv]

theorem high_update {c : Bool} (hs : s.SpaceOk) (hn : s'.nblocks = s.nblocks)
    (hfm : s'.freemap = update s.freemap b c) (hb : b < s.nblocks) (v : ℕ) (hv : s'.nblocks ≤ v)
    (hv' : v < freemapBits s'.nblocks) : s'.freemap v = true := by
  rw [hn] at hv hv'
  rw [hfm, update_of_ne (by omega)]
  exact hs.high v hv hv'

theorem SpaceOk.assign (hs : s.SpaceOk) (hlive : ∀ ino, s'.Live ino ↔ s.Live ino) (hn : s'.nblocks = s.nblocks)
    (hfm : s'.freemap = update s.freemap b true) (hb : b < s.nblocks) (hfree : s.freemap b = false)
    (hl : s.Live ino) (hzero : s.ptr ino p = 0) (hself : s'.ptr ino p = b)
    (hother : ∀ ino' p', s.Live ino' → ¬ (ino' = ino ∧ p' = p) → s'.ptr ino' p' = s.ptr ino' p') : s'.SpaceOk where
  ledger := by
    have hne : b ≠ 0 := by
      rintro rfl
      exact not_used_of_free hfree hs.zero_used
    apply hs.ledger.assign (not_used_of_free hfree) (owns_ptr_none hzero)
    · rw [owns_ptr ((hlive ino).mpr hl) (hself ▸ hne), hself]
    · intro r hr
      apply owns_congr hlive hn
      rintro ino' p' rfl hl'
      apply hother ino' p' hl'
      rintro ⟨rfl, rfl⟩
      exact hr rfl
    · exact used_assign hn hfm hb
  high := high_update hs hn hfm hb
  covers := by
    rw [hn]
    exact hs.covers

theorem fileByte_assign (hblock : ∀ k, s'.fileBlock ino k = s.fileBlock ino k ∨
      s.fileBlock ino k = 0 ∧ s'.disk (s'.fileBlock ino k) = fun _ => 0)
    (hdisk : ∀ k, s.fileBlock ino k ≠ 0 → s'.disk (s.fileBlock ino k) = s.disk (s.fileBlock ino k)) (q : ℕ) :
    s'.fileByte ino q = s.fileByte ino q := by
  unfold fileByte
  obtain heq | ⟨hzero, hclear⟩ := hblock (q / 512)
  · rw [heq]
    by_cases hz : s.fileBlock ino (q / 512) = 0
    · rw [if_pos hz, if_pos hz]
    · rw [if_neg hz, if_neg hz, hdisk _ hz]
  · rw [if_pos hzero, hclear]
    exact ite_self 0

/-- **A pointer receives a cleared block**; no file changes. -/
theorem Acct.assign (ha : s.Acct) (hst : SameTable s s') (ht : s'.TableOk)
    (hfm : s'.freemap = update s.freemap b true) (hb : b < s.nblocks) (hfree : s.freemap b = false)
    (hl : s.Live ino) (hzero : s.ptr ino p = 0) (hself : s'.ptr ino p = b)
    (hother : ∀ ino' p', s.Live ino' → ¬ (ino' = ino ∧ p' = p) → s'.ptr ino' p' = s.ptr ino' p')
    (hsize : ∀ ino', s.Live ino' → Dinode.size (s'.inodeOf ino') = Dinode.size (s.inodeOf ino'))
    (htype : ∀ ino', s.Live ino' → Dinode.type (s'.inodeOf ino') = Dinode.type (s.inodeOf ino'))
    (hlinks : ∀ ino', s.Live ino' → linkcount (s'.inodeOf ino') = linkcount (s.inodeOf ino'))
    (hclear : s'.disk b = fun _ => 0)
    (hdisk : ∀ ino' k, s.Live ino' → s.fileBlock ino' k ≠ 0 →
      s'.disk (s.fileBlock ino' k) = s.disk (s.fileBlock ino' k)) : s'.Acct ∧ SameFiles s s' := by
  have hbytes : ∀ ino', s.Live ino' → s'.fileByte ino' = s.fileByte ino' := by
    intro ino' hl'
    funext q
    apply fileByte_assign _ (fun k => hdisk ino' k hl') q
    intro k
    by_cases hself' : ino' = ino ∧ Ptr.block k = p
    · obtain ⟨rfl, rfl⟩ := hself'
      exact .inr ⟨hzero, by rw [show s'.fileBlock ino' k = b from hself, hclear]⟩
    · exact .inl (hother ino' _ hl' hself')
  have hsf : SameFiles s s' := by
    refine ⟨hst, fun ino' hl' => ?_⟩
    unfold Sfs.file
    rw [hsize ino' hl', htype ino' hl', hlinks ino' hl', hbytes ino' hl']
  have hsp : s'.SpaceOk :=
    ha.toSpaceOk.assign (fun _ => hsf.live) hst.nblocks hfm hb hfree hl hzero hself hother
  exact ⟨⟨ht, hsp, ha.toKindsOk.of_sameFiles hsf⟩, hsf⟩

/-- The volume with block `b` taken and cleared. -/
def alloc (s : Sfs) (b : ℕ) : Sfs :=
  { s.withBlock b (fun _ => 0) with freemap := update s.freemap b true }

theorem sameTable_alloc : SameTable s (s.alloc b) := ⟨rfl, rfl, rfl, fun _ => rfl, fun _ => rfl⟩

theorem inodeOf_alloc (hs : s.SpaceOk) (hfree : s.freemap b = false) (hl : s.Live ino) :
    (s.alloc b).inodeOf ino = s.inodeOf ino :=
  inodeOf_withBlock (hs.off_free hl (not_used_of_free hfree)).1.inode

theorem ptr_alloc (hs : s.SpaceOk) (hfree : s.freemap b = false) (hl : s.Live ino) :
    (s.alloc b).ptr ino p = s.ptr ino p :=
  ptr_withBlock (hs.off_free hl (not_used_of_free hfree)).1 p

theorem disk_alloc_of_ne (hne : k ≠ b) : (s.alloc b).disk k = s.disk k := update_of_ne hne ..

theorem disk_alloc_self : (s.alloc b).disk b = fun _ => 0 := update_self ..

theorem SpaceOk.fileBlock_ne (hs : s.SpaceOk) (hfree : s.freemap b = false) (hl : s.Live ino) :
    s.fileBlock ino k ≠ b :=
  (hs.off_free hl (not_used_of_free hfree)).2 k

theorem tableOk_alloc (ht : s.TableOk) (hs : s.SpaceOk) (hfree : s.freemap b = false) : (s.alloc b).TableOk := by
  have hblock : (s.withBlock b fun _ => 0).TableOk := by
    apply ht.withBlock
    rintro h hh rfl
    exact not_used_of_free hfree (hs.live_used (live_of_mem hh))
  exact ⟨hblock.nodup, hblock.unique, hblock.fresh, hblock.refs, hblock.clean⟩

theorem target_setDirect {disk : ℕ → Block} (hk : k < 15) (hp : p ≠ .direct k) :
    p.target (setDirect i k b) disk = p.target i disk := by
  cases p with
  | direct k' =>
    have hne : k' ≠ k := fun heq => hp (heq ▸ rfl)
    simp only [Ptr.target, direct_setDirect_of_ne hne]
  | indirect => exact indirect_setDirect hk
  | entry j => simp only [Ptr.target, indirect_setDirect hk]

theorem inodeOf_withInode_eq {α : Type} {f : Block → α} (ht : s.TableOk) (hh : h ∈ s.vnodes)
    (hf : f i = f (s.sv h).inode) : f ((s.withInode h i).inodeOf ino) = f (s.inodeOf ino) := by
  by_cases hino : ino = (s.sv h).ino
  · rw [hino, inodeOf_withInode_self ht hh, ht.inodeOf hh, hf]
  · rw [inodeOf_withInode_of_ne ht hino]

theorem ptr_withInode_self (ht : s.TableOk) (hh : h ∈ s.vnodes) :
    (s.withInode h i).ptr (s.sv h).ino p = p.target i s.disk := by
  unfold ptr
  rw [inodeOf_withInode_self ht hh]
  rfl

theorem Acct.allocPtr (ha : s.Acct) (hh : h ∈ s.vnodes) (hb : b < s.nblocks) (hfree : s.freemap b = false)
    (hold : p.target (s.sv h).inode s.disk = 0) (hself : p.target i (s.alloc b).disk = b)
    (hother : ∀ p', p' ≠ p → p'.target i (s.alloc b).disk = p'.target (s.sv h).inode (s.alloc b).disk)
    (hsize : Dinode.size i = Dinode.size (s.sv h).inode) (htype : Dinode.type i = Dinode.type (s.sv h).inode)
    (hlinks : linkcount i = linkcount (s.sv h).inode) :
    ((s.alloc b).withInode h i).Acct ∧ SameFiles s ((s.alloc b).withInode h i) ∧
      ((s.alloc b).withInode h i).ptr (s.sv h).ino p = b := by
  have hta := tableOk_alloc ha.toTableOk ha.toSpaceOk hfree
  have hown : (s.sv h).ino = ((s.alloc b).sv h).ino := rfl
  have hself' : ((s.alloc b).withInode h i).ptr (s.sv h).ino p = b := by
    rw [hown, ptr_withInode_self hta hh, hself]
  have hother' : ∀ ino' p', s.Live ino' → ¬ (ino' = (s.sv h).ino ∧ p' = p) →
      ((s.alloc b).withInode h i).ptr ino' p' = s.ptr ino' p' := by
    intro ino' p' hl' hne
    rw [← ptr_alloc ha.toSpaceOk hfree hl']
    by_cases hino : ino' = (s.sv h).ino
    · subst hino
      rw [hown, ptr_withInode_self hta hh, hother p' fun hp => hne ⟨rfl, hp⟩]
      unfold ptr
      rw [hta.inodeOf hh]
      rfl
    · exact ptr_withInode_of_ne hta hino p'
  have hattr : ∀ {f : Block → ℕ}, f i = f (s.sv h).inode → ∀ ino', s.Live ino' →
      f (((s.alloc b).withInode h i).inodeOf ino') = f (s.inodeOf ino') := by
    intro f hf ino' hl'
    rw [← inodeOf_alloc ha.toSpaceOk hfree hl']
    exact inodeOf_withInode_eq hta hh hf
  have hold' : s.ptr (s.sv h).ino p = 0 := by
    unfold ptr
    rw [ha.inodeOf hh, hold]
  obtain ⟨hacct, hsame⟩ := ha.assign (sameTable_alloc.trans sameTable_withInode) hta.withInode rfl hb hfree
    (live_of_mem hh) hold' hself' hother' (hattr hsize) (hattr htype) (hattr hlinks) disk_alloc_self
    fun ino' k' hl' _ => disk_alloc_of_ne (ha.fileBlock_ne hfree hl')
  exact ⟨hacct, hsame, hself'⟩

theorem Acct.allocDirect (ha : s.Acct) (hh : h ∈ s.vnodes) (hk : k < 15)
    (hzero : direct (s.sv h).inode k = 0) (hb : b < s.nblocks) (hfree : s.freemap b = false) :
    ((s.alloc b).withInode h (setDirect (s.sv h).inode k b)).Acct ∧
      SameFiles s ((s.alloc b).withInode h (setDirect (s.sv h).inode k b)) ∧
      ((s.alloc b).withInode h (setDirect (s.sv h).inode k b)).ptr (s.sv h).ino (.direct k) = b := by
  have hlt := ha.nblocks_lt
  apply ha.allocPtr hh hb hfree
  · simp only [Ptr.target, hk, if_true, hzero]
  · simp only [Ptr.target, hk, if_true, direct_setDirect_self]
    omega
  · intro p' hp'
    exact target_setDirect hk hp'
  · exact size_setDirect
  · exact type_setDirect
  · exact linkcount_setDirect

theorem load32_zero (a : ℕ) : load32 (fun _ => 0) a = 0 := by simp [load32]

theorem Acct.allocIndirect (ha : s.Acct) (hh : h ∈ s.vnodes) (hzero : indirect (s.sv h).inode = 0)
    (hb : b < s.nblocks) (hfree : s.freemap b = false) :
    ((s.alloc b).withInode h (setIndirect (s.sv h).inode b)).Acct ∧
      SameFiles s ((s.alloc b).withInode h (setIndirect (s.sv h).inode b)) ∧
      ((s.alloc b).withInode h (setIndirect (s.sv h).inode b)).ptr (s.sv h).ino .indirect = b := by
  have hlt : b % 2 ^ 32 = b := Nat.mod_eq_of_lt (Nat.lt_trans hb ha.nblocks_lt)
  apply ha.allocPtr hh hb hfree
  · exact hzero
  · simp only [Ptr.target, indirect_setIndirect, hlt]
  · intro p' hp'
    cases p' with
    | direct k =>
      by_cases hk : k < 15
      · simp only [Ptr.target, hk, if_true, direct_setIndirect hk]
      · simp only [Ptr.target, hk, if_false]
    | indirect => exact absurd rfl hp'
    | entry j =>
      simp only [Ptr.target, hzero, indirect_setIndirect, hlt, disk_alloc_self, load32_zero]
      simp
  · exact size_setIndirect
  · exact type_setIndirect
  · exact linkcount_setIndirect

/-- The indirect block of a file holds no inode and no data, and is not that of another file. -/
theorem SpaceOk.off_indirect (hs : s.SpaceOk) (hl : s.Live ino) (hl' : s.Live ino')
    (hid : s.ptr ino .indirect = idb) (hne : idb ≠ 0) :
    ino' ≠ idb ∧ (ino' ≠ ino → s.ptr ino' .indirect ≠ idb) ∧ ∀ k, s.fileBlock ino' k ≠ idb := by
  subst hid
  refine ⟨?_, ?_, ?_⟩
  · intro heq
    exact hs.ptr_ne_inode hl hl' heq.symm
  · intro hino heq
    exact hino (hs.ptr_inj hl hl' hne heq).1
  · intro k heq
    exact Ptr.block_ne_indirect k (hs.ptr_inj hl hl' hne heq).2

theorem ptr_withBlock_inode (hino : ino ≠ b) (hp : ∀ j, p ≠ .entry j) :
    (s.withBlock b data).ptr ino p = s.ptr ino p := by
  unfold ptr
  rw [inodeOf_withBlock (.inr hino)]
  cases p with
  | direct k => rfl
  | indirect => rfl
  | entry j => exact absurd rfl (hp j)

theorem ptr_withBlock_entry (hino : ino ≠ b) (hid : s.ptr ino .indirect = b) :
    (s.withBlock b data).ptr ino (.entry j) = if j < 128 ∧ b ≠ 0 then load32 data (4 * j) else 0 := by
  unfold ptr
  rw [inodeOf_withBlock (.inr hino)]
  have hid' : indirect (s.inodeOf ino) = b := hid
  simp only [Ptr.target, hid']
  rw [show (s.withBlock b data).disk b = data from update_self ..]

theorem ptr_entry (hj : j < 128) (hid : s.ptr ino .indirect ≠ 0) :
    s.ptr ino (.entry j) = load32 (s.disk (s.ptr ino .indirect)) (4 * j) := if_pos ⟨hj, hid⟩

theorem Acct.allocEntry (ha : s.Acct) (hl : s.Live ino) (hid : s.ptr ino .indirect = idb) (hne : idb ≠ 0)
    (hj : j < 128) (hzero : load32 (s.disk idb) (4 * j) = 0) (hb : b < s.nblocks) (hfree : s.freemap b = false) :
    ((s.alloc b).withBlock idb (store32 (s.disk idb) (4 * j) b)).Acct ∧
      SameFiles s ((s.alloc b).withBlock idb (store32 (s.disk idb) (4 * j) b)) ∧
      ((s.alloc b).withBlock idb (store32 (s.disk idb) (4 * j) b)).ptr ino (.entry j) = b := by
  have hta := tableOk_alloc ha.toTableOk ha.toSpaceOk hfree
  have hptr : ∀ {ino' p'}, s.Live ino' → (s.alloc b).ptr ino' p' = s.ptr ino' p' := fun hl' =>
    ptr_alloc ha.toSpaceOk hfree hl'
  have hino : ∀ {ino'}, s.Live ino' → ino' ≠ idb := fun hl' => (ha.off_indirect hl hl' hid hne).1
  have hself : ((s.alloc b).withBlock idb (store32 (s.disk idb) (4 * j) b)).ptr ino (.entry j) = b := by
    rw [ptr_withBlock_entry (hino hl) ((hptr hl).trans hid), if_pos ⟨hj, hne⟩, load32_store32]
    exact Nat.mod_eq_of_lt (Nat.lt_trans hb ha.nblocks_lt)
  have hother : ∀ ino' p', s.Live ino' → ¬ (ino' = ino ∧ p' = .entry j) →
      ((s.alloc b).withBlock idb (store32 (s.disk idb) (4 * j) b)).ptr ino' p' = s.ptr ino' p' := by
    intro ino' p' hl' hnot
    rw [← hptr hl']
    by_cases heq : ino' = ino
    · subst heq
      cases p' with
      | direct k => exact ptr_withBlock_inode (hino hl') nofun
      | indirect => exact ptr_withBlock_inode (hino hl') nofun
      | entry j' =>
        have hjj : j' ≠ j := fun heq => hnot ⟨rfl, heq ▸ rfl⟩
        rw [ptr_withBlock_entry (hino hl') ((hptr hl').trans hid), load32_store32_of_disjoint (by omega), hptr hl']
        subst hid
        rfl
    · apply ptr_withBlock
      refine ⟨.inr (hino hl'), ?_⟩
      rw [hptr hl']
      exact (ha.off_indirect hl hl' hid hne).2.1 heq
  have hinode : ∀ ino', s.Live ino' →
      ((s.alloc b).withBlock idb (store32 (s.disk idb) (4 * j) b)).inodeOf ino' = s.inodeOf ino' := by
    intro ino' hl'
    rw [inodeOf_withBlock (.inr (hino hl')), inodeOf_alloc ha.toSpaceOk hfree hl']
  have hold : s.ptr ino (.entry j) = 0 := by
    rw [ptr_entry hj (hid ▸ hne), hid, hzero]
  have hidb : b ≠ idb := by
    rintro rfl
    exact (ha.off_free hl (not_used_of_free hfree)).1.indirect hid
  obtain ⟨hacct, hsame⟩ := ha.assign (sameTable_alloc.trans sameTable_withBlock)
    (hta.withBlock fun h hh => hino (live_of_mem hh)) rfl hb hfree hl hold hself hother
    (fun ino' hl' => by rw [hinode ino' hl']) (fun ino' hl' => by rw [hinode ino' hl'])
    (fun ino' hl' => by rw [hinode ino' hl'])
    ((update_of_ne hidb ..).trans disk_alloc_self)
    fun ino' k' hl' _ => (update_of_ne ((ha.off_indirect hl hl' hid hne).2.2 k') ..).trans
      (disk_alloc_of_ne (ha.fileBlock_ne hfree hl'))
  exact ⟨hacct, hsame, hself⟩

/-! ### A pointer gives its block back -/

/-- The same vnodes are there and every file in use other than `own` is the same; that one keeps its type and links. -/
structure SameOthers (own : ℕ) (s s' : Sfs) : Prop extends SameTable s s' where
  file : ∀ ino', ino' ≠ own → s.Live ino' → s'.file ino' = s.file ino'
  type : (s'.file own).type = (s.file own).type
  links : (s'.file own).links = (s.file own).links

theorem SameOthers.live (hso : SameOthers ino s s') (hne : ino ≠ 1) : s'.Live ino' ↔ s.Live ino' :=
  live_congr hso.toSameTable (hso.file 1 hne.symm (live_root s))

theorem SameOthers.refl (ino : ℕ) (s : Sfs) : SameOthers ino s s := ⟨.refl s, fun _ _ _ => rfl, rfl, rfl⟩

theorem SameOthers.trans (h : SameOthers ino s s') (hne : ino ≠ 1) (h' : SameOthers ino s' s'') :
    SameOthers ino s s'' where
  toSameTable := h.toSameTable.trans h'.toSameTable
  file ino' hino hl := (h'.file ino' hino ((h.live hne).mpr hl)).trans (h.file ino' hino hl)
  type := h'.type.trans h.type
  links := h'.links.trans h.links

theorem KindsOk.of_sameOthers (hk : s.KindsOk) (hso : SameOthers ino s s') (hne : ino ≠ 1) : s'.KindsOk where
  types ino' hl := by
    have hl' := (hso.live hne).mp hl
    by_cases hino : ino' = ino
    · rw [hino, hso.type, ← hino]
      exact hk.types ino' hl'
    · rw [hso.file ino' hino hl']
      exact hk.types ino' hl'
  slots := by
    rw [hso.file 1 hne.symm (live_root s)]
    exact hk.slots
  small := by
    rw [hso.file 1 hne.symm (live_root s)]
    exact hk.small

theorem used_release (hn : s'.nblocks = s.nblocks) (hfm : s'.freemap = update s.freemap b false) (v : ℕ) :
    s'.Used v ↔ v ≠ b ∧ s.Used v := by
  unfold Used
  rw [hn, hfm]
  by_cases hv : v = b
  · simp [hv]
  · simp [hv]

theorem SpaceOk.release (hs : s.SpaceOk) (hlive : ∀ ino, s'.Live ino ↔ s.Live ino) (hn : s'.nblocks = s.nblocks)
    (hfm : s'.freemap = update s.freemap b false) (hl : s.Live ino) (hp : s.ptr ino p = b) (hb : b ≠ 0)
    (hself : s'.ptr ino p = 0)
    (hother : ∀ ino' p', s.Live ino' → ¬ (ino' = ino ∧ p' = p) → s'.ptr ino' p' = s.ptr ino' p') : s'.SpaceOk where
  ledger := by
    have hown : s.owns (.ptr ino p) = some b := by rw [owns_ptr hl (hp ▸ hb), hp]
    apply hs.ledger.release hown (owns_ptr_none hself)
    · intro r hr
      apply owns_congr hlive hn
      rintro ino' p' rfl hl'
      apply hother ino' p' hl'
      rintro ⟨rfl, rfl⟩
      exact hr rfl
    · exact used_release hn hfm
  high := high_update hs hn hfm (hp ▸ hs.ptr_used hl (hp ▸ hb)).1
  covers := by
    rw [hn]
    exact hs.covers

/-- **A pointer of a file gives its block back.** -/
theorem Acct.release (ha : s.Acct) (hso : SameOthers ino s s') (hne : ino ≠ 1) (ht : s'.TableOk)
    (hfm : s'.freemap = update s.freemap b false) (hl : s.Live ino) (hp : s.ptr ino p = b) (hb : b ≠ 0)
    (hself : s'.ptr ino p = 0)
    (hother : ∀ ino' p', s.Live ino' → ¬ (ino' = ino ∧ p' = p) → s'.ptr ino' p' = s.ptr ino' p') : s'.Acct :=
  ⟨ht, ha.toSpaceOk.release (fun _ => hso.live hne) hso.nblocks hfm hl hp hb hself hother,
    ha.toKindsOk.of_sameOthers hso hne⟩

/-- The volume with block `b` marked free. -/
def free (s : Sfs) (b : ℕ) : Sfs := { s with freemap := update s.freemap b false }

theorem sameTable_free : SameTable s (s.free b) := ⟨rfl, rfl, rfl, fun _ => rfl, fun _ => rfl⟩

theorem tableOk_free (ht : s.TableOk) : (s.free b).TableOk := ⟨ht.nodup, ht.unique, ht.fresh, ht.refs, ht.clean⟩

theorem sameOthers_withInode (ht : s.TableOk) (hh : h ∈ s.vnodes)
    (htype : Dinode.type i = Dinode.type (s.sv h).inode)
    (hlinks : linkcount i = linkcount (s.sv h).inode) :
    SameOthers (s.sv h).ino s ((s.free b).withInode h i) where
  toSameTable := sameTable_free.trans sameTable_withInode
  file _ hne _ := file_withInode_of_ne (tableOk_free ht) hne
  type := inodeOf_withInode_eq (f := Dinode.type) (tableOk_free ht) hh htype
  links := inodeOf_withInode_eq (f := linkcount) (tableOk_free ht) hh hlinks

theorem Acct.freePtr (ha : s.Acct) (hh : h ∈ s.vnodes) (hne : (s.sv h).ino ≠ 1)
    (hp : p.target (s.sv h).inode s.disk = b) (hb : b ≠ 0) (hself : p.target i s.disk = 0)
    (hother : ∀ p', p' ≠ p → p'.target i s.disk = p'.target (s.sv h).inode s.disk)
    (htype : Dinode.type i = Dinode.type (s.sv h).inode)
    (hlinks : linkcount i = linkcount (s.sv h).inode) :
    ((s.free b).withInode h i).Acct ∧ SameOthers (s.sv h).ino s ((s.free b).withInode h i) := by
  have htf := tableOk_free (b := b) ha.toTableOk
  have hso := sameOthers_withInode (b := b) ha.toTableOk hh htype hlinks
  have hself' : ((s.free b).withInode h i).ptr (s.sv h).ino p = 0 := by
    rw [show (s.sv h).ino = ((s.free b).sv h).ino from rfl, ptr_withInode_self htf hh]
    exact hself
  have hptr : s.ptr (s.sv h).ino p = b := by
    unfold ptr
    rw [ha.inodeOf hh, hp]
  refine ⟨ha.release hso hne htf.withInode rfl (live_of_mem hh) hptr hb hself' ?_, hso⟩
  intro ino' p' _ hnot
  by_cases hino : ino' = (s.sv h).ino
  · subst hino
    have hnew : ((s.free b).withInode h i).ptr (s.sv h).ino p' = p'.target i s.disk :=
      ptr_withInode_self htf hh
    rw [hnew, hother p' fun heq => hnot ⟨rfl, heq⟩]
    unfold ptr
    rw [ha.inodeOf hh]
  · exact ptr_withInode_of_ne htf hino p'

theorem Acct.freeDirect (ha : s.Acct) (hh : h ∈ s.vnodes) (hne : (s.sv h).ino ≠ 1) (hk : k < 15)
    (hp : direct (s.sv h).inode k = b) (hb : b ≠ 0) :
    ((s.free b).withInode h (setDirect (s.sv h).inode k 0)).Acct ∧
      SameOthers (s.sv h).ino s ((s.free b).withInode h (setDirect (s.sv h).inode k 0)) := by
  apply ha.freePtr (p := .direct k) hh hne _ hb
  · simp only [Ptr.target, hk, if_true, direct_setDirect_self, Nat.zero_mod]
  · intro p' hp'
    exact target_setDirect hk hp'
  · exact type_setDirect
  · exact linkcount_setDirect
  · simp only [Ptr.target, hk, if_true, hp]

theorem Acct.freeIndirect (ha : s.Acct) (hh : h ∈ s.vnodes) (hne : (s.sv h).ino ≠ 1)
    (hp : indirect (s.sv h).inode = b) (hb : b ≠ 0) (hempty : ∀ j < 128, load32 (s.disk b) (4 * j) = 0) :
    ((s.free b).withInode h (setIndirect (s.sv h).inode 0)).Acct ∧
      SameOthers (s.sv h).ino s ((s.free b).withInode h (setIndirect (s.sv h).inode 0)) := by
  apply ha.freePtr (p := .indirect) hh hne hp hb
  · simp only [Ptr.target, indirect_setIndirect, Nat.zero_mod]
  · intro p' hp'
    cases p' with
    | direct k =>
      by_cases hk : k < 15
      · simp only [Ptr.target, hk, if_true, direct_setIndirect hk]
      · simp only [Ptr.target, hk, if_false]
    | indirect => exact absurd rfl hp'
    | entry j =>
      by_cases hj : j < 128
      · simp [Ptr.target, hp, hempty j hj]
      · simp [Ptr.target, hj]
  · exact type_setIndirect
  · exact linkcount_setIndirect

theorem Acct.freeEntry (ha : s.Acct) (hl : s.Live ino) (hino1 : ino ≠ 1) (hid : s.ptr ino .indirect = idb)
    (hne : idb ≠ 0) (hj : j < 128) (hp : load32 (s.disk idb) (4 * j) = b) (hb : b ≠ 0) :
    ((s.free b).withBlock idb (store32 (s.disk idb) (4 * j) 0)).Acct ∧
      SameOthers ino s ((s.free b).withBlock idb (store32 (s.disk idb) (4 * j) 0)) := by
  have htf := tableOk_free (b := b) ha.toTableOk
  have hino : ∀ {ino'}, s.Live ino' → ino' ≠ idb := fun hl' => (ha.off_indirect hl hl' hid hne).1
  have hinode : ∀ ino', s.Live ino' →
      ((s.free b).withBlock idb (store32 (s.disk idb) (4 * j) 0)).inodeOf ino' = s.inodeOf ino' := fun ino' hl' =>
    inodeOf_withBlock (s := s.free b) (.inr (hino hl'))
  have hoff : ∀ ino', s.Live ino' → ino' ≠ ino → Off (s.free b) idb ino' := fun ino' hl' hne' =>
    ⟨.inr (hino hl'), (ha.off_indirect hl hl' hid hne).2.1 hne'⟩
  have hso : SameOthers ino s ((s.free b).withBlock idb (store32 (s.disk idb) (4 * j) 0)) := by
    refine ⟨sameTable_free.trans sameTable_withBlock, ?_, ?_, ?_⟩
    · intro ino' hne' hl'
      exact file_withBlock (hoff ino' hl' hne') (ha.off_indirect hl hl' hid hne).2.2
    · show Dinode.type _ = Dinode.type _
      rw [hinode ino hl]
    · show linkcount _ = linkcount _
      rw [hinode ino hl]
  have hself : ((s.free b).withBlock idb (store32 (s.disk idb) (4 * j) 0)).ptr ino (.entry j) = 0 := by
    rw [ptr_withBlock_entry (s := s.free b) (hino hl) hid, load32_store32]
    exact ite_self 0
  have hptr : s.ptr ino (.entry j) = b := by
    rw [ptr_entry hj (hid ▸ hne), hid, hp]
  refine ⟨ha.release hso hino1 (htf.withBlock fun h hh => hino (live_of_mem hh)) rfl hl hptr hb hself ?_, hso⟩
  intro ino' p' hl' hnot
  by_cases heq : ino' = ino
  · subst heq
    cases p' with
    | direct k => exact ptr_withBlock_inode (s := s.free b) (hino hl') nofun
    | indirect => exact ptr_withBlock_inode (s := s.free b) (hino hl') nofun
    | entry j' =>
      have hjj : j' ≠ j := fun heq => hnot ⟨rfl, heq ▸ rfl⟩
      rw [ptr_withBlock_entry (s := s.free b) (hino hl') hid, load32_store32_of_disjoint (by omega)]
      subst hid
      rfl
  · exact ptr_withBlock (hoff ino' hl' heq) p'

theorem Acct.writeFree (d : Block) (ha : s.Acct) (hb : ¬ s.Used b) :
    (s.withBlock b d).Acct ∧ SameFiles s (s.withBlock b d) := by
  have hsf : SameFiles s (s.withBlock b d) := by
    refine ⟨sameTable_withBlock, fun ino' hl' => ?_⟩
    obtain ⟨hoff, hblock⟩ := ha.off_free hl' hb
    exact file_withBlock hoff hblock
  have ht : (s.withBlock b d).TableOk := by
    apply ha.toTableOk.withBlock
    rintro h hh rfl
    exact hb (ha.live_used (live_of_mem hh))
  have hsp : (s.withBlock b d).SpaceOk := by
    refine ⟨ha.ledger.congr (fun r => ?_) fun _ => Iff.rfl, ha.high, ha.covers⟩
    apply owns_congr (fun _ => hsf.live) rfl
    intro ino' p' _ hl'
    exact ptr_withBlock (ha.off_free hl' hb).1 p'
  exact ⟨⟨ht, hsp, ha.toKindsOk.of_sameFiles hsf⟩, hsf⟩

/-! ### Pointers stay -/

/-- The accounts depend on the table, the pointers of the inodes in use and the shape of the directory. -/
theorem Acct.keep (ha : s.Acct) (hst : SameTable s s') (ht : s'.TableOk) (hfm : s'.freemap = s.freemap)
    (hlive : ∀ ino, s'.Live ino ↔ s.Live ino) (hptr : ∀ ino p, s.Live ino → s'.ptr ino p = s.ptr ino p)
    (htypes : ∀ ino, s.Live ino → (s'.file ino).type = (s.file ino).type) (hslots : (s'.file 1).size % 64 = 0)
    (hsmall : (s'.file 1).size ≤ 73216) : s'.Acct := by
  have hled : Exact s'.owns s'.Used := by
    apply ha.ledger.congr
    · intro r
      exact owns_congr hlive hst.nblocks fun ino p _ hl => hptr ino p hl
    · intro v
      unfold Used
      rw [hst.nblocks, hfm]
  have hhigh : ∀ b, s'.nblocks ≤ b → b < freemapBits s'.nblocks → s'.freemap b = true := by
    rw [hst.nblocks, hfm]
    exact ha.high
  have hcov : s'.nblocks ≤ freemapBits s'.nblocks := by
    rw [hst.nblocks]
    exact ha.covers
  refine ⟨ht, ⟨hled, hhigh, hcov⟩, ⟨?_, hslots, hsmall⟩⟩
  intro ino hl
  have hl' := (hlive ino).mp hl
  rw [htypes ino hl', ha.types ino hl']

theorem ptr_withInode (ht : s.TableOk) (hh : h ∈ s.vnodes)
    (hi : ∀ p : Ptr, p.target i s.disk = p.target (s.sv h).inode s.disk) :
    (s.withInode h i).ptr ino p = s.ptr ino p := by
  by_cases hino : ino = (s.sv h).ino
  · rw [hino, ptr_withInode_self ht hh, hi]
    unfold ptr
    rw [ht.inodeOf hh]
  · exact ptr_withInode_of_ne ht hino p

theorem file_withInode_self (ht : s.TableOk) (hh : h ∈ s.vnodes)
    (hi : ∀ p : Ptr, p.target i s.disk = p.target (s.sv h).inode s.disk)
    (htype : Dinode.type i = Dinode.type (s.sv h).inode) :
    (s.withInode h i).file (s.sv h).ino =
      { s.file (s.sv h).ino with size := Dinode.size i, links := linkcount i } := by
  have hbytes : (s.withInode h i).fileByte (s.sv h).ino = s.fileByte (s.sv h).ino :=
    funext fun q => fileByte_congr (ptr_withInode ht hh hi) rfl
  unfold file
  rw [inodeOf_withInode_self ht hh, ht.inodeOf hh, htype, hbytes]

theorem Acct.setAttr (ha : s.Acct) (hh : h ∈ s.vnodes) (hne : (s.sv h).ino ≠ 1)
    (hi : ∀ p : Ptr, p.target i s.disk = p.target (s.sv h).inode s.disk)
    (htype : Dinode.type i = Dinode.type (s.sv h).inode) : (s.withInode h i).Acct := by
  have hdir : (s.withInode h i).file 1 = s.file 1 := file_withInode_of_ne ha.toTableOk hne.symm
  apply ha.keep sameTable_withInode ha.toTableOk.withInode rfl
  · intro ino
    exact live_congr sameTable_withInode hdir
  · intro ino p _
    exact ptr_withInode ha.toTableOk hh hi
  · intro ino _
    by_cases hino : ino = (s.sv h).ino
    · rw [hino, file_withInode_self ha.toTableOk hh hi htype]
    · rw [file_withInode_of_ne ha.toTableOk hino]
  · rw [hdir]
    exact ha.slots
  · rw [hdir]
    exact ha.small

/-! ### A data block is written -/

theorem ptr_writeData (hs : s.SpaceOk) (hl : s.Live ino) (hb : s.fileBlock ino k ≠ 0)
    (hl' : s.Live ino') : (s.withBlock (s.fileBlock ino k) d).ptr ino' p = s.ptr ino' p :=
  ptr_withBlock (hs.off_data hl hl' hb).1 p

theorem file_writeData_of_ne (hs : s.SpaceOk) (hl : s.Live ino)
    (hb : s.fileBlock ino k ≠ 0) (hl' : s.Live ino') (hne : ino' ≠ ino) :
    (s.withBlock (s.fileBlock ino k) d).file ino' = s.file ino' := by
  obtain ⟨hoff, hblock⟩ := hs.off_data hl hl' hb
  exact file_withBlock hoff fun k' heq => hne (hblock k' heq).1

theorem tableOk_writeData (ht : s.TableOk) (hs : s.SpaceOk) (hl : s.Live ino) : (s.withBlock (s.fileBlock ino k) d).TableOk := by
  apply ht.withBlock
  intro h hh heq
  exact hs.ptr_ne_inode hl (live_of_mem hh) heq.symm

theorem fileByte_writeData {q : ℕ} (hs : s.SpaceOk) (hl : s.Live ino) (hb : s.fileBlock ino k ≠ 0) :
    (s.withBlock (s.fileBlock ino k) d).fileByte ino q =
      if q / 512 = k then d (q % 512) else s.fileByte ino q := by
  by_cases hq : q / 512 = k
  · have hblock : (s.withBlock (s.fileBlock ino k) d).fileBlock ino k = s.fileBlock ino k :=
      ptr_writeData hs hl hb hl
    unfold fileByte
    rw [if_pos hq, hq, hblock, if_neg hb]
    exact congrFun (update_self ..) _
  · rw [if_neg hq]
    obtain ⟨hoff, hblock⟩ := hs.off_data hl hl hb
    exact fileByte_withBlock hoff fun heq => hq (hblock _ heq).2

theorem file_writeData (hs : s.SpaceOk) (hl : s.Live ino) (hb : s.fileBlock ino k ≠ 0) :
    (s.withBlock (s.fileBlock ino k) d).file ino =
      { s.file ino with bytes := fun q => if q / 512 = k then d (q % 512) else s.fileByte ino q } := by
  have hbytes : (s.withBlock (s.fileBlock ino k) d).fileByte ino =
      fun q => if q / 512 = k then d (q % 512) else s.fileByte ino q :=
    funext fun _ => fileByte_writeData hs hl hb
  unfold file
  rw [inodeOf_withBlock (hs.off_data hl hl hb).1.inode, hbytes]

/-- **Part of a block of a file is written**; the rest of the block is as it was. -/
theorem file_writePart {skip len : ℕ} {src : ℕ → UInt8} (hs : s.SpaceOk) (hl : s.Live ino)
    (hb : s.fileBlock ino k ≠ 0) (hpart : skip + len ≤ 512)
    (hd : ∀ j < 512, d j = overlay (s.disk (s.fileBlock ino k)) skip len src j) :
    (s.withBlock (s.fileBlock ino k) d).file ino =
      { s.file ino with bytes := overlay (s.fileByte ino) (512 * k + skip) len src } := by
  have hbytes : (fun q => if q / 512 = k then d (q % 512) else s.fileByte ino q) =
      overlay (s.fileByte ino) (512 * k + skip) len src := by
    funext q
    by_cases hq : q / 512 = k
    · rw [if_pos hq, hd _ (by omega)]
      by_cases hin : 512 * k + skip ≤ q ∧ q < 512 * k + skip + len
      · rw [overlay_inside hin.1 hin.2, overlay_inside (by omega) (by omega)]
        congr 1
        omega
      · rw [overlay_outside (by omega), overlay_outside (by omega), fileByte, hq, if_neg hb]
    · rw [if_neg hq, overlay_outside (by omega)]
  rw [file_writeData hs hl hb, hbytes]

theorem Acct.writeData (ha : s.Acct) (hl : s.Live ino) (hne : ino ≠ 1) (hb : s.fileBlock ino k ≠ 0) :
    (s.withBlock (s.fileBlock ino k) d).Acct := by
  have hdir : (s.withBlock (s.fileBlock ino k) d).file 1 = s.file 1 :=
    file_writeData_of_ne ha.toSpaceOk hl hb (live_root s) hne.symm
  apply ha.keep sameTable_withBlock (tableOk_writeData ha.toTableOk ha.toSpaceOk hl) rfl
  · intro ino'
    exact live_congr sameTable_withBlock hdir
  · intro ino' p hl'
    exact ptr_writeData ha.toSpaceOk hl hb hl'
  · intro ino' hl'
    by_cases hino : ino' = ino
    · rw [hino, file_writeData ha.toSpaceOk hl hb]
    · rw [file_writeData_of_ne ha.toSpaceOk hl hb hl' hino]
  · rw [hdir]
    exact ha.slots
  · rw [hdir]
    exact ha.small

end Sfs

end Os161Kernel
