import Os161Kernel.SfsTruncate

/-!
# What the vnode functions do

Specifications of `sfs_reclaim`, `VOP_DECREF`, `sfs_loadvnode`, `sfs_makeobj` and `sfs_getroot`.
-/

namespace Os161Kernel

open Calls Memory Function Dinode

-- Specifications are used through their rules; unfolding them would run the loops.
attribute [local irreducible] Ends

namespace Sfs

variable {s t : Sfs} {ino h b k : ℕ} {p : Ptr} {memory : SfsMemory} {E : Errno → Sfs → Prop}

/-! ### Writing back -/

/-- The volume after `sfs_sync_inode`. -/
def settled (s : Sfs) (h : ℕ) : Sfs := if (s.sv h).dirty = true then s.synced h else s

theorem ends_syncInode {Q : Unit → Sfs → Prop} : Ends (syncInode h) s Q E ↔ Q () (s.settled h) := by
  unfold syncInode settled
  rw [ends_bind, ends_read, ends_when]
  by_cases hd : (s.sv h).dirty = true
  · rw [if_pos hd, ends_bind, ends_writeblock, ends_update]
    exact ⟨fun hq => hq.1 hd, fun hq => ⟨fun _ => hq, fun hn => absurd hd hn⟩⟩
  · rw [if_neg hd]
    exact ⟨fun hq => hq.2 hd, fun hq => ⟨fun hd' => absurd hd' hd, fun _ => hq⟩⟩

theorem sameInodes_sv_synced : (s.synced h).sv h = { s.sv h with dirty := false } := update_self ..

theorem Acct.settled (ha : s.Acct) (hh : h ∈ s.vnodes) :
    (s.settled h).Acct ∧ SameFiles s (s.settled h) ∧ ((s.settled h).sv h).dirty = false ∧
      ((s.settled h).sv h).inode = (s.sv h).inode ∧ (s.settled h).disk (s.ptr (s.sv h).ino .indirect) =
        s.disk (s.ptr (s.sv h).ino .indirect) := by
  unfold Sfs.settled
  by_cases hd : (s.sv h).dirty = true
  · obtain ⟨hacct, hsame⟩ := ha.synced hh
    rw [if_pos hd]
    refine ⟨hacct, hsame, ?_, ?_, ?_⟩
    · rw [sameInodes_sv_synced]
    · rw [sameInodes_sv_synced]
    · exact update_of_ne (ha.ptr_ne_inode (live_of_mem hh) (live_of_mem hh)) ..
  · rw [if_neg hd]
    exact ⟨ha, .refl s, Bool.eq_false_iff.mpr hd, rfl, rfl⟩

theorem Acct.ptr_settled (ha : s.Acct) (hh : h ∈ s.vnodes) : (s.settled h).ptr (s.sv h).ino p = s.ptr (s.sv h).ino p := by
  obtain ⟨hacct, hsame, -, hinode, hdisk⟩ := ha.settled hh
  have hmem : h ∈ (s.settled h).vnodes := hsame.vnodes ▸ hh
  apply ptr_congr _ hdisk
  rw [ha.inodeOf hh, ← hsame.ino h, hacct.inodeOf hmem, hinode]

/-! ### Dropping a reference -/

/-- Files may have gone; those still in use have not changed. -/
structure Shrunk (s t : Sfs) : Prop where
  acct : t.Acct
  nblocks : t.nblocks = s.nblocks
  live : ∀ ino, t.Live ino → s.Live ino
  file : ∀ ino, t.Live ino → t.file ino = s.file ino

/-- The link count of a vnode tells whether its inode is in use apart from the vnode. -/
def LinksTell (s : Sfs) (h : ℕ) : Prop :=
  linkcount (s.sv h).inode = 0 ↔ ¬ ((s.sv h).ino = 1 ∨ (s.file 1).Holds (s.sv h).ino)

theorem reclaimDrop_ends (ha : s.Acct) (hh : h ∈ s.vnodes) (hlinks : LinksTell s h)
    (hempty : linkcount (s.sv h).inode = 0 → ∀ p, s.ptr (s.sv h).ino p = 0) :
    Ends (reclaimDrop h) s
      (fun _ t => t.Acct ∧ t.nblocks = s.nblocks ∧ ∀ ino, t.Live ino →
        s.Live ino ∧ t.file ino = s.file ino ∧ (linkcount (s.sv h).inode = 0 → ino ≠ (s.sv h).ino)) E := by
  obtain ⟨hacct, hsame, hclean, hinode, -⟩ := ha.settled hh
  have hmem : h ∈ (s.settled h).vnodes := hsame.vnodes ▸ hh
  have hino : ((s.settled h).sv h).ino = (s.sv h).ino := hsame.ino h
  have hdir : (s.settled h).file 1 = s.file 1 := hsame.file 1 (live_root s)
  unfold reclaimDrop
  rw [ends_bind, ends_syncInode, ends_bind, ends_read, ends_bind, ends_when, hinode, hino]
  refine ⟨fun hzero => ?_, fun hnz => ?_⟩
  · obtain ⟨hne, hno⟩ := not_or.mp (hlinks.mp hzero)
    have hused : (s.settled h).Used (s.sv h).ino := hacct.live_used (hsame.live.mpr (live_of_mem hh))
    rw [ends_bfree hacct.covers hused]
    simp only [ends_bind, ends_read, ends_require, ends_update]
    refine ⟨hmem, ?_⟩
    rw [← hino]
    obtain ⟨hacct', hfile, hlive⟩ := hacct.discarded hmem (by rwa [hino]) (by rwa [hdir, hino]) fun p => by
      rw [hino, ha.ptr_settled hh, hempty hzero]
    refine ⟨hacct', hsame.nblocks, fun ino hl => ?_⟩
    obtain ⟨hl', hne'⟩ := (hlive ino).mp hl
    have hl'' := hsame.live.mp hl'
    exact ⟨hl'', (hfile ino hne').trans (hsame.file ino hl''), fun _ => hne'⟩
  · have hkeep : (s.sv h).ino = 1 ∨ (s.file 1).Holds (s.sv h).ino := by
      by_contra hno
      exact hnz (hlinks.mpr hno)
    simp only [ends_bind, ends_read, ends_require, ends_update]
    refine ⟨hmem, ?_⟩
    obtain ⟨hacct', hfile, hlive⟩ := hacct.dropped hmem hclean (by rwa [hdir, hino])
    refine ⟨hacct', hsame.nblocks, fun ino hl => ?_⟩
    have hl' := hsame.live.mp ((hlive ino).mp hl)
    exact ⟨hl', (hfile ino).trans (hsame.file ino hl'), fun hzero => absurd hzero hnz⟩

theorem reclaimLast_ends (ha : s.Acct) (hh : h ∈ s.vnodes) (hlinks : LinksTell s h) :
    Ends (reclaimLast h) s (fun _ t => Shrunk s t) E := by
  unfold reclaimLast
  rw [ends_bind, ends_read, ends_bind, ends_when]
  refine ⟨fun hzero => ?_, fun hnz => ?_⟩
  · obtain ⟨hne, hno⟩ := not_or.mp (hlinks.mp hzero)
    apply (itrunc_ends ha hh hne 0).mono _ fun _ _ => id
    rintro - t ⟨htr, -⟩
    have hc := htr.cut
    have hmem := hc.mem hh
    have hino : (t.sv h).ino = (s.sv h).ino := hc.same.ino h
    have hdir : t.file 1 = s.file 1 := hc.same.file 1 (Ne.symm hne) (live_root s)
    have hzero' : linkcount (t.sv h).inode = 0 := by
      have hlt : (t.file (s.sv h).ino).links = (s.file (s.sv h).ino).links := hc.same.links
      have hs : (s.file (s.sv h).ino).links = linkcount (s.sv h).inode := by rw [file, ha.inodeOf hh]
      have ht : (t.file (t.sv h).ino).links = linkcount (t.sv h).inode := by rw [file, hc.acct.inodeOf hmem]
      rw [← ht, hino, hlt, hs, hzero]
    have hlinks' : LinksTell t h := by
      unfold LinksTell
      rw [hino, hdir]
      exact ⟨fun _ => not_or.mpr ⟨hne, hno⟩, fun _ => hzero'⟩
    apply (reclaimDrop_ends hc.acct hmem hlinks' fun _ p => by rw [hino, htr.ptr_eq_zero]).mono _ fun _ _ => id
    rintro - u ⟨hacct, hn, hlive⟩
    refine ⟨hacct, hn.trans hc.same.nblocks, fun ino hl => ?_, fun ino hl => ?_⟩
    · exact (hc.same.live hne).mp (hlive ino hl).1
    · obtain ⟨hl', hfile, hne'⟩ := hlive ino hl
      rw [hfile]
      exact hc.same.file ino (hino ▸ hne' hzero') ((hc.same.live hne).mp hl')
  · apply (reclaimDrop_ends ha hh hlinks fun hzero => absurd hzero hnz).mono _ fun _ _ => id
    rintro - u ⟨hacct, hn, hlive⟩
    exact ⟨hacct, hn, fun ino hl => (hlive ino hl).1, fun ino hl => (hlive ino hl).2.1⟩

theorem decref_ends (ha : s.Acct) (hh : h ∈ s.vnodes) (hlinks : LinksTell s h) :
    Ends (decref h) s (fun _ t => Shrunk s t) E := by
  unfold decref
  rw [ends_bind, ends_read, ends_bind, ends_require]
  refine ⟨ha.refs h hh, ?_⟩
  by_cases hmany : 1 < (s.sv h).refcount
  · rw [if_pos hmany]
    unfold setRefcount
    rw [ends_update]
    have hsi : SameInodes s (s.withRefcount h ((s.sv h).refcount - 1)) := sameInodes_withRefcount
    have hacct : (s.withRefcount h ((s.sv h).refcount - 1)).Acct := ha.withRefcount (by omega)
    exact ⟨hacct, rfl, fun ino hl => hsi.live.mp hl, fun ino _ => hsi.file ino⟩
  · have hone : (s.sv h).refcount = 1 := by
      have := ha.refs h hh
      omega
    rw [if_neg hmany, ends_bind, ends_attempt]
    unfold reclaim
    rw [ends_bind, ends_read, if_neg (by omega)]
    apply (reclaimLast_ends ha hh hlinks).mono _ fun _ _ => id
    intro _ t hs
    rw [ends_pure]
    exact hs

/-! ### Loading an inode -/

/-- The same files are there; more vnodes may be in memory. -/
structure Opened (s t : Sfs) : Prop where
  acct : t.Acct
  nblocks : t.nblocks = s.nblocks
  file : ∀ ino, t.file ino = s.file ino
  live : ∀ ino, t.Live ino ↔ s.Live ino
  keeps : ∀ h ∈ s.vnodes, h ∈ t.vnodes ∧ (t.sv h).ino = (s.sv h).ino

theorem ends_findVnode {Q : Option ℕ → Sfs → Prop} {table : List ℕ} (hused : ∀ h ∈ table, s.Used (s.sv h).ino) :
    Ends (findVnode ino table) s Q E ↔ Q (table.find? fun h => (s.sv h).ino = ino) s := by
  induction table with
  | nil =>
    unfold findVnode
    rw [ends_pure, List.find?_nil]
  | cons h rest ih =>
    obtain ⟨hlt, hfm⟩ := hused h List.mem_cons_self
    unfold findVnode
    rw [ends_bind, ends_read, ends_bind, ends_bused hlt, ends_bind, ends_require, hfm]
    simp only [true_and]
    by_cases heq : (s.sv h).ino = ino
    · rw [if_pos heq, ends_pure, List.find?_cons_of_pos (by simpa using heq)]
    · rw [if_neg heq, ih fun h' hh' => hused h' (List.mem_cons_of_mem h hh'),
        List.find?_cons_of_neg (by simpa using heq)]

theorem addVnode_ends {Q : ℕ → Sfs → Prop} {inode : Block} {dirty : Bool}
    (htype : Dinode.type inode = 1 ∨ Dinode.type inode = 2) (hfail : memory.vnodes = false → E .enomem s)
    (hok : memory.vnodes = true → Q s.fresh (s.withVnode ⟨ino, inode, dirty, 1⟩)) :
    Ends (addVnode ino inode dirty memory) s Q E := by
  unfold addVnode
  rw [ends_bind, ends_require]
  refine ⟨htype, ?_⟩
  cases hm : memory.vnodes with
  | false =>
    rw [if_pos rfl, ends_fail]
    exact hfail hm
  | true =>
    rw [if_neg (by decide)]
    simp only [ends_bind, ends_read, ends_update, ends_pure]
    exact hok hm

/-- An inode that is in memory is found there; another one needs memory. -/
theorem loadvnode_ends (ha : s.Acct) (hl : s.Live ino) :
    Ends (loadvnode ino 0 memory) s
      (fun h t => Opened s t ∧ h ∈ t.vnodes ∧ (t.sv h).ino = ino ∧ (s.Loaded ino ∨ memory.Enough))
      fun e t => e = .enomem ∧ t = s ∧ ¬ s.Loaded ino ∧ ¬ memory.Enough := by
  have hused : ∀ h ∈ s.vnodes, s.Used (s.sv h).ino := fun h hh => ha.live_used (live_of_mem hh)
  unfold loadvnode
  rw [ends_bind, ends_read, ends_bind, ends_findVnode hused]
  cases hfind : s.vnodes.find? fun h => (s.sv h).ino = ino with
  | some h =>
    have hmem := List.mem_of_find?_eq_some hfind
    have hino : (s.sv h).ino = ino := by simpa using List.find?_some hfind
    have hsi : SameInodes s (s.withRefcount h ((s.sv h).refcount + 1)) := sameInodes_withRefcount
    have hacct : (s.withRefcount h ((s.sv h).refcount + 1)).Acct := ha.withRefcount (by omega)
    simp only [setRefcount, ends_bind, ends_require, ends_read, ends_update, ends_pure, true_and]
    exact ⟨⟨hacct, rfl, hsi.file, fun _ => hsi.live, fun h' hh' => ⟨hh', hsi.ino h'⟩⟩, hmem, (hsi.ino h).trans hino,
      .inl ⟨h, hmem, hino⟩⟩
  | none =>
    have hno : ¬ s.Loaded ino := by
      rintro ⟨h, hh, hino⟩
      have := List.find?_eq_none.mp hfind h hh
      simp [hino] at this
    obtain ⟨hlt, hfm⟩ := ha.live_used hl
    have htype : Dinode.type (s.disk ino) = 1 ∨ Dinode.type (s.disk ino) = 2 := by
      have ht := ha.types ino hl
      rw [file, inodeOf_of_not_loaded hno] at ht
      by_cases hroot : ino = 1
      · exact .inr (ht.trans (if_pos hroot))
      · exact .inl (ht.trans (if_neg hroot))
    unfold loadInode readblock
    by_cases hv : memory.vnode = false
    · rw [if_pos hv, ends_fail]
      exact ⟨rfl, rfl, hno, fun he => absurd hv (by rw [he.1]; decide)⟩
    rw [if_neg hv]
    simp only [ends_bind, ends_bused hlt, ends_require, ends_read, hfm, true_and]
    rw [if_neg fun hc => hc rfl]
    refine addVnode_ends htype (fun hm => ⟨rfl, rfl, hno, fun he => absurd hm (by rw [he.2]; decide)⟩) fun hm => ?_
    obtain ⟨hacct, hfile, hlive⟩ := ha.loaded (v := ⟨ino, s.disk ino, false, 1⟩) hl hno rfl Nat.one_pos
    refine ⟨⟨hacct, rfl, hfile, hlive, fun h hh => ⟨mem_withVnode.mpr (.inl hh), ?_⟩⟩, mem_withVnode.mpr (.inr rfl), ?_,
      .inr ⟨Bool.not_eq_false _ ▸ hv, hm⟩⟩
    · rw [sv_withVnode_of_mem ha.toTableOk hh]
    · rw [sv_withVnode_self]

/-- A block that was taken for a new inode and is given back has been cleared, and nothing else has changed. -/
theorem bfree_alloc_ends (ha : s.Acct) (hb : b < s.nblocks) (hfree : s.freemap b = false) :
    Ends (bfree b) (s.alloc b) (fun _ t => Grown s t) E := by
  have hback : (s.alloc b).free b = s.withBlock b fun _ => 0 := by
    simp [free, alloc, withBlock, ← hfree]
  obtain ⟨hacct, hsame⟩ := ha.writeFree (fun _ => 0) (not_used_of_free hfree)
  have hused : (s.alloc b).Used b := ⟨hb, update_self ..⟩
  rw [ends_bfree (s := s.alloc b) ha.covers hused, hback]
  exact ⟨hacct, hsame⟩

theorem makeobj_ends (ha : s.Acct) :
    Ends (makeobj 1 memory) s
      (fun h t => ∃ b, b < s.nblocks ∧ s.freemap b = false ∧ t = s.created b ∧ h = s.fresh) fun _ t => Grown s t := by
  unfold makeobj
  rw [ends_bind]
  apply (balloc_ends ha.toSpaceOk).mono _ fun _ t hfail => hfail.2.symm ▸ .refl ha
  rintro b t ⟨hb, hfree, rfl⟩
  have hallused : ∀ v, (s.alloc b).Used v ↔ v = b ∨ s.Used v := used_assign rfl rfl hb
  have hused : ∀ h ∈ (s.alloc b).vnodes, (s.alloc b).Used ((s.alloc b).sv h).ino := fun h hh =>
    (hallused _).mpr (.inr (ha.live_used (live_of_mem hh)))
  have hnone : (s.alloc b).vnodes.find? (fun h => ((s.alloc b).sv h).ino = b) = none := by
    rw [List.find?_eq_none]
    intro h hh hino
    have hino' : ((s.alloc b).sv h).ino = b := by simpa using hino
    have hlive : s.Live ((s.alloc b).sv h).ino := live_of_mem hh
    exact not_live_of_free ha hfree (hino' ▸ hlive)
  have hfm : (s.alloc b).freemap b = true := update_self ..
  have hblt : b < (s.alloc b).nblocks := hb
  unfold loadvnode
  rw [ends_bind, ends_attempt, ends_bind, ends_read, ends_bind, ends_findVnode hused, hnone]
  have hundo : Ends (do bfree b; Call.fail .enomem) (s.alloc b)
      (fun h t => ∃ b, b < s.nblocks ∧ s.freemap b = false ∧ t = s.created b ∧ h = s.fresh) fun _ t => Grown s t := by
    rw [ends_bind]
    exact (bfree_alloc_ends ha hb hfree).mono (fun _ _ hg => ends_fail.mpr hg) fun _ _ => id
  unfold loadInode readblock
  by_cases hv : memory.vnode = false
  · rw [if_pos hv, ends_fail]
    exact hundo
  rw [if_neg hv]
  simp only [ends_bind, ends_bused hblt, ends_require, ends_read, hfm, true_and, disk_alloc_self]
  rw [if_pos (by decide)]
  have htype : Dinode.type ((s.alloc b).disk b) = 0 := by
    rw [disk_alloc_self]
    exact load16_zero 4
  rw [ends_bind, ends_require]
  refine ⟨htype, ?_⟩
  refine addVnode_ends (.inl type_setType) (fun _ => ends_bind.mp hundo) fun _ => ?_
  rw [ends_pure]
  exact ⟨b, hb, hfree, rfl, rfl⟩

theorem getroot_ends (ha : s.Acct) :
    Ends (getroot memory) s
      (fun h t => Opened s t ∧ h ∈ t.vnodes ∧ (t.sv h).ino = 1 ∧ (s.Loaded 1 ∨ memory.Enough))
      fun e t => e = .enomem ∧ t = s ∧ ¬ s.Loaded 1 ∧ ¬ memory.Enough := by
  unfold getroot
  rw [ends_bind]
  apply (loadvnode_ends ha (live_root s)).mono _ fun _ _ => id
  rintro h t ⟨ho, hmem, hino, henough⟩
  have htype : Dinode.type (t.sv h).inode = 2 := by
    have ht := ho.acct.types (t.sv h).ino (live_of_mem hmem)
    rw [file, ho.acct.inodeOf hmem] at ht
    exact ht.trans (if_pos hino)
  rw [ends_bind, ends_read, if_neg (by rw [htype]; decide), ends_pure]
  exact ⟨ho, hmem, hino, henough⟩

end Sfs

end Os161Kernel
