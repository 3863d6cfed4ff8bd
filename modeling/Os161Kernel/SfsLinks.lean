import Os161Kernel.SfsNames

/-!
# The directory operations

`sfs_creat`, `sfs_link`, `sfs_remove` and `sfs_rename` keep a volume consistent, whether or not they succeed.  A name is
added or taken away before its link is counted; the lemmas below put the two halves together.
-/

namespace Os161Kernel

open Calls Memory Runs Dinode

-- Specifications are used through their rules; unfolding them would run the loops.
attribute [local irreducible] Ends

namespace Sfs

variable {s t : Sfs} {ino h b k i n v slot : ℕ} {E : Errno → Sfs → Prop} {sd : Bytes} {name : List UInt8}

/-! ### A name and its link -/

theorem target_setLinkcount {i : Block} {m : ℕ} {disk : ℕ → Block} {p : Ptr} :
    p.target (setLinkcount i m) disk = p.target i disk := by
  cases p with
  | direct k => simp only [Ptr.target, direct_setLinkcount]
  | indirect => exact indirect_setLinkcount
  | entry j => simp only [Ptr.target, indirect_setLinkcount]

/-- The volume with the link count of a vnode set. -/
def withLinks (s : Sfs) (h m : ℕ) : Sfs := s.withInode h (setLinkcount (s.sv h).inode m)

theorem file_withLinks_self {m : ℕ} (ht : s.TableOk) (hh : h ∈ s.vnodes) (hm : m < 2 ^ 16) :
    (s.withLinks h m).file (s.sv h).ino = { s.file (s.sv h).ino with links := m } := by
  refine (file_withInode_self ht hh (fun p => target_setLinkcount) type_setLinkcount).trans ?_
  refine SfsFile.ext ?_ rfl ?_ rfl
  · show Dinode.size (setLinkcount _ _) = (s.file (s.sv h).ino).size
    rw [size_setLinkcount, file, ht.inodeOf hh]
  · show linkcount (setLinkcount _ _) = m
    rw [linkcount_setLinkcount]
    exact Nat.mod_eq_of_lt hm

theorem linkcount_eq (ht : s.TableOk) (hh : h ∈ s.vnodes) :
    linkcount (s.sv h).inode = (s.file (s.sv h).ino).links := by
  rw [file, ht.inodeOf hh]

theorem Consistent.relink {m : ℕ} (hc : s.Consistent) (hw : Wrote s t i sd) (hv : v ∈ s.vnodes)
    (hne : (s.sv v).ino ≠ 1) (hm : m < 2 ^ 16) (hnames : ((s.file 1).withSlot i sd).NamesOk)
    (hself : m = ((s.file 1).withSlot i sd).slotCount (s.sv v).ino)
    (hother : ∀ ino, ino ≠ (s.sv v).ino → ((s.file 1).withSlot i sd).slotCount ino = (s.file 1).slotCount ino) :
    (t.withLinks v m).Consistent ∧ SameTable s (t.withLinks v m) ∧
      (t.withLinks v m).file 1 = (s.file 1).withSlot i sd ∧
      (t.withLinks v m).file (s.sv v).ino = { s.file (s.sv v).ino with links := m } := by
  have hmem : v ∈ t.vnodes := hw.same.vnodes ▸ hv
  have hino : (t.sv v).ino = (s.sv v).ino := hw.same.ino v
  have hne' : (t.sv v).ino ≠ 1 := by rwa [hino]
  have hdir : (t.withLinks v m).file 1 = (s.file 1).withSlot i sd :=
    (file_withInode_of_ne hw.acct.toTableOk hne'.symm).trans hw.dir
  have hst : SameTable s (t.withLinks v m) := hw.same.trans sameTable_withInode
  have hacct : (t.withLinks v m).Acct :=
    hw.acct.setAttr hmem hne' (fun p => target_setLinkcount) type_setLinkcount
  have hfile : (t.withLinks v m).file (s.sv v).ino = { s.file (s.sv v).ino with links := m } := by
    rw [← hw.file _ hne (live_of_mem hv), ← hino]
    exact file_withLinks_self hw.acct.toTableOk hmem hm
  refine ⟨⟨hacct, ?_, fun ino hl hne1 => ?_, ?_⟩, hst, hdir, hfile⟩
  · rw [hdir]
    exact hnames
  · by_cases heq : ino = (s.sv v).ino
    · rw [heq, hdir, hfile]
      exact hself
    · have hlt : t.Live ino :=
        (live_congr sameTable_withInode (file_withInode_of_ne hw.acct.toTableOk hne'.symm)).mp hl
      have hls : s.Live ino := (hw.live ino).mp hlt
      have hfile : (t.withLinks v m).file ino = t.file ino :=
        file_withInode_of_ne hw.acct.toTableOk (by rwa [hino])
      rw [hfile, hdir, hw.file ino hne1 hls, hother ino heq]
      exact hc.links ino hls hne1
  · rw [hdir]
    exact hc.rootLinks

theorem Consistent.addLink (hc : s.Consistent) (hadd : Added s t name (s.sv v).ino slot) (hnul : 0 ∉ name)
    (hv : v ∈ s.vnodes) (hne : (s.sv v).ino ≠ 1) :
    (t.withLinks v (linkcount (t.sv v).inode + 1)).Consistent ∧
      SameTable s (t.withLinks v (linkcount (t.sv v).inode + 1)) ∧
      (t.withLinks v (linkcount (t.sv v).inode + 1)).file 1 =
        (s.file 1).withSlot slot (Direntry.make (s.sv v).ino name) ∧
      (∃ m, (t.withLinks v (linkcount (t.sv v).inode + 1)).file (s.sv v).ino =
        { s.file (s.sv v).ino with links := m }) ∧
      (t.withLinks v (linkcount (t.sv v).inode + 1)).pairs = insert (name, (s.sv v).ino) s.pairs := by
  have hino : Direntry.ino (Direntry.make (s.sv v).ino name) = (s.sv v).ino :=
    ino_make_of_loaded hc.toSpaceOk (loaded_of_mem hv)
  have hname : Direntry.name (Direntry.make (s.sv v).ino name) = name := Direntry.name_make hadd.fits hnul
  have hn0 : (s.sv v).ino ≠ 0 := hc.live_ne_zero (live_of_mem hv)
  have hmem : v ∈ t.vnodes := hadd.wrote.same.vnodes ▸ hv
  have hcount : linkcount (t.sv v).inode = (s.file 1).slotCount (s.sv v).ino := by
    rw [linkcount_eq hadd.wrote.acct.toTableOk hmem, hadd.wrote.same.ino v,
      hadd.wrote.file _ hne (live_of_mem hv), hc.links _ (live_of_mem hv) hne]
  have hsmall : linkcount (t.sv v).inode + 1 < 2 ^ 16 := by
    have h1 := (s.file 1).slotCount_le (s.sv v).ino
    have h2 := nentries_le hc.toAcct
    omega
  have hnames := SfsFile.NamesOk.link hc.slots hadd.slot_le hadd.free hino hn0 hc.names hname hne hadd.new
  have hself := SfsFile.slotCount_link_self hc.slots hadd.slot_le hadd.free hino hn0
  obtain ⟨hcons, hst, hdir, hfile⟩ := hc.relink hadd.wrote hv hne hsmall hnames (by rw [hself, hcount])
    fun ino hne' => SfsFile.slotCount_link_of_ne hc.slots hadd.slot_le hadd.free hino hn0 hne'
  refine ⟨hcons, hst, hdir, ⟨_, hfile⟩, ?_⟩
  unfold pairs
  rw [hdir, SfsFile.pairs_link hc.slots hadd.slot_le hadd.free hino hn0 hname]

theorem Consistent.dropLink (hc : s.Consistent) (hw : Wrote s t slot (Direntry.make 0 []))
    (hused : (s.file 1).UsedSlot slot) (hv : v ∈ s.vnodes) (hino : (s.sv v).ino = (s.file 1).slotIno slot) :
    0 < linkcount (t.sv v).inode ∧ (t.withLinks v (linkcount (t.sv v).inode - 1)).Consistent ∧
      SameTable s (t.withLinks v (linkcount (t.sv v).inode - 1)) ∧
      (t.withLinks v (linkcount (t.sv v).inode - 1)).pairs =
        s.pairs \ {((s.file 1).slotName slot, (s.file 1).slotIno slot)} := by
  have hne : (s.sv v).ino ≠ 1 := by
    rw [hino]
    exact hc.names.noRoot slot hused
  have hmem : v ∈ t.vnodes := hw.same.vnodes ▸ hv
  have hcount : linkcount (t.sv v).inode = (s.file 1).slotCount (s.sv v).ino := by
    rw [linkcount_eq hw.acct.toTableOk hmem, hw.same.ino v, hw.file _ hne (live_of_mem hv),
      hc.links _ (live_of_mem hv) hne]
  have hself := SfsFile.slotCount_unlink_self hc.slots hused Direntry.ino_make_zero
  rw [← hino] at hself
  have hsmall : linkcount (t.sv v).inode - 1 < 2 ^ 16 := by
    have h1 := (s.file 1).slotCount_le (s.sv v).ino
    have h2 := nentries_le hc.toAcct
    omega
  have hnames := SfsFile.NamesOk.unlink hc.slots hused Direntry.ino_make_zero hc.names
  obtain ⟨hcons, hst, hdir, -⟩ := hc.relink hw hv hne hsmall hnames (by omega) fun ino hne' =>
    SfsFile.slotCount_unlink_of_ne hc.slots hused Direntry.ino_make_zero (hino ▸ hne')
  refine ⟨by omega, hcons, hst, ?_⟩
  unfold pairs
  rw [hdir, SfsFile.pairs_unlink hc.slots hused Direntry.ino_make_zero hc.names]

theorem ends_countLink {Q : Unit → Sfs → Prop} :
    Ends (countLink v) s Q E ↔ Q () (s.withLinks v (linkcount (s.sv v).inode + 1)) := by
  unfold countLink
  rw [ends_setInode]
  rfl

theorem ends_uncountLink {Q : Unit → Sfs → Prop} (hpos : 0 < linkcount (s.sv v).inode) :
    Ends (uncountLink v) s Q E ↔ Q () (s.withLinks v (linkcount (s.sv v).inode - 1)) := by
  unfold uncountLink
  rw [ends_bind, ends_read, ends_bind, ends_require, ends_setInode]
  exact and_iff_right hpos

/-! ### The operations -/

/-- The same volume, consistent. -/
structure Kept (s t : Sfs) : Prop where
  consistent : t.Consistent
  nblocks : t.nblocks = s.nblocks

theorem Kept.trans {u : Sfs} (h : Kept s t) (h' : Kept t u) : Kept s u := ⟨h'.consistent, h'.nblocks.trans h.nblocks⟩

theorem Consistent.kept_of_grown (hc : s.Consistent) (hg : Grown s t) : Kept s t ∧ t.pairs = s.pairs := by
  refine ⟨⟨hc.grown hg, hg.same.nblocks⟩, ?_⟩
  unfold pairs
  rw [hg.same.file 1 (live_root s)]

theorem Consistent.kept_of_opened (hc : s.Consistent) (ho : Opened s t) : Kept s t ∧ t.pairs = s.pairs := by
  refine ⟨⟨hc.opened ho, ho.nblocks⟩, ?_⟩
  unfold pairs
  rw [ho.file]

theorem decref_kept (hc : s.Consistent) (hh : h ∈ s.vnodes) :
    Ends (decref h) s (fun _ t => Kept s t ∧ t.pairs = s.pairs) E := by
  apply (decref_ends hc.toAcct hh (hc.linksTell hh)).mono _ fun _ _ => id
  intro _ t hs
  refine ⟨⟨hc.shrunk hs, hs.nblocks⟩, ?_⟩
  unfold pairs
  rw [hs.file 1 (live_root t)]

theorem Consistent.created (hc : s.Consistent) (hfree : s.freemap b = false) (hb : b < s.nblocks) :
    (s.created b).Consistent := by
  have hdir : (s.created b).file 1 = s.file 1 := file_created hc.toAcct hfree (live_root s)
  refine ⟨acct_created hc.toAcct hfree hb, ?_, fun ino hl hne => ?_, ?_⟩
  · rw [hdir]
    exact hc.names
  · rw [hdir]
    obtain hl' | rfl := (live_created hc.toAcct hfree).mp hl
    · rw [file_created hc.toAcct hfree hl']
      exact hc.links ino hl' hne
    · have hno : ¬ (s.file 1).Holds ino := fun hholds => not_live_of_free hc.toAcct hfree (.inr (.inl hholds))
      rw [file_created_self hc.toAcct hfree, SfsFile.slotCount_eq_zero.mpr hno]
      rfl
  · rw [hdir]
    exact hc.rootLinks

section Ops

variable {cname cname' : CString} {memory : SfsMemory} (hc : s.Consistent) (hh : h ∈ s.vnodes) (hroot : (s.sv h).ino = 1)

include hc hh hroot

theorem link_kept (hv : v ∈ s.vnodes) :
    Ends (link h cname v) s
      (fun _ t => Kept s t ∧ t.pairs = insert (cname.val, (s.sv v).ino) s.pairs)
      fun _ t => Kept s t ∧ t.pairs = s.pairs := by
  unfold link
  rw [ends_bind, ends_read]
  by_cases hdir : Dinode.type (s.sv v).inode = 2
  · rw [if_pos hdir, ends_fail]
    exact ⟨⟨hc, rfl⟩, rfl⟩
  · have hne : (s.sv v).ino ≠ 1 := by
      intro hone
      have ht := hc.types (s.sv v).ino (live_of_mem hv)
      rw [file, hc.inodeOf hv, if_pos hone] at ht
      exact hdir ht
    rw [if_neg hdir, ends_bind]
    apply (dirLink_ends hc hh hroot (loaded_of_mem hv)).mono
    · intro slot t hadd
      rw [ends_countLink]
      obtain ⟨hcons, hst, -, -, hpairs⟩ := hc.addLink hadd cname.property hv hne
      exact ⟨⟨hcons, hst.nblocks⟩, hpairs⟩
    · intro _ t hg
      exact hc.kept_of_grown hg

theorem remove_kept :
    Ends (remove h cname memory) s
      (fun _ t => Kept s t ∧ ∃ n, (cname.val, n) ∈ s.pairs ∧ t.pairs = s.pairs \ {(cname.val, n)})
      fun _ t => Kept s t ∧ t.pairs = s.pairs := by
  unfold remove
  rw [ends_bind]
  apply (lookonce_ends hc hh hroot).mono
  · rintro ⟨v, slot⟩ t hf
    have hct := hc.opened hf.opened
    obtain ⟨hht, hino⟩ := hf.opened.keeps h hh
    have hdir : t.file 1 = s.file 1 := hf.opened.file 1
    have hused : (t.file 1).UsedSlot slot := by
      rw [hdir]
      exact hf.used
    have hvino : (t.sv v).ino = (t.file 1).slotIno slot := by
      rw [hdir]
      exact hf.ino
    rw [ends_bind, ends_attempt]
    apply (dirUnlink_ends hct.toAcct hht (hino.trans hroot) hused (hvino ▸ loaded_of_mem hf.mem)).mono _ fun _ _ => id
    intro _ u hw
    obtain ⟨hpos, hcons, hst, hpairs⟩ := hct.dropLink hw hused hf.mem hvino
    simp only []
    rw [ends_bind, ends_uncountLink hpos]
    apply (decref_kept hcons (hst.vnodes ▸ hf.mem)).mono _ fun _ _ => id
    rintro - w ⟨hk, hwpairs⟩
    refine ⟨⟨hk.consistent, hk.nblocks.trans (hst.nblocks.trans hf.opened.nblocks)⟩, (s.file 1).slotIno slot,
      ⟨slot, hf.used, hf.name, rfl⟩, ?_⟩
    rw [hwpairs, hpairs, pairs, hdir, hf.name]
    rfl
  · rintro _ t rfl
    exact ⟨⟨hc, rfl⟩, rfl⟩

theorem creatLink_kept (hv : v ∈ s.vnodes) (hne : (s.sv v).ino ≠ 1) :
    Ends (creatLink h cname v) s
      (fun w t => Kept s t ∧ t.pairs = insert (cname.val, (s.sv v).ino) s.pairs ∧ w = v ∧ SameTable s t ∧
        ∃ m, t.file (s.sv v).ino = { s.file (s.sv v).ino with links := m })
      fun _ t => Kept s t ∧ t.pairs = s.pairs := by
  unfold creatLink
  rw [ends_bind, ends_read, ends_bind, ends_attempt]
  apply (dirLink_ends hc hh hroot (loaded_of_mem hv)).mono
  · intro slot t hadd
    simp only []
    rw [ends_bind, ends_countLink, ends_pure]
    obtain ⟨hcons, hst, -, hfile, hpairs⟩ := hc.addLink hadd cname.property hv hne
    exact ⟨⟨hcons, hst.nblocks⟩, hpairs, rfl, hst, hfile⟩
  · intro e t hg
    obtain ⟨hk, hpairs⟩ := hc.kept_of_grown hg
    simp only []
    rw [ends_bind]
    apply (decref_kept hk.consistent (hg.mem hv)).mono _ fun _ _ => id
    rintro - u ⟨hk', hpairs'⟩
    rw [ends_fail]
    exact ⟨hk.trans hk', hpairs'.trans hpairs⟩

theorem creat_kept {excl : Bool} :
    Ends (creat h cname excl memory) s
      (fun w t => Kept s t ∧ ((∃ n, (cname.val, n) ∈ s.pairs) ∧ t.pairs = s.pairs ∨
        t.pairs = insert (cname.val, (t.sv w).ino) s.pairs ∧ w ∈ t.vnodes ∧ (t.sv w).ino ≠ 1 ∧
        ∃ m, t.file (t.sv w).ino = { emptyFile with links := m }))
      fun _ t => Kept s t ∧ t.pairs = s.pairs := by
  unfold creat
  rw [ends_bind]
  apply (dirFindname_ends hc.toAcct hh hroot hc.names).mono _ fun _ _ => id
  rintro found t ⟨rfl, hf⟩
  cases hentry : found.entry with
  | some q =>
    obtain ⟨-, hused, hname, hino⟩ := hf.present q.1 q.2 hentry
    have hlive : t.Live q.2 := .inr (.inl ⟨q.1, hused, hino⟩)
    simp only []
    by_cases hexcl : excl = true
    · rw [if_pos hexcl, ends_fail]
      exact ⟨⟨hc, rfl⟩, rfl⟩
    · rw [if_neg hexcl]
      apply (loadvnode_ends hc.toAcct hlive).mono
      · rintro w u ⟨ho, -, -, -⟩
        obtain ⟨hk, hpairs⟩ := hc.kept_of_opened ho
        exact ⟨hk, .inl ⟨⟨q.2, q.1, hused, hname, hino⟩, hpairs⟩⟩
      · rintro _ u ⟨-, rfl, -, -⟩
        exact ⟨⟨hc, rfl⟩, rfl⟩
  | none =>
    simp only []
    rw [ends_bind]
    apply (makeobj_ends hc.toAcct).mono
    · rintro w u ⟨b, hb, hfree, rfl, rfl⟩
      have hcu := hc.created hfree hb
      have hmem : h ∈ (t.created b).vnodes := mem_withVnode.mpr (.inl hh)
      have hdir : (t.created b).file 1 = t.file 1 := file_created hc.toAcct hfree (live_root t)
      have hsv : (t.created b).sv h = t.sv h := sv_withVnode_of_mem (tableOk_alloc hc.toTableOk hc.toSpaceOk hfree) hh
      have hnew : (t.created b).sv t.fresh = newVnode b := sv_withVnode_self
      have hpairs : (t.created b).pairs = t.pairs := by rw [pairs, hdir, pairs]
      have hne : ((t.created b).sv t.fresh).ino ≠ 1 := by
        rw [hnew]
        exact fun hone => not_live_of_free hc.toAcct hfree (.inl hone)
      apply (creatLink_kept hcu hmem (by rwa [hsv]) (mem_withVnode.mpr (.inr rfl)) hne).mono
      · rintro - w ⟨hk, hwpairs, rfl, hst, m, hfile⟩
        refine ⟨⟨hk.consistent, hk.nblocks⟩, .inr ?_⟩
        rw [hst.ino, hwpairs, hpairs]
        refine ⟨rfl, hst.vnodes ▸ mem_withVnode.mpr (.inr rfl), hne, m, hfile.trans ?_⟩
        change { (t.created b).file ((t.created b).sv t.fresh).ino with links := m } = _
        rw [hnew, show (newVnode b).ino = b from rfl, file_created_self hc.toAcct hfree]
      · rintro - w ⟨hk, hwpairs⟩
        exact ⟨⟨hk.consistent, hk.nblocks⟩, hwpairs.trans hpairs⟩
    · intro e u hg
      exact hc.kept_of_grown hg

theorem renameUnlink_kept {g slot1 slot2 : ℕ} (hg : g ∈ s.vnodes) (hadd : Added s t cname'.val (s.sv g).ino slot2)
    (hused : (s.file 1).UsedSlot slot1) (hname : (s.file 1).slotName slot1 = cname.val)
    (hino : (s.sv g).ino = (s.file 1).slotIno slot1) :
    Ends (renameUnlink h g slot1 slot2) t
      (fun _ u => Kept s u ∧ u.pairs =
        insert (cname'.val, (s.sv g).ino) (s.pairs \ {(cname.val, (s.sv g).ino)})) E := by
  have hne : (s.sv g).ino ≠ 1 := by
    rw [hino]
    exact hc.names.noRoot slot1 hused
  have hslots : slot1 ≠ slot2 := by
    rintro rfl
    exact hadd.free hused
  obtain ⟨hcons, hst, hdir, -, hpairs⟩ := hc.addLink hadd cname'.property hg hne
  unfold renameUnlink
  rw [ends_bind, ends_countLink, ends_bind, ends_attempt]
  generalize t.withLinks g (linkcount (t.sv g).inode + 1) = w at hcons hst hdir hpairs
  have hgw : g ∈ w.vnodes := hst.vnodes ▸ hg
  have hused' : (w.file 1).UsedSlot slot1 := by
    rw [hdir, SfsFile.usedSlot_withSlot_of_ne hc.slots hadd.slot_le hslots]
    exact hused
  have hino' : (w.sv g).ino = (w.file 1).slotIno slot1 := by
    rw [hst.ino g, hdir, SfsFile.slotIno_withSlot_of_ne hslots, hino]
  have hname' : (w.file 1).slotName slot1 = cname.val := by
    rw [hdir, SfsFile.slotName_withSlot_of_ne hslots, hname]
  apply (dirUnlink_ends hcons.toAcct (hst.vnodes ▸ hh) ((hst.ino h).trans hroot) hused'
    (hino' ▸ loaded_of_mem hgw)).mono _ fun _ _ => id
  intro _ x hw
  obtain ⟨hpos, hcons', hst', hpairs'⟩ := hcons.dropLink hw hused' hgw hino'
  simp only []
  rw [ends_bind, ends_uncountLink hpos]
  apply (decref_kept hcons' (hst'.vnodes ▸ hgw)).mono _ fun _ _ => id
  rintro - y ⟨hk, hypairs⟩
  refine ⟨⟨hk.consistent, hk.nblocks.trans (hst'.nblocks.trans hst.nblocks)⟩, ?_⟩
  rw [hypairs, hpairs', hpairs, hname', ← hino', hst.ino g]
  apply Set.insert_sdiff_of_notMem
  intro heq
  exact hadd.new slot1 hused (hname.trans (Prod.mk.inj heq).1.symm)

theorem rename_kept :
    Ends (rename h cname h cname' memory) s
      (fun _ t => Kept s t ∧ ∃ n, (cname.val, n) ∈ s.pairs ∧
        t.pairs = insert (cname'.val, n) (s.pairs \ {(cname.val, n)}))
      fun _ t => Kept s t ∧ t.pairs = s.pairs := by
  unfold rename
  rw [ends_bind, ends_require]
  refine ⟨rfl, ?_⟩
  rw [ends_bind, ends_read, ends_bind, ends_require]
  refine ⟨hroot, ?_⟩
  rw [ends_bind]
  apply (lookonce_ends hc hh hroot).mono
  · rintro ⟨g, slot1⟩ t hf
    obtain ⟨hkt, hpairs⟩ := hc.kept_of_opened hf.opened
    have hct := hkt.consistent
    obtain ⟨hht, hhino⟩ := hf.opened.keeps h hh
    have hdir : t.file 1 = s.file 1 := hf.opened.file 1
    have hused : (t.file 1).UsedSlot slot1 := by
      rw [hdir]
      exact hf.used
    have hname : (t.file 1).slotName slot1 = cname.val := by
      rw [hdir]
      exact hf.name
    have hino : (t.sv g).ino = (t.file 1).slotIno slot1 := by
      rw [hdir]
      exact hf.ino
    have htype : Dinode.type (t.sv g).inode = 1 := by
      have hne : (t.sv g).ino ≠ 1 := by
        rw [hino]
        exact hct.names.noRoot slot1 hused
      have ht := hct.types (t.sv g).ino (live_of_mem hf.mem)
      rwa [file, hct.inodeOf hf.mem, if_neg hne] at ht
    rw [ends_bind, ends_read, ends_bind, ends_require]
    refine ⟨htype, ?_⟩
    rw [ends_bind, ends_attempt]
    apply (dirLink_ends hct hht (hhino.trans hroot) (loaded_of_mem hf.mem)).mono
    · intro slot2 u hadd
      apply (renameUnlink_kept hct hht (hhino.trans hroot) hf.mem hadd hused hname hino).mono _ fun _ _ => id
      rintro - w ⟨hk, hwpairs⟩
      refine ⟨hkt.trans hk, (t.sv g).ino, ⟨slot1, hf.used, hf.name, hf.ino.symm⟩, ?_⟩
      rw [hwpairs, hpairs]
    · intro e u hg
      obtain ⟨hku, hupairs⟩ := hct.kept_of_grown hg
      simp only []
      rw [ends_bind]
      apply (decref_kept hku.consistent (hg.mem hf.mem)).mono _ fun _ _ => id
      rintro - w ⟨hk, hwpairs⟩
      rw [ends_fail]
      exact ⟨(hkt.trans hku).trans hk, hwpairs.trans (hupairs.trans hpairs)⟩
  · rintro _ t rfl
    exact ⟨⟨hc, rfl⟩, rfl⟩

end Ops

/-! ### Runs of directory operations -/

/-- `h` is a vnode of the root directory. -/
def IsRoot (s : Sfs) (h : ℕ) : Prop := h ∈ s.vnodes ∧ (s.sv h).ino = 1

instance (s : Sfs) (h : ℕ) : Decidable (s.IsRoot h) := inferInstanceAs (Decidable (_ ∧ _))

/-- The operations on the directory. -/
inductive DirOp where
  | creat (h : ℕ) (name : CString) (excl : Bool) (memory : SfsMemory)
  | link (h : ℕ) (name : CString) (f : ℕ)
  | remove (h : ℕ) (name : CString) (memory : SfsMemory)
  | rename (d1 : ℕ) (n1 : CString) (d2 : ℕ) (n2 : CString) (memory : SfsMemory)

namespace DirOp

def call : DirOp → SfsCall Unit
  | .creat h name excl memory => do
    let _ ← Sfs.creat h name excl memory
    pure ()
  | .link h name f => Sfs.link h name f
  | .remove h name memory => Sfs.remove h name memory
  | .rename d1 n1 d2 n2 memory => Sfs.rename d1 n1 d2 n2 memory

/-- The vnodes that are passed are held by the caller, and the directory is the root directory. -/
def Legal (s : Sfs) : DirOp → Prop
  | .creat h _ _ _ => s.IsRoot h
  | .link h _ f => s.IsRoot h ∧ f ∈ s.vnodes
  | .remove h _ _ => s.IsRoot h
  | .rename d1 _ d2 _ _ => s.IsRoot d1 ∧ s.IsRoot d2

instance (s : Sfs) : (op : DirOp) → Decidable (op.Legal s)
  | .creat h _ _ _ => inferInstanceAs (Decidable (s.IsRoot h))
  | .link h _ f => inferInstanceAs (Decidable (s.IsRoot h ∧ f ∈ s.vnodes))
  | .remove h _ _ => inferInstanceAs (Decidable (s.IsRoot h))
  | .rename d1 _ d2 _ _ => inferInstanceAs (Decidable (s.IsRoot d1 ∧ s.IsRoot d2))

theorem call_kept {op : DirOp} (hc : s.Consistent) (hop : op.Legal s) :
    Ends op.call s (fun _ t => Kept s t) fun _ t => Kept s t ∧ t.pairs = s.pairs := by
  cases op with
  | creat h name excl memory =>
    unfold call
    rw [ends_bind]
    apply (creat_kept hc hop.1 hop.2).mono _ fun _ _ => id
    intro _ t hk
    rw [ends_pure]
    exact hk.1
  | link h name f => exact (link_kept hc hop.1.1 hop.1.2 hop.2).mono (fun _ _ hk => hk.1) fun _ _ => id
  | remove h name memory => exact (remove_kept hc hop.1 hop.2).mono (fun _ _ hk => hk.1) fun _ _ => id
  | rename d1 n1 d2 n2 memory =>
    obtain rfl : d1 = d2 := hc.unique d1 hop.1.1 d2 hop.2.1 (hop.1.2.trans hop.2.2.symm)
    exact (rename_kept hc hop.1.1 hop.1.2).mono (fun _ _ hk => hk.1) fun _ _ => id

end DirOp

/-- One directory operation, which may fail, also for lack of memory. -/
def dirStep (s : Sfs) (op : DirOp) : Option Sfs := if op.Legal s then (op.call s).state? else none

theorem Consistent.dirStep {op : DirOp} (hc : s.Consistent) (hstep : s.dirStep op = some t) : t.Consistent := by
  unfold Sfs.dirStep at hstep
  by_cases hop : op.Legal s
  · rw [if_pos hop] at hstep
    exact ((DirOp.call_kept hc hop).mono (fun _ _ hk => hk.consistent) fun _ _ hk => hk.1.consistent).of_state? hstep
  · rw [if_neg hop] at hstep
    exact nomatch hstep

/-- **Names and link counts.**  After any directory operations on a consistent volume, whether or not they succeeded, no
two slots in use hold the same name and the link count of every file is the number of slots that hold its inode.  No
further operation stops the machine; one that fails, be it for lack of memory, leaves the names and their inodes as they
were, and a `rename` that succeeds replaces the old name by the new one for the same inode. -/
theorem names_and_links_agree {s₀ : Sfs} (h₀ : s₀.Consistent) (hs : Reaches (StepOf dirStep) (· = s₀) s) :
    (∀ i j, (s.file 1).UsedSlot i → (s.file 1).UsedSlot j →
      (s.file 1).slotName i = (s.file 1).slotName j → i = j) ∧
    (∀ ino, s.Live ino → ino ≠ 1 → (s.file ino).links = (s.file 1).slotCount ino) ∧
    ∀ op : DirOp, op.Legal s →
      (∀ e, op.call s ≠ .stop e) ∧ (∀ e t, op.call s = .fail e t → t.pairs = s.pairs) ∧
      ∀ d₁ n₁ d₂ n₂ memory t, op = .rename d₁ n₁ d₂ n₂ memory → op.call s = .ok () t →
        ∃ ino, (n₁.val, ino) ∈ s.pairs ∧ t.pairs = insert (n₂.val, ino) (s.pairs \ {(n₁.val, ino)}) := by
  have hc : s.Consistent := hs.invariant (fun _ heq => heq ▸ h₀) fun _ _ _ hc hstep => hc.dirStep hstep
  refine ⟨hc.names.unique, hc.links, fun op hop => ⟨fun e => ?_, fun e t hfail => ?_, ?_⟩⟩
  · exact (DirOp.call_kept hc hop).not_stop
  · exact ((DirOp.call_kept hc hop).of_fail hfail).2
  · rintro d₁ n₁ d₂ n₂ memory t rfl hok
    obtain rfl : d₁ = d₂ := hc.unique d₁ hop.1.1 d₂ hop.2.1 (hop.1.2.trans hop.2.2.symm)
    exact ((rename_kept hc hop.1.1 hop.1.2).of_ok hok).2

/-- The name of one letter. -/
def letter (c : UInt8) (hc : c ≠ 0) : CString := ⟨[c], fun hmem => hc (List.mem_singleton.mp hmem).symm⟩

/-- A file is made in an empty volume, after a first attempt that lacked memory for the vnode table, and renamed. -/
theorem names_and_links_agree_after_creat :
    ∃ s t ino, Reaches (StepOf dirStep) (· = emptyVolume 16) s ∧
      (DirOp.rename 0 (letter 97 (by decide)) 0 (letter 98 (by decide)) .plenty).call s = .ok () t ∧
      ([97], ino) ∈ s.pairs ∧ t.pairs = insert ([98], ino) (s.pairs \ {([97], ino)}) := by
  have hrun : (follow dirStep [.creat 0 (letter 97 (by decide)) false ⟨true, false⟩,
      .creat 0 (letter 97 (by decide)) false .plenty] (emptyVolume 16)).any (fun s =>
      decide ((DirOp.rename 0 (letter 97 (by decide)) 0 (letter 98 (by decide)) .plenty).Legal s) &&
        ((DirOp.rename 0 (letter 97 (by decide)) 0 (letter 98 (by decide)) .plenty).call s).returned) = true := by
    decide +kernel
  obtain ⟨s, hs, hp⟩ := exists_reaches_of_follow dirStep (· = emptyVolume 16) (emptyVolume 16) _ _ rfl hrun
  obtain ⟨hlegal, hret⟩ := Bool.and_eq_true_iff.mp hp
  obtain ⟨⟨⟩, t, hok⟩ := Reply.ok_of_returned hret
  have hcons : (emptyVolume 16).Consistent := consistent_emptyVolume (by decide) (by decide)
  obtain ⟨ino, hmem, hpairs⟩ :=
    ((names_and_links_agree hcons hs).2.2 _ (of_decide_eq_true hlegal)).2.2 _ _ _ _ _ t rfl hok
  exact ⟨s, t, ino, hs, hok, hmem, hpairs⟩

end Sfs

end Os161Kernel
