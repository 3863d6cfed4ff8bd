import Os161Kernel.SfsMoves

/-!
# Moves of the vnode table

An inode is read into memory or made, written back, and dropped again; when a file without links is dropped its inode
block is free again.
-/

namespace Os161Kernel

open Memory Ledger Function Dinode

namespace Sfs

variable {s s' : Sfs} {ino h b k n : ℕ} {p : Ptr} {v : SfsVnode}

/-! ### Vnodes change without their inodes -/

/-- The same inodes are in memory. -/
structure SameInodes (s s' : Sfs) : Prop where
  vnodes : s'.vnodes = s.vnodes
  disk : s'.disk = s.disk
  ino : ∀ h, (s'.sv h).ino = (s.sv h).ino
  inode : ∀ h, (s'.sv h).inode = (s.sv h).inode

namespace SameInodes

theorem inodeOf (hsi : SameInodes s s') (ino : ℕ) : s'.inodeOf ino = s.inodeOf ino := by
  unfold Sfs.inodeOf
  simp only [hsi.vnodes, hsi.ino, hsi.inode, hsi.disk]

theorem ptr (hsi : SameInodes s s') : s'.ptr ino p = s.ptr ino p :=
  ptr_congr (hsi.inodeOf ino) (by rw [hsi.disk]) p

theorem file (hsi : SameInodes s s') (ino : ℕ) : s'.file ino = s.file ino :=
  file_congr (hsi.inodeOf ino) fun _ => fileByte_congr hsi.ptr hsi.disk

theorem live (hsi : SameInodes s s') : s'.Live ino ↔ s.Live ino := by
  unfold Live Loaded
  simp only [hsi.file, hsi.vnodes, hsi.ino]

end SameInodes

/-- The accounts do not depend on the other fields of the vnodes, as long as the table is in order. -/
theorem Acct.of_sameInodes (ha : s.Acct) (hsi : SameInodes s s') (ht : s'.TableOk) (hn : s'.nblocks = s.nblocks)
    (hfm : s'.freemap = s.freemap) : s'.Acct := by
  have hled : Exact s'.owns s'.Used := by
    apply ha.ledger.congr
    · intro r
      exact owns_congr (fun _ => hsi.live) hn fun _ _ _ _ => hsi.ptr
    · intro u
      unfold Used
      rw [hn, hfm]
  refine ⟨ht, ⟨hled, ?_, ?_⟩, ⟨?_, ?_, ?_⟩⟩
  · rw [hn, hfm]
    exact ha.high
  · rw [hn]
    exact ha.covers
  · intro ino hl
    rw [hsi.file]
    exact ha.types ino (hsi.live.mp hl)
  · rw [hsi.file]
    exact ha.slots
  · rw [hsi.file]
    exact ha.small

/-- The volume with the reference count of a vnode set. -/
def withRefcount (s : Sfs) (h n : ℕ) : Sfs :=
  { s with sv := update s.sv h { s.sv h with refcount := n } }

theorem sameInodes_withRefcount : SameInodes s (s.withRefcount h n) := by
  refine ⟨rfl, rfl, fun h' => ?_, fun h' => ?_⟩
  · by_cases hne : h' = h
    · subst hne
      simp [withRefcount]
    · simp [withRefcount, hne]
  · by_cases hne : h' = h
    · subst hne
      simp [withRefcount]
    · simp [withRefcount, hne]

theorem Acct.withRefcount (ha : s.Acct) (hn : 0 < n) : (s.withRefcount h n).Acct := by
  have hsi : SameInodes s (s.withRefcount h n) := sameInodes_withRefcount
  apply ha.of_sameInodes hsi _ rfl rfl
  refine ⟨ha.nodup, ?_, ha.fresh, ?_, ?_⟩
  · intro h' hh' h'' hh'' heq
    rw [hsi.ino, hsi.ino] at heq
    exact ha.unique h' hh' h'' hh'' heq
  · intro h' hh'
    by_cases hne : h' = h
    · subst hne
      simpa [Sfs.withRefcount] using hn
    · simpa [Sfs.withRefcount, hne] using ha.refs h' hh'
  · intro h' hh' hd
    rw [hsi.ino, hsi.inode]
    apply ha.clean h' hh'
    by_cases hne : h' = h
    · subst hne
      simpa [Sfs.withRefcount] using hd
    · simpa [Sfs.withRefcount, hne] using hd

/-! ### An inode is written back -/

/-- The volume after the inode of `h` has been written to the disk. -/
def synced (s : Sfs) (h : ℕ) : Sfs :=
  { s.withBlock (s.sv h).ino (s.sv h).inode with sv := update s.sv h { s.sv h with dirty := false } }

theorem sameInodes_synced : SameInodes (s.withBlock (s.sv h).ino (s.sv h).inode) (s.synced h) := by
  refine ⟨rfl, rfl, fun h' => ?_, fun h' => ?_⟩
  · by_cases hne : h' = h
    · subst hne
      simp [synced, withBlock]
    · simp [synced, withBlock, hne]
  · by_cases hne : h' = h
    · subst hne
      simp [synced, withBlock]
    · simp [synced, withBlock, hne]

theorem SpaceOk.off_inode (hs : s.SpaceOk) (hh : h ∈ s.vnodes) (hl : s.Live ino) :
    Off s (s.sv h).ino ino ∧ ∀ k, s.fileBlock ino k ≠ (s.sv h).ino := by
  refine ⟨⟨?_, hs.ptr_ne_inode hl (live_of_mem hh)⟩, fun k => hs.ptr_ne_inode hl (live_of_mem hh)⟩
  by_cases heq : ino = (s.sv h).ino
  · exact .inl (heq ▸ loaded_of_mem hh)
  · exact .inr heq

theorem Acct.synced (ha : s.Acct) (hh : h ∈ s.vnodes) : (s.synced h).Acct ∧ SameFiles s (s.synced h) := by
  have hsi : SameInodes (s.withBlock (s.sv h).ino (s.sv h).inode) (s.synced h) := sameInodes_synced
  have hst : SameTable s (s.synced h) := by
    refine ⟨rfl, rfl, rfl, hsi.ino, fun h' => ?_⟩
    by_cases hne : h' = h
    · subst hne
      simp [Sfs.synced, withBlock]
    · simp [Sfs.synced, withBlock, hne]
  have hsf : SameFiles s (s.synced h) := by
    refine ⟨hst, fun ino' hl' => ?_⟩
    obtain ⟨hoff, hblock⟩ := ha.off_inode hh hl'
    rw [hsi.file, file_withBlock hoff hblock]
  have ht : (s.synced h).TableOk := by
    apply ha.toTableOk.of_same hst
    intro h' hh' hd
    rw [hsi.inode]
    by_cases hne : h' = h
    · subst hne
      exact update_self ..
    · have hino : (s.sv h').ino ≠ (s.sv h).ino := fun heq => hne (ha.unique h' hh' h hh heq)
      have hd' : (s.sv h').dirty = false := by simpa [Sfs.synced, withBlock, hne] using hd
      exact (update_of_ne hino ..).trans (ha.clean h' hh' hd')
  refine ⟨ha.keep hst ht rfl (fun _ => hsf.live) ?_ ?_ ?_ ?_, hsf⟩
  · intro ino' p' hl'
    rw [hsi.ptr, ptr_withBlock (ha.off_inode hh hl').1]
  · intro ino' hl'
    rw [hsf.file ino' hl']
  · rw [hsf.file 1 (live_root s)]
    exact ha.slots
  · rw [hsf.file 1 (live_root s)]
    exact ha.small

/-! ### A vnode is dropped -/

/-- The volume without the vnode `h`. -/
def dropped (s : Sfs) (h : ℕ) : Sfs := { s with vnodes := s.vnodes.erase h }

theorem loaded_dropped (ht : s.TableOk) (hh : h ∈ s.vnodes) :
    (s.dropped h).Loaded ino ↔ s.Loaded ino ∧ ino ≠ (s.sv h).ino := by
  constructor
  · rintro ⟨h', hh', rfl⟩
    obtain ⟨hne, hmem⟩ := ht.nodup.mem_erase_iff.mp hh'
    exact ⟨loaded_of_mem hmem, fun heq => hne (ht.unique h' hmem h hh heq)⟩
  · rintro ⟨⟨h', hh', rfl⟩, hne⟩
    refine ⟨h', ht.nodup.mem_erase_iff.mpr ⟨?_, hh'⟩, rfl⟩
    rintro rfl
    exact hne rfl

theorem tableOk_dropped (ht : s.TableOk) : (s.dropped h).TableOk := by
  have hsub : ∀ h' ∈ (s.dropped h).vnodes, h' ∈ s.vnodes := fun h' hh' => List.mem_of_mem_erase hh'
  refine ⟨ht.nodup.erase h, ?_, ?_, ?_, ?_⟩
  · intro h' hh' h'' hh'' heq
    exact ht.unique h' (hsub h' hh') h'' (hsub h'' hh'') heq
  · intro h' hh'
    exact ht.fresh h' (hsub h' hh')
  · intro h' hh'
    exact ht.refs h' (hsub h' hh')
  · intro h' hh'
    exact ht.clean h' (hsub h' hh')

theorem inodeOf_dropped_of_ne (ht : s.TableOk) (hh : h ∈ s.vnodes) (hne : ino ≠ (s.sv h).ino) :
    (s.dropped h).inodeOf ino = s.inodeOf ino := by
  by_cases hl : s.Loaded ino
  · obtain ⟨h', hh', hin⟩ := (loaded_dropped ht hh).mpr ⟨hl, hne⟩
    rw [← hin, (tableOk_dropped ht).inodeOf hh']
    exact (ht.inodeOf (List.mem_of_mem_erase hh')).symm
  · have hl' : ¬ (s.dropped h).Loaded ino := fun hl' => hl ((loaded_dropped ht hh).mp hl').1
    rw [inodeOf_of_not_loaded hl, inodeOf_of_not_loaded hl']
    rfl

theorem inodeOf_dropped_self (ht : s.TableOk) (hh : h ∈ s.vnodes) (hclean : (s.sv h).dirty = false) :
    (s.dropped h).inodeOf (s.sv h).ino = s.inodeOf (s.sv h).ino := by
  have hl' : ¬ (s.dropped h).Loaded (s.sv h).ino := fun hl' => ((loaded_dropped ht hh).mp hl').2 rfl
  rw [inodeOf_of_not_loaded hl', ht.inodeOf hh]
  exact ht.clean h hh hclean

theorem file_dropped (hinode : (s.dropped h).inodeOf ino = s.inodeOf ino) :
    (s.dropped h).file ino = s.file ino :=
  file_congr hinode fun _ => fileByte_congr (ptr_congr hinode rfl _) rfl

/-- **A vnode whose inode stays in use is dropped.** -/
theorem Acct.dropped (ha : s.Acct) (hh : h ∈ s.vnodes) (hclean : (s.sv h).dirty = false)
    (hkeep : (s.sv h).ino = 1 ∨ (s.file 1).Holds (s.sv h).ino) :
    (s.dropped h).Acct ∧ (∀ ino, (s.dropped h).file ino = s.file ino) ∧
      ∀ ino, (s.dropped h).Live ino ↔ s.Live ino := by
  have hinode : ∀ ino, (s.dropped h).inodeOf ino = s.inodeOf ino := by
    intro ino
    by_cases hino : ino = (s.sv h).ino
    · rw [hino]
      exact inodeOf_dropped_self ha.toTableOk hh hclean
    · exact inodeOf_dropped_of_ne ha.toTableOk hh hino
  have hfile : ∀ ino, (s.dropped h).file ino = s.file ino := fun ino => file_dropped (hinode ino)
  have hlive : ∀ ino, (s.dropped h).Live ino ↔ s.Live ino := by
    intro ino
    unfold Live
    rw [hfile, loaded_dropped ha.toTableOk hh]
    by_cases hino : ino = (s.sv h).ino
    · subst hino
      tauto
    · tauto
  refine ⟨⟨tableOk_dropped ha.toTableOk, ⟨?_, ha.high, ha.covers⟩, ⟨?_, ?_, ?_⟩⟩, hfile, hlive⟩
  · apply ha.ledger.congr
    · intro r
      exact owns_congr hlive rfl fun ino p _ _ => ptr_congr (hinode ino) rfl p
    · intro u
      rfl
  · intro ino hl
    rw [hfile]
    exact ha.types ino ((hlive ino).mp hl)
  · rw [hfile]
    exact ha.slots
  · rw [hfile]
    exact ha.small

/-- **A file without links and blocks is discarded**: its vnode is dropped and its inode block is free. -/
theorem Acct.discarded (ha : s.Acct) (hh : h ∈ s.vnodes) (hne : (s.sv h).ino ≠ 1)
    (hno : ¬ (s.file 1).Holds (s.sv h).ino) (hempty : ∀ p, s.ptr (s.sv h).ino p = 0) :
    ((s.free (s.sv h).ino).dropped h).Acct ∧
      (∀ ino, ino ≠ (s.sv h).ino → ((s.free (s.sv h).ino).dropped h).file ino = s.file ino) ∧
      ∀ ino, ((s.free (s.sv h).ino).dropped h).Live ino ↔ s.Live ino ∧ ino ≠ (s.sv h).ino := by
  have htf := tableOk_free (b := (s.sv h).ino) ha.toTableOk
  have hinode : ∀ ino, ino ≠ (s.sv h).ino → ((s.free (s.sv h).ino).dropped h).inodeOf ino = s.inodeOf ino :=
    fun ino hino => inodeOf_dropped_of_ne htf hh hino
  have hfile : ∀ ino, ino ≠ (s.sv h).ino → ((s.free (s.sv h).ino).dropped h).file ino = s.file ino :=
    fun ino hino => file_dropped (s := s.free (s.sv h).ino) (hinode ino hino)
  have hlive : ∀ ino, ((s.free (s.sv h).ino).dropped h).Live ino ↔ s.Live ino ∧ ino ≠ (s.sv h).ino := by
    intro ino
    unfold Live
    rw [hfile 1 hne.symm, loaded_dropped htf hh]
    show _ ∨ _ ∨ s.Loaded ino ∧ ino ≠ (s.sv h).ino ↔ _
    by_cases hino : ino = (s.sv h).ino
    · subst hino
      tauto
    · tauto
  have hown : s.owns (.inode (s.sv h).ino) = some (s.sv h).ino := owns_inode (live_of_mem hh)
  refine ⟨⟨tableOk_dropped htf, ⟨?_, ?_, ha.covers⟩, ⟨?_, ?_, ?_⟩⟩, hfile, hlive⟩
  · apply ha.ledger.release hown (if_neg fun hl => ((hlive _).mp hl).2 rfl)
    · intro r hr
      classical
      cases r with
      | reserved b => rfl
      | inode ino =>
        have hino : ino ≠ (s.sv h).ino := fun heq => hr (heq ▸ rfl)
        exact if_congr ((hlive ino).trans (and_iff_left hino)) rfl rfl
      | ptr ino p =>
        by_cases hino : ino = (s.sv h).ino
        · rw [hino, owns_ptr_none (hempty p)]
          exact owns_ptr_of_not_live fun hl => ((hlive _).mp hl).2 rfl
        · have hptr : ((s.free (s.sv h).ino).dropped h).ptr ino p = s.ptr ino p := ptr_congr (hinode ino hino) rfl p
          by_cases hl : s.Live ino
          · exact owns_congr_ptr ((hlive ino).mpr ⟨hl, hino⟩) hl hptr
          · rw [owns_ptr_of_not_live hl]
            exact owns_ptr_of_not_live fun hl' => hl ((hlive ino).mp hl').1
    · exact used_release rfl rfl
  · exact high_update ha.toSpaceOk rfl rfl (ha.live_used (live_of_mem hh)).1
  · intro ino hl
    obtain ⟨hl', hino⟩ := (hlive ino).mp hl
    rw [hfile ino hino]
    exact ha.types ino hl'
  · rw [hfile 1 hne.symm]
    exact ha.slots
  · rw [hfile 1 hne.symm]
    exact ha.small

/-! ### A vnode is added -/

/-- The volume with a new vnode. -/
def withVnode (s : Sfs) (v : SfsVnode) : Sfs :=
  { s with vnodes := s.vnodes ++ [s.fresh], sv := update s.sv s.fresh v, fresh := s.fresh + 1 }

theorem sv_withVnode_self : (s.withVnode v).sv s.fresh = v := update_self ..

theorem sv_withVnode_of_mem (ht : s.TableOk) (hh : h ∈ s.vnodes) : (s.withVnode v).sv h = s.sv h := by
  have := ht.fresh h hh
  exact update_of_ne (by omega) ..

theorem mem_withVnode : h ∈ (s.withVnode v).vnodes ↔ h ∈ s.vnodes ∨ h = s.fresh := by
  simp [withVnode]

theorem loaded_withVnode (ht : s.TableOk) : (s.withVnode v).Loaded ino ↔ s.Loaded ino ∨ ino = v.ino := by
  constructor
  · rintro ⟨h, hh, rfl⟩
    obtain hmem | rfl := mem_withVnode.mp hh
    · rw [sv_withVnode_of_mem ht hmem]
      exact .inl (loaded_of_mem hmem)
    · exact .inr (by rw [sv_withVnode_self])
  · rintro (⟨h, hh, rfl⟩ | rfl)
    · exact ⟨h, mem_withVnode.mpr (.inl hh), by rw [sv_withVnode_of_mem ht hh]⟩
    · exact ⟨s.fresh, mem_withVnode.mpr (.inr rfl), by rw [sv_withVnode_self]⟩

theorem tableOk_withVnode (ht : s.TableOk) (hno : ¬ s.Loaded v.ino) (href : 0 < v.refcount)
    (hclean : v.dirty = false → s.disk v.ino = v.inode) : (s.withVnode v).TableOk := by
  have hnew : s.fresh ∉ s.vnodes := fun hmem => absurd (ht.fresh s.fresh hmem) (by omega)
  refine ⟨?_, ?_, ?_, ?_, ?_⟩
  · show (s.vnodes ++ [s.fresh]).Nodup
    rw [List.nodup_append]
    refine ⟨ht.nodup, by simp, ?_⟩
    rintro h hh h' hh' rfl
    exact hnew ((List.mem_singleton.mp hh') ▸ hh)
  · intro h hh h' hh' heq
    obtain hmem | rfl := mem_withVnode.mp hh
    · obtain hmem' | rfl := mem_withVnode.mp hh'
      · rw [sv_withVnode_of_mem ht hmem, sv_withVnode_of_mem ht hmem'] at heq
        exact ht.unique h hmem h' hmem' heq
      · rw [sv_withVnode_of_mem ht hmem, sv_withVnode_self] at heq
        exact absurd ⟨h, hmem, heq⟩ hno
    · obtain hmem' | rfl := mem_withVnode.mp hh'
      · rw [sv_withVnode_of_mem ht hmem', sv_withVnode_self] at heq
        exact absurd ⟨h', hmem', heq.symm⟩ hno
      · rfl
  · intro h hh
    show h < s.fresh + 1
    obtain hmem | rfl := mem_withVnode.mp hh
    · have := ht.fresh h hmem
      omega
    · omega
  · intro h hh
    obtain hmem | rfl := mem_withVnode.mp hh
    · rw [sv_withVnode_of_mem ht hmem]
      exact ht.refs h hmem
    · rw [sv_withVnode_self]
      exact href
  · intro h hh hd
    obtain hmem | rfl := mem_withVnode.mp hh
    · rw [sv_withVnode_of_mem ht hmem] at hd ⊢
      exact ht.clean h hmem hd
    · rw [sv_withVnode_self] at hd ⊢
      exact hclean hd

theorem inodeOf_withVnode_of_ne (ht : s.TableOk) (ht' : (s.withVnode v).TableOk) (hne : ino ≠ v.ino) :
    (s.withVnode v).inodeOf ino = s.inodeOf ino := by
  by_cases hl : s.Loaded ino
  · obtain ⟨h, hh, rfl⟩ := hl
    have hin : ((s.withVnode v).sv h).ino = (s.sv h).ino := by rw [sv_withVnode_of_mem ht hh]
    rw [ht.inodeOf hh, ← hin, ht'.inodeOf (mem_withVnode.mpr (.inl hh)), sv_withVnode_of_mem ht hh]
  · have hl' : ¬ (s.withVnode v).Loaded ino := by
      rw [loaded_withVnode ht]
      tauto
    rw [inodeOf_of_not_loaded hl, inodeOf_of_not_loaded hl']
    rfl

theorem inodeOf_withVnode_self (ht' : (s.withVnode v).TableOk) : (s.withVnode v).inodeOf v.ino = v.inode := by
  have hin : ((s.withVnode v).sv s.fresh).ino = v.ino := by rw [sv_withVnode_self]
  rw [← hin, ht'.inodeOf (mem_withVnode.mpr (.inr rfl)), sv_withVnode_self]

theorem file_withVnode (hinode : (s.withVnode v).inodeOf ino = s.inodeOf ino) :
    (s.withVnode v).file ino = s.file ino :=
  file_congr hinode fun _ => fileByte_congr (ptr_congr hinode rfl _) rfl

/-- **An inode in use is read into memory.** -/
theorem Acct.loaded (ha : s.Acct) (hl : s.Live v.ino) (hno : ¬ s.Loaded v.ino) (hinode : v.inode = s.disk v.ino)
    (href : 0 < v.refcount) :
    (s.withVnode v).Acct ∧ (∀ ino, (s.withVnode v).file ino = s.file ino) ∧
      ∀ ino, (s.withVnode v).Live ino ↔ s.Live ino := by
  have ht' : (s.withVnode v).TableOk := tableOk_withVnode ha.toTableOk hno href fun _ => hinode.symm
  have hinode' : ∀ ino, (s.withVnode v).inodeOf ino = s.inodeOf ino := by
    intro ino
    by_cases hino : ino = v.ino
    · rw [hino, inodeOf_withVnode_self ht', inodeOf_of_not_loaded hno, hinode]
    · exact inodeOf_withVnode_of_ne ha.toTableOk ht' hino
  have hfile : ∀ ino, (s.withVnode v).file ino = s.file ino := fun ino => file_withVnode (hinode' ino)
  have hlive : ∀ ino, (s.withVnode v).Live ino ↔ s.Live ino := by
    intro ino
    unfold Live
    rw [hfile, loaded_withVnode ha.toTableOk]
    by_cases hino : ino = v.ino
    · subst hino
      unfold Live at hl
      tauto
    · tauto
  refine ⟨⟨ht', ⟨?_, ha.high, ha.covers⟩, ⟨?_, ?_, ?_⟩⟩, hfile, hlive⟩
  · apply ha.ledger.congr
    · intro r
      exact owns_congr hlive rfl fun ino p _ _ => ptr_congr (hinode' ino) rfl p
    · intro u
      rfl
  · intro ino hl
    rw [hfile]
    exact ha.types ino ((hlive ino).mp hl)
  · rw [hfile]
    exact ha.slots
  · rw [hfile]
    exact ha.small

/-- The inode of an empty file. -/
def newInode : Block := setType (fun _ => 0) 1

theorem target_newInode {disk : ℕ → Block} : p.target newInode disk = 0 := by
  have hind : indirect newInode = 0 := indirect_setType.trans (load32_zero 68)
  cases p with
  | direct k =>
    have hdir : direct newInode k = 0 := direct_setType.trans (load32_zero _)
    simp only [Ptr.target, hdir, ite_self]
  | indirect => exact hind
  | entry j => simp [Ptr.target, hind]

theorem load16_zero (a : ℕ) : load16 (fun _ => 0) a = 0 := by simp [load16]

/-- An empty file without links. -/
def emptyFile : SfsFile := ⟨0, 1, 0, fun _ => 0⟩

/-- The vnode of a file that has just been made. -/
def newVnode (ino : ℕ) : SfsVnode := ⟨ino, newInode, true, 1⟩

/-- A file is made in the free block `b`. -/
def created (s : Sfs) (b : ℕ) : Sfs := (s.alloc b).withVnode (newVnode b)

section Created

variable (ha : s.Acct) (hfree : s.freemap b = false)

include ha hfree

theorem not_live_of_free : ¬ s.Live b := fun hl => not_used_of_free hfree (ha.live_used hl)

theorem tableOk_created : (s.created b).TableOk := by
  apply tableOk_withVnode (tableOk_alloc ha.toTableOk ha.toSpaceOk hfree)
  · exact fun hl => not_live_of_free ha hfree (.inr (.inr hl))
  · exact Nat.one_pos
  · exact nofun

theorem inodeOf_created (hl : s.Live ino) : (s.created b).inodeOf ino = s.inodeOf ino := by
  have hne : ino ≠ b := fun heq => not_live_of_free ha hfree (heq ▸ hl)
  rw [← inodeOf_alloc ha.toSpaceOk hfree hl]
  exact inodeOf_withVnode_of_ne (tableOk_alloc ha.toTableOk ha.toSpaceOk hfree) (tableOk_created ha hfree) hne

theorem ptr_created (hl : s.Live ino) : (s.created b).ptr ino p = s.ptr ino p :=
  ptr_congr (inodeOf_created ha hfree hl) (disk_alloc_of_ne (ha.off_free hl (not_used_of_free hfree)).1.indirect) p

theorem file_created (hl : s.Live ino) : (s.created b).file ino = s.file ino := by
  apply file_congr (inodeOf_created ha hfree hl)
  intro q
  have hblock : (s.created b).fileBlock ino (q / 512) = s.fileBlock ino (q / 512) := ptr_created ha hfree hl
  unfold fileByte
  rw [hblock, show (s.created b).disk _ = s.disk _ from disk_alloc_of_ne (ha.fileBlock_ne hfree hl)]

theorem inodeOf_created_self : (s.created b).inodeOf b = newInode := inodeOf_withVnode_self (tableOk_created ha hfree)

theorem ptr_created_self : (s.created b).ptr b p = 0 := by
  unfold ptr
  rw [inodeOf_created_self ha hfree, target_newInode]

theorem file_created_self : (s.created b).file b = emptyFile := by
  have hbytes : (s.created b).fileByte b = fun _ => 0 := funext fun q => if_pos (ptr_created_self ha hfree)
  have hsize : Dinode.size newInode = 0 := size_setType.trans (load32_zero 0)
  have hlinks : linkcount newInode = 0 := linkcount_setType.trans (load16_zero 6)
  have htype : Dinode.type newInode = 1 := type_setType
  unfold Sfs.file emptyFile
  rw [inodeOf_created_self ha hfree, hbytes, hsize, htype, hlinks]

theorem live_created : (s.created b).Live ino ↔ s.Live ino ∨ ino = b := by
  have hloaded : (s.created b).Loaded ino ↔ s.Loaded ino ∨ ino = b :=
    loaded_withVnode (tableOk_alloc ha.toTableOk ha.toSpaceOk hfree)
  unfold Live
  rw [file_created ha hfree (live_root s), hloaded]
  tauto

theorem owns_created {r : BlockRef} (hr : r ≠ .inode b) : (s.created b).owns r = s.owns r := by
  classical
  cases r with
  | reserved u => rfl
  | inode ino =>
    have hino : ino ≠ b := fun heq => hr (heq ▸ rfl)
    exact if_congr ((live_created ha hfree).trans (or_iff_left hino)) rfl rfl
  | ptr ino p =>
    by_cases hl : s.Live ino
    · rw [owns_congr_ptr (live_created ha hfree |>.mpr (.inl hl)) hl (ptr_created ha hfree hl)]
    · rw [owns_ptr_of_not_live hl]
      refine if_neg fun hl' => ?_
      obtain hl'' | rfl := (live_created ha hfree).mp hl'.1
      · exact hl hl''
      · exact hl'.2 (ptr_created_self ha hfree)

theorem acct_created (hb : b < s.nblocks) : (s.created b).Acct := by
  have hnl := not_live_of_free ha hfree
  have hne : b ≠ 1 := fun heq => hnl (heq ▸ live_root s)
  have hroot := file_created ha hfree (live_root s)
  refine ⟨tableOk_created ha hfree, ⟨?_, high_update ha.toSpaceOk rfl rfl hb, ha.covers⟩, ⟨?_, ?_, ?_⟩⟩
  · have hnone : s.owns (.inode b) = none := if_neg hnl
    exact ha.ledger.assign (not_used_of_free hfree) hnone (owns_inode ((live_created ha hfree).mpr (.inr rfl)))
      (fun r hr => owns_created ha hfree hr) (used_assign rfl rfl hb)
  · intro ino hl
    obtain hl' | rfl := (live_created ha hfree).mp hl
    · rw [file_created ha hfree hl']
      exact ha.types ino hl'
    · rw [file_created_self ha hfree, if_neg hne]
      rfl
  · rw [hroot]
    exact ha.slots
  · rw [hroot]
    exact ha.small

end Created

end Sfs

end Os161Kernel
