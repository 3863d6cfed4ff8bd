import Os161Kernel.SfsContents
import Os161Kernel.SfsMount

/-!
# The space of a volume over whole runs

Directory operations, reads, writes, truncations, the loss of references and new references to the root, in any order
and with any failures for lack of space or memory, keep the free map in agreement with what a mounted volume holds.
Block numbers beyond 2²³ would not fit into the offsets of `sfs_blockio`, but no volume of that size can be mounted.
-/

namespace Os161Kernel

open Calls Memory Runs

-- Specifications are used through their rules; unfolding them would run the loops.
attribute [local irreducible] Ends

namespace Sfs

variable {s t : Sfs} {h b : ℕ}

/-! ### Operations -/

/-- The operations on a mounted volume: on the directory, on the contents of files, `VOP_DECREF` and `sfs_getroot`. -/
inductive VolumeOp where
  | dir (op : DirOp)
  | file (op : FileOp)
  | decref (h : ℕ)
  | getroot (memory : SfsMemory)

namespace VolumeOp

def call : VolumeOp → SfsCall Unit
  | .dir op => op.call
  | .file op => op.call
  | .decref h => Sfs.decref h
  | .getroot memory => do
    let _ ← Sfs.getroot memory
    pure ()

/-- The vnodes that are passed are held by the caller. -/
def Legal (s : Sfs) : VolumeOp → Prop
  | .dir op => op.Legal s
  | .file op => op.Legal s
  | .decref h => h ∈ s.vnodes
  | .getroot _ => True

instance (s : Sfs) : (op : VolumeOp) → Decidable (op.Legal s)
  | .dir op => inferInstanceAs (Decidable (op.Legal s))
  | .file op => inferInstanceAs (Decidable (op.Legal s))
  | .decref h => inferInstanceAs (Decidable (h ∈ s.vnodes))
  | .getroot _ => inferInstanceAs (Decidable True)

end VolumeOp

/-- One operation, which may fail. -/
def volumeStep (s : Sfs) (op : VolumeOp) : Option Sfs := if op.Legal s then (op.call s).state? else none

/-! ### Consistency -/

theorem Consistent.fileOp {op : FileOp} (hc : s.Consistent) (hop : op.Legal s) (he : op.Effect s t) : t.Consistent := by
  have hdir : t.file 1 = s.file 1 := he.other 1 hop.isFile.2.symm (live_root s)
  refine ⟨he.acct, ?_, fun ino hl hne => ?_, ?_⟩
  · rw [hdir]
    exact hc.names
  · have hl' := (he.live ino).mp hl
    rw [hdir, ← hc.links ino hl' hne]
    by_cases hino : ino = (s.sv op.vnode).ino
    · rw [hino, he.links]
    · rw [he.other ino hino hl']
  · rw [hdir]
    exact hc.rootLinks

theorem VolumeOp.call_kept {op : VolumeOp} (hc : s.Consistent) (hsmall : s.nblocks ≤ 2 ^ 23) (hop : op.Legal s) :
    Ends op.call s (fun _ t => Kept s t) fun _ t => Kept s t := by
  cases op with
  | dir op =>
    apply (DirOp.call_kept hc hop).mono
    · intro _ t hk
      exact hk
    · intro _ t hk
      exact hk.1
  | file op =>
    apply (FileOp.effect hc.toAcct hsmall hop).mono
    · intro _ t he
      exact ⟨hc.fileOp hop he, he.table.nblocks⟩
    · intro _ t he
      exact ⟨hc.fileOp hop he, he.table.nblocks⟩
  | decref h =>
    apply (decref_kept hc hop).mono _ fun _ _ => id
    intro _ t hk
    exact hk.1
  | getroot memory =>
    unfold call
    rw [ends_bind]
    apply (getroot_ends hc.toAcct).mono
    · rintro _ t ⟨ho, -⟩
      exact ends_pure.mpr (hc.kept_of_opened ho).1
    · rintro _ t ⟨-, rfl, -⟩
      exact ⟨hc, rfl⟩

theorem Consistent.volumeStep {op : VolumeOp} (hc : s.Consistent) (hsmall : s.nblocks ≤ 2 ^ 23)
    (hstep : s.volumeStep op = some t) : Kept s t := by
  unfold Sfs.volumeStep at hstep
  by_cases hop : op.Legal s
  · rw [if_pos hop] at hstep
    exact (VolumeOp.call_kept hc hsmall hop).of_state? hstep
  · rw [if_neg hop] at hstep
    exact nomatch hstep

/-! ### The free map -/

/-- The free map agrees with the volume: the blocks in use are the superblock and the blocks of the free map, the inodes
in use, and the blocks that these point to, each of them once.  No two vnodes share an inode. -/
structure SpaceExact (s : Sfs) : Prop where
  used : ∀ b < s.nblocks, s.freemap b = true ↔
    s.Reserved b ∨ s.Live b ∨ ∃ ino p, s.Live ino ∧ s.ptr ino p ≠ 0 ∧ s.ptr ino p = b
  once : ∀ ino ino' p p', s.Live ino → s.Live ino' → s.ptr ino p ≠ 0 → s.ptr ino' p' = s.ptr ino p →
    ino' = ino ∧ p' = p
  apart : ∀ ino p, s.Live ino → s.ptr ino p ≠ 0 →
    s.ptr ino p < s.nblocks ∧ ¬ s.Reserved (s.ptr ino p) ∧ ¬ s.Live (s.ptr ino p)
  inodes : ∀ ino, s.Live ino → ino < s.nblocks ∧ ¬ s.Reserved ino
  vnodes : ∀ h ∈ s.vnodes, ∀ h' ∈ s.vnodes, (s.sv h).ino = (s.sv h').ino → h = h'

theorem owns_reserved (hr : s.Reserved b) : s.owns (.reserved b) = some b := if_pos hr

theorem Acct.spaceExact (ha : s.Acct) : SpaceExact s where
  used b hb := by
    have hused : s.freemap b = true ↔ s.Used b := (and_iff_right hb).symm
    rw [hused]
    constructor
    · intro hu
      obtain ⟨r, hr⟩ := (ha.ledger.used b).mp hu
      cases r with
      | reserved c =>
        by_cases hc : s.Reserved c
        · rw [owns_reserved hc] at hr
          exact .inl (Option.some.inj hr ▸ hc)
        · exact nomatch (if_neg hc).symm.trans hr
      | inode ino =>
        by_cases hl : s.Live ino
        · rw [owns_inode hl] at hr
          exact .inr (.inl (Option.some.inj hr ▸ hl))
        · exact nomatch (if_neg hl).symm.trans hr
      | ptr ino p =>
        by_cases hl : s.Live ino ∧ s.ptr ino p ≠ 0
        · rw [owns_ptr hl.1 hl.2] at hr
          exact .inr (.inr ⟨ino, p, hl.1, hl.2, Option.some.inj hr⟩)
        · exact nomatch (if_neg hl).symm.trans hr
    · rintro (hr | hl | ⟨ino, p, hl, hp, rfl⟩)
      · exact ha.ledger.used_of_owns (owns_reserved hr)
      · exact ha.live_used hl
      · exact ha.ptr_used hl hp
  once ino ino' p p' hl hl' hp heq := ha.ptr_inj hl hl' hp heq
  apart ino p hl hp := by
    refine ⟨(ha.ptr_used hl hp).1, fun hr => ?_, fun hl' => ha.ptr_ne_inode hl hl' rfl⟩
    exact nomatch ha.ledger.inj _ _ _ (owns_ptr hl hp) (owns_reserved hr)
  inodes ino hl :=
    ⟨(ha.live_used hl).1, fun hr => nomatch ha.ledger.inj _ _ _ (owns_inode hl) (owns_reserved hr)⟩
  vnodes := ha.unique

/-- A mounted volume is small enough for `sfs_blockio`, and every run keeps it consistent. -/
theorem consistent_after_ops {s₀ : Sfs} (h₀ : s₀.Consistent) (hm : s₀.WasMounted)
    (hs : Reaches (StepOf volumeStep) (· = s₀) s) : s.Consistent ∧ s.nblocks ≤ 2 ^ 23 := by
  apply hs.invariant (P := fun s => s.Consistent ∧ s.nblocks ≤ 2 ^ 23)
  · rintro _ rfl
    exact ⟨h₀, (hm.small h₀.toAcct.covers).trans (by decide)⟩
  · rintro s op t ⟨hc, hn⟩ hstep
    have hk := hc.volumeStep hn hstep
    exact ⟨hk.consistent, hk.nblocks ▸ hn⟩

/-- **Space accounting.**  After any operations on a consistent volume that has been mounted, whether or not they
succeeded, the free map agrees with the volume, and no further operation stops the machine. -/
theorem space_accounted {s₀ : Sfs} (h₀ : s₀.Consistent) (hm : s₀.WasMounted)
    (hs : Reaches (StepOf volumeStep) (· = s₀) s) :
    SpaceExact s ∧ ∀ op : VolumeOp, op.Legal s → ∀ e, op.call s ≠ .stop e := by
  obtain ⟨hc, hsmall⟩ := consistent_after_ops h₀ hm hs
  exact ⟨hc.toAcct.spaceExact, fun op hop e => (VolumeOp.call_kept hc hsmall hop).not_stop⟩

/-- A file is made, after an attempt that lacked memory for its vnode, written beyond its end and truncated. -/
theorem space_accounted_after_write :
    ∃ s, Reaches (StepOf volumeStep) (· = emptyVolume 32) s ∧ SpaceExact s := by
  have hrun : (follow volumeStep [.dir (.creat 0 (letter 97 (by decide)) false ⟨false, true⟩),
      .dir (.creat 0 (letter 97 (by decide)) false .plenty), .file (.io 1 (.writeByte 9000 7)),
      .file (.truncate 1 10)] (emptyVolume 32)).any (fun _ => true) = true := by
    decide +kernel
  obtain ⟨s, hs, -⟩ := exists_reaches_of_follow volumeStep (· = emptyVolume 32) (emptyVolume 32) _ _ rfl hrun
  have hm : (emptyVolume 32).WasMounted := wasMounted_of_pages (by decide) (by decide)
  exact ⟨s, hs, (space_accounted (consistent_emptyVolume (by decide) (by decide)) hm hs).1⟩

/-- **The root directory**, after every run from a consistent volume that has been mounted: `sfs_getroot` returns a vnode
of inode 1 and keeps files and accounts, unless the inode is not in memory and there is none for it; then it fails with
`ENOMEM` and has changed nothing. -/
theorem getroot_answers {s₀ : Sfs} (h₀ : s₀.Consistent) (hm : s₀.WasMounted)
    (hs : Reaches (StepOf volumeStep) (· = s₀) s) (memory : SfsMemory) :
    (s.Loaded 1 ∨ memory.Enough → ∃ h t, getroot memory s = .ok h t ∧ h ∈ t.vnodes ∧ (t.sv h).ino = 1 ∧
      (∀ ino, t.file ino = s.file ino) ∧ SpaceExact t) ∧
    (¬ (s.Loaded 1 ∨ memory.Enough) → getroot memory s = .fail .enomem s) := by
  have ha := (consistent_after_ops h₀ hm hs).1.toAcct
  cases hrun : getroot memory s with
  | ok h t =>
    obtain ⟨ho, hmem, hino, henough⟩ := (getroot_ends ha).of_ok hrun
    exact ⟨fun _ => ⟨h, t, rfl, hmem, hino, ho.file, ho.acct.spaceExact⟩, fun hno => absurd henough hno⟩
  | fail e t =>
    obtain ⟨rfl, rfl, hloaded, hmemory⟩ := (getroot_ends ha).of_fail hrun
    exact ⟨fun henough => absurd henough (not_or.mpr ⟨hloaded, hmemory⟩), fun _ => rfl⟩
  | stop e => exact absurd hrun (getroot_ends ha).not_stop

/-- The root is reclaimed and loaded again; without memory it is not. -/
theorem getroot_answers_after_decref :
    ∃ s, Reaches (StepOf volumeStep) (· = emptyVolume 32) s ∧ s.vnodes = [] ∧
      (∃ h t, getroot .plenty s = .ok h t ∧ (t.sv h).ino = 1) ∧ getroot ⟨true, false⟩ s = .fail .enomem s := by
  have hrun : (follow volumeStep [.decref 0] (emptyVolume 32)).any (fun s => s.vnodes.isEmpty) = true := by
    decide +kernel
  obtain ⟨s, hs, hempty⟩ := exists_reaches_of_follow volumeStep (· = emptyVolume 32) (emptyVolume 32) _ _ rfl hrun
  have hnone : s.vnodes = [] := List.isEmpty_iff.mp hempty
  have hm : (emptyVolume 32).WasMounted := wasMounted_of_pages (by decide) (by decide)
  have hanswers := getroot_answers (consistent_emptyVolume (by decide) (by decide)) hm hs
  obtain ⟨h, t, hok, -, hino, -⟩ := (hanswers .plenty).1 (.inr (by decide))
  refine ⟨s, hs, hnone, ⟨h, t, hok, hino⟩, (hanswers ⟨true, false⟩).2 ?_⟩
  rintro (⟨h, hh, -⟩ | henough)
  · rw [hnone] at hh
    exact List.not_mem_nil hh
  · exact absurd henough (by decide)

end Sfs

end Os161Kernel
