import Os161Kernel.Semfs

/-!
# The tables of the semaphore file system agree

* `Semfs.Consistent`: directory entries and vnodes are one-to-one with semaphores that know of them, and every semaphore
  is known to one or the other.
* `semfs_tables_consistent`: so it is after every call, whatever memory was missing.
* `creat_reports_iff`: `semfs_creat` returns 0 with the semaphore it was asked for or fails without a trace, unless it is
  the memory for the directory entry that is missing.

The directory and the vnode table are looked at apart.  `DentsOk` is about the entries and the semaphores that are marked
as linked, `VnodesOk` about the vnodes and the semaphores that are marked as having one; an operation changes one mark of
one semaphore, except for `semfs_creat`, which makes a semaphore with both.
-/

namespace Os161Kernel

open Calls Runs Slots Function

-- Specifications are used through their rules.
attribute [local irreducible] Ends

namespace Semfs

/-- The semaphore in slot `n` is marked as linked. -/
def Linked (s : Semfs) (n : ℕ) : Prop := ∃ sem, slotAt s.sems n = some sem ∧ sem.linked = true

/-- The semaphore in slot `n` is marked as having a vnode. -/
def HasVnode (s : Semfs) (n : ℕ) : Prop := ∃ sem, slotAt s.sems n = some sem ∧ sem.hasvnode = true

/-- The directory, the vnodes and the semaphores agree. -/
structure Consistent (s : Semfs) : Prop where
  names : ∀ i j d d', slotAt s.dents i = some d → slotAt s.dents j = some d' → d.name = d'.name → i = j
  numbers : ∀ i j d d', slotAt s.dents i = some d → slotAt s.dents j = some d' → d.semnum = d'.semnum → i = j
  linked : ∀ i d, slotAt s.dents i = some d → s.Linked d.semnum
  vnodes : ∀ v ∈ s.vnodes, (s.vn v).semnum ≠ rootdir → s.HasVnode (s.vn v).semnum
  unique : ∀ v ∈ s.vnodes, ∀ v' ∈ s.vnodes, (s.vn v).semnum = (s.vn v').semnum → v = v'
  used : ∀ n sem, slotAt s.sems n = some sem → sem.linked = true ∨ sem.hasvnode = true

/-! ### The directory -/

/-- The entries have different names and different semaphores, and these are marked. -/
structure DentsOk (dent : ℕ → Option SemfsDirentry) (L : ℕ → Prop) : Prop where
  names : ∀ i j d d', dent i = some d → dent j = some d' → d.name = d'.name → i = j
  numbers : ∀ i j d d', dent i = some d → dent j = some d' → d.semnum = d'.semnum → i = j
  linked : ∀ i d, dent i = some d → L d.semnum

variable {dent : ℕ → Option SemfsDirentry} {L L' : ℕ → Prop} {d : SemfsDirentry} {i n : ℕ}

theorem DentsOk.add (h : DentsOk dent L) (hname : ∀ j d', dent j = some d' → d'.name ≠ d.name) (hn : ¬ L d.semnum)
    (hL : ∀ k, L' k ↔ k = d.semnum ∨ L k) : DentsOk (update dent i (some d)) L' where
  names j k d₁ d₂ h₁ h₂ heq := by
    by_cases hj : j = i
    · by_cases hk : k = i
      · rw [hj, hk]
      · rw [hj, update_self] at h₁
        rw [update_of_ne hk] at h₂
        exact absurd (heq.symm.trans (congrArg _ (Option.some.inj h₁).symm)) (hname k d₂ h₂)
    · rw [update_of_ne hj] at h₁
      by_cases hk : k = i
      · rw [hk, update_self] at h₂
        exact absurd (heq.trans (congrArg _ (Option.some.inj h₂).symm)) (hname j d₁ h₁)
      · rw [update_of_ne hk] at h₂
        exact h.names j k d₁ d₂ h₁ h₂ heq
  numbers j k d₁ d₂ h₁ h₂ heq := by
    by_cases hj : j = i
    · by_cases hk : k = i
      · rw [hj, hk]
      · rw [hj, update_self] at h₁
        rw [update_of_ne hk] at h₂
        rw [← Option.some.inj h₁] at heq
        exact absurd (heq ▸ h.linked k d₂ h₂) hn
    · rw [update_of_ne hj] at h₁
      by_cases hk : k = i
      · rw [hk, update_self] at h₂
        rw [← Option.some.inj h₂] at heq
        exact absurd (heq ▸ h.linked j d₁ h₁) hn
      · rw [update_of_ne hk] at h₂
        exact h.numbers j k d₁ d₂ h₁ h₂ heq
  linked j d₁ h₁ := by
    rw [hL]
    by_cases hj : j = i
    · rw [hj, update_self] at h₁
      rw [← Option.some.inj h₁]
      exact .inl rfl
    · rw [update_of_ne hj] at h₁
      exact .inr (h.linked j d₁ h₁)

theorem DentsOk.remove (h : DentsOk dent L) (hi : dent i = some d) (hL : ∀ k, k ≠ d.semnum → L k → L' k) :
    DentsOk (update dent i none) L' := by
  have hold : ∀ j d', update dent i none j = some d' → j ≠ i ∧ dent j = some d' := by
    intro j d' hj
    by_cases heq : j = i
    · rw [heq, update_self] at hj
      exact nomatch hj
    · rw [update_of_ne heq] at hj
      exact ⟨heq, hj⟩
  refine ⟨fun j k d₁ d₂ h₁ h₂ => ?_, fun j k d₁ d₂ h₁ h₂ => ?_, fun j d₁ h₁ => ?_⟩
  · exact h.names j k d₁ d₂ (hold j d₁ h₁).2 (hold k d₂ h₂).2
  · exact h.numbers j k d₁ d₂ (hold j d₁ h₁).2 (hold k d₂ h₂).2
  · obtain ⟨hne, hj⟩ := hold j d₁ h₁
    exact hL d₁.semnum (fun heq => hne (h.numbers j i d₁ d hj hi heq)) (h.linked j d₁ hj)

/-! ### The vnode table -/

/-- The vnodes are of different semaphores, and those are the ones that are marked. -/
structure VnodesOk (s : Semfs) (H : ℕ → Prop) : Prop where
  has : ∀ n, H n ↔ n ≠ rootdir ∧ ∃ v ∈ s.vnodes, (s.vn v).semnum = n
  unique : ∀ v ∈ s.vnodes, ∀ v' ∈ s.vnodes, (s.vn v).semnum = (s.vn v').semnum → v = v'
  nodup : s.vnodes.Nodup
  fresh : ∀ v ∈ s.vnodes, v < s.fresh
  refs : ∀ v ∈ s.vnodes, 0 < (s.vn v).refcount

/-- The volume with the count of a vnode changed. -/
def withRefcount (s : Semfs) (v n : ℕ) : Semfs :=
  { s with vn := update s.vn v { s.vn v with refcount := n } }

/-- The volume with a new vnode for semaphore `m`. -/
def withVnode (s : Semfs) (m : ℕ) : Semfs :=
  { s with
    vnodes := s.vnodes ++ [s.fresh]
    vn := update s.vn s.fresh ⟨m, 1⟩
    fresh := s.fresh + 1 }

/-- The volume without a vnode. -/
def withoutVnode (s : Semfs) (v : ℕ) : Semfs := { s with vnodes := s.vnodes.erase v }

variable {s t : Semfs} {H H' : ℕ → Prop} {v m : ℕ}

theorem vn_withRefcount_self : (s.withRefcount v n).vn v = ⟨(s.vn v).semnum, n⟩ := update_self ..

theorem vn_withRefcount_of_ne (h : m ≠ v) : (s.withRefcount v n).vn m = s.vn m := update_of_ne h ..

theorem semnum_withRefcount (m : ℕ) : ((s.withRefcount v n).vn m).semnum = (s.vn m).semnum := by
  by_cases hm : m = v
  · rw [hm, vn_withRefcount_self]
  · rw [vn_withRefcount_of_ne hm]

theorem VnodesOk.withRefcount (h : VnodesOk s H) (hn : 0 < n) : VnodesOk (s.withRefcount v n) H where
  has k := by
    simp only [semnum_withRefcount]
    exact h.has k
  unique w hw w' hw' := by
    simp only [semnum_withRefcount]
    exact h.unique w hw w' hw'
  nodup := h.nodup
  fresh := h.fresh
  refs w hw := by
    by_cases heq : w = v
    · rw [heq, vn_withRefcount_self]
      exact hn
    · rw [vn_withRefcount_of_ne heq]
      exact h.refs w hw

theorem VnodesOk.of_same (h : VnodesOk s H) (hvnodes : t.vnodes = s.vnodes) (hvn : t.vn = s.vn)
    (hfresh : t.fresh = s.fresh) : VnodesOk t H := by
  obtain ⟨has, unique, nodup, fresh, refs⟩ := h
  rw [← hvnodes] at unique nodup fresh refs
  rw [← hvn] at unique refs
  rw [← hfresh] at fresh
  refine ⟨fun n => ?_, unique, nodup, fresh, refs⟩
  rw [hvnodes, hvn]
  exact has n

theorem mem_withVnode : v ∈ (s.withVnode m).vnodes ↔ v ∈ s.vnodes ∨ v = s.fresh := by
  rw [withVnode, List.mem_append, List.mem_singleton]

theorem vn_withVnode_self : (s.withVnode m).vn s.fresh = ⟨m, 1⟩ := update_self ..

theorem VnodesOk.vn_withVnode (h : VnodesOk s H) (hv : v ∈ s.vnodes) : (s.withVnode m).vn v = s.vn v :=
  update_of_ne (Nat.ne_of_lt (h.fresh v hv)) ..

theorem VnodesOk.withVnode (h : VnodesOk s H) (hno : ∀ v ∈ s.vnodes, (s.vn v).semnum ≠ m)
    (hH : ∀ k, H' k ↔ (k = m ∧ m ≠ rootdir) ∨ H k) : VnodesOk (s.withVnode m) H' where
  has k := by
    rw [hH, h.has]
    constructor
    · rintro (⟨rfl, hne⟩ | ⟨hne, v, hv, hk⟩)
      · exact ⟨hne, s.fresh, mem_withVnode.mpr (.inr rfl), by rw [vn_withVnode_self]⟩
      · exact ⟨hne, v, mem_withVnode.mpr (.inl hv), by rw [h.vn_withVnode hv, hk]⟩
    · rintro ⟨hne, v, hv, hk⟩
      rcases mem_withVnode.mp hv with hold | rfl
      · rw [h.vn_withVnode hold] at hk
        exact .inr ⟨hne, v, hold, hk⟩
      · rw [vn_withVnode_self] at hk
        obtain rfl : m = k := hk
        exact .inl ⟨rfl, hne⟩
  unique w hw w' hw' heq := by
    rcases mem_withVnode.mp hw with hold | rfl
    · rcases mem_withVnode.mp hw' with hold' | rfl
      · rw [h.vn_withVnode hold, h.vn_withVnode hold'] at heq
        exact h.unique w hold w' hold' heq
      · rw [h.vn_withVnode hold, vn_withVnode_self] at heq
        exact absurd heq (hno w hold)
    · rcases mem_withVnode.mp hw' with hold' | rfl
      · rw [h.vn_withVnode hold', vn_withVnode_self] at heq
        exact absurd heq.symm (hno w' hold')
      · rfl
  nodup := by
    refine List.nodup_append.mpr ⟨h.nodup, List.pairwise_singleton _ _, fun a ha b hb => ?_⟩
    rw [List.mem_singleton.mp hb]
    exact Nat.ne_of_lt (h.fresh a ha)
  fresh w hw := by
    rcases mem_withVnode.mp hw with hold | rfl
    · exact Nat.lt_succ_of_lt (h.fresh w hold)
    · exact Nat.lt_succ_self _
  refs w hw := by
    rcases mem_withVnode.mp hw with hold | rfl
    · rw [h.vn_withVnode hold]
      exact h.refs w hold
    · rw [vn_withVnode_self]
      exact Nat.one_pos

theorem VnodesOk.withoutVnode (h : VnodesOk s H) (hv : v ∈ s.vnodes)
    (hH : ∀ k, H' k ↔ k ≠ (s.vn v).semnum ∧ H k) : VnodesOk (s.withoutVnode v) H' := by
  have hmem : ∀ w, w ∈ (s.withoutVnode v).vnodes ↔ w ≠ v ∧ w ∈ s.vnodes := fun w => h.nodup.mem_erase_iff
  refine ⟨fun k => ?_, fun w hw w' hw' => ?_, h.nodup.erase v, fun w hw => ?_, fun w hw => ?_⟩
  · rw [hH, h.has]
    constructor
    · rintro ⟨hk, hne, w, hw, heq⟩
      exact ⟨hne, w, (hmem w).mpr ⟨fun hwv => hk (heq.symm.trans (congrArg _ (congrArg _ hwv))), hw⟩, heq⟩
    · rintro ⟨hne, w, hw, heq⟩
      obtain ⟨hwv, hw⟩ := (hmem w).mp hw
      exact ⟨fun hk => hwv (h.unique w hw v hv (heq.trans hk)), hne, w, hw, heq⟩
  · exact h.unique w ((hmem w).mp hw).2 w' ((hmem w').mp hw').2
  · exact h.fresh w ((hmem w).mp hw).2
  · exact h.refs w ((hmem w).mp hw).2

/-! ### The invariant -/

/-- What every call keeps. -/
structure Inv (s : Semfs) : Prop where
  dents : DentsOk (slotAt s.dents) s.Linked
  vnodes : VnodesOk s s.HasVnode
  used : ∀ n sem, slotAt s.sems n = some sem → sem.linked = true ∨ sem.hasvnode = true
  size : s.sems.length ≤ rootdir

theorem Inv.consistent (hs : Inv s) : Consistent s where
  names := hs.dents.names
  numbers := hs.dents.numbers
  linked := hs.dents.linked
  vnodes v hv hne := (hs.vnodes.has _).mpr ⟨hne, v, hv, rfl⟩
  unique := hs.vnodes.unique
  used := hs.used

theorem inv_create : Inv create := by
  refine ⟨⟨nofun, nofun, nofun⟩, ⟨fun n => ?_, nofun, .nil, nofun, nofun⟩, nofun, Nat.zero_le _⟩
  constructor
  · rintro ⟨sem, hsem, -⟩
    exact nomatch hsem
  · rintro ⟨-, v, hv, -⟩
    exact nomatch hv

variable {sem : SemfsSem} {o : Option SemfsSem} {name : Name} {memory : SemfsMemory} {E : Errno → Semfs → Prop}

theorem Inv.ne_rootdir (hs : Inv s) (h : slotAt s.sems n = some sem) : n ≠ rootdir :=
  Nat.ne_of_lt (Nat.lt_of_lt_of_le (lt_of_slotAt h) hs.size)

theorem linked_of_update (ht : slotAt t.sems = update (slotAt s.sems) n o) (k : ℕ) :
    t.Linked k ↔ (k = n ∧ ∃ sem, o = some sem ∧ sem.linked = true) ∨ (k ≠ n ∧ s.Linked k) := by
  unfold Linked
  rw [ht]
  by_cases hk : k = n
  · simp [hk]
  · simp [hk]

theorem hasVnode_of_update (ht : slotAt t.sems = update (slotAt s.sems) n o) (k : ℕ) :
    t.HasVnode k ↔ (k = n ∧ ∃ sem, o = some sem ∧ sem.hasvnode = true) ∨ (k ≠ n ∧ s.HasVnode k) := by
  unfold HasVnode
  rw [ht]
  by_cases hk : k = n
  · simp [hk]
  · simp [hk]

theorem used_of_update (ht : slotAt t.sems = update (slotAt s.sems) n o)
    (hs : ∀ n sem, slotAt s.sems n = some sem → sem.linked = true ∨ sem.hasvnode = true)
    (ho : ∀ sem, o = some sem → sem.linked = true ∨ sem.hasvnode = true) (k : ℕ) (sem : SemfsSem)
    (hk : slotAt t.sems k = some sem) : sem.linked = true ∨ sem.hasvnode = true := by
  rw [ht] at hk
  by_cases heq : k = n
  · rw [heq, update_self] at hk
    exact ho sem hk
  · rw [update_of_ne heq] at hk
    exact hs k sem hk

theorem linked_iff_of_slotAt (h : slotAt s.sems n = some sem) : s.Linked n ↔ sem.linked = true := by
  simp [Linked, h]

theorem hasVnode_iff_of_slotAt (h : slotAt s.sems n = some sem) : s.HasVnode n ↔ sem.hasvnode = true := by
  simp [HasVnode, h]

theorem linked_eq_of_update (ht : slotAt t.sems = update (slotAt s.sems) n o)
    (ho : (∃ sem, o = some sem ∧ sem.linked = true) ↔ s.Linked n) : t.Linked = s.Linked := by
  funext k
  rw [eq_iff_iff, linked_of_update ht, ho]
  by_cases hk : k = n
  · simp [hk]
  · simp [hk]

theorem hasVnode_eq_of_update (ht : slotAt t.sems = update (slotAt s.sems) n o)
    (ho : (∃ sem, o = some sem ∧ sem.hasvnode = true) ↔ s.HasVnode n) : t.HasVnode = s.HasVnode := by
  funext k
  rw [eq_iff_iff, hasVnode_of_update ht, ho]
  by_cases hk : k = n
  · simp [hk]
  · simp [hk]

theorem not_linked_of_none (h : slotAt s.sems n = none) : ¬ s.Linked n := by simp [Linked, h]

theorem not_hasVnode_of_none (h : slotAt s.sems n = none) : ¬ s.HasVnode n := by simp [HasVnode, h]

theorem length_setSlot_le (hn : slotAt s.sems n = some sem) (hs : s.sems.length ≤ rootdir) :
    (setSlot s.sems n o).length ≤ rootdir := by
  rw [length_setSlot, if_pos (lt_of_slotAt hn)]
  exact hs

/-! ### `semfs_getvnode` -/

theorem ends_getvnode_old {Q : ℕ → Semfs → Prop} (hs : Inv s) (hv : v ∈ s.vnodes) (hm : (s.vn v).semnum = m) :
    Ends (getvnode m memory) s Q E ↔ Q v (s.withRefcount v ((s.vn v).refcount + 1)) := by
  have hfind : s.vnodes.find? (fun w => (s.vn w).semnum = m) = some v := by
    cases h : s.vnodes.find? (fun w => (s.vn w).semnum = m) with
    | none =>
      have := List.find?_eq_none.mp h v hv
      simp [hm] at this
    | some w =>
      have hw := List.find?_some h
      have heq : w = v := hs.vnodes.unique w (List.mem_of_find?_eq_some h) v hv ((by simpa using hw : _ = m).trans hm.symm)
      rw [heq]
  unfold getvnode
  rw [ends_bind, ends_read, hfind]
  simp only [ends_bind, ends_read, ends_pure, setRefcount, ends_update]
  exact Iff.rfl

theorem ends_getvnode_new {Q : ℕ → Semfs → Prop} (hno : ∀ v ∈ s.vnodes, (s.vn v).semnum ≠ m) (hfail : E .enomem s)
    (hnote : Ends (Call.when (m ≠ rootdir) (noteVnode m)) (s.withVnode m) (fun _ t => Q s.fresh t) E) :
    Ends (getvnode m memory) s Q E := by
  have hfind : s.vnodes.find? (fun w => (s.vn w).semnum = m) = none := by
    rw [List.find?_eq_none]
    intro w hw
    simpa using hno w hw
  unfold getvnode
  rw [ends_bind, ends_read, hfind]
  simp only []
  rw [ends_ite]
  refine ⟨fun _ => ends_fail.mpr hfail, fun _ => ?_⟩
  rw [ends_bind, ends_read, ends_bind, ends_update, ends_bind]
  apply hnote.mono _ fun _ _ => id
  intro _ t hq
  exact ends_pure.mpr hq

/-- The volume in which the semaphore knows of its new vnode. -/
def noted (s : Semfs) (m : ℕ) (sem : SemfsSem) : Semfs :=
  { s.withVnode m with sems := setSlot s.sems m (some { sem with hasvnode := true }) }

theorem getvnode_sem_ends (hno : ∀ v ∈ s.vnodes, (s.vn v).semnum ≠ m) (hm : m ≠ rootdir)
    (hsem : slotAt s.sems m = some sem) (hhas : sem.hasvnode = false) :
    Ends (getvnode m memory) s (fun v t => v = s.fresh ∧ t = s.noted m sem) fun e t => e = .enomem ∧ t = s := by
  apply ends_getvnode_new hno ⟨rfl, rfl⟩
  have hsem' : slotAt (s.withVnode m).sems m = some sem := hsem
  rw [ends_when]
  refine ⟨fun _ => ?_, fun h => absurd hm h⟩
  unfold noteVnode setSem
  rw [ends_bind, ends_read, hsem']
  simp only []
  rw [ends_bind, ends_require, ends_update]
  exact ⟨hhas, trivial, rfl⟩

theorem slotAt_noted (hsem : slotAt s.sems m = some sem) :
    slotAt (s.noted m sem).sems = update (slotAt s.sems) m (some { sem with hasvnode := true }) :=
  slotAt_setSlot (Nat.le_of_lt (lt_of_slotAt hsem))

theorem getvnode_ends (hs : Inv s) (hm : m = rootdir ∨ ∃ sem, slotAt s.sems m = some sem) :
    Ends (getvnode m memory) s
      (fun v t => Inv t ∧ v ∈ t.vnodes ∧ t.dents = s.dents ∧ (t.vn v).semnum = m) fun _ t => t = s := by
  by_cases hold : ∃ v ∈ s.vnodes, (s.vn v).semnum = m
  · obtain ⟨v, hv, hvm⟩ := hold
    rw [ends_getvnode_old hs hv hvm]
    exact ⟨⟨hs.dents, hs.vnodes.withRefcount (Nat.succ_pos _), hs.used, hs.size⟩, hv, rfl,
      (semnum_withRefcount v).trans hvm⟩
  · have hno : ∀ v ∈ s.vnodes, (s.vn v).semnum ≠ m := fun v hv heq => hold ⟨v, hv, heq⟩
    rcases hm with rfl | ⟨sem, hsem⟩
    · apply ends_getvnode_new hno rfl
      rw [ends_when]
      refine ⟨fun h => absurd rfl h, fun _ => ⟨⟨hs.dents, ?_, hs.used, hs.size⟩, mem_withVnode.mpr (.inr rfl), rfl,
        congrArg _ vn_withVnode_self⟩⟩
      apply hs.vnodes.withVnode hno
      intro k
      simp [HasVnode, withVnode]
    · have hne := hs.ne_rootdir hsem
      have hhas : sem.hasvnode = false := by
        by_contra hh
        obtain ⟨-, v, hv, heq⟩ := (hs.vnodes.has m).mp ⟨sem, hsem, Bool.not_eq_false _ ▸ hh⟩
        exact hno v hv heq
      apply (getvnode_sem_ends hno hne hsem hhas).mono
      · rintro v t ⟨rfl, rfl⟩
        have hslots := slotAt_noted hsem
        have hlinked : (s.noted m sem).Linked = s.Linked :=
          linked_eq_of_update hslots (by simp [linked_iff_of_slotAt hsem])
        have hmem : s.fresh ∈ (s.withVnode m).vnodes := mem_withVnode.mpr (.inr rfl)
        refine ⟨⟨?_, ?_, ?_, length_setSlot_le hsem hs.size⟩, hmem, rfl, congrArg _ vn_withVnode_self⟩
        · rw [hlinked]
          exact hs.dents
        · refine VnodesOk.of_same (s := s.withVnode m) (hs.vnodes.withVnode hno fun k => ?_) rfl rfl rfl
          rw [hasVnode_of_update hslots]
          by_cases hk : k = m
          · simp [hk, hne]
          · simp [hk]
        · exact used_of_update hslots hs.used (by rintro _ ⟨rfl⟩; exact .inr rfl)
      · rintro e t ⟨-, rfl⟩
        rfl

/-! ### `semfs_creat` -/

/-- `*resultvn` is a vnode for a semaphore that a directory entry of the name refers to. -/
def Gives (name : Name) (resultvn : Option ℕ) (t : Semfs) : Prop :=
  ∃ v ∈ t.vnodes, resultvn = some v ∧ ∃ i d sem, slotAt t.dents i = some d ∧ d.name = name ∧
    (t.vn v).semnum = d.semnum ∧ slotAt t.sems d.semnum = some sem

/-- The directory, the semaphores and the vnodes are the same, up to empty slots at the end. -/
structure SameSlots (s t : Semfs) : Prop where
  sems : slotAt t.sems = slotAt s.sems
  dents : slotAt t.dents = slotAt s.dents
  vnodes : t.vnodes = s.vnodes
  vn : t.vn = s.vn

theorem SameSlots.refl (s : Semfs) : SameSlots s s := ⟨rfl, rfl, rfl, rfl⟩

/-- The semaphore is new and can be made, but there is no memory for its directory entry. -/
structure LacksEntry (s : Semfs) (name : Name) (memory : SemfsMemory) : Prop where
  dot : ¬ (name = ['.'] ∨ name = ['.', '.'])
  absent : s.findDent name = none
  sem : memory.sem = true
  space : s.sems.length ≠ rootdir
  sems : ¬ (freeSlot s.sems = s.sems.length ∧ memory.sems = false)
  dent : memory.dent = false

theorem slotAt_of_findDent (h : s.findDent name = some i) :
    ∃ d, slotAt s.dents i = some d ∧ d.name = name ∧ dentSemnum i s = d.semnum := by
  obtain ⟨hi, hp, -⟩ := List.findIdx?_eq_some_iff_getElem.mp h
  cases hd : s.dents[i] with
  | none => simp [hd] at hp
  | some d =>
    have hslot : slotAt s.dents i = some d := by simp [slotAt, List.getElem?_eq_getElem hi, hd]
    refine ⟨d, hslot, by simpa [hd] using hp, ?_⟩
    simp [dentSemnum, hslot]

theorem name_ne_of_findDent (h : s.findDent name = none) {d : SemfsDirentry} (hi : slotAt s.dents i = some d) :
    d.name ≠ name := by
  have hlt := lt_of_slotAt hi
  have hd : s.dents[i] = some d := by simpa [slotAt, List.getElem?_eq_getElem hlt] using hi
  have := List.findIdx?_eq_none_iff.mp h (s.dents[i]) (List.getElem_mem hlt)
  simpa [hd] using this

theorem Inv.exists_sem (hs : Inv s) {d : SemfsDirentry} (hi : slotAt s.dents i = some d) :
    ∃ sem, slotAt s.sems d.semnum = some sem := by
  obtain ⟨sem, hsem, -⟩ := hs.dents.linked i d hi
  exact ⟨sem, hsem⟩

theorem semInsert_ends {memory : Bool} (hs : Inv s) :
    Ends (semInsert sem memory) s
      (fun n t => slotAt s.sems n = none ∧ n < rootdir ∧ n ≤ s.sems.length ∧
        t = { s with sems := setSlot s.sems n (some sem) } ∧ (setSlot s.sems n (some sem)).length ≤ rootdir ∧
        s.sems.length ≠ rootdir ∧ ¬ (freeSlot s.sems = s.sems.length ∧ memory = false))
      fun _ t => t = s := by
  unfold semInsert setSem
  rw [ends_bind, ends_read, ends_ite]
  refine ⟨fun _ => ends_fail.mpr rfl, fun hfull => ?_⟩
  rw [ends_ite]
  refine ⟨fun _ => ends_fail.mpr rfl, fun hgrow => ?_⟩
  rw [ends_bind, ends_update, ends_pure]
  have hle := freeSlot_le (t := s.sems)
  have hsize := hs.size
  refine ⟨slotAt_freeSlot, by omega, hle, rfl, ?_, hfull, hgrow⟩
  rw [length_setSlot]
  split <;> omega

theorem Inv.created {e : ℕ} (hs : Inv s) (hn : slotAt s.sems n = none) (hroot : n < rootdir)
    (hname : ∀ j d, slotAt s.dents j = some d → d.name ≠ name)
    (hsems : slotAt t.sems = update (slotAt s.sems) n (some ⟨true, true⟩))
    (hdents : slotAt t.dents = update (slotAt s.dents) e (some ⟨name, n⟩))
    (hvnodes : t.vnodes = (s.withVnode n).vnodes) (hvn : t.vn = (s.withVnode n).vn)
    (hfresh : t.fresh = (s.withVnode n).fresh) (hsize : t.sems.length ≤ rootdir) : Inv t := by
  refine ⟨?_, ?_, ?_, hsize⟩
  · rw [hdents]
    refine hs.dents.add hname (not_linked_of_none hn) fun k => ?_
    rw [linked_of_update hsems]
    by_cases hk : k = n
    · simp [hk]
    · simp [hk]
  · have hno : ∀ v ∈ s.vnodes, (s.vn v).semnum ≠ n := by
      intro v hv heq
      exact not_hasVnode_of_none hn ((hs.vnodes.has n).mpr ⟨Nat.ne_of_lt hroot, v, hv, heq⟩)
    refine VnodesOk.of_same (s := s.withVnode n) (hs.vnodes.withVnode hno fun k => ?_) hvnodes hvn hfresh
    rw [hasVnode_of_update hsems]
    by_cases hk : k = n
    · simp [hk, Nat.ne_of_lt hroot]
    · simp [hk]
  · exact used_of_update hsems hs.used (by rintro _ ⟨rfl⟩; exact .inl rfl)

theorem Inv.undone (hs : Inv s) (hsems : slotAt t.sems = slotAt s.sems) (hdents : slotAt t.dents = slotAt s.dents)
    (hvnodes : t.vnodes = s.vnodes) (hvn : t.vn = s.vn) (hfresh : t.fresh = s.fresh)
    (hsize : t.sems.length ≤ rootdir) : Inv t := by
  have hL : t.Linked = s.Linked := by
    unfold Linked
    rw [hsems]
  have hH : t.HasVnode = s.HasVnode := by
    unfold HasVnode
    rw [hsems]
  refine ⟨?_, ?_, ?_, hsize⟩
  · rw [hdents, hL]
    exact hs.dents
  · rw [hH]
    exact hs.vnodes.of_same hvnodes hvn hfresh
  · rw [hsems]
    exact hs.used

/-- The volume with a semaphore in slot `n` that nobody knows of yet, and an entry for it in slot `e`. -/
def halfMade (s : Semfs) (n e : ℕ) (name : Name) : Semfs :=
  { s with
    sems := setSlot s.sems n (some ⟨false, false⟩)
    dents := setSlot s.dents e (some ⟨name, n⟩) }

theorem creatVnode_ends {e : ℕ} (hs : Inv s) (hn : slotAt s.sems n = none) (hroot : n < rootdir)
    (hle : n ≤ s.sems.length) (he : slotAt s.dents e = none) (hele : e ≤ s.dents.length)
    (hname : ∀ j d, slotAt s.dents j = some d → d.name ≠ name)
    (hsize : (setSlot s.sems n (some ⟨false, false⟩)).length ≤ rootdir) :
    Ends (creatVnode n e memory) (s.halfMade n e name) (fun v t => Inv t ∧ Gives name (some v) t)
      fun _ t => Inv t ∧ SameSlots s t := by
  have hno : ∀ v ∈ s.vnodes, (s.vn v).semnum ≠ n := by
    intro v hv heq
    exact not_hasVnode_of_none hn ((hs.vnodes.has n).mpr ⟨Nat.ne_of_lt hroot, v, hv, heq⟩)
  have hsem : slotAt (s.halfMade n e name).sems n = some ⟨false, false⟩ := slotAt_setSlot_self hle
  unfold creatVnode setDent setSem
  rw [ends_bind, ends_attempt]
  apply (getvnode_sem_ends (s := s.halfMade n e name) hno (Nat.ne_of_lt hroot) hsem rfl).mono
  · rintro v t ⟨rfl, rfl⟩
    simp only [ends_bind, ends_update, ends_pure]
    have hlt : n < (setSlot s.sems n (some (⟨false, false⟩ : SemfsSem))).length := lt_length_setSlot hle
    have hmarked : slotAt ((s.halfMade n e name).noted n ⟨false, false⟩).sems n = some ⟨true, false⟩ :=
      slotAt_setSlot_self (Nat.le_of_lt hlt)
    rw [hmarked]
    have hslots : slotAt (setSlot (setSlot (setSlot s.sems n (some ⟨false, false⟩)) n (some ⟨true, false⟩)) n
        (some ⟨true, true⟩)) = update (slotAt s.sems) n (some ⟨true, true⟩) := by
      rw [slotAt_setSlot_setSlot (Nat.le_of_lt hlt), slotAt_setSlot hle, update_idem]
    refine ⟨hs.created hn hroot hname hslots (slotAt_setSlot hele) rfl rfl rfl ?_, s.fresh,
      (mem_withVnode (m := n)).mpr (.inr rfl), rfl, e, ⟨name, n⟩, ⟨true, true⟩, slotAt_setSlot_self hele, rfl,
      congrArg _ vn_withVnode_self, ?_⟩
    · show (setSlot (setSlot (setSlot s.sems n _) n _) n _).length ≤ rootdir
      rw [length_setSlot_setSlot (Nat.le_of_lt hlt), length_setSlot_setSlot hle]
      exact hsize
    · exact (congrFun hslots n).trans (update_self ..)
  · rintro e' t ⟨-, rfl⟩
    simp only [ends_bind, ends_update, ends_fail]
    have hsame : SameSlots s { s.halfMade n e name with
        dents := setSlot (setSlot s.dents e (some ⟨name, n⟩)) e none
        sems := setSlot (setSlot s.sems n (some ⟨false, false⟩)) n none } :=
      ⟨slotAt_setSlot_undone hle hn, slotAt_setSlot_undone hele he, rfl, rfl⟩
    refine ⟨hs.undone hsame.sems hsame.dents rfl rfl rfl ?_, hsame⟩
    show (setSlot (setSlot s.sems n _) n none).length ≤ rootdir
    rw [length_setSlot_setSlot hle]
    exact hsize

theorem creatNew_ends (hs : Inv s) (hdot : ¬ (name = ['.'] ∨ name = ['.', '.'])) (hfind : s.findDent name = none) :
    Ends (creatNew name memory) s (fun r t => Inv t ∧ (LacksEntry s name memory ∨ Gives name r t))
      fun _ t => Inv t ∧ SameSlots s t := by
  have hname : ∀ j d, slotAt s.dents j = some d → d.name ≠ name := fun j d hj => name_ne_of_findDent hfind hj
  unfold creatNew
  rw [ends_ite]
  refine ⟨fun _ => ends_fail.mpr ⟨hs, .refl s⟩, fun hsem => ?_⟩
  rw [ends_bind]
  apply (semInsert_ends hs).mono
  · rintro n t ⟨hn, hroot, hle, rfl, hsize, hspace, hgrow⟩
    have hsame : SameSlots s { s with sems := setSlot (setSlot s.sems n (some ⟨false, false⟩)) n none } :=
      ⟨slotAt_setSlot_undone hle hn, rfl, rfl, rfl⟩
    have hundo : Inv { s with sems := setSlot (setSlot s.sems n (some ⟨false, false⟩)) n none } := by
      refine hs.undone hsame.sems rfl rfl rfl rfl ?_
      show (setSlot (setSlot s.sems n _) n none).length ≤ rootdir
      rw [length_setSlot_setSlot hle]
      exact hsize
    rw [ends_ite]
    refine ⟨fun hdent => ?_, fun _ => ?_⟩
    · unfold setSem
      rw [ends_bind, ends_update, ends_pure]
      exact ⟨hundo, .inl ⟨hdot, hfind, Bool.not_eq_false _ ▸ hsem, hspace, hgrow, hdent⟩⟩
    · rw [ends_bind, ends_read, ends_ite]
      refine ⟨fun _ => ?_, fun _ => ?_⟩
      · unfold setSem
        rw [ends_bind, ends_update, ends_fail]
        exact ⟨hundo, hsame⟩
      · unfold setDent
        rw [ends_bind, ends_update, ends_bind]
        apply (creatVnode_ends hs hn hroot hle slotAt_freeSlot freeSlot_le hname hsize).mono _ fun _ _ => id
        rintro v t ⟨ht, hgives⟩
        rw [ends_pure]
        exact ⟨ht, .inr hgives⟩
  · rintro e t rfl
    exact ⟨hs, .refl t⟩

theorem creat_ends {excl : Bool} (hs : Inv s) :
    Ends (creat name excl memory) s (fun r t => Inv t ∧ (LacksEntry s name memory ∨ Gives name r t))
      fun _ t => Inv t ∧ SameSlots s t := by
  unfold creat
  rw [ends_ite]
  refine ⟨fun _ => ends_fail.mpr ⟨hs, .refl s⟩, fun hdot => ?_⟩
  rw [ends_bind, ends_read]
  cases hfind : s.findDent name with
  | none => exact creatNew_ends hs hdot hfind
  | some i =>
    obtain ⟨d, hd, hname, hnum⟩ := slotAt_of_findDent hfind
    simp only []
    rw [ends_ite]
    refine ⟨fun _ => ends_fail.mpr ⟨hs, .refl s⟩, fun _ => ?_⟩
    rw [ends_bind, ends_read, ends_bind, hnum]
    apply (getvnode_ends hs (.inr (hs.exists_sem hd))).mono
    · rintro v t ⟨ht, hv, hdents, hsem⟩
      rw [ends_pure]
      have hd' : slotAt t.dents i = some d := hdents ▸ hd
      obtain ⟨sem, hslot⟩ := ht.exists_sem hd'
      exact ⟨ht, .inr ⟨v, hv, rfl, i, d, sem, hd', hname, hsem, hslot⟩⟩
    · rintro e t rfl
      exact ⟨hs, .refl t⟩

theorem creat_of_lacksEntry (excl : Bool) (h : LacksEntry s name memory) :
    ∃ t, creat name excl memory s = .ok none t := by
  unfold creat creatNew semInsert setSem
  rw [if_neg h.dot]
  simp only [bind_apply, read_apply, h.absent, h.sem, h.dent, h.space, h.sems, if_false, if_true,
    reduceCtorEq, pure_apply]
  exact ⟨_, rfl⟩

/-! ### `semfs_remove` and `semfs_lookup` -/

theorem removeDent_ends (hs : Inv s) {d : SemfsDirentry} (hd : slotAt s.dents i = some d) :
    Ends (removeDent i) s (fun _ t => Inv t) E := by
  obtain ⟨sem, hsem, hlinked⟩ := hs.dents.linked i d hd
  have hnum : dentSemnum i s = d.semnum := by simp [dentSemnum, hd]
  unfold removeDent setSem setDent
  rw [ends_bind, ends_read, hnum, ends_bind, ends_read, hsem]
  simp only []
  rw [ends_bind, ends_require, ends_bind, ends_update, ends_update]
  refine ⟨hlinked, ?_⟩
  generalize ho : (if sem.hasvnode = false then none else some { sem with linked := false }) = o
  have hslots := slotAt_setSlot (o := o) (Nat.le_of_lt (lt_of_slotAt hsem))
  have hhas : (∃ sem', o = some sem' ∧ sem'.hasvnode = true) ↔ s.HasVnode d.semnum := by
    rw [hasVnode_iff_of_slotAt hsem, ← ho]
    cases sem.hasvnode with
    | false => simp
    | true => simp
  refine ⟨?_, ?_, ?_, length_setSlot_le hsem hs.size⟩
  · show DentsOk (slotAt (setSlot s.dents i none)) _
    rw [slotAt_setSlot (Nat.le_of_lt (lt_of_slotAt hd))]
    refine hs.dents.remove hd fun k hk hl => ?_
    exact (linked_of_update hslots k).mpr (.inr ⟨hk, hl⟩)
  · rw [hasVnode_eq_of_update (s := s) hslots hhas]
    exact hs.vnodes.of_same rfl rfl rfl
  · refine used_of_update hslots hs.used fun sem' hsem' => .inr ?_
    rw [← ho] at hsem'
    by_cases hno : sem.hasvnode = false
    · rw [if_pos hno] at hsem'
      exact nomatch hsem'
    · rw [if_neg hno] at hsem'
      rw [← Option.some.inj hsem']
      exact Bool.not_eq_false _ ▸ hno

theorem remove_ends (hs : Inv s) : Ends (remove name) s (fun _ t => Inv t) fun _ t => t = s := by
  unfold remove
  rw [ends_ite]
  refine ⟨fun _ => ends_fail.mpr rfl, fun _ => ?_⟩
  rw [ends_bind, ends_read]
  cases hfind : s.findDent name with
  | none => exact ends_fail.mpr rfl
  | some i =>
    obtain ⟨d, hd, -⟩ := slotAt_of_findDent hfind
    exact removeDent_ends hs hd

theorem lookup_ends (hs : Inv s) : Ends (lookup v name memory) s (fun _ t => Inv t) fun _ t => t = s := by
  unfold lookup
  rw [ends_ite]
  refine ⟨fun _ => ?_, fun _ => ?_⟩
  · unfold setRefcount
    rw [ends_bind, ends_read, ends_bind, ends_update, ends_pure]
    exact ⟨hs.dents, hs.vnodes.withRefcount (Nat.succ_pos _), hs.used, hs.size⟩
  · rw [ends_bind, ends_read]
    cases hfind : s.findDent name with
    | none => exact ends_fail.mpr rfl
    | some i =>
      obtain ⟨d, hd, -, hnum⟩ := slotAt_of_findDent hfind
      simp only []
      rw [ends_bind, ends_read, hnum]
      exact (getvnode_ends hs (.inr (hs.exists_sem hd))).mono (fun _ _ h => h.1) fun _ _ => id

/-! ### `semfs_reclaim` -/

theorem dropVnode_ends (hs : Inv s) (hv : v ∈ s.vnodes) (hne : (s.vn v).semnum ≠ rootdir) :
    Ends (dropVnode (s.vn v).semnum) (s.withoutVnode v) (fun _ t => Inv t) E := by
  obtain ⟨sem, hsem, hhas⟩ := (hs.vnodes.has (s.vn v).semnum).mpr ⟨hne, v, hv, rfl⟩
  have hsem' : slotAt (s.withoutVnode v).sems (s.vn v).semnum = some sem := hsem
  unfold dropVnode setSem
  rw [ends_bind, ends_read, hsem']
  simp only []
  rw [ends_bind, ends_require, ends_update]
  refine ⟨hhas, ?_⟩
  generalize ho : (if sem.linked = false then none else some { sem with hasvnode := false }) = o
  have hslots := slotAt_setSlot (o := o) (Nat.le_of_lt (lt_of_slotAt hsem))
  have hlinked : (∃ sem', o = some sem' ∧ sem'.linked = true) ↔ s.Linked (s.vn v).semnum := by
    rw [linked_iff_of_slotAt hsem, ← ho]
    cases sem.linked with
    | false => simp
    | true => simp
  have hgone : ¬ ∃ sem', o = some sem' ∧ sem'.hasvnode = true := by
    rw [← ho]
    cases sem.linked with
    | false => simp
    | true => simp
  refine ⟨?_, ?_, ?_, length_setSlot_le hsem hs.size⟩
  · rw [linked_eq_of_update (s := s) hslots hlinked]
    exact hs.dents
  · refine VnodesOk.of_same (s := s.withoutVnode v) (hs.vnodes.withoutVnode hv fun k => ?_) rfl rfl rfl
    rw [hasVnode_of_update (s := s) hslots]
    simp only [hgone, and_false, false_or]
  · refine used_of_update hslots hs.used fun sem' hsem' => .inl ?_
    rw [← ho] at hsem'
    by_cases hno : sem.linked = false
    · rw [if_pos hno] at hsem'
      exact nomatch hsem'
    · rw [if_neg hno] at hsem'
      rw [← Option.some.inj hsem']
      exact Bool.not_eq_false _ ▸ hno

theorem decref_ends (hs : Inv s) (hv : v ∈ s.vnodes) : Ends (decref v) s (fun _ t => Inv t) E := by
  have hpos := hs.vnodes.refs v hv
  unfold decref setRefcount
  rw [ends_bind, ends_read, ends_bind, ends_require]
  refine ⟨hpos, ?_⟩
  rw [ends_ite]
  refine ⟨fun hmany => ?_, fun hone => ?_⟩
  · rw [ends_update]
    exact ⟨hs.dents, hs.vnodes.withRefcount (by omega), hs.used, hs.size⟩
  · unfold reclaim
    rw [ends_bind, ends_attempt, ends_bind, ends_read, if_neg hone, ends_bind, ends_update, ends_when]
    refine ⟨fun hne => ?_, fun hroot => ?_⟩
    · apply (dropVnode_ends hs hv hne).mono _ fun _ _ => id
      intro _ t ht
      rw [ends_pure]
      exact ht
    · rw [ends_pure]
      refine ⟨hs.dents, hs.vnodes.withoutVnode hv fun k => ?_, hs.used, hs.size⟩
      have hne : s.HasVnode k → k ≠ rootdir := fun hk => ((hs.vnodes.has k).mp hk).1
      rw [not_not.mp hroot]
      exact ⟨fun hk => ⟨hne hk, hk⟩, fun hk => hk.2⟩

/-! ### Runs -/

inductive Op where
  | getroot (memory : SemfsMemory)
  | creat (name : Name) (excl : Bool) (memory : SemfsMemory)
  | remove (name : Name)
  | lookup (dir : ℕ) (path : Name) (memory : SemfsMemory)
  | decref (v : ℕ)

namespace Op

def call : Op → SemfsCall Unit
  | .getroot memory => do
    let _ ← Semfs.getroot memory
    pure ()
  | .creat name excl memory => do
    let _ ← Semfs.creat name excl memory
    pure ()
  | .remove name => Semfs.remove name
  | .lookup dir path memory => do
    let _ ← Semfs.lookup dir path memory
    pure ()
  | .decref v => Semfs.decref v

/-- A vnode that is passed is one that exists. -/
def Legal (s : Semfs) : Op → Prop
  | .lookup dir _ _ => dir ∈ s.vnodes
  | .decref v => v ∈ s.vnodes
  | _ => True

instance (s : Semfs) : (op : Op) → Decidable (op.Legal s)
  | .lookup dir _ _ => inferInstanceAs (Decidable (dir ∈ s.vnodes))
  | .decref v => inferInstanceAs (Decidable (v ∈ s.vnodes))
  | .getroot _ | .creat _ _ _ | .remove _ => .isTrue trivial

theorem call_ends {op : Op} (hs : Inv s) (hop : op.Legal s) : Ends op.call s (fun _ t => Inv t) fun _ t => Inv t := by
  have hsame : ∀ (_ : Errno) (t : Semfs), t = s → Inv t := by
    rintro _ t rfl
    exact hs
  cases op with
  | getroot memory =>
    unfold call Semfs.getroot
    rw [ends_bind]
    refine (getvnode_ends hs (.inl rfl)).mono (fun _ t ht => ?_) hsame
    exact ends_pure.mpr ht.1
  | creat name excl memory =>
    unfold call
    rw [ends_bind]
    exact (creat_ends hs).mono (fun _ t ht => ends_pure.mpr ht.1) fun _ _ ht => ht.1
  | remove name => exact (remove_ends hs).mono (fun _ _ => id) hsame
  | lookup dir path memory =>
    unfold call
    rw [ends_bind]
    exact (lookup_ends hs).mono (fun _ t ht => ends_pure.mpr ht) hsame
  | decref v => exact decref_ends hs hop

end Op

/-- A call on vnodes that exist, which may fail. -/
def step (s : Semfs) (op : Op) : Option Semfs := if op.Legal s then (op.call s).state? else none

theorem Inv.step {op : Op} (hs : Inv s) (h : s.step op = some t) : Inv t := by
  unfold Semfs.step at h
  by_cases hop : op.Legal s
  · rw [if_pos hop] at h
    exact (Op.call_ends hs hop).of_state? h
  · rw [if_neg hop] at h
    exact nomatch h

/-- **The tables of the semaphore file system agree** after any calls, whatever memory was missing.  No further call
stops the machine, and a new semaphore never gets the number of one that a vnode still refers to. -/
theorem semfs_tables_consistent (hs : Reaches (StepOf step) (· = create) s) :
    Consistent s ∧ (∀ op : Op, op.Legal s → ∀ e, op.call s ≠ .stop e) ∧
    ∀ sem memory n t, semInsert sem memory s = .ok n t → ∀ v ∈ s.vnodes, (s.vn v).semnum ≠ n := by
  have hi : Inv s := hs.invariant (fun _ heq => heq ▸ inv_create) fun _ _ _ hi h => hi.step h
  refine ⟨hi.consistent, fun op hop e => (Op.call_ends hi hop).not_stop, fun sem memory n t hins v hv heq => ?_⟩
  obtain ⟨hn, hroot, -⟩ := (semInsert_ends hi).of_ok hins
  exact not_hasVnode_of_none hn ((hi.vnodes.has n).mpr ⟨Nat.ne_of_lt hroot, v, hv, heq⟩)

/-- There is memory for everything. -/
def plenty : SemfsMemory := ⟨true, true, true, true, true, true⟩

/-- A semaphore is removed while its vnode is in use: its number is not given to another one. -/
theorem semfs_tables_consistent_removed :
    ∃ s, Reaches (StepOf step) (· = create) s ∧ s.vnodes = [0] ∧
      ∀ sem memory n t, semInsert sem memory s = .ok n t → n ≠ 0 := by
  have hrun : (follow step [.creat ['a'] false plenty, .remove ['a']] create).any (fun s =>
      decide (s.vnodes = [0] ∧ (s.vn 0).semnum = 0)) = true := by decide +kernel
  obtain ⟨s, hs, hp⟩ := exists_reaches_of_follow step (· = create) create _ _ rfl hrun
  obtain ⟨hv, hnum⟩ := of_decide_eq_true hp
  refine ⟨s, hs, hv, fun sem memory n t hins hn => ?_⟩
  have hmem : 0 ∈ s.vnodes := by
    rw [hv]
    exact List.mem_singleton_self 0
  exact (semfs_tables_consistent hs).2.2 sem memory n t hins 0 hmem (hnum.trans hn.symm)

/-- **Creating a semaphore.**  Where the semaphore itself can be made but its directory entry cannot, `semfs_creat`
returns 0 and no vnode; in every other case it returns 0 with the vnode of the name's semaphore, or fails and leaves the
tables as they were. -/
theorem creat_reports_iff (excl : Bool) (hs : Reaches (StepOf step) (· = create) s) :
    Ends (creat name excl memory) s (fun r t => Gives name r t) (fun _ t => SameSlots s t) ↔
      ¬ LacksEntry s name memory := by
  have hi : Inv s := hs.invariant (fun _ heq => heq ▸ inv_create) fun _ _ _ hi h => hi.step h
  constructor
  · intro hends hlacks
    obtain ⟨t, ht⟩ := creat_of_lacksEntry excl hlacks
    obtain ⟨v, -, hv, -⟩ := hends.of_ok ht
    exact nomatch hv
  · intro hnot
    exact (creat_ends hi).mono (fun r t ht => ht.2.resolve_left hnot) fun _ t ht => ht.2

/-- A semaphore whose vnode cannot be had is not made: the entry has been taken out again. -/
theorem creat_reports_no_vnode :
    ∃ t, creat ['a'] false { plenty with vnode := false } create = .fail .enomem t ∧ SameSlots create t := by
  have hplenty : ¬ LacksEntry create ['a'] { plenty with vnode := false } := fun h => nomatch h.dent
  have hends := (creat_reports_iff false (.start rfl)).mpr hplenty
  exact ⟨_, rfl, hends.of_fail rfl⟩

/-- There is memory for everything but directory entries. -/
def noEntries : SemfsMemory := { plenty with dent := false }

/-- On an empty volume the call reports success, and there is no vnode and no entry. -/
theorem creat_reports_nothing :
    Reaches (StepOf step) (· = create) create ∧
      ∃ t, creat ['a'] false noEntries create = .ok none t ∧ ¬ Gives ['a'] none t := by
  refine ⟨.start rfl, _, rfl, ?_⟩
  rintro ⟨v, -, hv, -⟩
  exact nomatch hv

end Semfs

end Os161Kernel
