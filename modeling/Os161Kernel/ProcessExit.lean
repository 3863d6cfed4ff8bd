import Os161Kernel.HeapClients

/-!
# What `as_destroy` releases

`as_destroy(as)` is called by `sys__exit` for the running process and by `proc_destroy` for any process.  Its loop
over `main_PG` compares pids with the running process and never looks at the address space it was given, and
`sf_list` is not looked at.

`Released` says what an exit should leave of process `pid`.  `Releasable` is the exact condition on the state before:
the process owns no slot of the swap file, and it is the running one or neither it nor the running process has a
page in memory.
-/

namespace Os161Kernel

open StateProg Search Memory Runs Function Kernel Client

/-- **The exit of process `pid`.**  Nothing carries its pid any more, its frames are free or have become pages of the
heap, and what carries another pid, 0 included, is as it was.  Frames of the heap are not counted, nor the block
`ptr` of the address space itself. -/
structure Released (pid : UInt8) (ptr : ℕ) (s s' : Kernel) : Prop where
  noEntry : ∀ i < s'.pagetableEntry, s'.Valid i → (s'.mainPG i).pid ≠ pid
  noSlot : ∀ j < swapfileSize, (s'.sfList j).pid ≠ pid
  frames : ∀ i < s.pagetableEntry, s.Valid i → (s.mainPG i).pid = pid → i ∈ s'.freeFrames ∨ s'.HeapFrame i
  entries : ∀ i < s.pagetableEntry, s.Valid i → (s.mainPG i).pid ≠ pid ∨ (s.mainPG i).pid = 0 →
    ¬ s.HeapFrame i → kvaddr i ≠ ptr → s'.mainPG i = s.mainPG i
  free : ∀ i < s.pagetableEntry, ¬ s.Valid i → ¬ s'.Valid i ∨ s'.HeapFrame i
  slots : ∀ j < swapfileSize, (s.sfList j).pid ≠ pid → s'.sfList j = s.sfList j

/-- A user process without slots, which is the running one, or else neither it nor the running user process has a page
in memory. -/
def Releasable (pid : UInt8) (s : Kernel) : Prop :=
  pid ≠ 0 ∧ (∀ j < swapfileSize, (s.sfList j).pid ≠ pid) ∧
    (s.curPid = pid ∨ s.curPid ≠ 0 ∧ ∀ i < s.pagetableEntry, s.Valid i →
      (s.mainPG i).pid ≠ pid ∧ (s.mainPG i).pid ≠ s.curPid)

instance (pid : UInt8) (s : Kernel) : Decidable (Releasable pid s) :=
  inferInstanceAs (Decidable (_ ∧ _ ∧ (_ ∨ _ ∧ _)))

/-! ### The loop -/

/-- The rounds below `n` have freed exactly the frames of pid `q` among the frames in use outside the heap. -/
structure Swept (q : UInt8) (n : ℕ) (s s' : Kernel) : Prop where
  same : AllocOnly s s'
  calm : ∀ g, s'.Calm g ↔ s.Calm g ∧ (n ≤ g ∨ (s.mainPG g).pid ≠ q)
  row : ∀ g, s'.Calm g → s'.mainPG g = s.mainPG g

section Loop

variable {L : List ℕ} {q : UInt8} {d n : ℕ} {s t t' : Kernel}

theorem Swept.zero (q : UInt8) (s : Kernel) : Swept q 0 s s :=
  ⟨rfl, fun g => ⟨fun hc => ⟨hc, .inl (Nat.zero_le g)⟩, And.left⟩, fun _ _ => rfl⟩

theorem Swept.skip (h : Swept q n s t) (hs : t.vmStarted = true)
    (hno : ¬ ((t.mainPG n).pid = q ∧ t.Valid n)) : Swept q (n + 1) s t where
  same := h.same
  row := h.row
  calm g := by
    constructor
    · intro hc
      obtain ⟨hcalm, hor⟩ := (h.calm g).mp hc
      refine ⟨hcalm, ?_⟩
      by_cases hg : g = n
      · right
        intro hpid
        rw [← h.row g hc] at hpid
        exact hno ⟨hg ▸ hpid, hg ▸ ((busy_iff hs).mp hc.busy).2⟩
      · exact hor.imp_left fun hle => Nat.lt_of_le_of_ne hle (Ne.symm hg)
    · rintro ⟨hcalm, hor⟩
      exact (h.calm g).mpr ⟨hcalm, hor.imp_left Nat.le_of_succ_le⟩

theorem Swept.take (h : Swept q n s t) (hs : t.vmStarted = true) (hcn : t.Calm n) (hpid : (t.mainPG n).pid = q)
    (hquiet : Quiet (t.freed n) t') : Swept q (n + 1) s t' := by
  have hs' : (t.freed n).vmStarted = true := (t.freed_allocOnly n).sameSetup.started.trans hs
  have hcalm : ∀ g, t'.Calm g ↔ (t.freed n).Calm g := fun g =>
    ⟨hquiet.fresh hs' g (Set.notMem_empty g), hquiet.stays g (Set.notMem_empty g)⟩
  have hself : ¬ t'.Calm n := fun hc => not_calm_freed hs ((hcalm n).mp hc)
  have hother : ∀ g, g ≠ n → (t'.Calm g ↔ t.Calm g) := fun g hg => (hcalm g).trans (freed_calm_iff hg)
  refine ⟨?_, fun g => ?_, fun g hc => ?_⟩
  · have hheap : AllocOnly (t.freed n) t' := by
      unfold AllocOnly
      rw [hquiet.same]
    exact IsTrans.trans _ _ _ h.same (IsTrans.trans _ _ _ (t.freed_allocOnly n) hheap)
  · by_cases hg : g = n
    · rw [hg]
      refine ⟨fun hc => absurd hc hself, fun hor => ?_⟩
      rw [← h.row n hcn] at hor
      rcases hor.2 with hle | hne
      · exact absurd hle (Nat.not_succ_le_self n)
      · exact absurd hpid hne
    · rw [hother g hg, h.calm g]
      refine and_congr_right fun _ => or_congr_left ?_
      exact ⟨fun hle => Nat.lt_of_le_of_ne hle (Ne.symm hg), Nat.le_of_succ_le⟩
  · have hg : g ≠ n := fun heq => hself (heq ▸ hc)
    have hcf := (hcalm g).mp hc
    rw [hquiet.row g (Set.notMem_empty g) hcf, freed_mainPG hg]
    exact h.row g ((hother g hg).mp hc)

theorem Swept.round {u : Unit} (hq : q ≠ 0) (hcur : s.curPid = q) (hs : s.vmStarted = true)
    (hlt : n < s.pagetableEntry) (h : Swept q n s t ∧ HeapInv L [] t) (hrun : destroyFrame d n t = .ok u t') :
    Swept q (n + 1) s t' ∧ HeapInv L [] t' := by
  obtain ⟨hswept, hheap⟩ := h
  have hst : t.vmStarted = true := hswept.same.sameSetup.started.trans hs
  have hcurt : t.curPid = q := by
    rw [← hcur, hswept.same]
    rfl
  have hltt : n < t.pagetableEntry := hswept.same.sameSetup.entries ▸ hlt
  rcases destroyFrame_ok hrun with ⟨⟨hpid, hvalid⟩, hfree⟩ | ⟨hno, rfl⟩
  · rw [hcurt] at hpid
    have huser : t.User n := ⟨hvalid, hpid ▸ hq⟩
    obtain ⟨hcalm, hL⟩ := hheap.user_calm hst hltt huser
    obtain ⟨hinv, hquiet⟩ := (allocator_sound d).free hheap hL hcalm hfree
    exact ⟨hswept.take hst hcalm hpid hquiet, hinv⟩
  · rw [hcurt] at hno
    exact ⟨hswept.skip hst hno, hheap⟩

end Loop

/-! ### The whole call, while a user process runs -/

/-- Exactly the frames of pid `q` were given up, and the page of `ptr` if it was a whole one. -/
structure Vacated (q : UInt8) (ptr : ℕ) (s s' : Kernel) : Prop where
  setup : SameSetup s s'
  sfList : s'.sfList = s.sfList
  calm : ∀ g, s'.Calm g ↔ s.Calm g ∧ kvaddr g ≠ ptr ∧ (s.mainPG g).pid ≠ q
  row : ∀ g, s'.Calm g → s'.mainPG g = s.mainPG g

section Destroy

variable {L : List ℕ} {q pid : UInt8} {d ptr ram : ℕ} {s s' t : Kernel} {u : Unit}

theorem asDestroy_vacated {as : Addrspace} (hs : s.vmStarted = true) (h : HeapInv (as.ptr :: L) [] s)
    (hq : s.curPid ≠ 0) (hrun : asDestroy d as s = .ok u s') :
    Vacated s.curPid as.ptr s s' ∧ HeapInv L [] s' := by
  obtain ⟨t, v, hk, hloop, hinv⟩ := asDestroy_ok hrun
  have hmoves : AllocOnly s t := (kfree_moves d as.ptr _ _ _ hk).allocOnly
  obtain ⟨hheap, hcalm, hrow⟩ := kfree_calm hs h hk
  have hst : t.vmStarted = true := hmoves.sameSetup.started.trans hs
  have hcur : t.curPid = s.curPid := by
    rw [hmoves]
    rfl
  -- the loop, round by round
  have hswept : Swept s.curPid t.pagetableEntry t v ∧ HeapInv L [] v :=
    forBelow_induct (P := fun n v => Swept s.curPid n t v ∧ HeapInv L [] v)
      (fun n hn v u v' hP hround => Swept.round hq hcur hst hn hP hround) ⟨Swept.zero _ t, hheap⟩ hloop
  obtain ⟨hswept, hheap'⟩ := hswept
  have htlb : SameOwners v s' := (invalidateTLB_within _ _ _ hinv).sameOwners
  have hall : AllocOnly s v := IsTrans.trans _ _ _ hmoves hswept.same
  refine ⟨⟨IsTrans.trans _ _ _ hall.sameSetup htlb.sameSetup, ?_, fun g => ?_, fun g hc => ?_⟩,
    htlb.heapInv hheap'⟩
  · rw [(invalidateTLB_within _ _ _ hinv), hall]
  · rw [htlb.calm_iff, hswept.calm g]
    constructor
    · rintro ⟨hc, hor⟩
      obtain ⟨hcs, hne⟩ := (hcalm g).mp hc
      refine ⟨hcs, hne, ?_⟩
      rw [← hrow g hc]
      exact hor.resolve_left (Nat.not_le.mpr ((busy_iff hst).mp hc.busy).1)
    · rintro ⟨hcs, hne, hpid⟩
      have hc := (hcalm g).mpr ⟨hcs, hne⟩
      exact ⟨hc, .inr (hrow g hc ▸ hpid)⟩
  · have hcv := htlb.calm_iff.mp hc
    have hct := ((hswept.calm g).mp hcv).1
    have hrows : s'.mainPG g = v.mainPG g := by rw [htlb]
    rw [hrows, hswept.row g hcv, hrow g hct]

theorem Vacated.released (h : Vacated s.curPid ptr s s') (hs : s.vmStarted = true)
    (hheap : HeapInv (ptr :: L) [] s) (hheap' : HeapInv L [] s') (haccount : Accounted [] s')
    (hcond : Releasable pid s) : Released pid ptr s s' := by
  obtain ⟨hpid, hslots, hwho⟩ := hcond
  have hs' : s'.vmStarted = true := h.setup.started.trans hs
  -- nobody else's frame has the running pid, and no frame of `pid` is left behind
  have hgone : ∀ i, s.Calm i → (s.mainPG i).pid = pid → (s.mainPG i).pid = s.curPid := by
    intro i hc hp
    obtain ⟨hlt, hv⟩ := (busy_iff hs).mp hc.busy
    rcases hwho with hcur | ⟨-, hnone⟩
    · exact hp.trans hcur.symm
    · exact absurd hp (hnone i hlt hv).1
  have hkept : ∀ i, s.Calm i → (s.mainPG i).pid ≠ pid → (s.mainPG i).pid ≠ s.curPid := by
    intro i hc hp
    obtain ⟨hlt, hv⟩ := (busy_iff hs).mp hc.busy
    rcases hwho with hcur | ⟨-, hnone⟩
    · exact hcur ▸ hp
    · exact (hnone i hlt hv).2
  have hout : ∀ i, s.Calm i → (s.mainPG i).pid = pid → ¬ s'.Calm i := fun i hc hp hc' =>
    ((h.calm i).mp hc').2.2 (hgone i hc hp)
  constructor
  case noEntry =>
    intro i hlt hv hp
    have huser : s'.User i := ⟨hv, hp ▸ hpid⟩
    have hc' := (hheap'.user_calm hs' hlt huser).1
    exact hout i ((h.calm i).mp hc').1 (h.row i hc' ▸ hp) hc'
  case noSlot => exact fun j hj => h.sfList ▸ hslots j hj
  case frames =>
    intro i hlt hv hp
    have huser : s.User i := ⟨hv, hp ▸ hpid⟩
    have hc := (hheap.user_calm hs hlt huser).1
    have hlt' : i < s'.pagetableEntry := h.setup.entries ▸ hlt
    rcases haccount.split hlt' with ⟨hv', -⟩ | ⟨-, hcount⟩
    · right
      by_contra hno
      exact hout i hc hp (calm_of_not_heapFrame hs' hlt' hv' hno)
    · left
      exact List.count_pos_iff.mp (hcount ▸ Nat.one_pos)
  case entries =>
    intro i hlt hv hp hno hne
    have hc := calm_of_not_heapFrame hs hlt hv hno
    have hp' : (s.mainPG i).pid ≠ pid := hp.elim id fun hzero heq => hpid (heq.symm.trans hzero)
    exact h.row i ((h.calm i).mpr ⟨hc, hne, hkept i hc hp'⟩)
  case free =>
    intro i hlt hv
    by_contra hno
    obtain ⟨hv', hheapFrame⟩ := not_or.mp hno
    have hc' := calm_of_not_heapFrame hs' (h.setup.entries ▸ hlt) (not_not.mp hv') hheapFrame
    exact hv ((busy_iff hs).mp ((h.calm i).mp hc').1.busy).2
  case slots => exact fun j _ _ => congrFun h.sfList j

theorem Vacated.releasable {f : ℕ} (h : Vacated s.curPid ptr s s') (hs : s.vmStarted = true)
    (hq : s.curPid ≠ 0) (hheap : HeapInv (ptr :: L) [] s) (hheap' : HeapInv L [] s')
    (hcf : s.Calm f) (hpf : (s.mainPG f).pid = 0) (hne : kvaddr f ≠ ptr)
    (hrel : Released pid ptr s s') : Releasable pid s := by
  have hs' : s'.vmStarted = true := h.setup.started.trans hs
  have hvalid' : ∀ i, s'.Calm i → (s'.mainPG i).pid ≠ pid := by
    intro i hc
    obtain ⟨hlt, hv⟩ := (busy_iff hs').mp hc.busy
    exact hrel.noEntry i hlt hv
  have huser : ∀ i < s.pagetableEntry, s.User i → s.Calm i ∧ kvaddr i ≠ ptr := by
    intro i hlt hu
    obtain ⟨hc, hL⟩ := hheap.user_calm hs hlt hu
    exact ⟨hc, fun heq => hL (heq ▸ List.mem_cons_self)⟩
  have hpid : pid ≠ 0 := by
    intro hzero
    have hcf' : s'.Calm f := (h.calm f).mpr ⟨hcf, hne, fun heq => hq (heq.symm.trans hpf)⟩
    refine hvalid' f hcf' ?_
    rw [h.row f hcf', hpf, hzero]
  refine ⟨hpid, fun j hj => h.sfList ▸ hrel.noSlot j hj, ?_⟩
  by_cases hcur : s.curPid = pid
  · exact .inl hcur
  · refine .inr ⟨hq, fun i hlt hv => ⟨fun hp => ?_, fun hp => ?_⟩⟩
    · -- a frame of `pid` would stay
      obtain ⟨hc, hneptr⟩ := huser i hlt ⟨hv, hp ▸ hpid⟩
      have hc' := (h.calm i).mpr ⟨hc, hneptr, fun heq => hcur (heq.symm.trans hp)⟩
      exact hvalid' i hc' (by rw [h.row i hc', hp])
    · -- a frame of the running process would go
      obtain ⟨hc, hneptr⟩ := huser i hlt ⟨hv, hp ▸ hq⟩
      have hrow := hrel.entries i hlt hv (.inl (hp ▸ hcur)) hc.not_heapFrame hneptr
      have hvi : s'.Valid i := by
        unfold Valid
        rw [hrow]
        exact hv
      have hu' : s'.User i := ⟨hvi, by rw [hrow, hp]; exact hq⟩
      have hc' := (hheap'.user_calm hs' (h.setup.entries ▸ hlt) hu').1
      exact ((h.calm i).mp hc').2.2 hp

/-! ### While the kernel runs -/

theorem Moves.pid_zero {f : ℕ} (h : Moves s s') (hpid : (s.mainPG f).pid = 0) : (s'.mainPG f).pid = 0 := by
  refine h.invariant (P := fun s => (s.mainPG f).pid = 0) (fun F s F' s' hm hpid => ?_) hpid
  cases hm with
  | @pop _ _ node _ _ _ _ =>
    show (update s.mainPG node.frameNumber _ f).pid = 0
    by_cases hf : f = node.frameNumber
    · rw [hf, update_self]
    · rw [update_of_ne hf]
      exact hpid
  | @release _ _ g _ _ =>
    rw [release_mainPG]
    by_cases hf : f = g
    · rw [hf, update_self]
    · rw [update_of_ne hf]
      exact hpid
  | push h =>
    rw [h.same]
    exact hpid
  | heap h =>
    rw [h]
    exact hpid

theorem asDestroy_kernel {as : Addrspace} {m : ℕ} (hs : s.vmStarted = true) (hq : s.curPid = 0)
    (haccount : Accounted [] s) (hent : s.pagetableEntry = m + 1) (hpid : (s.mainPG m).pid = 0)
    (hrun : asDestroy d as s = .ok u s') : ¬ s'.Valid m := by
  obtain ⟨t, v, hk, hloop, hinv⟩ := asDestroy_ok hrun
  have hkm := kfree_moves d as.ptr _ _ _ hk
  have hent' : t.pagetableEntry = m + 1 := hkm.allocOnly.sameSetup.entries.trans hent
  rw [hent'] at hloop
  obtain ⟨w, hbefore, hlast⟩ := forBelow_succ_ok_iff.mp hloop
  have hmoves : Moves s w := IsTrans.trans _ _ _ hkm (within_forBelow (destroyFrame_moves d) _ _ _ _ hbefore)
  have hsame := hmoves.allocOnly
  have hv : ¬ v.Valid m := by
    rcases destroyFrame_ok hlast with ⟨-, hfree⟩ | ⟨hno, rfl⟩
    · have hw : w.vmStarted = true := hsame.sameSetup.started.trans hs
      have hle : m ≤ 2 ^ 17 := by
        have := s.pagetableEntry_le
        omega
      have hmem := freeKpages_mem hw hle hfree
      have hmoves' : Moves s v := IsTrans.trans _ _ _ hmoves (freeKpages_moves d _ _ _ _ hfree)
      exact ((haccount.moves hmoves').of_mem hmem).2
    · intro hv
      have hcur : v.curPid = 0 := by
        rw [← hq, hsame]
        rfl
      exact hno ⟨(hmoves.pid_zero hpid).trans hcur.symm, hv⟩
  have htlb : s'.mainPG = v.mainPG := by rw [invalidateTLB_within _ _ _ hinv]
  unfold Valid
  rw [htlb]
  exact hv

end Destroy

/-! ### In every reachable state -/

/-- **What an exit releases.**  In every state that a kernel reaches, whichever process runs and for every process
`n`: a returning `as_destroy` of an address space releases process `n` and leaves the others alone if and only if
`n` is releasable before. -/
theorem exit_releases_iff {ram first d : ℕ} {c : Client} {as : Addrspace} {s' : Kernel}
    (hreach : Reaches Step (Booted ram first) c) (hptr : as.ptr ∈ c.blocks)
    (hrun : asDestroy d as c.kernel = .ok () s') (n : ℕ) :
    Released (c.kernel.procs n).pid as.ptr c.kernel s' ↔ Releasable (c.kernel.procs n).pid c.kernel := by
  obtain ⟨hinv, hs, -, hent, halign⟩ := reaches_inv hreach
  -- the client's addresses with the block of the address space in front
  have hheap : HeapInv (as.ptr :: (c.blocks.erase as.ptr ++ c.pages)) [] c.kernel :=
    hinv.heap.perm ((List.perm_cons_erase hptr).append_right c.pages)
  -- a frame of the page table
  obtain ⟨m, hm⟩ : ∃ m, c.kernel.pagetableEntry = m + 1 := by
    obtain ⟨f, o, -, -, hheld⟩ := hheap.ok.live_frame (List.mem_append_right _ List.mem_cons_self)
    exact ⟨c.kernel.pagetableEntry - 1, by have := ((held_iff hs).mp hheld).1; omega⟩
  have hlast := tableLocation_le_last halign (hent.symm.trans hm)
  obtain ⟨hcm, hpm, hLm⟩ := hinv.table m hlast (hm ▸ Nat.lt_succ_self m)
  have hnem : kvaddr m ≠ as.ptr := fun heq => hLm (List.mem_append_left _ (heq ▸ hptr))
  obtain ⟨hltm, hvm⟩ := (busy_iff hs).mp hcm.busy
  by_cases hq : c.kernel.curPid = 0
  · refine ⟨fun hrel => ?_, fun hcond => ?_⟩
    · have hgone := asDestroy_kernel hs hq hinv.account hm hpm hrun
      have hrow := hrel.entries m hltm hvm (.inr hpm) hcm.not_heapFrame hnem
      refine absurd ?_ hgone
      unfold Valid
      rw [hrow]
      exact hvm
    · rcases hcond.2.2 with hcur | ⟨hne, -⟩
      · exact absurd (hcur.symm.trans hq) hcond.1
      · exact absurd hq hne
  · obtain ⟨hvac, hheap'⟩ := asDestroy_vacated hs hheap hq hrun
    refine ⟨hvac.releasable hs hq hheap hheap' hcm hpm hnem, hvac.released hs hheap hheap' ?_⟩
    obtain ⟨v, hmoves, htlb⟩ := asDestroy_moves hrun
    exact (hinv.account.moves hmoves).of_sameOwners (invalidateTLB_within _ _ _ htlb).sameOwners

/-- An address space in the block at `ptr`, with no regions yet. -/
def Addrspace.blank (ptr : ℕ) : Addrspace := ⟨ptr, 0, 0, 0, 0, 0, 0, 0, 0⟩

/-- A first block, `vm_bootstrap`, then the block of an address space and a page for process 1. -/
def firstPage : Option (ℕ × Kernel) :=
  (kmalloc 5 8 smallMachineProcs).state?.bind fun s₁ =>
    if s₁.lastpaddr = 65536 ∧ s₁.firstpaddr = 12288 then
      (vmBootstrap 5 s₁).state?.bind fun s₂ =>
        match kmalloc 5 28 s₂ with
        | .stop _ => none
        | .ok a s₃ => if a ≠ 0 then (allocPages 5 0x400000 true s₃).state?.map fun s₄ => (a, s₄) else none
    else none

theorem firstPage_reaches {a : ℕ} {s : Kernel} (h : firstPage = some (a, s)) :
    ∃ B, Reaches Step (Booted 65536 12288) ⟨a :: B, [], s⟩ := by
  unfold firstPage at h
  obtain ⟨s₁, hs₁, h⟩ := Option.bind_eq_some_iff.mp h
  obtain ⟨b, hmalloc⟩ := exists_of_state? hs₁
  rw [Option.ite_none_right_eq_some] at h
  obtain ⟨hsize, h⟩ := h
  obtain ⟨s₂, hs₂, h⟩ := Option.bind_eq_some_iff.mp h
  have hbooted := booted_of_kmalloc smallMachineProcs_powerOn hmalloc (by decide) hsize.1 hsize.2
    (by decide) (state?_eq_some.mp hs₂)
  split at h
  · exact nomatch h
  · next a' s₃ hblock =>
    rw [Option.ite_none_right_eq_some] at h
    obtain ⟨hne, h⟩ := h
    obtain ⟨s₄, hs₄, heq⟩ := Option.map_eq_some_iff.mp h
    obtain ⟨rfl, rfl⟩ := Prod.mk.inj heq
    have hstep := Step.kmalloc (B := if b = 0 then [] else [b]) (P := []) hblock
    rw [if_neg hne] at hstep
    exact ⟨_, .next (.next (.start hbooted) hstep) (Step.allocPages (state?_eq_some.mp hs₄))⟩

/-- Process 1 runs, has one page and exits. -/
theorem exit_releases_first_process : ∃ (c : Client) (as : Addrspace) (s' : Kernel),
    Reaches Step (Booted 65536 12288) c ∧ as.ptr ∈ c.blocks ∧
    asDestroy 5 as c.kernel = .ok () s' ∧ Releasable (c.kernel.procs 1).pid c.kernel ∧
    Released (c.kernel.procs 1).pid as.ptr c.kernel s' := by
  have hrun : ∃ x ∈ firstPage, Releasable (x.2.procs 1).pid x.2 ∧
      ∃ u s', asDestroy 5 (.blank x.1) x.2 = .ok u s' ∧ True := by decide +kernel
  obtain ⟨⟨a, s⟩, hpage, hcond, _, s', hdestroy, -⟩ := hrun
  obtain ⟨B, hreach⟩ := firstPage_reaches hpage
  have hptr : (Addrspace.blank a).ptr ∈ a :: B := List.mem_cons_self
  exact ⟨_, _, s', hreach, hptr, hdestroy, hcond, (exit_releases_iff hreach hptr hdestroy 1).mpr hcond⟩

/-- Process 2 destroys the address space of process 1, as `proc_destroy` does: the page of process 1 stays and the
page of process 2 goes. -/
theorem exit_releases_running_process : ∃ (c : Client) (as : Addrspace) (s' : Kernel),
    Reaches Step (Booted 65536 12288) c ∧ as.ptr ∈ c.blocks ∧
    asDestroy 5 as c.kernel = .ok () s' ∧ c.kernel.curPid = 2 ∧
    ¬ Released (c.kernel.procs 1).pid as.ptr c.kernel s' ∧
    (∃ i < s'.pagetableEntry, s'.Valid i ∧ (s'.mainPG i).pid = (c.kernel.procs 1).pid) ∧
    ∃ i < c.kernel.pagetableEntry, c.kernel.Valid i ∧ (c.kernel.mainPG i).pid = 2 ∧ ¬ s'.Valid i := by
  have hrun : ∃ x ∈ firstPage, ∃ u t, allocPages 5 0x400000 true { x.2 with curproc := 2 } = .ok u t ∧
      ∃ v s', asDestroy 5 (.blank x.1) t = .ok v s' ∧ t.curPid = 2 ∧
        (∃ i < s'.pagetableEntry, s'.Valid i ∧ (s'.mainPG i).pid = (t.procs 1).pid) ∧
        ∃ i < t.pagetableEntry, t.Valid i ∧ (t.mainPG i).pid = 2 ∧ ¬ s'.Valid i := by decide +kernel
  obtain ⟨⟨a, s⟩, hpage, _, t, ht, _, s', hdestroy, hcur, hstays, hgoes⟩ := hrun
  obtain ⟨B, hpageReach⟩ := firstPage_reaches hpage
  have hswitched : Step ⟨a :: B, [], s⟩ .other ⟨a :: B, [], { s with curproc := 2 }⟩ := .other rfl
  have hreach := Reaches.next (.next hpageReach hswitched) (Step.allocPages ht)
  refine ⟨_, .blank a, s', hreach, List.mem_cons_self, hdestroy, hcur, fun hrel => ?_, hstays, hgoes⟩
  obtain ⟨i, hlt, hvalid, hpid⟩ := hstays
  exact hrel.noEntry i hlt hvalid hpid

end Os161Kernel
