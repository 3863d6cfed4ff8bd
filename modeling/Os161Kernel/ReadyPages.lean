import Os161Kernel.LoadEffects
import Os161Kernel.TlbIsolation

/-!
# Pages that a copy may touch

A page of the running process is ready for stores when it has a row and every TLB slot that names it is valid and the
only one.  A store to such a page can miss the TLB, but the fault then finds the row and fills one slot; no part of
`addTLB` can object.  Readiness is kept by the fill, by `removeTLBv1` and by everything that leaves rows and TLB alone,
and so by a whole load.
-/

namespace Os161Kernel

open StateProg Search Memory

/-! ### The TLB under the allocator -/

theorem Moves.tlb {s s' : Kernel} (h : Moves s s') (k : ℕ) : s'.tlb k = s.tlb k ∨ s'.tlb k = tlbInvalid k := by
  refine h.invariant (P := fun t => t.tlb k = s.tlb k ∨ t.tlb k = tlbInvalid k) (fun F t F' t' hm ht => ?_) (.inl rfl)
  cases hm with
  | pop => exact ht
  | @release _ _ f =>
    by_cases hpid : (t.mainPG f).pid ≠ 0
    · have htlb : (t.release f).tlb k = (t.tlbRemove (t.mainPG f).pageNumber).tlb k := by
        unfold Kernel.release
        rw [if_pos hpid]
      rw [htlb, t.tlbRemove_tlb]
      split
      · exact .inr rfl
      · exact ht
    · have htlb : (t.release f).tlb k = t.tlb k := by
        unfold Kernel.release
        rw [if_neg hpid]
      rw [htlb]
      exact ht
  | push hp =>
    rw [hp.same]
    exact ht
  | heap hf =>
    rw [hf]
    exact ht

theorem Moves.tlbProbe_none {s s' : Kernel} (h : Moves s s') {p : PageNo} (hp : p.val < 0x80000)
    (hnone : s.tlbProbe p = none) : s'.tlbProbe p = none := by
  refine firstBelow_eq_none.mpr fun k hk hvp => ?_
  rcases h.tlb k with hsame | hinvalid
  · rw [hsame] at hvp
    exact firstBelow_eq_none.mp hnone k hk hvp
  · rw [hinvalid] at hvp
    have hhigh := tlbInvalid_vpage hk
    rw [hvp] at hhigh
    omega

/-! ### Readiness -/

/-- The pages of `S` are mapped for the running process, and a TLB slot with such a page is valid and the only one. -/
structure PagesReady (S : Set PageNo) (s : Kernel) : Prop where
  row : ∀ p ∈ S, (s.rowOf p s.curPid).isSome = true
  valid : ∀ k < numTLB, (s.tlb k).vpage ∈ S → (s.tlb k).valid = true
  unique : ∀ j < numTLB, ∀ k < numTLB, (s.tlb j).vpage ∈ S → (s.tlb k).vpage = (s.tlb j).vpage → k = j

namespace PagesReady

variable {S : Set PageNo} {s s' : Kernel} {p : PageNo} {a i : ℕ}

theorem congr (h : PagesReady S s) (hrow : ∀ p, (s.rowOf p s.curPid).isSome → (s'.rowOf p s'.curPid).isSome)
    (htlb : s'.tlb = s.tlb) : PagesReady S s' where
  row p hp := hrow p (h.row p hp)
  valid := by
    rw [htlb]
    exact h.valid
  unique := by
    rw [htlb]
    exact h.unique

theorem loading (h : PagesReady S s) (hl : Loading s s') (htlb : s'.tlb = s.tlb) : PagesReady S s' := by
  refine h.congr (fun p hp => ?_) htlb
  obtain ⟨i, hi, hmaps⟩ := firstBelow_isSome.mp hp
  refine firstBelow_isSome.mpr ⟨i, hl.entries ▸ hi, ?_⟩
  rw [hl.curPid_eq]
  exact hl.maps_iff.mpr hmaps

theorem of_probe_none (hrow : (s.rowOf p s.curPid).isSome = true) (hnone : s.tlbProbe p = none) :
    PagesReady {p} s where
  row q hq := by
    rw [Set.mem_singleton_iff.mp hq]
    exact hrow
  valid k hk hvp := absurd (Set.mem_singleton_iff.mp hvp) (firstBelow_eq_none.mp hnone k hk)
  unique j hj _ _ hvp _ := absurd (Set.mem_singleton_iff.mp hvp) (firstBelow_eq_none.mp hnone j hj)

theorem probe_of_miss (h : PagesReady S s) (ha : pageOf a ∈ S) (hmiss : s.storeAccess a = .miss) :
    s.tlbProbe (pageOf a) = none := by
  cases hprobe : s.tlbProbe (pageOf a) with
  | none => rfl
  | some k =>
    have hvp : (s.tlb k).vpage = pageOf a := prop_of_firstBelow hprobe
    have hvalid := h.valid k (lt_of_firstBelow hprobe) (hvp ▸ ha)
    unfold Kernel.storeAccess at hmiss
    rw [hprobe] at hmiss
    simp only [hvalid, Bool.true_eq_false, if_false] at hmiss
    split at hmiss
    · exact nomatch hmiss
    · exact nomatch hmiss

theorem fill (h : PagesReady S s) (hnone : s.tlbProbe p = none) : PagesReady S (s.tlbFill p i) := by
  have hslot : ∀ k < numTLB, (k = s.filledSlot ∧ ((s.tlbFill p i).tlb k).vpage = p ∧
      ((s.tlbFill p i).tlb k).valid = true) ∨ (k ≠ s.filledSlot ∧ (s.tlbFill p i).tlb k = s.tlb k) := by
    intro k hk
    by_cases hfilled : k = s.filledSlot
    · refine .inl ⟨hfilled, ?_⟩
      rw [s.tlbFill_tlb, hfilled, Function.update_self]
      exact ⟨rfl, rfl⟩
    · refine .inr ⟨hfilled, ?_⟩
      rw [s.tlbFill_tlb, Function.update_of_ne hfilled]
  have hother : ∀ k < numTLB, (s.tlb k).vpage ≠ p := firstBelow_eq_none.mp hnone
  constructor
  · intro q hq
    have hcur : (s.tlbFill p i).curPid = s.curPid := by
      rw [s.tlbFill_sameButTlb p i]
      rfl
    rw [s.tlbFill_rowOf, hcur]
    exact h.row q hq
  · intro k hk hvp
    rcases hslot k hk with ⟨-, -, hvalid⟩ | ⟨-, hsame⟩
    · exact hvalid
    · rw [hsame] at hvp ⊢
      exact h.valid k hk hvp
  · intro j hj k hk hvp heq
    rcases hslot j hj with ⟨hjf, hjp, -⟩ | ⟨hjf, hjs⟩
    · rcases hslot k hk with ⟨hkf, -⟩ | ⟨-, hks⟩
      · exact hkf.trans hjf.symm
      · rw [hks, hjp] at heq
        exact absurd heq (hother k hk)
    · rcases hslot k hk with ⟨-, hkp, -⟩ | ⟨-, hks⟩
      · rw [hkp, hjs] at heq
        exact absurd heq.symm (hother j hj)
      · rw [hjs] at hvp heq
        rw [hks] at heq
        exact h.unique j hj k hk hvp heq

theorem remove (h : PagesReady S s) (hS : ∀ q ∈ S, q.val < 0x80000) (hp : p ∈ S) :
    PagesReady S (s.tlbRemove p) ∧ (s.tlbRemove p).tlbProbe p = none := by
  have hslot : ∀ k < numTLB, ((s.tlbRemove p).tlb k).vpage ∈ S → (s.tlbRemove p).tlb k = s.tlb k ∧
      s.tlbProbe p ≠ some k := by
    intro k hk hvp
    rw [s.tlbRemove_tlb p k] at hvp ⊢
    split at hvp
    · have hlow := hS _ hvp
      rw [tlbInvalid_vpage hk] at hlow
      omega
    · next hprobe => exact ⟨if_neg hprobe, hprobe⟩
  refine ⟨⟨fun q hq => ?_, fun k hk hvp => ?_, fun j hj k hk hvp heq => ?_⟩, ?_⟩
  · have hrow : (s.tlbRemove p).rowOf q (s.tlbRemove p).curPid = s.rowOf q s.curPid := by
      rw [s.tlbRemove_sameButTlb p]
      rfl
    rw [hrow]
    exact h.row q hq
  · have hsame := (hslot k hk hvp).1
    rw [hsame] at hvp ⊢
    exact h.valid k hk hvp
  · have hk' := (hslot k hk (heq ▸ hvp)).1
    have hj' := (hslot j hj hvp).1
    rw [hj'] at hvp heq
    rw [hk'] at heq
    exact h.unique j hj k hk hvp heq
  · refine firstBelow_eq_none.mpr fun k hk hvp => ?_
    have hmem : ((s.tlbRemove p).tlb k).vpage ∈ S := Set.mem_of_eq_of_mem hvp hp
    obtain ⟨hsame, hprobe⟩ := hslot k hk hmem
    have hvp' : (s.tlb k).vpage = p := hsame ▸ hvp
    obtain ⟨j, hj⟩ : ∃ j, s.tlbProbe p = some j :=
      Option.isSome_iff_exists.mp (firstBelow_isSome.mpr ⟨k, hk, hvp'⟩)
    have hjp : (s.tlb j).vpage = p := prop_of_firstBelow hj
    have hkj := h.unique j (lt_of_firstBelow hj) k hk (Set.mem_of_eq_of_mem hjp hp)
      (hvp'.trans hjp.symm)
    rw [hkj] at hprobe
    exact hprobe hj

end PagesReady

/-! ### Faults and the end of a segment -/

section Steps

variable {S : Set PageNo} {E : Stop → Prop} {s : Kernel} {d n a i : ℕ}

theorem addTLB_run {pid : UInt8} (hrow : s.rowOf (pageOf a) pid = some i) (hnone : s.tlbProbe (pageOf a) = none) :
    addTLB a pid s = .ok () (s.tlbFill (pageOf a) i) :=
  addTLB_ok_iff.mpr ⟨i, hrow, by rw [hnone]; rfl, rfl⟩

/-- **A store to a mapped page that is in no slot** is let through by the fault. -/
theorem vmFault_write_run {as : Addrspace} (has : s.getas = some as) (hrow : s.rowOf (pageOf a) s.curPid = some i)
    (hnone : s.tlbProbe (pageOf a) = none) :
    vmFault d (n + 1) .write a s = .ok 0 ((s.countFault.tlbFill (pageOf a) i).countReload) := by
  have hfound : (s.pageSearch a).isSome = true := by
    obtain ⟨hlt, hmaps⟩ := And.intro (lt_of_firstBelow hrow) (prop_of_firstBelow hrow)
    exact firstBelow_isSome.mpr ⟨i, hlt, hmaps.1, hmaps.2.1⟩
  have hreload : reloadPage a s.countFault = .ok 0 ((s.countFault.tlbFill (pageOf a) i).countReload) := by
    have htlb : addTLB a s.countFault.curPid s.countFault = .ok () (s.countFault.tlbFill (pageOf a) i) :=
      addTLB_run hrow hnone
    unfold reloadPage
    rw [bind_of_ok (read_apply _ _), bind_of_ok htlb]
    rfl
  rw [vmFault_of_way has (by decide), faultWay_write_found has hfound]
  exact hreload

theorem PagesReady.write_fault (h : PagesReady S s) (ha : pageOf a ∈ S) (hmiss : s.storeAccess a = .miss)
    (hdepth : E .depth) : Ends (fun _ t => PagesReady S t) E (vmFault d n .write a) s := by
  cases n with
  | zero => exact ends_stop hdepth
  | succ n =>
    cases has : s.getas with
    | none =>
      show Ends _ E (vmFaultBody d _ .write a) s
      refine ends_bind (ends_read ?_)
      rw [has]
      exact ends_pure h
    | some as =>
      obtain ⟨i, hrow⟩ := Option.isSome_iff_exists.mp (h.row _ ha)
      have hnone := h.probe_of_miss ha hmiss
      have hcount : PagesReady S s.countFault := h.loading (countFault_loading s) rfl
      exact .of_ok (vmFault_write_run has hrow hnone) ((hcount.fill hnone).loading (.of_same rfl) rfl)

theorem PagesReady.finish (h : PagesReady S s) (hS : ∀ q ∈ S, q.val < 0x80000) (ha : pageOf a ∈ S)
    (hnull : s.getas = none → E .nullDeref) : Ends (fun _ t => PagesReady S t) E (finishSegment a) s := by
  obtain ⟨hready, hgone⟩ := h.remove hS ha
  have hgetas : (s.tlbRemove (pageOf a)).getas = s.getas := by
    rw [s.tlbRemove_sameButTlb]
    rfl
  refine ends_bind (ends_update (ends_bind (ends_read ?_)))
  rw [hgetas]
  cases has : s.getas with
  | none => exact ends_stop (hnull has)
  | some as =>
    have hend : ∀ t : Kernel, PagesReady S t → t.tlbProbe (pageOf a) = none →
        Ends (fun _ t => PagesReady S t) E (addTLB a t.curPid) t := by
      intro t ht hnone
      obtain ⟨i, hrow⟩ := Option.isSome_iff_exists.mp (ht.row _ ha)
      exact .of_ok (addTLB_run hrow hnone) (ht.fill hnone)
    refine ends_bind (ends_ite (fun _ => ends_update ?_) fun _ => ends_pure ?_)
    · have hl := protectPage_loading (s.tlbRemove (pageOf a)) a
      have htlb : ((s.tlbRemove (pageOf a)).protectPage a).tlb = (s.tlbRemove (pageOf a)).tlb := by
        unfold Kernel.protectPage
        cases (s.tlbRemove (pageOf a)).pageSearch a <;> rfl
      refine ends_bind (ends_read (hend _ (hready.loading hl htlb) ?_))
      unfold Kernel.tlbProbe
      rw [htlb]
      exact hgone
    · exact ends_bind (ends_read (hend _ hready hgone))

end Steps

end Os161Kernel
