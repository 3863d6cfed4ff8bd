import Os161Kernel.TlbIsolation
import Mathlib.Data.Finset.Card

/-!
# The slots of the TLB and their counter

`freeTLBEntries` is set to 64 when the TLB is filled with invalid entries, goes down when `addTLB` finds a free slot and
up in `removeTLBv1`; a replacement leaves it alone.  It is the number of invalid slots as long as every probe finds a
valid slot.  That is so because an invalid slot holds a page of the kernel's half and the probes are for user pages
(`TlbClean`).

The runs here are sequences of the four functions that write the TLB, with steps in between that leave it alone.  Two
results: the counter is exact when no page is added twice, and no page is ever in two slots, unless `addTLB` is called
for the page in slot 0, which its test `tlb_probe(..) > 0` lets through.
-/

namespace Os161Kernel

open StateProg Search Runs Function Kernel

/-! ### Clean slots -/

/-- An invalid slot holds its `TLBHI_INVALID`, a valid one a user page. -/
structure TlbClean (s : Kernel) : Prop where
  invalid : ∀ k < numTLB, (s.tlb k).valid = false → s.tlb k = tlbInvalid k
  mapped : ∀ k < numTLB, (s.tlb k).valid = true → (s.tlb k).vpage.val < 0x80000

/-- Rows with a pid are for user pages. -/
def UserRows (s : Kernel) : Prop := ∀ f, (s.mainPG f).pid ≠ 0 → (s.mainPG f).pageNumber.val < 0x80000

theorem pageOf_lt_of_user {v : ℕ} (h : v < kseg0) : (pageOf v).val < 0x80000 := by
  unfold pageOf kseg0 pageSize at *
  rw [Fin.val_ofNat]
  omega

namespace TlbClean

variable {s s' : Kernel} {p : PageNo} {i k : ℕ}

theorem of_clear (h : s.tlb = tlbInvalid) : TlbClean s where
  invalid k _ _ := by rw [h]
  mapped k _ hv := by
    rw [h] at hv
    exact nomatch hv

theorem congr (h : TlbClean s) (htlb : s'.tlb = s.tlb) : TlbClean s' := by
  constructor
  · rw [htlb]
    exact h.invalid
  · rw [htlb]
    exact h.mapped

theorem probe_valid (h : TlbClean s) (hp : p.val < 0x80000) (hprobe : s.tlbProbe p = some k) :
    (s.tlb k).valid = true := by
  by_contra hne
  have hvp : (s.tlb k).vpage = p := prop_of_firstBelow hprobe
  have hlt := lt_of_firstBelow hprobe
  rw [h.invalid k hlt (Bool.not_eq_true _ ▸ hne)] at hvp
  have hhigh := tlbInvalid_vpage hlt
  rw [hvp] at hhigh
  omega

theorem fill (h : TlbClean s) (hp : p.val < 0x80000) : TlbClean (s.tlbFill p i) := by
  constructor
  · intro k hk hv
    rw [s.tlbFill_tlb] at hv ⊢
    by_cases hkf : k = s.filledSlot
    · rw [hkf, update_self] at hv
      exact nomatch hv
    · rw [update_of_ne hkf] at hv ⊢
      exact h.invalid k hk hv
  · intro k hk hv
    rw [s.tlbFill_tlb] at hv ⊢
    by_cases hkf : k = s.filledSlot
    · rw [hkf, update_self]
      exact hp
    · rw [update_of_ne hkf] at hv ⊢
      exact h.mapped k hk hv

theorem remove (h : TlbClean s) (p : PageNo) : TlbClean (s.tlbRemove p) := by
  constructor
  · intro k hk hv
    rw [s.tlbRemove_tlb] at hv ⊢
    split at hv
    · next hprobe => rw [if_pos hprobe]
    · next hprobe =>
      rw [if_neg hprobe]
      exact h.invalid k hk hv
  · intro k hk hv
    rw [s.tlbRemove_tlb] at hv ⊢
    split at hv
    · exact nomatch hv
    · next hprobe =>
      rw [if_neg hprobe]
      exact h.mapped k hk hv

end TlbClean

/-! ### The counter -/

/-- The slots without the valid bit. -/
def Kernel.invalidSlots (s : Kernel) : Finset ℕ := (Finset.range numTLB).filter fun k => (s.tlb k).valid = false

theorem Kernel.mem_invalidSlots {s : Kernel} {k : ℕ} :
    k ∈ s.invalidSlots ↔ k < numTLB ∧ (s.tlb k).valid = false := by
  unfold invalidSlots
  rw [Finset.mem_filter, Finset.mem_range]

theorem Kernel.card_invalidSlots_le (s : Kernel) : s.invalidSlots.card ≤ numTLB :=
  (Finset.card_filter_le _ _).trans_eq (Finset.card_range numTLB)

/-- **Exact bookkeeping.**  The slots are clean and `freeTLBEntries` is the number of invalid ones. -/
structure TlbExact (s : Kernel) : Prop extends TlbClean s where
  count : s.freeTLBEntries.toNat = s.invalidSlots.card

namespace TlbExact

variable {s s' : Kernel} {p : PageNo} {i : ℕ}

theorem of_clear (htlb : s.tlb = tlbInvalid) (hfree : s.freeTLBEntries = 64) : TlbExact s := by
  refine ⟨.of_clear htlb, ?_⟩
  have hall : s.invalidSlots = Finset.range numTLB := by
    ext k
    rw [mem_invalidSlots, Finset.mem_range, htlb]
    exact and_iff_left rfl
  rw [hall, Finset.card_range, hfree]
  rfl

theorem congr (h : TlbExact s) (htlb : s'.tlb = s.tlb) (hfree : s'.freeTLBEntries = s.freeTLBEntries) :
    TlbExact s' := by
  refine ⟨h.toTlbClean.congr htlb, ?_⟩
  have hsame : s'.invalidSlots = s.invalidSlots := by
    unfold invalidSlots
    rw [htlb]
  rw [hfree, hsame]
  exact h.count

theorem fill (h : TlbExact s) (hp : p.val < 0x80000) : TlbExact (s.tlbFill p i) := by
  refine ⟨h.toTlbClean.fill hp, ?_⟩
  have hmem : ∀ k, k ∈ (s.tlbFill p i).invalidSlots ↔ k ∈ s.invalidSlots ∧ k ≠ s.filledSlot := by
    intro k
    rw [mem_invalidSlots, mem_invalidSlots, s.tlbFill_tlb]
    by_cases hk : k = s.filledSlot
    · rw [hk, update_self]
      simp
    · rw [update_of_ne hk, and_iff_left hk]
  cases hfree : s.freeSlot with
  | some j =>
    have hfilled : s.filledSlot = j := by
      unfold filledSlot
      rw [hfree]
      rfl
    have hj : j ∈ s.invalidSlots := mem_invalidSlots.mpr ⟨lt_of_firstBelow hfree, prop_of_firstBelow hfree⟩
    have herase : (s.tlbFill p i).invalidSlots = s.invalidSlots.erase j := by
      ext k
      rw [hmem, hfilled, Finset.mem_erase, and_comm]
    have hcounter : (s.tlbFill p i).freeTLBEntries = s.freeTLBEntries - 1 := by
      unfold tlbFill
      rw [hfree]
    have hpos : 1 ≤ s.freeTLBEntries := by
      rw [UInt32.le_iff_toNat_le, h.count]
      exact Finset.card_pos.mpr ⟨j, hj⟩
    rw [herase, Finset.card_erase_of_mem hj, hcounter, UInt32.toNat_sub_of_le _ _ hpos, h.count]
    rfl
  | none =>
    have hsame : (s.tlbFill p i).invalidSlots = s.invalidSlots := by
      ext k
      rw [hmem]
      refine and_iff_left_of_imp fun hk => ?_
      obtain ⟨hlt, hv⟩ := mem_invalidSlots.mp hk
      exact absurd hv (firstBelow_eq_none.mp hfree k hlt)
    have hcounter : (s.tlbFill p i).freeTLBEntries = s.freeTLBEntries := by
      unfold tlbFill
      rw [hfree]
    rw [hsame, hcounter]
    exact h.count

theorem remove (h : TlbExact s) (hp : p.val < 0x80000) : TlbExact (s.tlbRemove p) := by
  refine ⟨h.toTlbClean.remove p, ?_⟩
  cases hprobe : s.tlbProbe p with
  | none =>
    have hsame : s.tlbRemove p = s := by
      unfold tlbRemove
      rw [hprobe]
    rw [hsame]
    exact h.count
  | some j =>
    have hlt : j < numTLB := lt_of_firstBelow hprobe
    have hvalid := h.toTlbClean.probe_valid hp hprobe
    have hj : j ∉ s.invalidSlots := by
      intro hmem
      rw [(mem_invalidSlots.mp hmem).2] at hvalid
      exact nomatch hvalid
    have hinsert : (s.tlbRemove p).invalidSlots = insert j s.invalidSlots := by
      ext k
      rw [mem_invalidSlots, Finset.mem_insert, mem_invalidSlots, s.tlbRemove_tlb, hprobe]
      by_cases hk : k = j
      · rw [hk, if_pos rfl]
        exact iff_of_true ⟨hlt, rfl⟩ (.inl rfl)
      · rw [if_neg fun e => hk (Option.some.inj e).symm, or_iff_right hk]
    have hcounter : (s.tlbRemove p).freeTLBEntries = s.freeTLBEntries + 1 := by
      unfold tlbRemove
      rw [hprobe]
    have hle := s.card_invalidSlots_le
    have hsmall : s.freeTLBEntries.toNat + (1 : UInt32).toNat < 2 ^ 32 := by
      rw [h.count]
      exact Nat.lt_of_le_of_lt (Nat.add_le_add_right hle 1) (by decide)
    rw [hinsert, Finset.card_insert_of_notMem hj, hcounter, UInt32.toNat_add, Nat.mod_eq_of_lt hsmall, h.count]
    rfl

end TlbExact

/-! ### The allocator -/

theorem TlbExact.move {F F' : List ℕ} {s s' : Kernel} (hm : Move (F, s) (F', s')) (h : TlbExact s ∧ UserRows s) :
    TlbExact s' ∧ UserRows s' := by
  obtain ⟨hexact, hrows⟩ := h
  have hupdate : ∀ {f : ℕ} {e : InvertedPT}, e.pid = 0 → ∀ g, (update s.mainPG f e g).pid ≠ 0 →
      (update s.mainPG f e g).pageNumber.val < 0x80000 := by
    intro f e he g hg
    by_cases hgf : g = f
    · rw [hgf, update_self] at hg
      exact absurd he hg
    · rw [update_of_ne hgf] at hg ⊢
      exact hrows g hg
  cases hm with
  | pop => exact ⟨hexact.congr rfl rfl, hupdate rfl⟩
  | @release _ _ f =>
    refine ⟨?_, hupdate rfl⟩
    by_cases hpid : (s.mainPG f).pid ≠ 0
    · have hremoved := hexact.remove (hrows f hpid)
      refine hremoved.congr ?_ ?_
      · unfold release
        rw [if_pos hpid]
      · unfold release
        rw [if_pos hpid]
    · refine hexact.congr ?_ ?_
      · unfold release
        rw [if_neg hpid]
      · unfold release
        rw [if_neg hpid]
  | push hp =>
    have hsame := hp.same
    refine ⟨hexact.congr (by rw [hsame]) (by rw [hsame]), ?_⟩
    unfold UserRows
    rw [hsame]
    exact hrows
  | heap hf =>
    refine ⟨hexact.congr (by rw [hf]) (by rw [hf]), ?_⟩
    unfold UserRows
    rw [hf]
    exact hrows

theorem TlbExact.moves {s s' : Kernel} (hm : Moves s s') (h : TlbExact s) (hrows : UserRows s) :
    TlbExact s' ∧ UserRows s' :=
  hm.invariant (P := fun t => TlbExact t ∧ UserRows t) (fun _ _ _ _ hstep ht => TlbExact.move hstep ht) ⟨h, hrows⟩

/-! ### Runs -/

/-- What writes the TLB, and the rest. -/
inductive SlotOp where
  | addTLB (v : ℕ) (pid : UInt8)
  | removeTLBv1 (v : ℕ)
  | freeKpages (paddr : ℕ)
  | invalidateTLB
  | elsewhere

/-- One returning call, with user addresses only.  Code that does not write the TLB may change anything else; the
rows it enters are for user pages. -/
inductive SlotStep : Kernel → SlotOp → Kernel → Prop
  | addTLB {s s' : Kernel} {v : ℕ} {pid : UInt8} {u : Unit} (hv : v < kseg0)
      (h : Os161Kernel.addTLB v pid s = .ok u s') : SlotStep s (.addTLB v pid) s'
  | removeTLBv1 {s s' : Kernel} {v : ℕ} {u : Unit} (hv : v < kseg0)
      (h : Os161Kernel.removeTLBv1 v s = .ok u s') : SlotStep s (.removeTLBv1 v) s'
  | freeKpages {s s' : Kernel} {d paddr : ℕ} {u : Unit} (h : Os161Kernel.freeKpages d paddr s = .ok u s') :
      SlotStep s (.freeKpages paddr) s'
  | invalidateTLB {s s' : Kernel} {u : Unit} (h : Os161Kernel.invalidateTLB s = .ok u s') :
      SlotStep s .invalidateTLB s'
  | elsewhere {s s' : Kernel} (htlb : s'.tlb = s.tlb) (hfree : s'.freeTLBEntries = s.freeTLBEntries)
      (hrows : UserRows s') : SlotStep s .elsewhere s'

/-- The tables as `vm_bootstrap` has just filled them. -/
def SlotStart (s : Kernel) : Prop := ∃ s₀ : Kernel, s = s₀.initTables

theorem UserRows.congr {s s' : Kernel} (h : UserRows s) (hrows : s'.mainPG = s.mainPG) : UserRows s' := by
  unfold UserRows
  rw [hrows]
  exact h

theorem SlotStart.exact {s : Kernel} (h : SlotStart s) : TlbExact s ∧ UserRows s := by
  obtain ⟨s₀, rfl⟩ := h
  exact ⟨.of_clear rfl rfl, fun _ hpid => absurd rfl hpid⟩

theorem SlotStep.exact {s s' : Kernel} {op : SlotOp} (hstep : SlotStep s op s') (h : TlbExact s ∧ UserRows s) :
    TlbExact s' ∧ UserRows s' := by
  obtain ⟨hexact, hrows⟩ := h
  cases hstep with
  | addTLB hv hrun =>
    obtain ⟨i, -, -, rfl⟩ := addTLB_ok_iff.mp hrun
    exact ⟨hexact.fill (pageOf_lt_of_user hv), hrows.congr (s.tlbFill_mainPG _ i)⟩
  | @removeTLBv1 _ v _ hv hrun =>
    obtain rfl := update_ok_iff.mp hrun
    exact ⟨hexact.remove (pageOf_lt_of_user hv), hrows.congr (s.tlbRemove_mainPG (pageOf v))⟩
  | freeKpages hrun => exact hexact.moves (freeKpages_moves _ _ _ _ _ hrun) hrows
  | invalidateTLB hrun =>
    obtain rfl := update_ok_iff.mp hrun
    exact ⟨.of_clear rfl rfl, hrows⟩
  | elsewhere htlb hfree hrows' => exact ⟨hexact.congr htlb hfree, hrows'⟩

theorem reaches_tlbExact {s : Kernel} (h : Reaches SlotStep SlotStart s) : TlbExact s ∧ UserRows s :=
  h.invariant (fun _ hs => hs.exact) fun _ _ _ hs hstep => hstep.exact hs

/-- **The counter of free slots is exact.**  In every state of every run after the boot-time fill, `freeTLBEntries` is
the number of slots without the valid bit; each of these holds its `TLBHI_INVALID`, and each other slot a user page.  So
the counter stays at or below 64 and never wraps. -/
theorem free_slot_counter_exact {s : Kernel} (hrun : Reaches SlotStep SlotStart s) :
    TlbExact s ∧ s.freeTLBEntries.toNat ≤ numTLB := by
  obtain ⟨hexact, -⟩ := reaches_tlbExact hrun
  refine ⟨hexact, ?_⟩
  rw [hexact.count]
  exact s.card_invalidSlots_le

theorem twoProcesses_reaches (meets : Kernel → SlotOp → Prop) (h : ∀ s, meets s .elsewhere) :
    Reaches (Guarded SlotStep meets) SlotStart twoProcesses := by
  have hrows : UserRows twoProcesses := by
    intro f hpid
    by_cases hf : f = 5
    · rw [hf]
      decide
    · have hrow : twoProcesses.mainPG f = ⟨false, false, 0, 0, 0⟩ := by
        show update (fun _ => (⟨false, false, 0, 0, 0⟩ : InvertedPT)) 5 ⟨true, true, 2, 0x400, 0⟩ f = _
        rw [update_of_ne hf]
      rw [hrow] at hpid
      exact absurd rfl hpid
  exact .next (.start ⟨twoProcesses, rfl⟩) ⟨h _, .elsewhere rfl rfl hrows⟩

theorem twoProcesses_addTLB :
    addTLB 0x400000 2 twoProcesses = .ok () (twoProcesses.tlbFill (pageOf 0x400000) 5) :=
  addTLB_ok_iff.mpr ⟨5, by decide +kernel, by decide +kernel, rfl⟩

theorem free_slot_counter_one_page : ∃ s : Kernel, Reaches SlotStep SlotStart s ∧
    (s.tlb 0).valid = true ∧ s.freeTLBEntries = 63 ∧ TlbExact s ∧ s.freeTLBEntries.toNat ≤ numTLB := by
  have hstart := (twoProcesses_reaches (fun _ _ => True) fun _ => trivial).of_guarded
  have hrun := hstart.next (.addTLB (by decide) twoProcesses_addTLB)
  exact ⟨_, hrun, by decide +kernel, by decide +kernel, free_slot_counter_exact hrun⟩

/-! ### No page twice -/

/-- No two slots have the same virtual page. -/
def Kernel.SlotsDistinct (s : Kernel) : Prop :=
  ∀ j < numTLB, ∀ k < numTLB, (s.tlb j).vpage = (s.tlb k).vpage → j = k

namespace Kernel.SlotsDistinct

variable {s s' : Kernel} {p : PageNo} {i : ℕ}

theorem of_clear (h : s.tlb = tlbInvalid) : s.SlotsDistinct := by
  intro j hj k hk heq
  rw [h] at heq
  have hval := congrArg Fin.val heq
  rw [tlbInvalid_vpage hj, tlbInvalid_vpage hk] at hval
  omega

theorem congr (h : s.SlotsDistinct) (htlb : s'.tlb = s.tlb) : s'.SlotsDistinct := by
  unfold SlotsDistinct
  rw [htlb]
  exact h

theorem fill_iff (h : s.SlotsDistinct) :
    (s.tlbFill p i).SlotsDistinct ↔ ∀ k < numTLB, (s.tlb k).vpage = p → k = s.filledSlot := by
  have hself : ((s.tlbFill p i).tlb s.filledSlot).vpage = p := by
    rw [s.tlbFill_tlb, update_self]
  have hother : ∀ k, k ≠ s.filledSlot → (s.tlbFill p i).tlb k = s.tlb k := by
    intro k hk
    rw [s.tlbFill_tlb, update_of_ne hk]
  constructor
  · intro hdistinct k hk hvp
    by_contra hne
    refine hne (hdistinct k hk _ s.filledSlot_lt ?_)
    rw [hother k hne, hvp, hself]
  · intro honly j hj k hk heq
    by_cases hjf : j = s.filledSlot
    · by_cases hkf : k = s.filledSlot
      · rw [hjf, hkf]
      · rw [hjf, hself, hother k hkf] at heq
        exact absurd (honly k hk heq.symm) hkf
    · by_cases hkf : k = s.filledSlot
      · rw [hkf, hself, hother j hjf] at heq
        exact absurd (honly j hj heq) hjf
      · rw [hother j hjf, hother k hkf] at heq
        exact h j hj k hk heq

theorem remove (h : s.SlotsDistinct) (hclean : TlbClean s) (p : PageNo) : (s.tlbRemove p).SlotsDistinct := by
  -- a slot that is invalidated takes a page no other slot has
  have hslot : ∀ j < numTLB, ∀ k < numTLB, s.tlbProbe p = some j →
      ((s.tlbRemove p).tlb j).vpage = ((s.tlbRemove p).tlb k).vpage → j = k := by
    intro j hj k hk hprobe heq
    have hval := congrArg Fin.val heq
    rw [s.tlbRemove_tlb, if_pos hprobe, tlbInvalid_vpage hj] at hval
    by_cases hv : ((s.tlbRemove p).tlb k).valid = true
    · have hlow := (hclean.remove p).mapped k hk hv
      omega
    · rw [(hclean.remove p).invalid k hk (Bool.not_eq_true _ ▸ hv), tlbInvalid_vpage hk] at hval
      omega
  intro j hj k hk heq
  by_cases hj' : s.tlbProbe p = some j
  · exact hslot j hj k hk hj' heq
  · by_cases hk' : s.tlbProbe p = some k
    · exact (hslot k hk j hj hk' heq.symm).symm
    · rw [s.tlbRemove_tlb, if_neg hj', s.tlbRemove_tlb, if_neg hk'] at heq
      exact h j hj k hk heq

end Kernel.SlotsDistinct

theorem Moves.slotsDistinct {s s' : Kernel} (hm : Moves s s') (h : s.SlotsDistinct) (hexact : TlbExact s)
    (hrows : UserRows s) : s'.SlotsDistinct := by
  refine (hm.invariant (P := fun t => (TlbExact t ∧ UserRows t) ∧ t.SlotsDistinct) ?_ ⟨⟨hexact, hrows⟩, h⟩).2
  rintro F t F' t' hstep ⟨ht, hdistinct⟩
  refine ⟨TlbExact.move hstep ht, ?_⟩
  cases hstep with
  | pop => exact hdistinct.congr rfl
  | @release _ _ f =>
    by_cases hpid : (t.mainPG f).pid ≠ 0
    · refine (hdistinct.remove ht.1.toTlbClean (t.mainPG f).pageNumber).congr ?_
      unfold release
      rw [if_pos hpid]
    · refine hdistinct.congr ?_
      unfold release
      rw [if_neg hpid]
  | push hp => exact hdistinct.congr (by rw [hp.same])
  | heap hf => exact hdistinct.congr (by rw [hf])

/-- `addTLB` is not called for the page in slot 0, unless slot 0 is the one to be replaced. -/
def SlotOp.Meets (s : Kernel) : SlotOp → Prop
  | addTLB v _ => (s.tlb 0).vpage = pageOf v → s.freeSlot = none ∧ s.nextVictim = 0
  | _ => True

instance (s : Kernel) : ∀ op : SlotOp, Decidable (op.Meets s)
  | .addTLB _ _ => inferInstanceAs (Decidable (_ → _))
  | .removeTLBv1 _ | .freeKpages _ | .invalidateTLB | .elsewhere => .isTrue trivial

theorem addTLB_distinct_iff {s s' : Kernel} {v : ℕ} {pid : UInt8} {u : Unit} (h : s.SlotsDistinct)
    (hclean : TlbClean s) (hv : v < kseg0) (hrun : addTLB v pid s = .ok u s') :
    s'.SlotsDistinct ↔ SlotOp.Meets s (.addTLB v pid) := by
  obtain ⟨i, -, hprobe, rfl⟩ := addTLB_ok_iff.mp hrun
  rw [h.fill_iff]
  -- the duplicate test has left slot 0 as the only slot with the page
  have hzero : ∀ k < numTLB, (s.tlb k).vpage = pageOf v → k = 0 := by
    intro k hk hvp
    obtain ⟨j, hj⟩ : ∃ j, s.tlbProbe (pageOf v) = some j :=
      Option.isSome_iff_exists.mp (firstBelow_isSome.mpr ⟨k, hk, hvp⟩)
    rw [hj, Option.getD_some] at hprobe
    have hjp : (s.tlb j).vpage = pageOf v := prop_of_firstBelow hj
    rw [h k hk j (lt_of_firstBelow hj) (hvp.trans hjp.symm), hprobe]
  have hfilled : (s.tlb 0).vpage = pageOf v → (s.filledSlot = 0 ↔ s.freeSlot = none ∧ s.nextVictim = 0) := by
    intro hvp
    unfold filledSlot
    cases hfree : s.freeSlot with
    | none => exact ⟨fun h0 => ⟨rfl, Fin.ext h0⟩, fun h0 => congrArg Fin.val h0.2⟩
    | some k =>
      refine ⟨fun h0 => ?_, fun h0 => nomatch h0.1⟩
      -- an invalid slot 0 has no user page
      have hk : k = 0 := h0
      have hinvalid : (s.tlb 0).valid = false := hk ▸ prop_of_firstBelow hfree
      have hlow := pageOf_lt_of_user hv
      rw [← hvp, hclean.invalid 0 (by decide) hinvalid, tlbInvalid_vpage (by decide)] at hlow
      exact absurd hlow (by decide)
  constructor
  · exact fun honly hvp => (hfilled hvp).mp (honly 0 (by decide) hvp).symm
  · intro hmeets k hk hvp
    have hk0 := hzero k hk hvp
    rw [hk0] at hvp ⊢
    exact ((hfilled hvp).mpr (hmeets hvp)).symm

/-- **No page is in two slots.**  In every state of every run whose `addTLB` calls meet the condition the slots have
different virtual pages; and from such a state a returning call of `addTLB` leaves them different if and only if it
meets the condition. -/
theorem tlb_pages_distinct {s : Kernel} (hrun : Reaches (Guarded SlotStep fun s op => op.Meets s) SlotStart s) :
    s.SlotsDistinct ∧ ∀ v pid u s', v < kseg0 → addTLB v pid s = .ok u s' →
      (s'.SlotsDistinct ↔ SlotOp.Meets s (.addTLB v pid)) := by
  have hinv : (TlbExact s ∧ UserRows s) ∧ s.SlotsDistinct := by
    refine hrun.invariant (P := fun s => (TlbExact s ∧ UserRows s) ∧ s.SlotsDistinct) ?_ ?_
    · rintro _ ⟨s₀, rfl⟩
      exact ⟨SlotStart.exact ⟨s₀, rfl⟩, .of_clear rfl⟩
    · rintro s op s' ⟨hs, hdistinct⟩ ⟨hmeets, hstep⟩
      refine ⟨hstep.exact hs, ?_⟩
      cases hstep with
      | addTLB hv hcall => exact (addTLB_distinct_iff hdistinct hs.1.toTlbClean hv hcall).mpr hmeets
      | removeTLBv1 _ hcall =>
        obtain rfl := update_ok_iff.mp hcall
        exact hdistinct.remove hs.1.toTlbClean _
      | freeKpages hcall => exact (freeKpages_moves _ _ _ _ _ hcall).slotsDistinct hdistinct hs.1 hs.2
      | invalidateTLB hcall =>
        obtain rfl := update_ok_iff.mp hcall
        exact .of_clear rfl
      | elsewhere htlb => exact hdistinct.congr htlb
  exact ⟨hinv.2, fun v pid u s' hv hcall => addTLB_distinct_iff hinv.2 hinv.1.1.toTlbClean hv hcall⟩

theorem tlb_pages_distinct_one_page : ∃ s : Kernel,
    Reaches (Guarded SlotStep fun s op => op.Meets s) SlotStart s ∧ (s.tlb 0).vpage = pageOf 0x400000 ∧
      s.SlotsDistinct := by
  have hmeets : SlotOp.Meets twoProcesses (.addTLB 0x400000 2) := by decide +kernel
  have hrun : Reaches (Guarded SlotStep fun s op => op.Meets s) SlotStart
      (twoProcesses.tlbFill (pageOf 0x400000) 5) :=
    (twoProcesses_reaches _ fun _ => trivial).next ⟨hmeets, .addTLB (by decide) twoProcesses_addTLB⟩
  exact ⟨_, hrun, by decide +kernel, (tlb_pages_distinct hrun).1⟩

/-- **The page in slot 0 is added again.**  `tlb_probe` returns 0, the test for a duplicate does not see it, and slots 0
and 1 hold the same page. -/
theorem tlb_page_twice : ∃ s : Kernel, Reaches SlotStep SlotStart s ∧ ¬ s.SlotsDistinct := by
  have hstart := (twoProcesses_reaches (fun _ _ => True) fun _ => trivial).of_guarded
  have hfirst := hstart.next (.addTLB (by decide) twoProcesses_addTLB)
  have hsecond : addTLB 0x400000 2 (twoProcesses.tlbFill (pageOf 0x400000) 5) =
      .ok () ((twoProcesses.tlbFill (pageOf 0x400000) 5).tlbFill (pageOf 0x400000) 5) :=
    addTLB_ok_iff.mpr ⟨5, by decide +kernel, by decide +kernel, rfl⟩
  refine ⟨_, hfirst.next (.addTLB (by decide) hsecond), fun hdistinct => ?_⟩
  exact absurd (hdistinct 0 (by decide) 1 (by decide) (by decide +kernel)) (by decide)

end Os161Kernel
