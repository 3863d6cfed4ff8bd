import Mathlib.Data.Finset.Card
import Os161Kernel.Boot
import Os161Kernel.HeapInvariant
import Os161Kernel.Lib.Runs

/-!
# Accounting for pagerefs

`allocpageref` hands out the pagerefs on the pages of sixteen roots, and `freepageref` takes them back.  A root gets its
page with its first pageref.  The bit of a pageref is set and `numinuse` counted up before that page is asked for, and
when `alloc_kpages` returns 0 neither is undone: the root then counts a pageref that nobody has.
-/

namespace Os161Kernel

open StateProg Search Runs Function Kernel

/-- The pagerefs of a root that are marked as in use. -/
def KheapRoot.used (r : KheapRoot) : Finset ℕ := (Finset.range 256).filter fun j => r.inuse j = true

/-- The address of pageref `j` on the page in frame `f`. -/
def refAddress (f j : ℕ) : ℕ := kvaddr f + 16 * j

/-- The roots, and the pagerefs that have been handed out and not been freed yet. -/
structure PagerefRun where
  kernel : Kernel
  handedOut : List ℕ

/-- Page functions that return `va`. -/
def pageSource (va : ℕ) : Allocator := ⟨fun _ => pure va, fun _ => pure ()⟩

namespace PagerefRun

def root (r : PagerefRun) (w : ℕ) : KheapRoot := r.kernel.kheaproots w

/-! ### Runs -/

/-- A call of `allocpageref` for which `alloc_kpages` would return `va`, or of `freepageref`. -/
inductive Op where
  | alloc (va : ℕ)
  | free (p : ℕ)

/-- A page that no root has. -/
def FreshPage (r : PagerefRun) (va : ℕ) : Prop := ∃ f < 2 ^ 17, va = kvaddr f ∧ ∀ w < 16, (r.root w).page ≠ some f

/-- `alloc_kpages` returns a fresh page or 0, and only what was handed out is freed. -/
def Enabled (r : PagerefRun) : Op → Prop
  | .alloc va => va = 0 ∨ r.FreshPage va
  | .free p => p ∈ r.handedOut

def Step (r : PagerefRun) (op : Op) (r' : PagerefRun) : Prop :=
  r.Enabled op ∧
    match op with
    | .alloc va => ∃ p t, allocpageref (pageSource va) r.kernel = .ok p t ∧ r' = ⟨t, p.toList ++ r.handedOut⟩
    | .free p => ∃ t, freepageref p r.kernel = .ok () t ∧ r' = ⟨t, r.handedOut.erase p⟩

/-- At boot the roots are zero. -/
def Booted (r : PagerefRun) : Prop :=
  (∀ w, (r.root w).page = none ∧ (r.root w).numinuse = 0 ∧ ∀ j, (r.root w).inuse j = false) ∧ r.handedOut = []

/-- **The roots account for what is handed out.** -/
structure Accounted (r : PagerefRun) : Prop where
  numinuse : ∀ w < 16, (r.root w).numinuse = (r.root w).used.card
  inuse : ∀ w < 16, ∀ j < 256, (r.root w).inuse j = true ↔
    ∃ f, (r.root w).page = some f ∧ refAddress f j ∈ r.handedOut
  handedOut : ∀ p ∈ r.handedOut, ∃ w < 16, ∃ f, (r.root w).page = some f ∧ ∃ j < 256, p = refAddress f j
  nodup : r.handedOut.Nodup
  empty : ∀ w < 16, (r.root w).page = none → (r.root w).numinuse = 0

/-- No root asks for its page in vain: `alloc_kpages` has one, or some page has a pageref left, or all roots have their
pages. -/
def Served (r : PagerefRun) : Op → Prop
  | .alloc va => va ≠ 0 ∨ (∃ w < 16, (r.root w).page ≠ none ∧ (r.root w).numinuse < 256) ∨
    ∀ w < 16, (r.root w).page ≠ none
  | .free _ => True

end PagerefRun

/-! ### Roots -/

section Roots

variable {r : KheapRoot} {f f' j j' p w k va : ℕ} {s : Kernel} {A : Allocator}

theorem refAddress_inj (hj : j < 256) (hj' : j' < 256) (h : refAddress f j = refAddress f' j') : f = f' ∧ j = j' := by
  have hoff : 16 * j < pageSize := by
    unfold pageSize
    omega
  have hoff' : 16 * j' < pageSize := by
    unfold pageSize
    omega
  obtain ⟨hf, hoffset⟩ := kvaddr_add_inj hoff hoff' h
  exact ⟨hf, by omega⟩

theorem mem_used_iff : j ∈ r.used ↔ j < 256 ∧ r.inuse j = true := by
  unfold KheapRoot.used
  rw [Finset.mem_filter, Finset.mem_range]

theorem card_used_le (r : KheapRoot) : r.used.card ≤ 256 := by
  have hle := Finset.card_filter_le (Finset.range 256) fun j => r.inuse j = true
  rwa [Finset.card_range] at hle

theorem exists_free_of_card_lt (h : r.used.card < 256) : ∃ j < 256, r.inuse j = false := by
  by_contra hnone
  have hall : r.used = Finset.range 256 := by
    refine Finset.filter_true_of_mem fun j hj => ?_
    by_contra hfree
    exact hnone ⟨j, Finset.mem_range.mp hj, Bool.eq_false_iff.mpr hfree⟩
  rw [hall, Finset.card_range] at h
  exact absurd h (Nat.lt_irrefl 256)

/-- The root that has marked pageref `j`. -/
def KheapRoot.marked (r : KheapRoot) (j : ℕ) : KheapRoot :=
  { r with inuse := update r.inuse j true, numinuse := r.numinuse + 1 }

/-- The root that has cleared pageref `j`. -/
def KheapRoot.cleared (r : KheapRoot) (j : ℕ) : KheapRoot :=
  { r with inuse := update r.inuse j false, numinuse := r.numinuse - 1 }

theorem used_marked (hj : j < 256) : (r.marked j).used = insert j r.used := by
  ext i
  rw [mem_used_iff, Finset.mem_insert, mem_used_iff]
  show i < 256 ∧ update r.inuse j true i = true ↔ _
  by_cases hij : i = j
  · rw [hij, update_self]
    exact ⟨fun _ => .inl rfl, fun _ => ⟨hj, rfl⟩⟩
  · rw [update_of_ne hij]
    exact ⟨.inr, fun h => h.resolve_left hij⟩

theorem used_cleared : (r.cleared j).used = r.used.erase j := by
  ext i
  rw [mem_used_iff, Finset.mem_erase, mem_used_iff]
  show i < 256 ∧ update r.inuse j false i = true ↔ _
  by_cases hij : i = j
  · rw [hij, update_self]
    exact ⟨fun h => (Bool.false_ne_true h.2).elim, fun h => (h.1 rfl).elim⟩
  · rw [update_of_ne hij]
    exact ⟨fun h => ⟨hij, h⟩, And.right⟩

theorem numinuse_marked (h : r.numinuse = r.used.card) (hj : j < 256) (hfree : r.inuse j = false) :
    (r.marked j).numinuse = (r.marked j).used.card := by
  have hnot : j ∉ r.used := by
    rw [mem_used_iff, hfree]
    exact fun hmem => nomatch hmem.2
  rw [used_marked hj, Finset.card_insert_of_notMem hnot, ← h]
  rfl

theorem numinuse_cleared (h : r.numinuse = r.used.card) (hj : j < 256) (hused : r.inuse j = true) :
    (r.cleared j).numinuse = (r.cleared j).used.card := by
  rw [used_cleared, Finset.card_erase_of_mem (mem_used_iff.mpr ⟨hj, hused⟩), ← h]
  rfl

/-! ### The calls -/

/-- The root with a page. -/
def Kernel.withPage (s : Kernel) (w f : ℕ) : Kernel := s.setRoot w { s.kheaproots w with page := some f }

theorem allocpageref_of_none (h : s.freePageref = none) : allocpageref A s = .ok none s := by
  unfold allocpageref
  rw [bind_of_ok (read_apply _ _), h]
  rfl

theorem takePageref_root (s : Kernel) (w j : ℕ) : (s.takePageref w j).kheaproots w = (s.kheaproots w).marked j :=
  update_self ..

theorem allocpageref_of_some {t : Kernel} (h : s.freePageref = some (w, j))
    (hthen : Prog.when (((s.kheaproots w).marked j).page = none) (allocpagerefpage A w) (s.takePageref w j) =
      .ok () t) :
    allocpageref A s = .ok ((t.kheaproots w).page.map fun f => refAddress f j) t := by
  unfold allocpageref
  rw [bind_of_ok (read_apply _ _), h]
  show (Prog.update (fun s => s.takePageref w j) >>= _) s = _
  rw [bind_of_ok (Prog.update_apply _ _), bind_of_ok (read_apply _ _), takePageref_root,
    bind_of_ok hthen]
  rfl

theorem allocpageref_of_page (h : s.freePageref = some (w, j)) (hpage : (s.kheaproots w).page = some f) :
    allocpageref A s = .ok (some (refAddress f j)) (s.takePageref w j) := by
  have hmarked : ((s.kheaproots w).marked j).page = some f := hpage
  have hthen : Prog.when (((s.kheaproots w).marked j).page = none) (allocpagerefpage A w) (s.takePageref w j) =
      .ok () (s.takePageref w j) := by
    rw [hmarked]
    rfl
  rw [allocpageref_of_some h hthen, takePageref_root, hmarked]
  rfl

theorem allocpagerefpage_eq (hpage : (s.kheaproots w).page = none) :
    allocpagerefpage (pageSource va) w s = (if va = 0 then pure () else do
      kassert (va % pageSize = 0) "va % PAGE_SIZE == 0"
      Prog.update fun s => s.withPage w (frameIndex va) : Kern Unit) s := by
  unfold allocpagerefpage
  rw [bind_of_ok (read_apply _ _), hpage]
  show (if va = 0 then _ else _ : Kern Unit) s = _
  by_cases hzero : va = 0
  · rw [if_pos hzero, if_pos hzero]
  · rw [if_neg hzero, if_neg hzero]
    by_cases halign : va % pageSize = 0
    · rw [kassert, require_of halign]
      show (if (s.kheaproots w).page = none then _ else _ : Kern Unit) s = _
      rw [if_pos hpage]
      rfl
    · rw [kassert, require_of_not halign]
      rfl

theorem allocpageref_of_starved (h : s.freePageref = some (w, j)) (hpage : (s.kheaproots w).page = none) :
    allocpageref (pageSource 0) s = .ok none (s.takePageref w j) := by
  have hmarked : ((s.takePageref w j).kheaproots w).page = none := by
    rw [takePageref_root]
    exact hpage
  have hthen : Prog.when (((s.kheaproots w).marked j).page = none) (allocpagerefpage (pageSource 0) w)
      (s.takePageref w j) = .ok () (s.takePageref w j) := by
    rw [Prog.when, if_pos (show ((s.kheaproots w).marked j).page = none from hpage), allocpagerefpage_eq hmarked,
      if_pos rfl]
    rfl
  rw [allocpageref_of_some h hthen, hmarked]
  rfl

theorem withPage_root (s : Kernel) (w f : ℕ) : (s.withPage w f).kheaproots w = { s.kheaproots w with page := some f } :=
  update_self ..

theorem withPage_takePageref (s : Kernel) (w f j : ℕ) :
    (s.takePageref w j).withPage w f = (s.withPage w f).takePageref w j := by
  unfold withPage takePageref setRoot
  simp only [update_self, update_idem]

theorem allocpageref_of_fresh (h : s.freePageref = some (w, j)) (hpage : (s.kheaproots w).page = none)
    (hf : f < 2 ^ 17) :
    allocpageref (pageSource (kvaddr f)) s = .ok (some (refAddress f j)) ((s.withPage w f).takePageref w j) := by
  have hmarked : ((s.takePageref w j).kheaproots w).page = none := by
    rw [takePageref_root]
    exact hpage
  have halign : kvaddr f % pageSize = 0 := by
    unfold kvaddr kseg0 pageSize
    omega
  have hthen : Prog.when (((s.kheaproots w).marked j).page = none) (allocpagerefpage (pageSource (kvaddr f)) w)
      (s.takePageref w j) = .ok () ((s.withPage w f).takePageref w j) := by
    rw [Prog.when, if_pos (show ((s.kheaproots w).marked j).page = none from hpage), allocpagerefpage_eq hmarked,
      if_neg (kvaddr_ne_zero f), kassert, require_of halign, frameIndex_kvaddr_self (Nat.le_of_lt hf),
      ← withPage_takePageref]
    rfl
  rw [allocpageref_of_some h hthen, takePageref_root, withPage_root]
  rfl

theorem freepageref_cases (hw : w < 16) (hf : (s.kheaproots w).page = some f) (hj : j < 256)
    (honly : ∀ v < 16, (s.kheaproots v).page = some f → v = w) (hused : (s.kheaproots w).inuse j = true)
    (hcount : (s.kheaproots w).numinuse = (s.kheaproots w).used.card) :
    freepageref (refAddress f j) s = .ok () (s.dropPageref w j) ∨
      (freepageref (refAddress f j) s = .stop (.kassert "root->numinuse == 0") ∧
        ∃ v < w, (s.kheaproots v).page = none ∧ (s.kheaproots v).numinuse ≠ 0) := by
  have hoffset : 16 * j < pageSize := by
    unfold pageSize
    omega
  have hpos : 0 < (s.kheaproots w).numinuse :=
    hcount.symm ▸ Finset.card_pos.mpr ⟨j, mem_used_iff.mpr ⟨hj, hused⟩⟩
  have hindex : (refAddress f j - kvaddr f) / 16 = j := by
    unfold refAddress
    omega
  -- by induction on the roots that are left, from a root at or before `w`
  have hloop : ∀ k v, v ≤ w → w < v + k →
      freepagerefFrom (refAddress f j) k v s = .ok () (s.dropPageref w j) ∨
        (freepagerefFrom (refAddress f j) k v s = .stop (.kassert "root->numinuse == 0") ∧
          ∃ v < w, (s.kheaproots v).page = none ∧ (s.kheaproots v).numinuse ≠ 0) := by
    intro k
    induction k with
    | zero =>
      intro v hle hlt
      omega
    | succ k ih =>
      intro v hle hlt
      unfold freepagerefFrom
      rw [bind_of_ok (read_apply _ _)]
      rcases Nat.lt_or_eq_of_le hle with hvw | rfl
      · have hnext := ih (v + 1) hvw (by omega)
        cases hpage : (s.kheaproots v).page with
        | none =>
          by_cases hzero : (s.kheaproots v).numinuse = 0
          · show (kassert _ _ >>= fun _ => freepagerefFrom _ k (v + 1) : Kern Unit) s = _ ∨ _
            rw [kassert, require_of hzero]
            exact hnext
          · refine .inr ⟨?_, v, hvw, hpage, hzero⟩
            show (kassert _ _ >>= fun _ => freepagerefFrom _ k (v + 1) : Kern Unit) s = _
            rw [kassert, require_of_not hzero]
            rfl
        | some g =>
          have hout : ¬ (kvaddr g ≤ refAddress f j ∧ refAddress f j < kvaddr g + pageSize) := by
            intro hin
            obtain rfl : g = f := kvaddr_range hin hoffset rfl
            exact Nat.ne_of_lt hvw (honly v (by omega) hpage)
          show (if _ then _ else _ : Kern Unit) s = _ ∨ (if _ then _ else _ : Kern Unit) s = _ ∧ _
          rw [if_neg hout]
          exact hnext
      · refine .inl ?_
        rw [hf]
        show (if _ then _ else _ : Kern Unit) s = _
        rw [if_pos ⟨Nat.le_add_right _ _, Nat.add_lt_add_left hoffset _⟩, hindex, kassert, require_of hused,
          kassert, require_of hpos]
        rfl
  exact hloop 16 0 (Nat.zero_le w) (by omega)

end Roots

namespace PagerefRun

variable {r r' : PagerefRun} {f j p w va : ℕ} {op : Op}

/-! ### The invariant -/

/-- The roots account for what is handed out, and their pages are distinct frames that they were given in order. -/
structure Inv (r : PagerefRun) : Prop extends Accounted r where
  frame_lt : ∀ w < 16, ∀ f, (r.root w).page = some f → f < 2 ^ 17
  page_inj : ∀ w < 16, ∀ w' < 16, ∀ f, (r.root w).page = some f → (r.root w').page = some f → w = w'
  ordered : ∀ w < 16, (r.root w).page ≠ none → ∀ w' < w, (r.root w').page ≠ none

theorem Inv.booted (h : Booted r) : Inv r := by
  have hpage : ∀ w f, (r.root w).page ≠ some f := fun w f hf => nomatch (h.1 w).1.symm.trans hf
  have hused : ∀ w, (r.root w).used = ∅ := by
    intro w
    refine Finset.filter_false_of_mem fun j _ => ?_
    rw [(h.1 w).2.2 j]
    exact Bool.false_ne_true
  refine ⟨⟨fun w _ => ?_, fun w _ j _ => ?_, ?_, ?_, fun w _ _ => (h.1 w).2.1⟩, fun w _ f hf => (hpage w f hf).elim,
    fun w _ _ _ f hf => (hpage w f hf).elim, fun w _ hw => (hw (h.1 w).1).elim⟩
  · rw [(h.1 w).2.1, hused w]
    rfl
  · rw [(h.1 w).2.2 j]
    exact ⟨fun hbit => (Bool.false_ne_true hbit).elim, fun ⟨f, hf, _⟩ => (hpage w f hf).elim⟩
  · rw [h.2]
    exact fun p hp => (List.not_mem_nil hp).elim
  · rw [h.2]
    exact List.nodup_nil

theorem Inv.replace (h : Inv r) (hf : (r.root w).page = some f) (hw : w < 16) {x : KheapRoot} {H : List ℕ}
    (hx : x.page = some f) (hcount : x.numinuse = x.used.card) (hnodup : H.Nodup)
    (hbits : ∀ i < 256, x.inuse i = true ↔ refAddress f i ∈ H)
    (hothers : ∀ p, (∀ i < 256, p ≠ refAddress f i) → (p ∈ H ↔ p ∈ r.handedOut)) :
    Inv ⟨r.kernel.setRoot w x, H⟩ := by
  have hroot : ∀ v, root ⟨r.kernel.setRoot w x, H⟩ v = update r.root w x v := fun _ => rfl
  have hself : root ⟨r.kernel.setRoot w x, H⟩ w = x := by rw [hroot, update_self]
  have hother : ∀ v, v ≠ w → root ⟨r.kernel.setRoot w x, H⟩ v = r.root v := by
    intro v hv
    rw [hroot, update_of_ne hv]
  have hpages : ∀ v, (root ⟨r.kernel.setRoot w x, H⟩ v).page = (r.root v).page := by
    intro v
    by_cases hv : v = w
    · rw [hv, hself, hx, hf]
    · rw [hother v hv]
  refine ⟨⟨?_, ?_, ?_, hnodup, ?_⟩, ?_, ?_, ?_⟩
  · intro v hv
    by_cases hvw : v = w
    · rw [hvw, hself]
      exact hcount
    · rw [hother v hvw]
      exact h.numinuse v hv
  · intro v hv i hi
    rw [hpages]
    by_cases hvw : v = w
    · rw [hvw, hself, hf, hbits i hi]
      exact ⟨fun hmem => ⟨f, rfl, hmem⟩, fun ⟨f', hf', hmem⟩ => Option.some.inj hf' ▸ hmem⟩
    · rw [hother v hvw, h.inuse v hv i hi]
      -- another root's page is another frame
      refine exists_congr fun f' => and_congr_right fun hf' => (hothers _ fun i' hi' heq => ?_).symm
      obtain ⟨rfl, -⟩ := refAddress_inj hi hi' heq
      exact hvw (h.page_inj v hv w hw f' hf' hf)
  · intro p hp
    by_cases hmine : ∃ i < 256, p = refAddress f i
    · exact ⟨w, hw, f, by rw [hpages, hf], hmine⟩
    · have hold : p ∈ r.handedOut := (hothers p fun i hi heq => hmine ⟨i, hi, heq⟩).mp hp
      obtain ⟨v, hv, f', hf', hrest⟩ := h.handedOut p hold
      exact ⟨v, hv, f', by rw [hpages, hf'], hrest⟩
  · intro v hv hnone
    rw [hpages] at hnone
    have hvw : v ≠ w := by
      intro heq
      rw [heq, hf] at hnone
      exact nomatch hnone
    rw [hother v hvw]
    exact h.empty v hv hnone
  · intro v hv f'
    rw [hpages]
    exact h.frame_lt v hv f'
  · intro v hv v' hv' f'
    rw [hpages, hpages]
    exact h.page_inj v hv v' hv' f'
  · intro v hv hsome v' hv'
    rw [hpages] at hsome ⊢
    exact h.ordered v hv hsome v' hv'

theorem Inv.take (h : Inv r) (hw : w < 16) (hf : (r.root w).page = some f) (hj : j < 256)
    (hfree : (r.root w).inuse j = false) : Inv ⟨r.kernel.takePageref w j, refAddress f j :: r.handedOut⟩ := by
  have hnew : refAddress f j ∉ r.handedOut := by
    intro hmem
    have hbit := (h.inuse w hw j hj).mpr ⟨f, hf, hmem⟩
    exact Bool.false_ne_true (hfree.symm.trans hbit)
  refine h.replace (x := (r.root w).marked j) hf hw hf (numinuse_marked (h.numinuse w hw) hj hfree)
    (List.nodup_cons.mpr ⟨hnew, h.nodup⟩) (fun i hi => ?_) fun p hp => ?_
  · rw [List.mem_cons]
    show update (r.root w).inuse j true i = true ↔ _
    by_cases hij : i = j
    · rw [hij, update_self]
      exact ⟨fun _ => .inl rfl, fun _ => rfl⟩
    · rw [update_of_ne hij, h.inuse w hw i hi]
      constructor
      · rintro ⟨f', hf', hmem⟩
        obtain rfl : f = f' := Option.some.inj (hf.symm.trans hf')
        exact .inr hmem
      · rintro (heq | hmem)
        · exact (hij (refAddress_inj hi hj heq).2).elim
        · exact ⟨f, hf, hmem⟩
  · rw [List.mem_cons]
    exact ⟨fun hmem => hmem.resolve_left (hp j hj), .inr⟩

theorem Inv.drop (h : Inv r) (hw : w < 16) (hf : (r.root w).page = some f) (hj : j < 256)
    (hmem : refAddress f j ∈ r.handedOut) :
    Inv ⟨r.kernel.dropPageref w j, r.handedOut.erase (refAddress f j)⟩ := by
  have hused : (r.root w).inuse j = true := (h.inuse w hw j hj).mpr ⟨f, hf, hmem⟩
  refine h.replace (x := (r.root w).cleared j) hf hw hf (numinuse_cleared (h.numinuse w hw) hj hused)
    (h.nodup.erase _) (fun i hi => ?_) fun p hp => ?_
  · rw [h.nodup.mem_erase_iff]
    show update (r.root w).inuse j false i = true ↔ _
    by_cases hij : i = j
    · rw [hij, update_self]
      exact ⟨fun hbit => (Bool.false_ne_true hbit).elim, fun hne => (hne.1 rfl).elim⟩
    · rw [update_of_ne hij, h.inuse w hw i hi]
      constructor
      · rintro ⟨f', hf', hmem'⟩
        obtain rfl : f = f' := Option.some.inj (hf.symm.trans hf')
        exact ⟨fun heq => hij (refAddress_inj hi hj heq).2, hmem'⟩
      · rintro ⟨-, hmem'⟩
        exact ⟨f, hf, hmem'⟩
  · rw [h.nodup.mem_erase_iff]
    exact ⟨And.right, fun hold => ⟨hp j hj, hold⟩⟩

theorem Inv.givePage (h : Inv r) (hw : w < 16) (hnone : (r.root w).page = none) (hlt : f < 2 ^ 17)
    (hfresh : ∀ v < 16, (r.root v).page ≠ some f) (hbefore : ∀ v < w, (r.root v).page ≠ none) :
    Inv ⟨r.kernel.withPage w f, r.handedOut⟩ := by
  have hroot : ∀ v, root ⟨r.kernel.withPage w f, r.handedOut⟩ v =
      update r.root w { r.root w with page := some f } v := fun _ => rfl
  have hself : root ⟨r.kernel.withPage w f, r.handedOut⟩ w = { r.root w with page := some f } := by
    rw [hroot, update_self]
  have hother : ∀ v, v ≠ w → root ⟨r.kernel.withPage w f, r.handedOut⟩ v = r.root v := by
    intro v hv
    rw [hroot, update_of_ne hv]
  -- nothing of the new page is handed out yet
  have hnothing : ∀ i < 256, refAddress f i ∉ r.handedOut := by
    intro i hi hmem
    obtain ⟨v, hv, f', hf', i', hi', heq⟩ := h.handedOut _ hmem
    obtain ⟨rfl, -⟩ := refAddress_inj hi hi' heq
    exact hfresh v hv hf'
  refine ⟨⟨?_, ?_, ?_, h.nodup, ?_⟩, ?_, ?_, ?_⟩
  · intro v hv
    by_cases hvw : v = w
    · rw [hvw, hself]
      exact h.numinuse w hw
    · rw [hother v hvw]
      exact h.numinuse v hv
  · intro v hv i hi
    by_cases hvw : v = w
    · rw [hvw, hself]
      constructor
      · intro hbit
        obtain ⟨f', hf', -⟩ := (h.inuse w hw i hi).mp hbit
        exact nomatch hnone.symm.trans hf'
      · rintro ⟨f', hf', hmem⟩
        obtain rfl : f = f' := Option.some.inj hf'
        exact (hnothing i hi hmem).elim
    · rw [hother v hvw]
      exact h.inuse v hv i hi
  · intro p hp
    obtain ⟨v, hv, f', hf', hrest⟩ := h.handedOut p hp
    have hvw : v ≠ w := by
      intro heq
      rw [heq, hnone] at hf'
      exact nomatch hf'
    exact ⟨v, hv, f', by rw [hother v hvw, hf'], hrest⟩
  · intro v hv hv'
    by_cases hvw : v = w
    · rw [hvw, hself] at hv'
      exact nomatch hv'
    · rw [hother v hvw] at hv' ⊢
      exact h.empty v hv hv'
  · intro v hv f' hf'
    by_cases hvw : v = w
    · rw [hvw, hself] at hf'
      exact Option.some.inj hf' ▸ hlt
    · rw [hother v hvw] at hf'
      exact h.frame_lt v hv f' hf'
  · intro v hv v' hv' f' hf hf'
    by_cases hvw : v = w
    · by_cases hvw' : v' = w
      · rw [hvw, hvw']
      · rw [hvw, hself] at hf
        rw [hother v' hvw'] at hf'
        exact (hfresh v' hv' (Option.some.inj hf ▸ hf')).elim
    · rw [hother v hvw] at hf
      by_cases hvw' : v' = w
      · rw [hvw', hself] at hf'
        exact (hfresh v hv (Option.some.inj hf' ▸ hf)).elim
      · rw [hother v' hvw'] at hf'
        exact h.page_inj v hv v' hv' f' hf hf'
  · intro v hv hsome v' hv'
    by_cases hvw' : v' = w
    · rw [hvw', hself]
      exact nofun
    · rw [hother v' hvw']
      by_cases hvw : v = w
      · exact hbefore v' (hvw ▸ hv')
      · rw [hother v hvw] at hsome
        exact h.ordered v hv hsome v' hv'

/-! ### Steps -/

theorem Inv.numinuse_eq (h : Inv r) (hw : w < 16)
    (hskip : ¬ ((r.root w).numinuse < 256 ∧ (firstBelow (fun j => (r.root w).inuse j = false) 256).isSome = true)) :
    (r.root w).numinuse = 256 := by
  have hcount := h.numinuse w hw
  have hle := card_used_le (r.root w)
  by_contra hne
  have hlt : (r.root w).numinuse < 256 := by omega
  exact hskip ⟨hlt, firstBelow_isSome.mpr (exists_free_of_card_lt (by omega))⟩

theorem Inv.page_ne_none (h : Inv r) (hw : w < 16) (hfull : (r.root w).numinuse = 256) : (r.root w).page ≠ none := by
  intro hnone
  exact absurd ((h.empty w hw hnone).symm.trans hfull) (by decide)

theorem Inv.freePageref_cases (h : Inv r) :
    (r.kernel.freePageref = none ∧ ∀ w < 16, (r.root w).numinuse = 256) ∨
    ∃ w < 16, ∃ j < 256, r.kernel.freePageref = some (w, j) ∧ (r.root w).inuse j = false ∧
      ∀ v < w, (r.root v).numinuse = 256 := by
  cases hfirst : firstBelow (fun w => (r.root w).numinuse < 256 ∧
      (firstBelow (fun j => (r.root w).inuse j = false) 256).isSome = true) 16 with
  | none =>
    refine .inl ⟨?_, fun w hw => h.numinuse_eq hw (firstBelow_eq_none.mp hfirst w hw)⟩
    unfold freePageref
    exact congrArg (Option.bind · _) hfirst
  | some w =>
    obtain ⟨hw, ⟨-, hsome⟩, hskip⟩ := firstBelow_eq_some.mp hfirst
    obtain ⟨j, hj⟩ := Option.isSome_iff_exists.mp hsome
    refine .inr ⟨w, hw, j, lt_of_firstBelow hj, ?_, prop_of_firstBelow hj, fun v hv =>
      h.numinuse_eq (by omega) (hskip v hv)⟩
    unfold freePageref
    exact (congrArg (Option.bind · _) hfirst).trans (congrArg (Option.bind · _) hj)

/-- **What `allocpageref` does.**  It is in vain for all roots or, when the root with the first free pageref has no page
and gets none, only for that root; in that case the accounts are wrong afterwards. -/
theorem Inv.alloc (h : Inv r) (hen : r.Enabled (.alloc va)) :
    ∃ q t, allocpageref (pageSource va) r.kernel = .ok q t ∧
      ((r.Served (.alloc va) ∧ Inv ⟨t, q.toList ++ r.handedOut⟩ ∧ (q = none → t = r.kernel)) ∨
        (¬ r.Served (.alloc va) ∧ ¬ Accounted ⟨t, q.toList ++ r.handedOut⟩ ∧ t.kheaproots ≠ r.kernel.kheaproots)) := by
  rcases h.freePageref_cases with ⟨hnone, hfull⟩ | ⟨w, hw, j, hj, hfound, hfree, hbefore⟩
  · exact ⟨none, r.kernel, allocpageref_of_none hnone,
      .inl ⟨.inr (.inr fun w hw => h.page_ne_none hw (hfull w hw)), h, fun _ => rfl⟩⟩
  have hhad : ∀ v < w, (r.root v).page ≠ none := fun v hv => h.page_ne_none (by omega) (hbefore v hv)
  cases hpage : (r.root w).page with
  | some f =>
    have hlt : (r.root w).numinuse < 256 := by
      rw [h.numinuse w hw]
      refine Nat.lt_of_le_of_ne (card_used_le _) fun hfull => ?_
      have hall : (r.root w).used = Finset.range 256 :=
        Finset.eq_of_subset_of_card_le (Finset.filter_subset _ _) (by rw [hfull, Finset.card_range])
      have hbit := (mem_used_iff.mp (hall ▸ Finset.mem_range.mpr hj : j ∈ (r.root w).used)).2
      exact Bool.false_ne_true (hfree.symm.trans hbit)
    have hsome : (r.root w).page ≠ none := by
      rw [hpage]
      exact nofun
    exact ⟨_, _, allocpageref_of_page hfound hpage,
      .inl ⟨.inr (.inl ⟨w, hw, hsome, hlt⟩), h.take hw hpage hj hfree, nofun⟩⟩
  | none =>
    rcases hen with rfl | ⟨f, hf, rfl, hfresh⟩
    · refine ⟨_, _, allocpageref_of_starved hfound hpage, .inr ⟨?_, fun hacc => ?_, fun heq => ?_⟩⟩
      · -- the roots from `w` on have no page, and those before it are full
        rintro (hva | ⟨v, hv, hv', hlt⟩ | hall)
        · exact hva rfl
        · rcases Nat.lt_trichotomy v w with hvw | rfl | hvw
          · rw [hbefore v hvw] at hlt
            exact absurd hlt (Nat.lt_irrefl 256)
          · exact hv' hpage
          · exact h.ordered v hv hv' w hvw hpage
        · exact hall w hw hpage
      · have hzero := hacc.empty w hw ((congrArg KheapRoot.page (takePageref_root _ w j)).trans hpage)
        exact absurd ((congrArg KheapRoot.numinuse (takePageref_root _ w j)).symm.trans hzero) (Nat.succ_ne_zero _)
      · have hcount := congrArg KheapRoot.numinuse ((takePageref_root r.kernel w j).symm.trans (congrFun heq w))
        exact absurd hcount (Nat.succ_ne_self _)
    · have hgiven := h.givePage hw hpage hf hfresh hhad
      refine ⟨_, _, allocpageref_of_fresh hfound hpage hf, .inl ⟨.inl (kvaddr_ne_zero f), ?_, nofun⟩⟩
      exact hgiven.take (f := f) hw (congrArg KheapRoot.page (withPage_root _ w f)) hj
        ((congrArg (KheapRoot.inuse · j) (withPage_root _ w f)).trans hfree)

theorem Inv.free (h : Inv r) (hen : r.Enabled (.free p)) :
    ∃ t, freepageref p r.kernel = .ok () t ∧ Inv ⟨t, r.handedOut.erase p⟩ := by
  obtain ⟨w, hw, f, hf, j, hj, rfl⟩ := h.handedOut p hen
  have hused : (r.root w).inuse j = true := (h.inuse w hw j hj).mpr ⟨f, hf, hen⟩
  have honly : ∀ v < 16, (r.root v).page = some f → v = w := fun v hv hvf => h.page_inj v hv w hw f hvf hf
  rcases freepageref_cases hw hf hj honly hused (h.numinuse w hw) with hok | ⟨-, v, hv, hnone, hcount⟩
  · exact ⟨_, hok, h.drop hw hf hj hen⟩
  · exact (hcount (h.empty v (by omega) hnone)).elim

theorem Inv.step_iff (h : Inv r) (hstep : Step r op r') : (r.Served op → Inv r') ∧ (r'.Accounted → r.Served op) := by
  obtain ⟨hen, hrun⟩ := hstep
  cases op with
  | alloc va =>
    obtain ⟨q, t, hq, rfl⟩ := hrun
    obtain ⟨q', t', hq', hcases⟩ := h.alloc hen
    obtain ⟨rfl, rfl⟩ := Outcome.ok.inj (hq.symm.trans hq')
    rcases hcases with ⟨hserved, hinv, -⟩ | ⟨hstarved, hnot, -⟩
    · exact ⟨fun _ => hinv, fun _ => hserved⟩
    · exact ⟨fun hserved => (hstarved hserved).elim, fun hacc => (hnot hacc).elim⟩
  | free p =>
    obtain ⟨t, ht, rfl⟩ := hrun
    obtain ⟨t', ht', hinv⟩ := h.free hen
    obtain ⟨-, rfl⟩ := Outcome.ok.inj (ht.symm.trans ht')
    exact ⟨fun _ => hinv, fun _ => trivial⟩

theorem Inv.exists_step (h : Inv r) (hen : r.Enabled op) : ∃ r', Step r op r' := by
  cases op with
  | alloc va =>
    obtain ⟨q, t, hq, -⟩ := h.alloc hen
    exact ⟨_, hen, q, t, hq, rfl⟩
  | free p =>
    obtain ⟨t, ht, -⟩ := h.free hen
    exact ⟨_, hen, t, ht, rfl⟩

theorem Inv.of_reaches (hr : Reaches (Guarded Step Served) Booted r) : Inv r :=
  Reaches.invariant (P := Inv) (fun _ => Inv.booted) (fun _ _ _ h hstep => (h.step_iff hstep.2).1 hstep.1) hr

/-- **When pagerefs are accounted for.**  In a run in which no root asks for its page in vain the roots account for what
is handed out and every call returns.  A call of `allocpageref` that fails then leaves the roots as they are, and a call
keeps the accounts, exactly if it is not the first such request in vain. -/
theorem pagerefs_accounted_iff (hr : Reaches (Guarded Step Served) Booted r) :
    r.Accounted ∧ (∀ op, r.Enabled op → ∃ r', Step r op r') ∧
      (∀ va t, r.Enabled (.alloc va) → allocpageref (pageSource va) r.kernel = .ok none t →
        (t.kheaproots = r.kernel.kheaproots ↔ r.Served (.alloc va))) ∧
      ∀ op r', Step r op r' → (r'.Accounted ↔ r.Served op) := by
  have h := Inv.of_reaches hr
  refine ⟨h.toAccounted, fun op => h.exists_step, fun va t hen hnone => ?_, fun op r' hstep => ?_⟩
  · obtain ⟨q, t', hq, hcases⟩ := h.alloc hen
    obtain ⟨rfl, rfl⟩ := Outcome.ok.inj (hnone.symm.trans hq)
    rcases hcases with ⟨hserved, -, hsame⟩ | ⟨hstarved, -, hne⟩
    · exact ⟨fun _ => hserved, fun _ => congrArg kheaproots (hsame rfl)⟩
    · exact ⟨fun heq => (hne heq).elim, fun hserved => (hstarved hserved).elim⟩
  · exact ⟨(h.step_iff hstep).2, fun hserved => ((h.step_iff hstep).1 hserved).toAccounted⟩

/-- The roots at boot. -/
def boot : PagerefRun := ⟨blank 0 0 noRam_le, []⟩

theorem boot_booted : Booted boot := ⟨fun _ => ⟨rfl, rfl, fun _ => rfl⟩, rfl⟩

/-- The first pageref comes from a page in frame 5. -/
theorem pagerefs_accounted_first :
    ∃ r, Reaches (Guarded Step Served) Booted r ∧ r.handedOut = [refAddress 5 0] ∧ r.Accounted := by
  have hen : boot.Enabled (.alloc (kvaddr 5)) := .inr ⟨5, by decide, rfl, fun _ _ h => nomatch h⟩
  have hfound : boot.kernel.freePageref = some (0, 0) := rfl
  have hstep : Step boot (.alloc (kvaddr 5)) _ := ⟨hen, _, _, allocpageref_of_fresh hfound rfl (by decide), rfl⟩
  have hserved : boot.Served (.alloc (kvaddr 5)) := .inl (kvaddr_ne_zero 5)
  have hboot : Reaches (Guarded Step Served) Booted boot := .start boot_booted
  have hreach := hboot.next ⟨hserved, hstep⟩
  exact ⟨_, hreach, rfl, (pagerefs_accounted_iff hreach).1⟩

/-- **A pageref that nobody has.**  The first call of `allocpageref` finds no memory and returns `NULL`.  Root 0 counts
one pageref in use, and it has no page. -/
theorem failed_pageref_stays_counted :
    ∃ r, Reaches Step Booted r ∧ r.handedOut = [] ∧ (r.root 0).page = none ∧ (r.root 0).numinuse = 1 ∧
      (r.root 0).inuse 0 = true := by
  have hstep : Step boot (.alloc 0) _ := ⟨.inl rfl, none, _, rfl, rfl⟩
  exact ⟨_, (Reaches.start boot_booted).next hstep, rfl, rfl, rfl, rfl⟩

end PagerefRun

end Os161Kernel
