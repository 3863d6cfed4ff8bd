import Os161Kernel.Kmalloc

/-!
# A walk through the allocator

The bodies of `kmalloc.c` and `list.c` are followed once, for any relation between programs that their text respects
(`Congruence`).  A relation is put in for the page functions at the bottom and comes out for the functions that call
them: invariants, what a call may touch, why it stops, and how a deeper circle relates to a flatter one are all proved
along this walk.
-/

namespace Os161Kernel

open StateProg Search Memory

/-! ### Edits that move no frame -/

/-- The two states differ in memory contents and the heap's own lists only. -/
def SameFrames (s s' : Kernel) : Prop :=
  s' = { s with
    ram := s'.ram
    firstpaddr := s'.firstpaddr
    kheaproots := s'.kheaproots
    pagerefs := s'.pagerefs
    sizebases := s'.sizebases
    allbase := s'.allbase }

instance : Std.Refl SameFrames := ⟨fun _ => rfl⟩

instance : IsTrans Kernel SameFrames where
  trans s t u hst htu := by
    unfold SameFrames at *
    rw [htu, hst]

/-- The edit moves no frame, from any state. -/
def FrameEdit (f : Kernel → Kernel) : Prop := ∀ s, SameFrames s (f s)

namespace Kernel

theorem write_sameFrames (s : Kernel) (a n : ℕ) (src : ℕ → UInt8) : SameFrames s (s.write a n src) := rfl

theorem setPageref_sameFrames (s : Kernel) (p : ℕ) (pr : Pageref) : SameFrames s (s.setPageref p pr) := rfl

theorem setRoot_sameFrames (s : Kernel) (w : ℕ) (r : KheapRoot) : SameFrames s (s.setRoot w r) := rfl

theorem newHeapPage_sameFrames (s : Kernel) (p prpage t : ℕ) :
    SameFrames s (s.newHeapPage p prpage t) := by
  simp only [SameFrames, newHeapPage]

theorem freeBlock_sameFrames (s : Kernel) (p offset : ℕ) : SameFrames s (s.freeBlock p offset) := by
  simp only [SameFrames, freeBlock]

theorem removeLists_sameFrames (s : Kernel) (p : ℕ) : SameFrames s (s.removeLists p) := rfl

end Kernel

/-! ### The reasons -/

def allocatorPanics : List String :=
  ["This should not happen", "You're trying to write over the PG", "Error in alloc_kpages",
    "Error in alloc_kpages: Not enough RAM", "Error kmalloc in addToList()\n", "1",
    "You're trying to free an already empty memory region",
    "Subpage allocator cannot handle allocation of size %zu\n", "kfree: subpage free of invalid addr %p\n"]

def allocatorAsserts : List String :=
  ["index < PAGETABLE_ENTRY", "npages < MAX_PAGES_ALLOC", "value <= PAGETABLE_ENTRY", "frame_index < PAGETABLE_ENTRY",
    "root->page == NULL", "va % PAGE_SIZE == 0", "0", "root->numinuse == 0", "(root->pagerefs_inuse[i] & k) != 0",
    "root->numinuse > 0", "PR_BLOCKTYPE(pr) == blktype", "pr->freelist_offset < PAGE_SIZE", "pr->nfree > 0",
    "fla - prpage < PAGE_SIZE", "pr->nfree == 0", "prpage % PAGE_SIZE == 0", "address % PAGE_SIZE == 0",
    "blktype >= 0 && blktype < NSIZES", "fl != fl->next", "pr->nfree <= PAGE_SIZE / sizes[blktype]",
    "(vaddr_t)ptr%PAGE_SIZE==0"]

/-- A reason of the allocator: one of its checks, the dereference of a bad list node, or a circle that is too short. -/
def Stop.OfAllocator : Stop → Prop
  | .panic message => message ∈ allocatorPanics
  | .kassert condition => condition ∈ allocatorAsserts
  | .nullDeref | .wildDeref | .depth => True
  | .exited _ => False

instance : DecidablePred Stop.OfAllocator
  | .panic message => inferInstanceAs (Decidable (message ∈ allocatorPanics))
  | .kassert condition => inferInstanceAs (Decidable (condition ∈ allocatorAsserts))
  | .nullDeref | .wildDeref | .depth => .isTrue trivial
  | .exited _ => .isFalse id

/-- A reason that one of the bodies gives itself: any of these but the last. -/
def Stop.OfBody : Stop → Prop
  | .depth => False
  | e => e.OfAllocator

instance : DecidablePred Stop.OfBody
  | .panic message => inferInstanceAs (Decidable (message ∈ allocatorPanics))
  | .kassert condition => inferInstanceAs (Decidable (condition ∈ allocatorAsserts))
  | .nullDeref | .wildDeref => .isTrue trivial
  | .exited _ | .depth => .isFalse id

theorem Stop.OfBody.ofAllocator {e : Stop} (h : e.OfBody) : e.OfAllocator := by
  cases e with
  | depth => exact h.elim
  | _ => exact h

theorem Stop.OfBody.ne_depth {e : Stop} (h : e.OfBody) : e ≠ .depth := by
  intro he
  rw [he] at h
  exact h

/-! ### The subpage allocator -/

section Heap

variable {P : ∀ {α : Type}, Kern α → Kern α → Prop} (hP : Congruence FrameEdit Stop.OfBody P)

include hP

theorem freepagerefFrom_walk (p : ℕ) : ∀ k w, P (freepagerefFrom p k w) (freepagerefFrom p k w) := by
  intro k
  induction k with
  | zero =>
    intro w
    show P (kassert False "0") (kassert False "0")
    exact hP.require (by decide)
  | succ k ih =>
    intro w
    refine hP.bind (hP.read _) fun root => ?_
    cases root.page with
    | none => exact hP.bind (hP.require (by decide)) fun _ => ih (w + 1)
    | some f =>
      refine Congruence.ite (fun _ => ?_) fun _ => ih (w + 1)
      refine hP.bind (hP.require (by decide)) fun _ => hP.bind (hP.require (by decide)) fun _ => ?_
      exact hP.update fun s => s.setRoot_sameFrames _ _

theorem findFreePage_walk (t : ℕ) : ∀ ps, P (findFreePage t ps) (findFreePage t ps) := by
  intro ps
  induction ps with
  | nil => exact hP.pure none
  | cons p ps ih =>
    refine hP.bind (hP.read _) fun pr => hP.bind (hP.require (by decide)) fun _ => ?_
    exact Congruence.ite (fun _ => hP.pure _) fun _ => ih

theorem findPage_walk (ptr : ℕ) : ∀ ps, P (findPage ptr ps) (findPage ptr ps) := by
  intro ps
  induction ps with
  | nil => exact hP.pure none
  | cons p ps ih =>
    refine hP.bind (hP.read _) fun pr => hP.bind (hP.require (by decide)) fun _ => ?_
    exact Congruence.ite (fun _ => hP.pure _) fun _ => ih

theorem doalloc_walk (p : ℕ) : P (doalloc p) (doalloc p) := by
  refine hP.bind (hP.read _) fun pr => ?_
  cases pr.freelist with
  | nil => exact hP.stop (by decide)
  | cons offset rest =>
    refine hP.bind (hP.require (by decide)) fun _ => hP.bind (hP.require (by decide)) fun _ => ?_
    refine hP.bind (hP.require (by decide)) fun _ => hP.bind (hP.require (by decide)) fun _ => ?_
    exact hP.bind (hP.update fun s => s.setPageref_sameFrames _ _) fun _ => hP.pure _

section Alloc

variable {A B : Allocator} (halloc : ∀ n, P (A.alloc n) (B.alloc n)) (hfree : ∀ a, P (A.free a) (B.free a))

include halloc hfree

theorem allocpagerefpage_walk (w : ℕ) : P (allocpagerefpage A w) (allocpagerefpage B w) := by
  refine hP.bind (hP.read _) fun page => hP.bind (hP.require (by decide)) fun _ => ?_
  refine hP.bind (halloc 1) fun va => Congruence.ite (fun _ => hP.pure ()) fun _ => ?_
  refine hP.bind (hP.require (by decide)) fun _ => hP.bind (hP.read _) fun page => ?_
  exact Congruence.ite (fun _ => hP.update fun s => s.setRoot_sameFrames _ _) fun _ => hfree va

theorem allocpageref_walk : P (allocpageref A) (allocpageref B) := by
  refine hP.bind (hP.read _) fun found => ?_
  cases found with
  | none => exact hP.pure none
  | some wj =>
    refine hP.bind (hP.update fun s => s.setRoot_sameFrames _ _) fun _ => hP.bind (hP.read _) fun page => ?_
    refine hP.bind (hP.when fun _ => allocpagerefpage_walk hP halloc hfree _) fun _ => ?_
    exact hP.bind (hP.read _) fun _ => hP.pure _

theorem subpageKmalloc_walk (t : ℕ) : P (subpageKmalloc A t) (subpageKmalloc B t) := by
  refine hP.bind (hP.read _) fun base => hP.bind (findFreePage_walk hP t base) fun found => ?_
  cases found with
  | some p => exact doalloc_walk hP p
  | none =>
    refine hP.bind (halloc 1) fun prpage => Congruence.ite (fun _ => hP.pure 0) fun _ => ?_
    refine hP.bind (hP.require (by decide)) fun _ => hP.bind (allocpageref_walk hP halloc hfree) fun ref => ?_
    cases ref with
    | none => exact hP.bind (hfree prpage) fun _ => hP.pure 0
    | some p =>
      exact hP.bind (hP.update fun s => s.newHeapPage_sameFrames _ _ _) fun _ => doalloc_walk hP p

theorem kmallocBody_walk (sz : ℕ) : P (kmallocBody A sz) (kmallocBody B sz) := by
  refine Congruence.ite (fun _ => ?_) fun _ => ?_
  · exact hP.bind (halloc _) fun a => hP.bind (hP.require (by decide)) fun _ => hP.pure a
  · cases firstBelow (fun t => sz ≤ sizes t) 8 with
    | none => exact hP.stop (by decide)
    | some t => exact subpageKmalloc_walk hP halloc hfree t

end Alloc

section Free

variable {f g : ℕ → Kern Unit} (hfree : ∀ a, P (f a) (g a))

include hfree

theorem subpageKfree_walk (ptr : ℕ) : P (subpageKfree f ptr) (subpageKfree g ptr) := by
  refine hP.bind (hP.read _) fun base => hP.bind (findPage_walk hP ptr base) fun found => ?_
  cases found with
  | none => exact hP.pure false
  | some p =>
    refine hP.bind (hP.read _) fun pr => hP.bind (hP.require (by decide)) fun _ => ?_
    refine hP.bind (hP.require (by decide)) fun _ => hP.bind (hP.update fun s => s.freeBlock_sameFrames _ _) fun _ => ?_
    refine hP.bind (hP.require (by decide)) fun _ => hP.bind (hP.when fun _ => ?_) fun _ => hP.pure true
    refine hP.bind (hP.update fun s => s.removeLists_sameFrames _) fun _ => ?_
    exact hP.bind (freepagerefFrom_walk hP p 16 0) fun _ => hfree _

theorem kfreeBody_walk (ptr : ℕ) : P (kfreeBody f ptr) (kfreeBody g ptr) := by
  refine Congruence.ite (fun _ => hP.pure ()) fun _ => hP.bind (subpageKfree_walk hP hfree ptr) fun done => ?_
  refine Congruence.ite (fun _ => hP.pure ()) fun _ => ?_
  exact hP.bind (hP.require (by decide)) fun _ => hfree ptr

end Free

theorem ramStealmem_walk (n : ℕ) : P (ramStealmem n) (ramStealmem n) := by
  refine hP.bind (hP.read _) fun paddr => hP.bind (hP.read _) fun last => ?_
  refine Congruence.ite (fun _ => hP.pure 0) fun _ => ?_
  exact hP.bind (hP.update fun _ => rfl) fun _ => hP.pure paddr

theorem checkFreeFrame_walk (n : ℕ) : P (checkFreeFrame n) (checkFreeFrame n) := by
  have hlast : P headIsLast headIsLast := by
    refine hP.bind (hP.read _) fun list => hP.bind (hP.read _) fun last => ?_
    match list with
    | [] => exact hP.stop trivial
    | [_] => exact hP.pure _
    | _ :: _ :: _ => exact hP.pure _
  have hcount : ∀ k fifoSize, P (countFrames k fifoSize) (countFrames k fifoSize) := by
    intro k
    induction k with
    | zero => exact fun _ => hP.pure _
    | succ k ih => exact fun _ => hP.bind hlast fun _ => Congruence.ite (fun _ => hP.pure _) fun _ => ih _
  exact hP.bind (hP.read _) fun null => Congruence.ite (fun _ => hP.pure 0) fun _ => hcount _ _

theorem headFrame_walk : P headFrame headFrame := by
  refine hP.bind (hP.read _) fun list => hP.bind (hP.read _) fun last => ?_
  cases list with
  | nil =>
    refine hP.stop ?_
    split
    · exact trivial
    · exact trivial
  | cons node rest => exact hP.pure node

section Node

variable {f g : ℕ → Kern ℕ}

theorem newNode_walk (hmalloc : ∀ n, P (f n) (g n)) (value : ℕ) :
    P (newNode f value) (newNode g value) := by
  refine hP.bind (hmalloc 8) fun ptr => ?_
  refine hP.bind (hP.require (by decide)) fun _ => hP.bind (hP.require (by decide)) fun _ => ?_
  refine hP.bind (hP.update fun s => s.write_sameFrames _ _ _) fun _ => hP.bind (hP.read _) fun entries => ?_
  exact hP.bind (hP.require (by decide)) fun _ => hP.pure ptr

end Node

end Heap

/-! ### The page functions -/

section Pages

variable {P : ∀ {α : Type}, Kern α → Kern α → Prop} (hP : Congruence (fun _ => True) Stop.OfBody P)
  {kfree kfree' : ℕ → Kern Unit} {kmalloc kmalloc' : ℕ → Kern ℕ}

include hP

theorem heap_congruence : Congruence FrameEdit Stop.OfBody P :=
  hP.weaken (fun _ _ => trivial) fun _ he => he

theorem takeFrames_walk (hfree : ∀ p, P (kfree p) (kfree' p)) :
    ∀ n addr, P (takeFrames kfree n addr) (takeFrames kfree' n addr) := by
  have htake : ∀ addr, P (takeFrame kfree addr) (takeFrame kfree' addr) := by
    intro addr
    refine hP.bind (headFrame_walk (heap_congruence hP)) fun node => hP.bind (hP.read _) fun entries => ?_
    refine hP.bind (hP.require (by decide)) fun _ => hP.bind (hP.read _) fun valid => ?_
    refine hP.bind (hP.require (by decide)) fun _ => hP.bind (hP.read _) fun location => ?_
    refine hP.bind (hP.require (by decide)) fun _ => hP.bind (hP.require (by decide)) fun _ => ?_
    exact hP.bind (hP.update trivial) fun _ => hP.bind (hfree _) fun _ => hP.pure _
  intro n
  induction n with
  | zero => exact fun addr => hP.pure addr
  | succ n ih => exact fun addr => hP.bind (htake addr) ih

theorem allocKpagesBody_walk (hfree : ∀ p, P (kfree p) (kfree' p)) (n : ℕ) :
    P (allocKpagesBody kfree n) (allocKpagesBody kfree' n) := by
  refine hP.bind (hP.require (by decide)) fun _ => hP.bind (hP.read _) fun started => ?_
  refine Congruence.ite (fun _ => ?_) fun _ => ?_
  · refine hP.bind (checkFreeFrame_walk (heap_congruence hP) n) fun size => ?_
    refine Congruence.ite (fun _ => hP.pure 0) fun _ => ?_
    refine hP.bind (hP.require (by decide)) fun _ => hP.bind (takeFrames_walk hP hfree n 0) fun addr => ?_
    exact hP.bind (hP.update trivial) fun _ => hP.pure _
  · refine hP.bind (ramStealmem_walk (heap_congruence hP) n) fun addr => ?_
    exact hP.bind (hP.require (by decide)) fun _ => hP.pure _

theorem addTop_walk (hmalloc : ∀ n, P (kmalloc n) (kmalloc' n)) (value : ℕ) :
    P (addTop kmalloc value) (addTop kmalloc' value) :=
  hP.bind (newNode_walk (heap_congruence hP) hmalloc value) fun _ => hP.update trivial

theorem addToFrameListBody_walk (hmalloc : ∀ n, P (kmalloc n) (kmalloc' n)) (value : ℕ) (position : Position) :
    P (addToFrameListBody kmalloc value position) (addToFrameListBody kmalloc' value position) := by
  cases position with
  | addTOP => exact addTop_walk hP hmalloc value
  | addBOTTOM =>
    refine hP.bind (newNode_walk (heap_congruence hP) hmalloc value) fun ptr => ?_
    refine hP.bind (hP.read _) fun list => hP.bind (hP.read _) fun last => ?_
    cases list.getLast? with
    | none => exact Congruence.ite (fun _ => addTop_walk hP hmalloc value) fun _ => hP.stop trivial
    | some node => exact Congruence.ite (fun _ => hP.update trivial) fun _ => hP.stop trivial

theorem freeKpagesBody_walk (hmalloc : ∀ n, P (kmalloc n) (kmalloc' n)) (paddr : ℕ) :
    P (freeKpagesBody kmalloc paddr) (freeKpagesBody kmalloc' paddr) := by
  refine hP.bind (hP.read _) fun started => Congruence.ite (fun _ => ?_) fun _ => hP.pure ()
  refine hP.bind (hP.read _) fun entries => hP.bind (hP.require (by decide)) fun _ => ?_
  refine hP.bind (hP.read _) fun valid => hP.bind (hP.require (by decide)) fun _ => ?_
  refine hP.bind (hP.update trivial) fun _ => hP.bind (hP.update trivial) fun _ => ?_
  exact addTop_walk hP hmalloc _

/-! ### The circle -/

/-- The page functions of two allocators are related. -/
structure Allocator.Related (P : ∀ {α : Type}, Kern α → Kern α → Prop) (A A' : Allocator) : Prop where
  alloc : ∀ n, P (A.alloc n) (A'.alloc n)
  free : ∀ a, P (A.free a) (A'.free a)

/-- **Once around the circle.** -/
theorem allocator_walk {d d' : ℕ} (h : Allocator.Related P (allocator d) (allocator d')) :
    Allocator.Related P (allocator (d + 1)) (allocator (d' + 1)) where
  alloc := allocKpagesBody_walk hP (kfreeBody_walk (heap_congruence hP) h.free)
  free := freeKpagesBody_walk hP (kmallocBody_walk (heap_congruence hP) h.alloc h.free)

end Pages

/-! ### Why the allocator stops -/

/-- The program stops for reasons of the allocator only. -/
def StopsInAllocator {α : Type} (m : Kern α) : Prop := Holds (fun _ => True) Stop.OfAllocator m

theorem stopsInAllocator_congruence :
    Congruence (fun _ => True) Stop.OfBody (fun {α} (m _ : Kern α) => StopsInAllocator m) :=
  (holds_congruence (fun _ => True) Stop.OfAllocator).weaken (fun _ _ _ _ => trivial) fun _ he => he.ofAllocator

theorem allocator_stops (d : ℕ) :
    Allocator.Related (fun {α} (m _ : Kern α) => StopsInAllocator m) (allocator d) (allocator d) := by
  induction d with
  | zero => exact ⟨fun _ => holds_stop trivial, fun _ => holds_stop trivial⟩
  | succ d ih => exact allocator_walk stopsInAllocator_congruence ih

/-- **`alloc_kpages` and `free_kpages` stop for reasons of the allocator only**, at every depth. -/
theorem allocKpages_stops (d n : ℕ) : StopsInAllocator (allocKpages d n) := (allocator_stops d).alloc n

theorem freeKpages_stops (d a : ℕ) : StopsInAllocator (freeKpages d a) := (allocator_stops d).free a

theorem kfree_stops (d ptr : ℕ) : StopsInAllocator (kfree d ptr) :=
  kfreeBody_walk (g := (allocator d).free) (heap_congruence stopsInAllocator_congruence) (allocator_stops d).free ptr

end Os161Kernel
