import Os161Kernel.AllocatorWalk

/-!
# What the allocator does to frames

Whatever path it takes through its circle of calls, the allocator touches the page table, the TLB and the
frame list by three moves only: it pops the head of the list and gives the frame to the kernel, it
releases a valid frame, or it puts a released frame back on the list.  Everything else it does is a write
to physical memory or to the heap's own lists.

A released frame is on its way: between `release` and the push a whole `kmalloc` may run.  The moves
therefore act on a pair of the frames on their way and the state.  `Moves s s'` says that, whatever
frames were on their way before, the same ones are afterwards; `allocator_moves` proves it for every call
at every depth.  Facts that hold of the page table and the TLB after any allocator call are inductions
over moves from here on and never look at the allocator again.
-/

namespace Os161Kernel

open StateProg Search Memory

/-! ### One move -/

/-- Frame `f` was put on the list, at either end. -/
structure Pushed (f : ℕ) (s s' : Kernel) : Prop where
  same : s' = { s with
    ram := s'.ram
    frameList := s'.frameList
    frameListEnd := s'.frameListEnd }
  perm : s'.freeFrames.Perm (f :: s.freeFrames)

/-- One move, on the frames on their way and the state. -/
inductive Move : List ℕ × Kernel → List ℕ × Kernel → Prop
  | pop {F : List ℕ} {s : Kernel} {node : FrameListStruct} {rest : List FrameListStruct}
      (hl : s.frameList = node :: rest) (hlt : node.frameNumber < s.pagetableEntry)
      (hv : ¬ s.Valid node.frameNumber) : Move (F, s) (F, s.popFrame node.frameNumber)
  | release {F : List ℕ} {s : Kernel} {f : ℕ} (hlt : f < s.pagetableEntry) (hv : s.Valid f) :
      Move (F, s) (f :: F, s.release f)
  | push {F : List ℕ} {s s' : Kernel} {f : ℕ} (h : Pushed f s s') : Move (f :: F, s) (F, s')
  | heap {F : List ℕ} {s s' : Kernel} (h : SameFrames s s') : Move (F, s) (F, s')

/-- The allocator ran from `s` to `s'` and the frames on their way are what they were. -/
def Moves (s s' : Kernel) : Prop := ∀ F, Relation.ReflTransGen Move (F, s) (F, s')

instance : Std.Refl Moves := ⟨fun _ _ => .refl⟩

instance : IsTrans Kernel Moves := ⟨fun _ _ _ hst htu F => (hst F).trans (htu F)⟩

theorem SameFrames.moves {s s' : Kernel} (h : SameFrames s s') : Moves s s' :=
  fun _ => .single (.heap h)

theorem moves_congruence :
    Congruence FrameEdit Stop.OfBody (fun {α} (m _ : Kern α) => Within Moves m) :=
  (within_congruence Moves).weaken (fun _ hf s => (hf s).moves) fun _ _ => trivial

/-- A property of a state and its frames on their way that every move keeps is kept by the allocator. -/
theorem Moves.induct {P : List ℕ → Kernel → Prop}
    (hstep : ∀ F s F' s', Move (F, s) (F', s') → P F s → P F' s') {s s' : Kernel} (h : Moves s s')
    {F : List ℕ} (hP : P F s) : P F s' := by
  have key : ∀ x, Relation.ReflTransGen Move (F, s) x → P x.1 x.2 := by
    intro x hx
    induction hx with
    | refl => exact hP
    | tail _ hm ih => exact hstep _ _ _ _ hm ih
  exact key (F, s') (h F)

theorem Moves.invariant {P : Kernel → Prop}
    (hstep : ∀ F s F' s', Move (F, s) (F', s') → P s → P s') {s s' : Kernel} (h : Moves s s')
    (hP : P s) : P s' :=
  Moves.induct (P := fun _ s => P s) hstep h (F := []) hP

/-- The two states differ in what an allocator call may touch: memory, rows, the frame list, the heap and
the TLB. -/
def AllocOnly (s s' : Kernel) : Prop :=
  s' = { s with
    ram := s'.ram
    firstpaddr := s'.firstpaddr
    mainPG := s'.mainPG
    ptCounter := s'.ptCounter
    frameList := s'.frameList
    frameListEnd := s'.frameListEnd
    kheaproots := s'.kheaproots
    pagerefs := s'.pagerefs
    sizebases := s'.sizebases
    allbase := s'.allbase
    tlb := s'.tlb
    freeTLBEntries := s'.freeTLBEntries }

instance : Std.Refl AllocOnly := ⟨fun _ => rfl⟩

instance : IsTrans Kernel AllocOnly where
  trans s t u hst htu := by
    unfold AllocOnly at *
    rw [htu, hst]

theorem Kernel.release_allocOnly (s : Kernel) (f : ℕ) : AllocOnly s (s.release f) := by
  unfold Kernel.release Kernel.tlbRemove AllocOnly
  by_cases h : (s.mainPG f).pid ≠ 0
  · rw [if_pos h]
    cases s.tlbProbe (s.mainPG f).pageNumber <;> rfl
  · rw [if_neg h]

theorem Move.allocOnly {F F' : List ℕ} {s s' : Kernel} (h : Move (F, s) (F', s')) : AllocOnly s s' := by
  cases h with
  | pop => rfl
  | release => exact s.release_allocOnly _
  | push h =>
    unfold AllocOnly
    rw [h.same]
  | heap h =>
    unfold AllocOnly
    rw [h]

theorem Moves.allocOnly {s s' : Kernel} (h : Moves s s') : AllocOnly s s' :=
  h.invariant (P := AllocOnly s) (fun _ _ _ _ hm hs => IsTrans.trans _ _ _ hs hm.allocOnly) rfl

/-! ### Inversion of the frame functions -/

theorem headFrame_ok {s s' : Kernel} {node : FrameListStruct} (h : headFrame s = .ok node s') :
    s' = s ∧ ∃ rest, s.frameList = node :: rest := by
  unfold headFrame at h
  simp only [bind_ok_iff, read_ok_iff] at h
  obtain ⟨_, _, ⟨rfl, rfl⟩, _, _, ⟨rfl, rfl⟩, h⟩ := h
  cases hl : s.frameList with
  | nil =>
    rw [hl] at h
    exact (stop_ok_iff.mp h).elim
  | cons node' rest =>
    rw [hl] at h
    obtain ⟨rfl, rfl⟩ := pure_ok_iff.mp h
    exact ⟨rfl, rest, rfl⟩

/-- **One round of `alloc_kpages`.**  The head of the list was a free frame, the first frame taken lies
below the page table and is not frame 0, and the node was freed after the pop. -/
theorem takeFrame_ok {kfree : ℕ → Kern Unit} {addr a : ℕ} {s s' : Kernel}
    (h : takeFrame kfree addr s = .ok a s') :
    ∃ node rest, s.frameList = node :: rest ∧ node.frameNumber < s.pagetableEntry ∧
      ¬ s.Valid node.frameNumber ∧
      (addr = 0 → node.frameNumber * pageSize < s.mainPGLocation ∧ node.frameNumber ≠ 0) ∧
      kfree node.ptr (s.popFrame node.frameNumber) = .ok () s' ∧
      a = if addr = 0 then node.frameNumber * pageSize else addr := by
  unfold takeFrame at h
  simp only [bind_ok_iff, read_ok_iff, update_ok_iff, kassert, panicIf,
    require_ok_iff, pure_ok_iff] at h
  obtain ⟨node, _, hhead, _, _, ⟨rfl, rfl⟩, _, _, ⟨hlt, rfl⟩, _, _, ⟨rfl, rfl⟩, _, _, ⟨hv, rfl⟩, _, _,
    ⟨rfl, rfl⟩, _, _, ⟨hloc, rfl⟩, _, _, ⟨hz, rfl⟩, _, _, rfl, _, _, hk, rfl, rfl⟩ := h
  obtain ⟨rfl, rest, hl⟩ := headFrame_ok hhead
  refine ⟨node, rest, hl, hlt, hv, fun h0 => ?_, hk, rfl⟩
  simp only [h0, true_and, Nat.not_le] at hloc hz
  exact ⟨hloc, hz⟩

theorem takeFrames_addr {kfree : ℕ → Kern Unit} {s' : Kernel} : ∀ {n addr a : ℕ} {s : Kernel}, addr ≠ 0 →
    takeFrames kfree n addr s = .ok a s' → a = addr := by
  intro n
  induction n with
  | zero =>
    intro addr a s _ h
    exact ((pure_ok_iff.mp h).1).symm
  | succ n ih =>
    intro addr a s haddr h
    obtain ⟨addr', t, hfirst, hrest⟩ := bind_ok_iff.mp h
    obtain ⟨node, rest, -, -, -, -, -, ha⟩ := takeFrame_ok hfirst
    rw [if_neg haddr] at ha
    rw [ha] at hrest
    exact ih haddr hrest

theorem takeFrames_first {kfree : ℕ → Kern Unit} {n a : ℕ} {s s' : Kernel}
    (h : takeFrames kfree (n + 1) 0 s = .ok a s') : ∃ f, a = f * pageSize ∧ a < s.mainPGLocation := by
  obtain ⟨addr, t, hfirst, hrest⟩ := bind_ok_iff.mp h
  obtain ⟨node, rest, -, -, -, hbelow, -, ha⟩ := takeFrame_ok hfirst
  obtain ⟨hlt, hne⟩ := hbelow rfl
  rw [if_pos rfl] at ha
  have haddr : addr ≠ 0 := by
    rw [ha]
    exact Nat.mul_ne_zero hne (by decide)
  rw [takeFrames_addr haddr hrest, ha]
  exact ⟨node.frameNumber, rfl, hlt⟩

theorem ramStealmem_ok {n a : ℕ} {s s' : Kernel} (h : ramStealmem n s = .ok a s') :
    (a = 0 ∧ s' = s) ∨ (a = s.firstpaddr ∧ a + n * pageSize ≤ s.lastpaddr ∧
      s' = { s with firstpaddr := s.firstpaddr + n * pageSize }) := by
  unfold ramStealmem at h
  simp only [bind_ok_iff, read_ok_iff] at h
  obtain ⟨_, _, ⟨rfl, rfl⟩, _, _, ⟨rfl, rfl⟩, h⟩ := h
  split at h
  · obtain ⟨rfl, rfl⟩ := pure_ok_iff.mp h
    exact .inl ⟨rfl, rfl⟩
  · next hle =>
    simp only [bind_ok_iff, update_ok_iff, pure_ok_iff] at h
    obtain ⟨_, _, rfl, rfl, rfl⟩ := h
    exact .inr ⟨rfl, by omega, rfl⟩

section CheckFreeFrame

variable {s s' : Kernel} {n k npages : ℕ} {node node' : FrameListStruct} {rest : List FrameListStruct}

/-- The loop ends at once or runs to its bound, since it looks at the same link each time. -/
theorem countFrames_of_link {last : Bool} (hlast : headIsLast s = .ok last s) :
    ∀ k n, countFrames k n s = .ok (if last = true then n else n + k) s := by
  intro k
  induction k with
  | zero =>
    intro n
    cases last <;> rfl
  | succ k ih =>
    intro n
    unfold countFrames
    rw [bind_of_ok hlast]
    cases last with
    | true => rfl
    | false =>
      rw [if_neg Bool.false_ne_true, ih, if_neg Bool.false_ne_true, if_neg Bool.false_ne_true]
      congr 1
      omega

theorem checkFreeFrame_of_nil (hl : s.frameList = []) :
    checkFreeFrame npages s =
      if s.frameListEnd = 0 then .ok 0 s else if npages ≤ 1 then .ok 1 s else .stop .wildDeref := by
  unfold checkFreeFrame
  rw [bind_of_ok (read_apply _ s)]
  by_cases hend : s.frameListEnd = 0
  · rw [if_pos (by simp [hl, hend]), if_pos hend]
    rfl
  · rw [if_neg (by simp [hend]), if_neg hend]
    split
    · next hn => rw [show npages - 1 = 0 by omega]; rfl
    · next hn =>
      obtain ⟨k, hk⟩ : ∃ k, npages - 1 = k + 1 := ⟨npages - 2, by omega⟩
      rw [hk]
      apply bind_of_stop
      unfold headIsLast
      rw [bind_of_ok (read_apply _ s), bind_of_ok (read_apply _ s), hl]
      rfl

theorem checkFreeFrame_of_cons {last : Bool} (hl : s.frameList = node :: rest)
    (hlast : headIsLast s = .ok last s) :
    checkFreeFrame npages s = .ok (if last = true then 1 else max 1 npages) s := by
  unfold checkFreeFrame
  rw [bind_of_ok (read_apply _ s), if_neg (by simp [hl]),
    countFrames_of_link hlast]
  congr 2
  omega

theorem checkFreeFrame_of_single (hl : s.frameList = [node]) :
    checkFreeFrame npages s = .ok (if s.frameListEnd = 0 then 1 else max 1 npages) s := by
  have hlast : headIsLast s = .ok (decide (s.frameListEnd = 0)) s := by
    unfold headIsLast
    rw [bind_of_ok (read_apply _ s), bind_of_ok (read_apply _ s), hl]
    rfl
  rw [checkFreeFrame_of_cons hl hlast]
  simp only [decide_eq_true_eq]

theorem checkFreeFrame_of_two (hl : s.frameList = node :: node' :: rest) :
    checkFreeFrame npages s = .ok (max 1 npages) s := by
  have hlast : headIsLast s = .ok false s := by
    unfold headIsLast
    rw [bind_of_ok (read_apply _ s), bind_of_ok (read_apply _ s), hl]
    rfl
  exact checkFreeFrame_of_cons hl hlast

theorem checkFreeFrame_ok (h : checkFreeFrame n s = .ok k s') :
    s' = s ∧ (k = 0 → s.frameList = [] ∧ s.frameListEnd = 0) := by
  rcases hl : s.frameList with _ | ⟨node, _ | ⟨node', rest⟩⟩
  · rw [checkFreeFrame_of_nil hl] at h
    split at h
    · next h0 => exact ⟨(Outcome.ok.inj h).2.symm, fun _ => ⟨rfl, h0⟩⟩
    · split at h
      · obtain ⟨rfl, rfl⟩ := Outcome.ok.inj h
        exact ⟨rfl, fun hk => absurd hk (by decide)⟩
      · cases h
  · rw [checkFreeFrame_of_single hl] at h
    obtain ⟨rfl, rfl⟩ := Outcome.ok.inj h
    exact ⟨rfl, fun hk => by split at hk <;> omega⟩
  · rw [checkFreeFrame_of_two hl] at h
    obtain ⟨rfl, rfl⟩ := Outcome.ok.inj h
    exact ⟨rfl, fun hk => by omega⟩

end CheckFreeFrame

/-- **The three ends of `alloc_kpages`.**  The list was empty; or the frames were taken and the first one
cleared; or the VM had not started and memory was stolen. -/
theorem allocKpagesBody_ok {kfree : ℕ → Kern Unit} {n a : ℕ} {s s' : Kernel}
    (h : allocKpagesBody kfree n s = .ok a s') :
    (s.vmStarted = true ∧ a = 0 ∧ s' = s ∧ s.frameList = [] ∧ s.frameListEnd = 0) ∨
    (s.vmStarted = true ∧ n ≠ 0 ∧ n < 10 ∧ ∃ addr t, takeFrames kfree n 0 s = .ok addr t ∧
      s' = t.write addr pageSize (fun _ => 0) ∧ a = kseg0 + addr) ∨
    (s.vmStarted = false ∧ s.firstpaddr ≠ 0 ∧ a = kseg0 + s.firstpaddr ∧ n < 10 ∧
      s.firstpaddr + n * pageSize ≤ s.lastpaddr ∧
      s' = { s with firstpaddr := s.firstpaddr + n * pageSize }) := by
  unfold allocKpagesBody at h
  simp only [bind_ok_iff, kassert, require_ok_iff, read_ok_iff] at h
  obtain ⟨_, _, ⟨hn, rfl⟩, started, _, ⟨hst, rfl⟩, h⟩ := h
  cases started with
  | true =>
    rw [if_pos rfl] at h
    obtain ⟨k, _, hk, hrest⟩ := bind_ok_iff.mp h
    obtain ⟨rfl, hempty⟩ := checkFreeFrame_ok hk
    split at hrest
    · next h0 =>
      obtain ⟨rfl, rfl⟩ := pure_ok_iff.mp hrest
      exact .inl ⟨hst, rfl, rfl, hempty h0⟩
    · next h0 =>
      simp only [bind_ok_iff, panicIf, require_ok_iff, update_ok_iff,
        pure_ok_iff] at hrest
      obtain ⟨_, _, ⟨hkn, rfl⟩, addr, t, ht, _, _, rfl, rfl, rfl⟩ := hrest
      exact .inr (.inl ⟨hst, by omega, hn, addr, t, ht, rfl, rfl⟩)
  | false =>
    rw [if_neg Bool.false_ne_true] at h
    simp only [bind_ok_iff, panicIf, require_ok_iff, pure_ok_iff] at h
    obtain ⟨addr, t, hsteal, _, _, ⟨hne, rfl⟩, rfl, rfl⟩ := h
    rcases ramStealmem_ok hsteal with ⟨rfl, _⟩ | ⟨rfl, hle, rfl⟩
    · exact absurd rfl hne
    · exact .inr (.inr ⟨hst, hne, rfl, hn, hle, rfl⟩)

theorem newNode_ok {kmalloc : ℕ → Kern ℕ} {value ptr : ℕ} {s s' : Kernel}
    (h : newNode kmalloc value s = .ok ptr s') :
    ∃ t, kmalloc 8 s = .ok ptr t ∧ ptr ≠ 0 ∧ s' = t.write (physAddr ptr) 4 (byteOf value) ∧
      value ≤ s'.pagetableEntry := by
  unfold newNode at h
  simp only [bind_ok_iff, read_ok_iff, update_ok_iff, kassert, panicIf,
    require_ok_iff, pure_ok_iff] at h
  obtain ⟨_, t, hk, _, _, ⟨hne, rfl⟩, _, _, ⟨_, rfl⟩, _, _, rfl, _, _, ⟨rfl, rfl⟩, _, _, ⟨hle, rfl⟩, rfl,
    rfl⟩ := h
  exact ⟨t, hk, hne, rfl, hle⟩

/-- **What a returning `free_kpages` did.**  Before the VM has started it does nothing; afterwards it released
a valid frame, cleared the page and put the frame on top of the list. -/
theorem freeKpagesBody_ok {kmalloc : ℕ → Kern ℕ} {a : ℕ} {s s' : Kernel} {u : Unit}
    (h : freeKpagesBody kmalloc a s = .ok u s') :
    (s.vmStarted = false ∧ s' = s) ∨
    (s.vmStarted = true ∧ frameIndex a < s.pagetableEntry ∧ s.Valid (frameIndex a) ∧
      addTop kmalloc (frameIndex a)
        ((s.release (frameIndex a)).write (physAddr a) pageSize fun _ => 0) = .ok () s') := by
  unfold freeKpagesBody at h
  obtain ⟨started, _, hread, h⟩ := bind_ok_iff.mp h
  obtain ⟨hst, rfl⟩ := read_ok_iff.mp hread
  cases started with
  | true =>
    rw [if_pos rfl] at h
    simp only [bind_ok_iff, read_ok_iff, update_ok_iff, kassert, panicIf,
      require_ok_iff, Bool.not_eq_false] at h
    obtain ⟨_, _, ⟨rfl, rfl⟩, _, _, ⟨hlt, rfl⟩, _, _, ⟨rfl, rfl⟩, _, _, ⟨hv, rfl⟩, _, _, rfl, _, _, rfl,
      hadd⟩ := h
    exact .inr ⟨hst, hlt, hv, hadd⟩
  | false =>
    rw [if_neg Bool.false_ne_true] at h
    exact .inl ⟨hst, ((pure_ok_iff.mp h).2).symm⟩

/-! ### The edits as moves -/

namespace Kernel

theorem pushTop_pushed (s : Kernel) (f ptr : ℕ) : Pushed f s (s.pushTop f ptr) := by
  constructor
  · simp only [pushTop]
  · simp only [freeFrames, pushTop, List.map_cons]
    exact .refl _

theorem pushBottom_pushed (s : Kernel) (f ptr last : ℕ) : Pushed f s (s.pushBottom f ptr last) := by
  constructor
  · simp only [pushBottom]
  · simp only [freeFrames, pushBottom, List.map_append, List.map_cons, List.map_nil]
    exact List.perm_append_singleton f _

end Kernel

/-! ### The circle -/

/-- Both page functions stay within moves. -/
structure Allocator.StaysInMoves (A : Allocator) : Prop where
  alloc : ∀ n, Within Moves (A.alloc n)
  free : ∀ a, Within Moves (A.free a)

section Bodies

variable {A : Allocator} (hA : A.StaysInMoves)

include hA

theorem kmallocBody_moves (sz : ℕ) : Within Moves (kmallocBody A sz) :=
  kmallocBody_walk (B := A) moves_congruence hA.alloc hA.free sz

theorem kfreeBody_moves (ptr : ℕ) : Within Moves (kfreeBody A.free ptr) :=
  kfreeBody_walk (g := A.free) moves_congruence hA.free ptr

theorem takeFrames_moves : ∀ n addr, Within Moves (takeFrames (kfreeBody A.free) n addr)
  | 0, addr => within_pure addr
  | n + 1, addr => by
    refine within_bind ?_ fun addr' => takeFrames_moves n addr'
    intro s a s' h
    obtain ⟨node, rest, hl, hlt, hv, -, hk, -⟩ := takeFrame_ok h
    have hpop : Moves s (s.popFrame node.frameNumber) := fun F => .single (.pop hl hlt hv)
    exact IsTrans.trans _ _ _ hpop (kfreeBody_moves hA node.ptr _ _ _ hk)

theorem allocKpagesBody_moves (n : ℕ) : Within Moves (allocKpagesBody (kfreeBody A.free) n) := by
  intro s a s' h
  rcases allocKpagesBody_ok h with ⟨_, _, rfl, _⟩ | ⟨_, _, _, addr, t, ht, rfl, _⟩ | ⟨_, _, _, _, _, rfl⟩
  · exact Std.Refl.refl s'
  · have hclear : Moves t (t.write addr pageSize fun _ => 0) := (t.write_sameFrames _ _ _).moves
    exact IsTrans.trans _ _ _ (takeFrames_moves hA n 0 _ _ _ ht) hclear
  · exact SameFrames.moves rfl

/-- A frame on its way is pushed: the node's allocation moves other frames, then this one lands. -/
theorem addTop_lands {f : ℕ} {s s' : Kernel} {u : Unit}
    (h : addTop (kmallocBody A) f s = .ok u s') (F : List ℕ) :
    Relation.ReflTransGen Move (f :: F, s) (F, s') := by
  obtain ⟨ptr, t, hnode, hpush⟩ := bind_ok_iff.mp h
  obtain ⟨t', hk, -, rfl, -⟩ := newNode_ok hnode
  rw [← update_ok_iff.mp hpush]
  have hmalloc := kmallocBody_moves hA 8 _ _ _ hk (f :: F)
  have hwrite := (t'.write_sameFrames (physAddr ptr) 4 (byteOf f)).moves (f :: F)
  exact (hmalloc.trans hwrite).tail (.push (Kernel.pushTop_pushed _ f ptr))

theorem addBottom_lands {f : ℕ} {s s' : Kernel} {u : Unit}
    (h : addBottom (kmallocBody A) f s = .ok u s') (F : List ℕ) :
    Relation.ReflTransGen Move (f :: F, s) (F, s') := by
  unfold addBottom at h
  simp only [bind_ok_iff, read_ok_iff] at h
  obtain ⟨ptr, _, hnode, _, _, ⟨rfl, rfl⟩, _, _, ⟨rfl, rfl⟩, hrest⟩ := h
  obtain ⟨t, hk, -, ht, -⟩ := newNode_ok hnode
  have hmalloc := kmallocBody_moves hA 8 _ _ _ hk (f :: F)
  have hwrite := (t.write_sameFrames (physAddr ptr) 4 (byteOf f)).moves (f :: F)
  rw [← ht] at hwrite
  refine (hmalloc.trans hwrite).trans ?_
  generalize List.getLast? _ = last at hrest
  cases last with
  | none =>
    simp only at hrest
    split at hrest
    · exact addTop_lands hA hrest F
    · exact (stop_ok_iff.mp hrest).elim
  | some node =>
    simp only at hrest
    split at hrest
    · rw [← update_ok_iff.mp hrest]
      exact .single (.push (Kernel.pushBottom_pushed _ f ptr _))
    · exact (stop_ok_iff.mp hrest).elim

theorem freeKpagesBody_moves (a : ℕ) : Within Moves (freeKpagesBody (kmallocBody A) a) := by
  intro s u s' h F
  rcases freeKpagesBody_ok h with ⟨_, rfl⟩ | ⟨_, hlt, hv, hadd⟩
  · exact .refl
  · have hrel : Relation.ReflTransGen Move (F, s) (frameIndex a :: F, s.release (frameIndex a)) :=
      .single (.release hlt hv)
    have hclear := ((s.release (frameIndex a)).write_sameFrames (physAddr a) pageSize
      fun _ => 0).moves (frameIndex a :: F)
    exact (hrel.trans hclear).trans (addTop_lands hA hadd F)

end Bodies

theorem allocator_moves : ∀ d, (allocator d).StaysInMoves
  | 0 => ⟨fun _ => within_stop _, fun _ => within_stop _⟩
  | d + 1 =>
    ⟨allocKpagesBody_moves (allocator_moves d), freeKpagesBody_moves (allocator_moves d)⟩

theorem allocKpages_moves (d n : ℕ) : Within Moves (allocKpages d n) := (allocator_moves d).alloc n

theorem freeKpages_moves (d a : ℕ) : Within Moves (freeKpages d a) := (allocator_moves d).free a

theorem kmalloc_moves (d sz : ℕ) : Within Moves (kmalloc d sz) := kmallocBody_moves (allocator_moves d) sz

theorem kfree_moves (d ptr : ℕ) : Within Moves (kfree d ptr) := kfreeBody_moves (allocator_moves d) ptr

theorem freeKpages_mem {d f : ℕ} {s s' : Kernel} {u : Unit} (hs : s.vmStarted = true) (hf : f ≤ 2 ^ 17)
    (h : freeKpages d (kvaddr f) s = .ok u s') : f ∈ s'.freeFrames := by
  cases d with
  | zero => exact nomatch h
  | succ d =>
    rcases freeKpagesBody_ok h with ⟨hno, -⟩ | ⟨-, -, -, hadd⟩
    · exact absurd (hs.symm.trans hno) (by decide)
    · rw [frameIndex_kvaddr_self hf] at hadd
      obtain ⟨ptr, t, -, hpush⟩ := bind_ok_iff.mp hadd
      rw [← update_ok_iff.mp hpush]
      exact List.mem_cons_self

end Os161Kernel
