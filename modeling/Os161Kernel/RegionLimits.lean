import Os161Kernel.Programs
import Os161Kernel.RegionPages
import Mathlib.Data.Set.Card

/-!
# How many frames a program gets before it runs

`MAX_PAGES_PER_PROCESS` is 120.  Of a code segment at most 16 pages are preloaded.  A data segment of more than 100 pages
is preloaded with `MAX_PAGES_PER_PROCESS - (as_npages_code_loaded - MAX_STACK_SEGMENT_PAGES)` pages, which is
`136 - as_npages_code_loaded`: not the pages that are left, and possibly more than the segment has.  If the data segment
comes first, `as_npages_code_loaded` is what the heap block held before.

The frames are counted as those that come into use outside the kernel heap (`newFrames`).
-/

namespace Os161Kernel

open StateProg Search Memory Runs

/-! ### Counting frames -/

/-- The frames that came into use outside the heap. -/
def Kernel.newFrames (s s' : Kernel) : Set ℕ := {f | s.NewFrame s' f}

section Count

variable {frame frame' : ℕ → ℕ} {page page' : ℕ → PageNo} {n m : ℕ} {s t u : Kernel}

theorem Allotted.encard_newFrames (h : Allotted frame page n s t) : (s.newFrames t).encard = n := by
  have himage : s.newFrames t = ((Finset.range n).image frame : Finset ℕ) := by
    ext f
    rw [Finset.coe_image, Set.mem_image]
    constructor
    · intro hf
      obtain ⟨i, hi, rfl⟩ := (h.only f hf.1).resolve_left hf.2
      exact ⟨i, Finset.mem_coe.mpr (Finset.mem_range.mpr hi), rfl⟩
    · rintro ⟨i, hi, rfl⟩
      exact h.new i (Finset.mem_range.mp (Finset.mem_coe.mp hi))
  have hinj : Set.InjOn frame (Finset.range n) := fun i hi j hj heq =>
    h.once i (Finset.mem_range.mp (Finset.mem_coe.mp hi)) j (Finset.mem_range.mp (Finset.mem_coe.mp hj)) heq
  rw [himage, Set.encard_coe_eq_coe_finsetCard, Finset.card_image_of_injOn hinj, Finset.card_range]

theorem encard_newFrames_add (hst : ∀ f, s.Calm f → t.Calm f) (htu : ∀ f, t.Calm f → u.Calm f) :
    (s.newFrames u).encard = (s.newFrames t).encard + (t.newFrames u).encard := by
  have hunion : s.newFrames u = s.newFrames t ∪ t.newFrames u := by
    ext f
    constructor
    · rintro ⟨hu, hs⟩
      by_cases ht : t.Calm f
      · exact .inl ⟨ht, hs⟩
      · exact .inr ⟨hu, ht⟩
    · rintro (⟨ht, hs⟩ | ⟨hu, ht⟩)
      · exact ⟨htu f ht, hs⟩
      · exact ⟨hu, fun hs => ht (hst f hs)⟩
  have hdisjoint : Disjoint (s.newFrames t) (t.newFrames u) :=
    Set.disjoint_left.mpr fun f hst' htu' => htu'.2 hst'.1
  rw [hunion, Set.encard_union_eq hdisjoint]

end Count

/-! ### The limits -/

/-- `MAX_PAGES_PER_PROCESS`. -/
def maxPagesPerProcess : ℕ := 120

/-- **Within the limits.**  From `s` to `s₁` the first segment got its frames, to `s₂` the second and to `s₃` the stack:
no segment got more than its count of pages, and all together no more than a process may have. -/
structure WithinLimits (first second : Segment) (s s₁ s₂ s₃ : Kernel) : Prop where
  first : (s.newFrames s₁).encard ≤ pagesFor first.memsize
  second : (s₁.newFrames s₂).encard ≤ pagesFor second.memsize
  total : (s.newFrames s₃).encard ≤ maxPagesPerProcess

/-- The data segment has no more than 100 pages.  If it comes before the code, the uninitialised count may also be one
that happens to leave few enough pages. -/
def LimitsMet (as : Addrspace) (first second : Segment) : Prop :=
  (first.executable = true → pagesFor second.memsize ≤ 100) ∧
  (first.executable = false → pagesFor first.memsize ≤ 100 ∨
    (codeLoaded (pagesFor second.memsize) + 17 ≤ as.npagesCodeLoaded % 2 ^ 16 ∧ as.npagesCodeLoaded % 2 ^ 16 ≤ 136 ∧
      136 ≤ as.npagesCodeLoaded % 2 ^ 16 + pagesFor first.memsize))

instance (as : Addrspace) (first second : Segment) : Decidable (LimitsMet as first second) :=
  inferInstanceAs (Decidable ((_ → _) ∧ (_ → _ ∨ _ ∧ _ ∧ _)))

/-- The pages that are preloaded of the second segment, after the first. -/
def loadedAfter (as : Addrspace) (first second : Segment) : ℕ :=
  (as.withRegion first.executable first.vaddr first.memsize).loadedPages second.executable second.memsize

theorem loadedPages_limits_iff {as : Addrspace} {first second : Segment}
    (hkinds : second.executable = !first.executable) :
    (as.loadedPages first.executable first.memsize ≤ pagesFor first.memsize ∧
      loadedAfter as first second ≤ pagesFor second.memsize ∧
      as.loadedPages first.executable first.memsize + loadedAfter as first second + 1 ≤ maxPagesPerProcess) ↔
    LimitsMet as first second := by
  unfold loadedAfter
  rw [hkinds]
  unfold LimitsMet maxPagesPerProcess
  have hsmall : ∀ m, pagesFor m < 2 ^ 16 := fun m => Nat.mod_lt _ (by decide)
  have hfirst := hsmall first.memsize
  have hsecond := hsmall second.memsize
  cases first.executable with
  | true =>
    simp only [Addrspace.loadedPages, Addrspace.withRegion, Bool.not_true, Bool.false_eq_true, if_true, if_false,
      forall_const, Bool.true_eq_false, false_imp_iff, and_true]
    generalize pagesFor first.memsize = c at *
    generalize pagesFor second.memsize = n at *
    unfold codeLoaded dataLoaded
    split <;> split <;> omega
  | false =>
    simp only [Addrspace.loadedPages, Addrspace.withRegion, Bool.not_false, Bool.false_eq_true, if_true, if_false,
      forall_const, false_imp_iff, true_and]
    generalize pagesFor first.memsize = n at *
    generalize pagesFor second.memsize = c at *
    unfold codeLoaded dataLoaded
    split <;> split <;> omega

section Program

variable {L : List ℕ} {d : ℕ} {first second : Segment} {as : Addrspace} {s s₁ s₂ s₃ : Kernel}

theorem encard_newFrames_program (h : HeapInv L [] s) (has : s.getas = some as)
    (hfirst : asDefineRegion d first.vaddr first.memsize first.readable first.writeable first.executable s =
      .ok () s₁)
    (hsecond : asDefineRegion d second.vaddr second.memsize second.readable second.writeable second.executable s₁ =
      .ok () s₂)
    (hprepare : asPrepareLoad d s₂ = .ok () s₃) :
    (s.newFrames s₁).encard = as.loadedPages first.executable first.memsize ∧
    (s₁.newFrames s₂).encard = loadedAfter as first second ∧
    (s.newFrames s₃).encard =
      (as.loadedPages first.executable first.memsize + loadedAfter as first second + 1 : ℕ) := by
  obtain ⟨hinv₁, has₁, _, hallot₁⟩ := asDefineRegion_allotted h has hfirst
  obtain ⟨hinv₂, has₂, _, hallot₂⟩ := asDefineRegion_allotted hinv₁ has₁ hsecond
  obtain ⟨-, f, hallot₃⟩ := asPrepareLoad_allotted hinv₂ has₂ hprepare
  have hkeeps₁ : ∀ f, s.Calm f → s₁.Calm f := fun f hf => (hallot₁.keeps f hf).1
  have hkeeps₂ : ∀ f, s₁.Calm f → s₂.Calm f := fun f hf => (hallot₂.keeps f hf).1
  have hkeeps₃ : ∀ f, s₂.Calm f → s₃.Calm f := fun f hf => (hallot₃.keeps f hf).1
  refine ⟨hallot₁.encard_newFrames, hallot₂.encard_newFrames, ?_⟩
  rw [encard_newFrames_add (fun f hf => hkeeps₂ f (hkeeps₁ f hf)) hkeeps₃, encard_newFrames_add hkeeps₁ hkeeps₂,
    hallot₁.encard_newFrames, hallot₂.encard_newFrames, hallot₃.encard_newFrames]
  push_cast
  rfl

/-- **The limits of a process.**  In every state the kernel reaches, for a code and a data segment in either order: when
`as_define_region` has returned for both and `as_prepare_load` has, no segment got more frames than its count of pages
and the process no more than `MAX_PAGES_PER_PROCESS`, if and only if `LimitsMet`. -/
theorem preallocation_within_limits_iff {ram bottom : ℕ} {c : Client}
    (hreach : Reaches PagingStep (Client.Booted ram bottom) c) (has : c.kernel.getas = some as)
    (hkinds : second.executable = !first.executable)
    (hfirst : asDefineRegion d first.vaddr first.memsize first.readable first.writeable first.executable c.kernel =
      .ok () s₁)
    (hsecond : asDefineRegion d second.vaddr second.memsize second.readable second.writeable second.executable s₁ =
      .ok () s₂)
    (hprepare : asPrepareLoad d s₂ = .ok () s₃) :
    WithinLimits first second c.kernel s₁ s₂ s₃ ↔ LimitsMet as first second := by
  obtain ⟨h₁, h₂, h₃⟩ := encard_newFrames_program (reaches_paged hreach).inv.heap has hfirst hsecond hprepare
  rw [← loadedPages_limits_iff hkinds]
  constructor
  · rintro ⟨hle₁, hle₂, hle₃⟩
    rw [h₁] at hle₁
    rw [h₂] at hle₂
    rw [h₃] at hle₃
    exact ⟨Nat.cast_le.mp hle₁, Nat.cast_le.mp hle₂, Nat.cast_le.mp hle₃⟩
  · rintro ⟨hle₁, hle₂, hle₃⟩
    refine ⟨?_, ?_, ?_⟩
    · rw [h₁]
      exact Nat.cast_le.mpr hle₁
    · rw [h₂]
      exact Nat.cast_le.mpr hle₂
    · rw [h₃]
      exact Nat.cast_le.mpr hle₃

end Program

/-- A machine with the given number of frames, then with the two segments and the stack of a program. -/
def preallocated (frames : ℕ) (h : frames * pageSize ≤ 512 * 1024 * 1024) (first second : Segment) :
    Option (Kernel × Kernel × Kernel × Kernel) :=
  (programBooted frames h ⟨0, fun _ => 0⟩ fun _ => 0).bind fun s =>
    (asDefineRegion 5 first.vaddr first.memsize first.readable first.writeable first.executable s).state?.bind fun s₁ =>
      (asDefineRegion 5 second.vaddr second.memsize second.readable second.writeable second.executable
        s₁).state?.bind fun s₂ =>
        (asPrepareLoad 5 s₂).state?.bind fun s₃ =>
          if s.getas = some zeroAddrspace then some (s, s₁, s₂, s₃) else none

theorem preallocated_reaches {frames : ℕ} {h : frames * pageSize ≤ 512 * 1024 * 1024} {first second : Segment}
    {s s₁ s₂ s₃ : Kernel} (hfit : 1 ≤ frames) (hs : preallocated frames h first second = some (s, s₁, s₂, s₃)) :
    ∃ c : Client, Reaches PagingStep (Client.Booted (frames * pageSize) 12288) c ∧ c.kernel = s ∧
      s.getas = some zeroAddrspace ∧
      asDefineRegion 5 first.vaddr first.memsize first.readable first.writeable first.executable s = .ok () s₁ ∧
      asDefineRegion 5 second.vaddr second.memsize second.readable second.writeable second.executable s₁ =
        .ok () s₂ ∧
      asPrepareLoad 5 s₂ = .ok () s₃ := by
  obtain ⟨t, hboot, hs⟩ := Option.bind_eq_some_iff.mp hs
  obtain ⟨t₁, hfirst, hs⟩ := Option.bind_eq_some_iff.mp hs
  obtain ⟨t₂, hsecond, hs⟩ := Option.bind_eq_some_iff.mp hs
  obtain ⟨t₃, hprepare, hs⟩ := Option.bind_eq_some_iff.mp hs
  obtain ⟨has, heq⟩ := Option.ite_none_right_eq_some.mp hs
  simp only [Option.some.injEq, Prod.mk.injEq] at heq
  obtain ⟨rfl, rfl, rfl, rfl⟩ := heq
  obtain ⟨B, P, hreach⟩ := programBooted_reaches hfit hboot
  exact ⟨_, hreach, rfl, has, state?_eq_some.mp hfirst, state?_eq_some.mp hsecond,
    state?_eq_some.mp hprepare⟩

/-- A page of code at `0x400000`. -/
def onePageOfCode : Segment := ⟨0x400000, 4, true, false, true⟩

/-- Data at `0x10000000`. -/
def dataOfSize (memsize : ℕ) : Segment := ⟨0x10000000, memsize, true, true, false⟩

/-- A page of data, then a page of code. -/
theorem preallocation_within_limits_small : ∃ (c : Client) (s₁ s₂ s₃ : Kernel),
    Reaches PagingStep (Client.Booted (16 * pageSize) 12288) c ∧ c.kernel.getas = some zeroAddrspace ∧
    asDefineRegion 5 (dataOfSize 4).vaddr (dataOfSize 4).memsize true true false c.kernel = .ok () s₁ ∧
    asDefineRegion 5 onePageOfCode.vaddr onePageOfCode.memsize true false true s₁ = .ok () s₂ ∧
    asPrepareLoad 5 s₂ = .ok () s₃ ∧ WithinLimits (dataOfSize 4) onePageOfCode c.kernel s₁ s₂ s₃ := by
  have hrun : (preallocated 16 (by decide) (dataOfSize 4) onePageOfCode).isSome = true := by decide +kernel
  obtain ⟨⟨s, s₁, s₂, s₃⟩, hs⟩ := Option.isSome_iff_exists.mp hrun
  obtain ⟨c, hreach, rfl, has, hfirst, hsecond, hprepare⟩ := preallocated_reaches (by decide) hs
  exact ⟨c, s₁, s₂, s₃, hreach, has, hfirst, hsecond, hprepare,
    (preallocation_within_limits_iff hreach has rfl hfirst hsecond hprepare).mpr (by decide)⟩

/-- **A data segment of 101 pages** behind a page of code gets 135 frames, more than it has pages, and the process 137. -/
theorem preallocation_exceeds_limits : ∃ (c : Client) (s₁ s₂ s₃ : Kernel),
    Reaches PagingStep (Client.Booted (141 * pageSize) 12288) c ∧ pagesFor (dataOfSize 0x64000).memsize = 101 ∧
    asDefineRegion 5 onePageOfCode.vaddr onePageOfCode.memsize true false true c.kernel = .ok () s₁ ∧
    asDefineRegion 5 (dataOfSize 0x64000).vaddr (dataOfSize 0x64000).memsize true true false s₁ = .ok () s₂ ∧
    asPrepareLoad 5 s₂ = .ok () s₃ ∧ (s₁.newFrames s₂).encard = 135 ∧ (c.kernel.newFrames s₃).encard = 137 ∧
    ¬ WithinLimits onePageOfCode (dataOfSize 0x64000) c.kernel s₁ s₂ s₃ := by
  have hrun : (preallocated 141 (by decide) onePageOfCode (dataOfSize 0x64000)).isSome = true := by decide +kernel
  obtain ⟨⟨s, s₁, s₂, s₃⟩, hs⟩ := Option.isSome_iff_exists.mp hrun
  obtain ⟨c, hreach, rfl, has, hfirst, hsecond, hprepare⟩ := preallocated_reaches (by decide) hs
  obtain ⟨-, h₂, h₃⟩ := encard_newFrames_program (reaches_paged hreach).inv.heap has hfirst hsecond hprepare
  refine ⟨c, s₁, s₂, s₃, hreach, by decide, hfirst, hsecond, hprepare, h₂, h₃, fun hlimits => ?_⟩
  have hle := hlimits.second
  rw [h₂] at hle
  exact absurd (Nat.cast_le.mp hle) (by decide)

end Os161Kernel
