import Os161Kernel.ProcessExit

/-!
# The pages of a region: `as_define_region`, `as_prepare_load`, `as_define_stack`

`as_define_region` counts the pages of a segment as `memsize / PAGE_SIZE + 1`, whatever the offset of the segment in
its first page, and takes a frame for each of them.  The count is right unless the segment ends on a page boundary
that its size alone reaches, or the offset and the size together run into one more page.

The stack page is placed behind the pages counted for the data segment and the stack pointer is the address of that
place.  A stack that is pushed by subtract-then-store starts below it, in the last page counted for the data.

What the calls allocate is told from the frames that come into use outside the heap: `Allotted` gives one for each
page asked for and says that nothing else outside the heap has changed.
-/

namespace Os161Kernel

open StateProg Search Memory Runs Function Kernel Client

/-! ### Frames that come into use -/

/-- Frame `f` came into use outside the heap. -/
def Kernel.NewFrame (s s' : Kernel) (f : ℕ) : Prop := s'.Calm f ∧ ¬ s.Calm f

/-- Page `page i` of the current process got the frame `frame i`, for each `i` below `n`, and nothing else outside
the heap has changed. -/
structure Allotted (frame : ℕ → ℕ) (page : ℕ → PageNo) (n : ℕ) (s t : Kernel) : Prop where
  new : ∀ i < n, s.NewFrame t (frame i)
  row : ∀ i < n, t.Maps (page i) s.curPid (frame i)
  once : ∀ i < n, ∀ j < n, frame i = frame j → i = j
  keeps : ∀ f, s.Calm f → t.Calm f ∧ t.mainPG f = s.mainPG f
  only : ∀ f, t.Calm f → s.Calm f ∨ ∃ i < n, f = frame i

namespace Allotted

variable {frame : ℕ → ℕ} {page : ℕ → PageNo} {n : ℕ} {s t u : Kernel}

theorem zero (frame : ℕ → ℕ) (page : ℕ → PageNo) (s : Kernel) : Allotted frame page 0 s s where
  new := nofun
  row := nofun
  once := nofun
  keeps _ hf := ⟨hf, rfl⟩
  only _ hf := .inl hf

theorem of_sameOwners (h : Allotted frame page n t u) (hs : SameOwners s t) (hpid : t.curPid = s.curPid) :
    Allotted frame page n s u where
  new i hi := ⟨(h.new i hi).1, fun hc => (h.new i hi).2 (hs.calm_iff.mpr hc)⟩
  row i hi := hpid ▸ h.row i hi
  once := h.once
  keeps f hf := by
    obtain ⟨hcalm, hrow⟩ := h.keeps f (hs.calm_iff.mpr hf)
    refine ⟨hcalm, hrow.trans ?_⟩
    rw [hs]
  only f hf := (h.only f hf).imp_left hs.calm_iff.mp

theorem then_sameOwners (h : Allotted frame page n s t) (hs : SameOwners t u) : Allotted frame page n s u := by
  have hrows : u.mainPG = t.mainPG := by rw [hs]
  refine ⟨fun i hi => ⟨hs.calm_iff.mpr (h.new i hi).1, (h.new i hi).2⟩, fun i hi => ?_, h.once, fun f hf => ?_,
    fun f hf => h.only f (hs.calm_iff.mp hf)⟩
  · unfold Maps Valid
    rw [hrows]
    exact h.row i hi
  · rw [hs.calm_iff, hrows]
    exact h.keeps f hf

theorem succ {g : ℕ} (h : Allotted frame page n s t) (h' : Allotted (fun _ => g) (fun _ => page n) 1 t u)
    (hpid : t.curPid = s.curPid) : Allotted (update frame n g) page (n + 1) s u := by
  have hframe : ∀ i < n, update frame n g i = frame i := fun i hi =>
    update_of_ne (Nat.ne_of_lt hi) _ _
  have hself : update frame n g n = g := update_self _ _ _
  have hg := h'.new 0 Nat.one_pos
  have hfresh : ∀ i < n, frame i ≠ g := fun i hi heq => hg.2 (heq ▸ (h.new i hi).1)
  constructor
  case new =>
    intro i hi
    rcases Nat.lt_succ_iff_lt_or_eq.mp hi with hlt | rfl
    · rw [hframe i hlt]
      exact ⟨(h'.keeps _ (h.new i hlt).1).1, (h.new i hlt).2⟩
    · rw [hself]
      exact ⟨hg.1, fun hc => hg.2 (h.keeps g hc).1⟩
  case row =>
    intro i hi
    rcases Nat.lt_succ_iff_lt_or_eq.mp hi with hlt | rfl
    · rw [hframe i hlt]
      unfold Maps Valid
      rw [(h'.keeps _ (h.new i hlt).1).2]
      exact h.row i hlt
    · rw [hself, ← hpid]
      exact h'.row 0 Nat.one_pos
  case once =>
    intro i hi j hj heq
    rcases Nat.lt_succ_iff_lt_or_eq.mp hi with hin | rfl <;> rcases Nat.lt_succ_iff_lt_or_eq.mp hj with hjn | rfl
    · rw [hframe i hin, hframe j hjn] at heq
      exact h.once i hin j hjn heq
    · rw [hframe i hin, hself] at heq
      exact absurd heq (hfresh i hin)
    · rw [hframe j hjn, hself] at heq
      exact absurd heq.symm (hfresh j hjn)
    · rfl
  case keeps =>
    intro f hf
    obtain ⟨hcalm, hrow⟩ := h.keeps f hf
    obtain ⟨hcalm', hrow'⟩ := h'.keeps f hcalm
    exact ⟨hcalm', hrow'.trans hrow⟩
  case only =>
    intro f hf
    rcases h'.only f hf with hcalm | ⟨-, -, rfl⟩
    · rcases h.only f hcalm with hold | ⟨i, hi, rfl⟩
      · exact .inl hold
      · exact .inr ⟨i, Nat.lt_succ_of_lt hi, (hframe i hi).symm⟩
    · exact .inr ⟨n, Nat.lt_succ_self n, hself.symm⟩

end Allotted

/-! ### What the calls allot -/

section Calls

variable {L : List ℕ} {d : ℕ} {s s' : Kernel} {u : Unit}

theorem allocPages_allotted {v : ℕ} {dirty : Bool} (h : HeapInv L [] s)
    (hrun : allocPages d v dirty s = .ok u s') :
    HeapInv L [] s' ∧ s'.procs = s.procs ∧ s'.curproc = s.curproc ∧
      ∃ f, Allotted (fun _ => f) (fun _ => pageOf v) 1 s s' := by
  obtain ⟨hs, a, t, halloc, ha, hpt⟩ := allocPages_ok hrun
  obtain ⟨f, -, -, hlt, hnew, hquiet, hcalm, -, hinv, hrow⟩ := mapFrame_sound h hs halloc ha hpt
  have hst : t.vmStarted = true := hquiet.vmStarted.trans hs
  have hvalid : t.Valid f := ((busy_iff hst).mp hcalm.busy).2
  have hcalm_iff : ∀ {g : ℕ}, s'.Calm g ↔ t.Calm g := by
    intro g
    rw [hrow]
    exact setRow_calm_iff hst hvalid rfl
  have hself : s'.mainPG f = { t.mainPG f with
      pageNumber := pageOf v, valid := true, pid := s.curPid, dirty := dirty } := by
    rw [hrow]
    exact update_self _ _ _
  have hother : ∀ g, g ≠ f → s'.mainPG g = t.mainPG g := by
    intro g hg
    rw [hrow]
    exact update_of_ne hg _ _
  refine ⟨hinv, by rw [hrow, setRow, hquiet.same], by rw [hrow, setRow, hquiet.same], f, ?_⟩
  constructor
  case new => exact fun _ _ => ⟨hcalm_iff.mpr hcalm, hnew⟩
  case row =>
    intro i _
    unfold Maps Valid
    rw [hself]
    exact ⟨rfl, rfl, rfl⟩
  case once =>
    intro i hi j hj _
    rw [Nat.lt_one_iff.mp hi, Nat.lt_one_iff.mp hj]
  case keeps =>
    intro g hg
    have hne : g ≠ f := fun heq => hnew (heq ▸ hg)
    exact ⟨hcalm_iff.mpr (hquiet.stays g hne hg), (hother g hne).trans (hquiet.row g hne hg)⟩
  case only =>
    intro g hg
    by_cases hgf : g = f
    · exact .inr ⟨0, Nat.one_pos, hgf⟩
    · exact .inl (hquiet.fresh hs g hgf (hcalm_iff.mp hg))

/-- The `i`-th page from an address on. -/
def pageFrom (vbase i : ℕ) : PageNo := pageOf ((vbase + i * pageSize) % 2 ^ 32)

theorem definePage_allotted {vbase i : ℕ} (h : HeapInv L [] s) (hrun : definePage d vbase i s = .ok u s') :
    HeapInv L [] s' ∧ s'.procs = s.procs ∧ s'.curproc = s.curproc ∧
      ∃ f, Allotted (fun _ => f) (fun _ => pageFrom vbase i) 1 s s' := by
  unfold definePage at hrun
  simp only [bind_ok_iff, read_ok_iff, when_ok_iff] at hrun
  obtain ⟨_, t, halloc, _, _, ⟨rfl, rfl⟩, _, _, ⟨rfl, rfl⟩, hadd⟩ := hrun
  obtain ⟨hinv, hprocs, hcur, f, hallot⟩ := allocPages_allotted h halloc
  rcases hadd with ⟨-, htlb⟩ | ⟨-, rfl⟩
  · have hsame := addTLB_within _ _ _ _ _ htlb
    refine ⟨hsame.sameOwners.heapInv hinv, ?_, ?_, f, hallot.then_sameOwners hsame.sameOwners⟩
    · rw [← hprocs, hsame]
    · rw [← hcur, hsame]
  · exact ⟨hinv, hprocs, hcur, f, hallot⟩

theorem definePages_allotted {vbase n : ℕ} (h : HeapInv L [] s)
    (hrun : Prog.forBelow (definePage d vbase) n s = .ok u s') :
    HeapInv L [] s' ∧ s'.procs = s.procs ∧ s'.curproc = s.curproc ∧
      ∃ frame, Allotted frame (pageFrom vbase) n s s' := by
  -- the rounds so far have allotted the pages below the loop variable
  refine forBelow_induct (P := fun n t => HeapInv L [] t ∧ t.procs = s.procs ∧ t.curproc = s.curproc ∧
    ∃ frame, Allotted frame (pageFrom vbase) n s t) ?_ ⟨h, rfl, rfl, id, .zero _ _ s⟩ hrun
  rintro i hi t _ t' ⟨hinv, hprocs, hcur, frame, hallot⟩ hround
  obtain ⟨hinv', hprocs', hcur', f, hallot'⟩ := definePage_allotted hinv hround
  refine ⟨hinv', hprocs'.trans hprocs, hcur'.trans hcur, _, hallot.succ hallot' ?_⟩
  unfold curPid cur
  rw [hprocs, hcur]

theorem Kernel.mapas_sameOwners (s : Kernel) (f : Addrspace → Addrspace) : SameOwners s (s.mapas f) := rfl

theorem Kernel.mapas_curPid (s : Kernel) (f : Addrspace → Addrspace) : (s.mapas f).curPid = s.curPid := by
  show (update s.procs s.curproc { s.cur with addrspace := _ } s.curproc).pid = _
  rw [update_self]
  rfl

theorem Kernel.mapas_getas (s : Kernel) (f : Addrspace → Addrspace) : (s.mapas f).getas = s.getas.map f := by
  show (update s.procs s.curproc { s.cur with addrspace := _ } s.curproc).addrspace = _
  rw [update_self]

theorem Kernel.getas_eq (hprocs : s'.procs = s.procs) (hcur : s'.curproc = s.curproc) : s'.getas = s.getas := by
  unfold getas cur
  rw [hprocs, hcur]

/-- The pages `as_define_region` takes frames for. -/
def Addrspace.loadedPages (as : Addrspace) (executable : Bool) (memsize : ℕ) : ℕ :=
  if executable then codeLoaded (pagesFor memsize) else dataLoaded (pagesFor memsize) as.npagesCodeLoaded

/-- What `as_define_region` records. -/
def Addrspace.withRegion (as : Addrspace) (executable : Bool) (vaddr memsize : ℕ) : Addrspace :=
  if executable then
    { as with
      vbaseCode := vaddr
      npagesCode := pagesFor memsize
      npagesCodeLoaded := as.loadedPages true memsize }
  else
    { as with
      vbaseData := vaddr
      npagesData := pagesFor memsize
      npagesDataLoaded := as.loadedPages false memsize }

theorem asDefineRegion_allotted {vaddr memsize : ℕ} {readable writeable executable : Bool} {as : Addrspace}
    (h : HeapInv L [] s) (has : s.getas = some as)
    (hrun : asDefineRegion d vaddr memsize readable writeable executable s = .ok u s') :
    HeapInv L [] s' ∧ s'.getas = some (as.withRegion executable vaddr memsize) ∧
      ∃ frame, Allotted frame (pageFrom vaddr) (as.loadedPages executable memsize) s s' := by
  have key : ∀ (f : Addrspace → Addrspace) (n : ℕ),
      Prog.forBelow (definePage d vaddr) n (s.mapas f) = .ok u s' →
      HeapInv L [] s' ∧ s'.getas = some (f as) ∧ ∃ frame, Allotted frame (pageFrom vaddr) n s s' := by
    intro f n hloop
    have hsame := s.mapas_sameOwners f
    obtain ⟨hinv, hprocs, hcur, frame, hallot⟩ := definePages_allotted (hsame.heapInv h) hloop
    refine ⟨hinv, ?_, frame, hallot.of_sameOwners hsame (s.mapas_curPid f)⟩
    rw [getas_eq hprocs hcur, Kernel.mapas_getas, has]
    rfl
  unfold asDefineRegion at hrun
  cases executable with
  | true =>
    simp only [if_true, bind_ok_iff, update_ok_iff] at hrun
    obtain ⟨_, _, rfl, hloop⟩ := hrun
    exact key _ _ hloop
  | false =>
    simp only [Bool.false_eq_true, if_false, bind_ok_iff, panicIf, require_ok_iff,
      read_ok_iff] at hrun
    obtain ⟨_, _, ⟨-, rfl⟩, _, _, ⟨-, rfl⟩, _, _, ⟨rfl, rfl⟩, hrest⟩ := hrun
    rw [has] at hrest
    simp only [bind_ok_iff, update_ok_iff] at hrest
    obtain ⟨_, _, rfl, hloop⟩ := hrest
    exact key _ _ hloop

end Calls

/-! ### The pages a segment occupies -/

/-- Page `p` meets `[vaddr, vaddr + memsize)`. -/
def Occupies (vaddr memsize : ℕ) (p : PageNo) : Prop :=
  ∃ a, vaddr ≤ a ∧ a < vaddr + memsize ∧ a / pageSize = p.val

/-- The number of these pages. -/
def occupiedPages (vaddr memsize : ℕ) : ℕ := (vaddr + memsize - 1) / pageSize - vaddr / pageSize + 1

/-- `MAX_CODE_SEGMENT_PAGES`, `MAX_DATA_SEGMENT_PAGES`. -/
def segmentLimit (executable : Bool) : ℕ := if executable then 16 else 100

/-- **Exactly the pages of the segment.**  Each page that the segment occupies got one entry of `main_PG`, and every
new entry is for such a page. -/
structure ExactPages (vaddr memsize : ℕ) (s s' : Kernel) : Prop where
  each : ∀ p, Occupies vaddr memsize p → ∃! f, s.NewFrame s' f ∧ s'.Maps p s.curPid f
  only : ∀ f, s.NewFrame s' f → ∃ p, Occupies vaddr memsize p ∧ s'.Maps p s.curPid f

theorem occupies_iff {vaddr memsize : ℕ} (h : 1 ≤ memsize) {p : PageNo} : Occupies vaddr memsize p ↔
    vaddr / pageSize ≤ p.val ∧ p.val < vaddr / pageSize + occupiedPages vaddr memsize := by
  unfold Occupies occupiedPages pageSize
  constructor
  · rintro ⟨a, hle, hlt, hp⟩
    omega
  · rintro ⟨hle, hlt⟩
    -- the first address of the page, or of the segment
    refine ⟨max vaddr (p.val * 4096), ?_, ?_, ?_⟩ <;> omega

theorem pageFrom_val {vaddr i : ℕ} (h : vaddr / pageSize + i < 2 ^ 20) :
    (pageFrom vaddr i).val = vaddr / pageSize + i := by
  unfold pageFrom pageOf
  show (vaddr + i * pageSize) % 2 ^ 32 / pageSize % 2 ^ 20 = _
  unfold pageSize at *
  omega

theorem Allotted.exactPages_iff {frame : ℕ → ℕ} {vaddr memsize n : ℕ} {s s' : Kernel}
    (h : Allotted frame (pageFrom vaddr) n s s') (hsize : 1 ≤ memsize) (htop : vaddr + memsize ≤ 0x80000000)
    (hn : n < 2 ^ 16) : ExactPages vaddr memsize s s' ↔ n = occupiedPages vaddr memsize := by
  have hbase : vaddr / pageSize + n < 2 ^ 20 := by
    unfold pageSize
    omega
  have hval : ∀ i < n, (pageFrom vaddr i).val = vaddr / pageSize + i := fun i hi =>
    pageFrom_val (Nat.lt_trans (Nat.add_lt_add_left hi _) hbase)
  have hcount : vaddr / pageSize + occupiedPages vaddr memsize ≤ 2 ^ 20 := by
    unfold occupiedPages pageSize
    omega
  -- a new frame is one of the allotted ones, whose row says its page
  have hnew : ∀ f, s.NewFrame s' f → ∃ i < n, f = frame i := fun f hf =>
    (h.only f hf.1).resolve_left hf.2
  have hpage : ∀ i < n, ∀ p, s'.Maps p s.curPid (frame i) → p = pageFrom vaddr i := fun i hi p hp =>
    hp.2.1.symm.trans (h.row i hi).2.1
  constructor
  · intro hexact
    refine Nat.le_antisymm ?_ ?_
    · by_contra hlt
      have hlt := Nat.not_le.mp hlt
      obtain ⟨p, hocc, hmaps⟩ := hexact.only _ (h.new _ hlt)
      rw [hpage _ hlt p hmaps] at hocc
      have hupper := ((occupies_iff hsize).mp hocc).2
      rw [hval _ hlt] at hupper
      exact Nat.lt_irrefl _ hupper
    · by_contra hlt
      have hlt := Nat.not_le.mp hlt
      let p : PageNo := ⟨vaddr / pageSize + n, by omega⟩
      have hocc : Occupies vaddr memsize p :=
        (occupies_iff hsize).mpr ⟨Nat.le_add_right _ _, Nat.add_lt_add_left hlt _⟩
      obtain ⟨f, ⟨hf, hmaps⟩, -⟩ := hexact.each p hocc
      obtain ⟨i, hi, rfl⟩ := hnew f hf
      have heq : vaddr / pageSize + n = vaddr / pageSize + i :=
        (congrArg Fin.val (hpage i hi p hmaps)).trans (hval i hi)
      omega
  · rintro rfl
    constructor
    · intro p hocc
      obtain ⟨hle, hlt⟩ := (occupies_iff hsize).mp hocc
      have hi : p.val - vaddr / pageSize < occupiedPages vaddr memsize := by omega
      have hp : p = pageFrom vaddr (p.val - vaddr / pageSize) := by
        refine Fin.ext ?_
        rw [hval _ hi]
        omega
      refine ⟨frame (p.val - vaddr / pageSize), ⟨h.new _ hi, ?_⟩, ?_⟩
      · have hrow := h.row _ hi
        rw [← hp] at hrow
        exact hrow
      · rintro f ⟨hf, hmaps⟩
        obtain ⟨j, hj, rfl⟩ := hnew f hf
        have hval' : p.val = vaddr / pageSize + j := (congrArg Fin.val (hpage j hj p hmaps)).trans (hval j hj)
        rw [hval', Nat.add_sub_cancel_left]
    · intro f hf
      obtain ⟨i, hi, rfl⟩ := hnew f hf
      refine ⟨pageFrom vaddr i, (occupies_iff hsize).mpr ?_, h.row i hi⟩
      rw [hval i hi]
      exact ⟨Nat.le_add_right _ _, Nat.add_lt_add_left hi _⟩

/-- A segment whose pages are counted right: it starts or ends inside a page and its two ends together stay within
one.  A segment of the largest size that fills its pages is cut back to the right count if it is code, or if the
uninitialised count of code pages happens to be 36. -/
def CountedRight (as : Addrspace) (executable : Bool) (vaddr memsize : ℕ) : Prop :=
  (1 ≤ vaddr % pageSize + memsize % pageSize ∧ vaddr % pageSize + memsize % pageSize ≤ pageSize) ∨
  (vaddr % pageSize = 0 ∧ memsize = segmentLimit executable * pageSize ∧
    (executable = true ∨ as.npagesCodeLoaded % 2 ^ 16 = 36))

instance (as : Addrspace) (executable : Bool) (vaddr memsize : ℕ) :
    Decidable (CountedRight as executable vaddr memsize) := inferInstanceAs (Decidable (_ ∨ _))

theorem loadedPages_eq_iff {as : Addrspace} {executable : Bool} {vaddr memsize : ℕ} (hsize : 1 ≤ memsize)
    (hlimit : occupiedPages vaddr memsize ≤ segmentLimit executable ∨
      memsize / pageSize + 1 ≤ segmentLimit executable) :
    as.loadedPages executable memsize = occupiedPages vaddr memsize ↔ CountedRight as executable vaddr memsize := by
  unfold Addrspace.loadedPages CountedRight segmentLimit codeLoaded dataLoaded pagesFor
  unfold occupiedPages segmentLimit at *
  unfold pageSize at *
  cases executable with
  | true =>
    simp only [if_true, true_or, and_true] at *
    have hcount : (memsize / 4096 + 1) % 2 ^ 16 = memsize / 4096 + 1 := by omega
    rw [hcount]
    split <;> omega
  | false =>
    simp only [Bool.false_eq_true, if_false, false_or] at *
    have hcount : (memsize / 4096 + 1) % 2 ^ 16 = memsize / 4096 + 1 := by omega
    rw [hcount]
    split <;> omega

theorem loadedPages_lt (as : Addrspace) (executable : Bool) (memsize : ℕ) :
    as.loadedPages executable memsize < 2 ^ 16 := by
  unfold Addrspace.loadedPages codeLoaded dataLoaded pagesFor
  split <;> split <;> omega

theorem asDefineRegion_exact_iff {L : List ℕ} {d vaddr memsize : ℕ} {readable writeable executable : Bool}
    {as : Addrspace} {s s' : Kernel} {u : Unit} (h : HeapInv L [] s) (has : s.getas = some as)
    (hsize : 1 ≤ memsize) (htop : vaddr + memsize ≤ 0x80000000)
    (hlimit : occupiedPages vaddr memsize ≤ segmentLimit executable ∨
      memsize / pageSize + 1 ≤ segmentLimit executable)
    (hrun : asDefineRegion d vaddr memsize readable writeable executable s = .ok u s') :
    ExactPages vaddr memsize s s' ↔ CountedRight as executable vaddr memsize := by
  obtain ⟨-, -, frame, hallot⟩ := asDefineRegion_allotted h has hrun
  rw [hallot.exactPages_iff hsize htop (loadedPages_lt as executable memsize)]
  exact loadedPages_eq_iff hsize hlimit

/-- **The pages of a region.**  In every state the kernel reaches, when `as_define_region` returns for a segment in the
user half whose pages are within the limit, each page that the segment occupies got one entry and no other page got
one, if and only if the pages are counted right. -/
theorem region_gets_its_pages_iff {ram first d vaddr memsize : ℕ} {readable writeable executable : Bool}
    {c : Client} {as : Addrspace} {s' : Kernel} (hreach : Reaches Step (Booted ram first) c)
    (has : c.kernel.getas = some as) (hsize : 1 ≤ memsize) (htop : vaddr + memsize ≤ 0x80000000)
    (hlimit : occupiedPages vaddr memsize ≤ segmentLimit executable ∨
      memsize / pageSize + 1 ≤ segmentLimit executable)
    (hrun : asDefineRegion d vaddr memsize readable writeable executable c.kernel = .ok () s') :
    ExactPages vaddr memsize c.kernel s' ↔ CountedRight as executable vaddr memsize :=
  asDefineRegion_exact_iff (reaches_inv hreach).1.heap has hsize htop hlimit hrun

/-- Process 1 of the small machine with an address space that has no regions yet. -/
def newAddrspace : Option (ℕ × Kernel) := firstPage.map fun (a, s) => (a, s.setas (some (.blank a)))

theorem newAddrspace_reaches {a : ℕ} {s : Kernel} (h : newAddrspace = some (a, s)) :
    ∃ c, Reaches Step (Booted 65536 12288) c ∧ c.kernel = s ∧ s.getas = some (.blank a) := by
  obtain ⟨⟨b, t⟩, hpage, heq⟩ := Option.map_eq_some_iff.mp h
  obtain ⟨rfl, rfl⟩ := Prod.mk.inj heq
  obtain ⟨B, hreach⟩ := firstPage_reaches hpage
  have hstep : Step ⟨b :: B, [], t⟩ .other ⟨b :: B, [], t.setas (some (.blank b))⟩ := .other rfl
  refine ⟨_, .next hreach hstep, rfl, ?_⟩
  show (update t.procs t.curproc _ t.curproc).addrspace = _
  rw [update_self]

/-- `0x1200` bytes of code at `0x400000`: two pages. -/
theorem region_gets_its_pages_of_code : ∃ (c : Client) (as : Addrspace) (s' : Kernel),
    Reaches Step (Booted 65536 12288) c ∧ c.kernel.getas = some as ∧
    asDefineRegion 5 0x400000 0x1200 true false true c.kernel = .ok () s' ∧
    ExactPages 0x400000 0x1200 c.kernel s' := by
  have hrun : ∃ x ∈ newAddrspace, ∃ u s', asDefineRegion 5 0x400000 0x1200 true false true x.2 = .ok u s' ∧ True := by
    decide +kernel
  obtain ⟨⟨a, s⟩, hstart, _, s', hdefine, -⟩ := hrun
  obtain ⟨c, hreach, rfl, has⟩ := newAddrspace_reaches hstart
  exact ⟨c, _, s', hreach, has, hdefine,
    (region_gets_its_pages_iff hreach has (by decide) (by decide) (by decide) hdefine).mpr (.inl (by decide))⟩

/-- One page of code at `0x400000`: a second page is taken. -/
theorem region_gets_a_page_too_many : ∃ (c : Client) (as : Addrspace) (s' : Kernel),
    Reaches Step (Booted 65536 12288) c ∧ c.kernel.getas = some as ∧
    asDefineRegion 5 0x400000 0x1000 true false true c.kernel = .ok () s' ∧
    ¬ ExactPages 0x400000 0x1000 c.kernel s' := by
  have hrun : ∃ x ∈ newAddrspace, ∃ u s', asDefineRegion 5 0x400000 0x1000 true false true x.2 = .ok u s' ∧ True := by
    decide +kernel
  obtain ⟨⟨a, s⟩, hstart, _, s', hdefine, -⟩ := hrun
  obtain ⟨c, hreach, rfl, has⟩ := newAddrspace_reaches hstart
  refine ⟨c, _, s', hreach, has, hdefine, fun hexact => ?_⟩
  have hright := (asDefineRegion_exact_iff (reaches_inv hreach).1.heap has (by decide) (by decide)
    (by decide) hdefine).mp hexact
  rcases hright with ⟨hinside, -⟩ | ⟨-, hfull, -⟩
  · exact absurd hinside (by decide)
  · exact absurd hfull (by decide)

/-! ### The stack -/

/-- A loadable segment, as `as_define_region` is told of it. -/
structure Segment where
  vaddr : ℕ
  memsize : ℕ
  readable : Bool
  writeable : Bool
  executable : Bool

/-- `as_define_region` for one segment after the other. -/
def defineRegions (d : ℕ) : List Segment → Kern Unit
  | [] => pure ()
  | g :: gs => do
    asDefineRegion d g.vaddr g.memsize g.readable g.writeable g.executable
    defineRegions d gs

/-- Address `a` is one of the `memsize` addresses from `vaddr` on, in 32 bits. -/
def InSegment (vaddr memsize a : ℕ) : Prop := (a + 2 ^ 32 - vaddr) % 2 ^ 32 < memsize

/-- **A stack of its own.**  The page that came into use from `s` to `s'` holds the word below the stack pointer, and
the 4096 addresses below the stack pointer are no addresses of the data segment. -/
structure StackApart (vaddr memsize stackptr : ℕ) (s s' : Kernel) : Prop where
  below : ∃ f, s.NewFrame s' f ∧
    ∀ k, 1 ≤ k → k ≤ 4 → (s'.mainPG f).pageNumber = pageOf ((stackptr + 2 ^ 32 - k) % 2 ^ 32)
  apart : ∀ k, 1 ≤ k → k ≤ 4096 → ¬ InSegment vaddr memsize ((stackptr + 2 ^ 32 - k) % 2 ^ 32)

/-- The data segment starts at least a word into its page, and its size is a number of whole pages that is counted in
16 bits or that the count takes for none. -/
def StackFits (vaddr memsize : ℕ) : Prop :=
  4 ≤ vaddr % pageSize ∧ (memsize % pageSize = 0 ∧ memsize / pageSize + 1 < 2 ^ 16 ∨
    (memsize / pageSize + 1) % 2 ^ 16 = 0 ∧ memsize ≤ 2 ^ 32 - pageSize)

instance (vaddr memsize : ℕ) : Decidable (StackFits vaddr memsize) :=
  inferInstanceAs (Decidable (_ ∧ (_ ∧ _ ∨ _ ∧ _)))

section Stack

variable {L : List ℕ} {d vaddr memsize : ℕ} {s s' : Kernel} {as : Addrspace} {u : Unit}

variable {before after : List Segment} {data : Segment} {sp : ℕ}

theorem defineRegions_append : ∀ {s : Kernel},
    defineRegions d (before ++ data :: after) s = .ok u s' → ∃ t, defineRegions d before s = .ok () t ∧ ∃ t',
      asDefineRegion d data.vaddr data.memsize data.readable data.writeable data.executable t = .ok () t' ∧
      defineRegions d after t' = .ok u s' := by
  induction before with
  | nil =>
    intro s hrun
    obtain ⟨_, t, hdefine, hrest⟩ := bind_ok_iff.mp hrun
    exact ⟨s, rfl, t, hdefine, hrest⟩
  | cons g gs ih =>
    intro s hrun
    obtain ⟨_, t, hfirst, hrest⟩ := bind_ok_iff.mp hrun
    obtain ⟨t₀, hbefore, hrest⟩ := ih hrest
    exact ⟨t₀, bind_ok_iff.mpr ⟨(), t, hfirst, hbefore⟩, hrest⟩

theorem defineRegions_code : ∀ {gs : List Segment} {s : Kernel} {as : Addrspace}, (∀ g ∈ gs, g.executable = true) →
    HeapInv L [] s → s.getas = some as → defineRegions d gs s = .ok u s' →
    HeapInv L [] s' ∧ ∃ as', s'.getas = some as' ∧ as'.vbaseData = as.vbaseData ∧
      as'.npagesData = as.npagesData := by
  intro gs
  induction gs with
  | nil =>
    intro s as _ h has hrun
    obtain ⟨-, rfl⟩ := pure_ok_iff.mp hrun
    exact ⟨h, as, has, rfl, rfl⟩
  | cons g gs ih =>
    intro s as hcode h has hrun
    obtain ⟨_, t, hfirst, hrest⟩ := bind_ok_iff.mp hrun
    obtain ⟨hinv, hget, -⟩ := asDefineRegion_allotted h has hfirst
    rw [hcode g List.mem_cons_self] at hget
    obtain ⟨hinv', as', hget', hbase, hcount⟩ :=
      ih (fun g' hg' => hcode g' (List.mem_cons_of_mem g hg')) hinv hget hrest
    exact ⟨hinv', as', hget', hbase, hcount⟩

theorem asPrepareLoad_allotted (h : HeapInv L [] s) (has : s.getas = some as)
    (hrun : asPrepareLoad d s = .ok u s') :
    s'.getas = some { as with vbaseStack := (as.vbaseData + pageSize * as.npagesData) % 2 ^ 32 } ∧
      ∃ f, Allotted (fun _ => f) (fun _ => pageOf ((as.vbaseData + pageSize * as.npagesData) % 2 ^ 32)) 1 s s' := by
  unfold asPrepareLoad at hrun
  simp only [bind_ok_iff, read_ok_iff] at hrun
  obtain ⟨_, _, ⟨rfl, rfl⟩, hrest⟩ := hrun
  rw [has] at hrest
  simp only [bind_ok_iff, update_ok_iff] at hrest
  obtain ⟨_, _, rfl, halloc⟩ := hrest
  have hsame := s.mapas_sameOwners fun as' =>
    { as' with vbaseStack := (as.vbaseData + pageSize * as.npagesData) % 2 ^ 32 }
  obtain ⟨-, hprocs, hcur, f, hallot⟩ := allocPages_allotted (hsame.heapInv h) halloc
  refine ⟨?_, f, hallot.of_sameOwners hsame (s.mapas_curPid _)⟩
  rw [getas_eq hprocs hcur, Kernel.mapas_getas, has]
  rfl

theorem asDefineStack_ok (has : s.getas = some as) (hrun : asDefineStack s = .ok sp s') :
    sp = as.vbaseStack ∧ as.vbaseStack ≠ 0 ∧ s' = s := by
  unfold asDefineStack at hrun
  simp only [bind_ok_iff, read_ok_iff] at hrun
  obtain ⟨_, _, ⟨rfl, rfl⟩, hrest⟩ := hrun
  rw [has] at hrest
  simp only [bind_ok_iff, kassert, require_ok_iff, pure_ok_iff] at hrest
  obtain ⟨_, _, ⟨hne, rfl⟩, rfl, rfl⟩ := hrest
  exact ⟨rfl, hne, rfl⟩

theorem asDefineStack_of_base (h : s.getas.map Addrspace.vbaseStack = some sp) (hne : sp ≠ 0) :
    asDefineStack s = .ok sp s := by
  obtain ⟨as, has, rfl⟩ := Option.map_eq_some_iff.mp h
  unfold asDefineStack
  simp only [bind_apply, read_apply, has, kassert, require_of hne, Prog.pure_apply]

theorem word_below_iff {a : ℕ} (ha : a < 2 ^ 32) :
    (∀ k, 1 ≤ k → k ≤ 4 → pageOf a = pageOf ((a + 2 ^ 32 - k) % 2 ^ 32)) ↔ 4 ≤ a % pageSize := by
  have hpage : ∀ x y, x < 2 ^ 32 → y < 2 ^ 32 → (pageOf x = pageOf y ↔ x / pageSize = y / pageSize) := by
    intro x y hx hy
    unfold pageOf pageSize
    rw [Fin.ext_iff]
    show x / 4096 % 2 ^ 20 = y / 4096 % 2 ^ 20 ↔ _
    omega
  constructor
  · intro h
    have h4 := (hpage a _ ha (Nat.mod_lt _ (by decide))).mp (h 4 (by decide) (by decide))
    unfold pageSize at *
    omega
  · intro h k hk hk4
    refine (hpage a _ ha (Nat.mod_lt _ (by decide))).mpr ?_
    unfold pageSize at *
    omega

theorem below_stack_iff (hmem : memsize < 2 ^ 32) (hv : vaddr < 2 ^ 32) :
    (∀ k, 1 ≤ k → k ≤ 4096 →
      ¬ InSegment vaddr memsize (((vaddr + pageSize * pagesFor memsize) % 2 ^ 32 + 2 ^ 32 - k) % 2 ^ 32)) ↔
    (memsize % pageSize = 0 ∧ memsize / pageSize + 1 < 2 ^ 16 ∨
      (memsize / pageSize + 1) % 2 ^ 16 = 0 ∧ memsize ≤ 2 ^ 32 - pageSize) := by
  unfold InSegment pagesFor pageSize
  -- how far below the pointer lies, counted from the start of the segment
  have hdist : ∀ k, 1 ≤ k → k ≤ 4096 → (((vaddr + 4096 * ((memsize / 4096 + 1) % 2 ^ 16)) % 2 ^ 32 + 2 ^ 32 - k) %
      2 ^ 32 + 2 ^ 32 - vaddr) % 2 ^ 32 = (4096 * ((memsize / 4096 + 1) % 2 ^ 16) + 2 ^ 32 - k) % 2 ^ 32 := by
    intro k _ _
    omega
  constructor
  · intro h
    have hlast := h 4096 (by decide) (by decide)
    rw [hdist 4096 (by decide) (by decide)] at hlast
    omega
  · intro h k hk hk'
    rw [hdist k hk hk']
    omega

theorem stackApart_iff {s₁ s₂ s₃ : Kernel} {stackptr : ℕ}
    (h : HeapInv L [] s) (has : s.getas = some as) (hbefore : ∀ g ∈ before, g.executable = true)
    (hdata : data.executable = false) (hafter : ∀ g ∈ after, g.executable = true) (hv : data.vaddr < 2 ^ 32)
    (hm : data.memsize < 2 ^ 32) (hregions : defineRegions d (before ++ data :: after) s = .ok () s₁)
    (hprepare : asPrepareLoad d s₁ = .ok () s₂) (hstack : asDefineStack s₂ = .ok stackptr s₃) :
    StackApart data.vaddr data.memsize stackptr s₁ s₂ ↔ StackFits data.vaddr data.memsize := by
  obtain ⟨hinv, as₁, has₁, hbase, hcount⟩ : HeapInv L [] s₁ ∧ ∃ as₁, s₁.getas = some as₁ ∧
      as₁.vbaseData = data.vaddr ∧ as₁.npagesData = pagesFor data.memsize := by
    obtain ⟨t₀, hfirst, t₁, hdefine, hrest⟩ := defineRegions_append hregions
    obtain ⟨hinv₀, as₀, has₀, -⟩ := defineRegions_code hbefore h has hfirst
    obtain ⟨hinv₁, hget, -⟩ := asDefineRegion_allotted hinv₀ has₀ hdefine
    rw [hdata] at hget
    obtain ⟨hinv₂, as₂, has₂, hbase, hcount⟩ := defineRegions_code hafter hinv₁ hget hrest
    exact ⟨hinv₂, as₂, has₂, hbase, hcount⟩
  obtain ⟨hget, f, hallot⟩ := asPrepareLoad_allotted hinv has₁ hprepare
  obtain ⟨rfl, -, -⟩ := asDefineStack_ok hget hstack
  simp only [hbase, hcount] at hallot ⊢
  set sp := (data.vaddr + pageSize * pagesFor data.memsize) % 2 ^ 32 with hsp
  have hword : 4 ≤ sp % pageSize ↔ 4 ≤ data.vaddr % pageSize := by
    rw [hsp]
    unfold pageSize
    omega
  have hrow : (s₂.mainPG f).pageNumber = pageOf sp := (hallot.row 0 Nat.one_pos).2.1
  have hbelow := word_below_iff (a := sp) (Nat.mod_lt _ (by decide))
  have hapart := below_stack_iff hm hv
  constructor
  · rintro ⟨⟨g, hg, hpage⟩, hout⟩
    obtain ⟨i, -, rfl⟩ := (hallot.only g hg.1).resolve_left hg.2
    rw [hrow] at hpage
    exact ⟨hword.mp (hbelow.mp hpage), hapart.mp hout⟩
  · rintro ⟨hoffset, hsize⟩
    refine ⟨⟨f, hallot.new 0 Nat.one_pos, ?_⟩, hapart.mpr hsize⟩
    rw [hrow]
    exact hbelow.mpr (hword.mpr hoffset)

end Stack

/-- **The stack does not overlap the data.**  In every state the kernel reaches, for any code segments and one data
segment: when `as_define_region` has returned for each, `as_prepare_load` has and `as_define_stack` gives a stack
pointer, the page allocated for the stack holds the word below the pointer and the page's worth of addresses below it
lies outside the data segment, if and only if `StackFits`. -/
theorem stack_apart_from_data_iff {ram first d stackptr : ℕ} {before after : List Segment} {data : Segment}
    {c : Client} {as : Addrspace} {s₁ s₂ s₃ : Kernel} (hreach : Reaches Step (Booted ram first) c)
    (has : c.kernel.getas = some as) (hbefore : ∀ g ∈ before, g.executable = true)
    (hdata : data.executable = false) (hafter : ∀ g ∈ after, g.executable = true) (hv : data.vaddr < 2 ^ 32)
    (hm : data.memsize < 2 ^ 32) (hregions : defineRegions d (before ++ data :: after) c.kernel = .ok () s₁)
    (hprepare : asPrepareLoad d s₁ = .ok () s₂) (hstack : asDefineStack s₂ = .ok stackptr s₃) :
    StackApart data.vaddr data.memsize stackptr s₁ s₂ ↔ StackFits data.vaddr data.memsize :=
  stackApart_iff (reaches_inv hreach).1.heap has hbefore hdata hafter hv hm hregions hprepare hstack

/-- A page of code, then a data segment. -/
def codeAndData (vaddr memsize : ℕ) : List Segment :=
  [⟨0x600000, 0x100, true, false, true⟩] ++ ⟨vaddr, memsize, true, true, false⟩ :: []

/-- The states in which the regions of a small program are defined and its stack is prepared at `stackptr`. -/
def preparedProgram (vaddr memsize stackptr : ℕ) : Option (Kernel × Kernel × Kernel) :=
  newAddrspace.bind fun (_, s) => (defineRegions 5 (codeAndData vaddr memsize) s).state?.bind fun s₁ =>
    (asPrepareLoad 5 s₁).state?.bind fun s₂ =>
      if s₂.getas.map Addrspace.vbaseStack = some stackptr ∧ stackptr ≠ 0 then some (s, s₁, s₂) else none

theorem preparedProgram_reaches {vaddr memsize stackptr : ℕ} {s s₁ s₂ : Kernel}
    (h : preparedProgram vaddr memsize stackptr = some (s, s₁, s₂)) :
    ∃ (c : Client) (as : Addrspace), Reaches Step (Booted 65536 12288) c ∧ c.kernel = s ∧
      s.getas = some as ∧ defineRegions 5 (codeAndData vaddr memsize) s = .ok () s₁ ∧
      asPrepareLoad 5 s₁ = .ok () s₂ ∧ asDefineStack s₂ = .ok stackptr s₂ := by
  obtain ⟨⟨a, t⟩, hstart, h⟩ := Option.bind_eq_some_iff.mp h
  obtain ⟨t₁, hregions, h⟩ := Option.bind_eq_some_iff.mp h
  obtain ⟨t₂, hprepare, h⟩ := Option.bind_eq_some_iff.mp h
  obtain ⟨⟨hbase, hne⟩, heq⟩ := Option.ite_none_right_eq_some.mp h
  simp only [Option.some.injEq, Prod.mk.injEq] at heq
  obtain ⟨rfl, rfl, rfl⟩ := heq
  obtain ⟨c, hreach, hc, has⟩ := newAddrspace_reaches hstart
  exact ⟨c, _, hreach, hc, has, state?_eq_some.mp hregions, state?_eq_some.mp hprepare,
    asDefineStack_of_base hbase hne⟩

/-- One page of data at `0x10000010`: the stack pointer is `0x10002010`. -/
theorem stack_apart_from_shifted_data : ∃ (c : Client) (as : Addrspace) (s₁ s₂ : Kernel),
    Reaches Step (Booted 65536 12288) c ∧ c.kernel.getas = some as ∧
    defineRegions 5 (codeAndData 0x10000010 0x1000) c.kernel = .ok () s₁ ∧
    asPrepareLoad 5 s₁ = .ok () s₂ ∧ asDefineStack s₂ = .ok 0x10002010 s₂ ∧
    StackApart 0x10000010 0x1000 0x10002010 s₁ s₂ := by
  have hrun : (preparedProgram 0x10000010 0x1000 0x10002010).isSome = true := by decide +kernel
  obtain ⟨⟨s, s₁, s₂⟩, hs⟩ := Option.isSome_iff_exists.mp hrun
  obtain ⟨c, as, hreach, rfl, has, hregions, hprepare, hstack⟩ := preparedProgram_reaches hs
  exact ⟨c, as, s₁, s₂, hreach, has, hregions, hprepare, hstack,
    (stack_apart_from_data_iff hreach has (by decide) rfl (by decide) (by decide) (by decide) hregions hprepare
      hstack).mpr (by decide)⟩

/-- `0x1200` bytes of data at `0x10000000`: the stack grows into the last of them. -/
theorem stack_overlaps_data : ∃ (c : Client) (as : Addrspace) (s₁ s₂ : Kernel),
    Reaches Step (Booted 65536 12288) c ∧ c.kernel.getas = some as ∧
    defineRegions 5 (codeAndData 0x10000000 0x1200) c.kernel = .ok () s₁ ∧
    asPrepareLoad 5 s₁ = .ok () s₂ ∧ asDefineStack s₂ = .ok 0x10002000 s₂ ∧
    ¬ StackApart 0x10000000 0x1200 0x10002000 s₁ s₂ := by
  have hrun : (preparedProgram 0x10000000 0x1200 0x10002000).isSome = true := by decide +kernel
  obtain ⟨⟨s, s₁, s₂⟩, hs⟩ := Option.isSome_iff_exists.mp hrun
  obtain ⟨c, as, hreach, rfl, has, hregions, hprepare, hstack⟩ := preparedProgram_reaches hs
  refine ⟨c, as, s₁, s₂, hreach, has, hregions, hprepare, hstack, fun hapart => ?_⟩
  exact hapart.apart 0x1000 (by decide) (by decide) (show _ < _ by decide)

end Os161Kernel
