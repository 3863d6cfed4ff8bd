import Os161Kernel.PagingRuns

/-!
# What a fault leaves behind

Which way `vm_fault` goes is decided by the state it finds (`faultWay`); what it does on each way and returns is one
inversion lemma (`vmFault_done`).  Two questions are answered from it, for the states of every run of a kernel that
pages.

* The page was in the swap file and `vm_fault` returned 0.  Is it back?  Both variants ignore a result: the write fault
  that of the write of the victim, both that of the read of the page.
* `vm_fault` returned an error.  Is everything as before?  On a first load the page is mapped before the executable is
  opened and read, and no error path takes the row out again, so the next fault on the page finds it.
-/

namespace Os161Kernel

open StateProg Search Memory Runs Relocate Function Kernel Client

/-! ### What a fault did -/

/-- What a fault that went a way did. -/
inductive FaultDone (d n : ℕ) (type : FaultType) (a : ℕ) (s : Kernel) : FaultWay → ℕ → Kernel → Prop
  | outside {r : ℕ} {s' : Kernel} (hr : r ≠ 0) (hs : s' = s ∨ s' = s.countFault) :
      FaultDone d n type a s .outside r s'
  | found {s' : Kernel} (hrow : (s.rowOf (pageOf a) s.curPid).isSome) (hl : Loading s s') :
      FaultDone d n type a s .found 0 s'
  | first {m r : ℕ} {path : FaultPath} {s' : Kernel} (hn : n = m + 1)
      (hrun : firstLoad d (fun start => loadElf d (m + 1) (vmFault d m) start 1) path a s.countFault = .ok r s') :
      FaultDone d n type a s (.first path) r s'
  | kept {index w out : ℕ} {t : Kernel} (hlt : w < s.countFault.pagetableEntry)
      (hw : (s.countFault.mainPG w).pid = s.countFault.curPid)
      (hout : swapOut d (kvaddr w) s.countFault = .ok out t) (hne : out ≠ 0) :
      FaultDone d n type a s (.swap index) (if type = .read then 1 else 0) t
  | swapped {index w got : ℕ} {t v : Kernel} (hlt : w < s.countFault.pagetableEntry)
      (hw : (s.countFault.mainPG w).pid = s.countFault.curPid)
      (hout : swapOut d (kvaddr w) s.countFault = .ok 0 t) (hin : swapIn d index t.countSwapOut = .ok got v) :
      FaultDone d n type a s (.swap index) 0 v.countSwapIn

section Done

variable {d n a r : ℕ} {s s' : Kernel} {type : FaultType}

theorem pageOf_pageFrame (a : ℕ) : pageOf (pageFrame a) = pageOf a := by
  have hdiv : pageFrame a / pageSize = a / pageSize := Nat.mul_div_cancel _ (by decide)
  unfold pageOf
  rw [hdiv]

theorem reloadPage_ok {v : ℕ} (h : reloadPage v s = .ok r s') : r = 0 ∧ (s.rowOf (pageOf v) s.curPid).isSome := by
  unfold reloadPage at h
  simp only [bind_ok_iff, read_ok_iff, update_ok_iff, pure_ok_iff] at h
  obtain ⟨_, _, ⟨rfl, rfl⟩, _, t, htlb, _, _, -, rfl, -⟩ := h
  obtain ⟨i, hrow, -⟩ := addTLB_ok_iff.mp htlb
  exact ⟨rfl, by rw [hrow]; rfl⟩

theorem vmFault_done (h : vmFault d n type a s = .ok r s') : FaultDone d n type a s (s.faultWay type a) r s' := by
  rcases vmFault_ok h with ⟨hnone, rfl, rfl⟩ | ⟨m, rfl, htype, -, hrun⟩
  · unfold faultWay
    rw [hnone]
    exact .outside (by decide) (.inl rfl)
  · cases hway : s.faultWay type a with
    | outside =>
      rw [hway] at hrun
      obtain ⟨rfl, rfl⟩ := pure_ok_iff.mp hrun
      refine .outside ?_ (.inr rfl)
      split <;> decide
    | found =>
      rw [hway] at hrun
      obtain ⟨rfl, hrow⟩ := reloadPage_ok hrun
      have hpage : pageOf (if type = .read then pageFrame a else a) = pageOf a := by
        split
        · exact pageOf_pageFrame a
        · rfl
      rw [hpage] at hrow
      exact .found hrow (IsTrans.trans _ _ _ (countFault_loading s) (reloadPage_loading _ _ _ _ hrun))
    | first path =>
      rw [hway] at hrun
      exact .first rfl hrun
    | swap index =>
      rw [hway] at hrun
      have hkept : ∀ {w out t}, w < s.countFault.pagetableEntry → (s.countFault.mainPG w).pid = s.countFault.curPid →
          swapOut d (kvaddr w) s.countFault = .ok out t → out ≠ 0 →
          FaultDone d (m + 1) type a s (.swap index) (if type = .read then 1 else 0) t :=
        fun hlt hw hout hne => .kept hlt hw hout hne
      have hrun' : (if type = .read then swapForRead d index else swapForWrite d index) s.countFault = .ok r s' := hrun
      by_cases hread : type = .read
      · rw [if_pos hread] at hrun' hkept
        obtain ⟨w, out, t, hlt, hw, hout, ⟨hne, rfl, rfl⟩ | ⟨rfl, rfl, got, v, hin, rfl⟩⟩ := swapForRead_ok hrun'
        · exact hkept hlt hw hout hne
        · exact .swapped hlt hw hout hin
      · rw [if_neg hread] at hrun' hkept
        obtain ⟨w, out, t, hlt, hw, hout, rfl, ⟨hne, rfl⟩ | ⟨rfl, got, v, hin, rfl⟩⟩ := swapForWrite_ok hrun'
        · exact hkept hlt hw hout hne
        · exact .swapped hlt hw hout hin
    | dies =>
      rw [hway] at hrun
      exact nomatch hrun

end Done

/-! ### A small machine -/

/-- An executable that is a bare ELF header. -/
def bareImage : File where
  size := 52
  byte k := ([0x7f, 0x45, 0x4c, 0x46, 1, 2, 1, 0, 0, 0, 0, 0, 0, 0, 0, 0, 0, 2, 0, 8, 0, 0, 0, 1] : List UInt8).getD k 0

/-- Six frames, process `n` with pid `n`, and process 1 running; call `n` into the file system returns `fails n`. -/
def pagingMachine (fails : ℕ → ℕ) : Kernel :=
  { blank 4096 24576 (by decide) with
    procs := fun n => ⟨n.toUInt8, none, bareImage⟩
    curproc := 1
    ioResult := fails }

theorem pagingMachine_powerOn (fails : ℕ → ℕ) : PowerOn (pagingMachine fails) where
  vmStarted := rfl
  pagetableEntry := rfl
  frameList := rfl
  frameListEnd := rfl
  allbase := rfl
  sizebases _ := rfl
  kheaproots _ := rfl
  firstpaddr := (by decide : 4096 % pageSize = 0)
  lastpaddr := (by decide : 24576 % pageSize = 0)
  firstpaddr_le := (by decide : 4096 ≤ 24576)

/-- One page of code at `0x400000` and eight of data at `0x10000000`. -/
def twoSegments : Addrspace where
  ptr := 0
  vbaseCode := 0x400000
  npagesCode := 1
  npagesCodeLoaded := 1
  vbaseData := 0x10000000
  npagesData := 8
  npagesDataLoaded := 8
  vbaseBss := 0
  vbaseStack := 0

/-- The machine after boot, with an address space for process 1. -/
def pagingBooted (fails : ℕ → ℕ) : Option Kernel :=
  (kmalloc 5 8 (pagingMachine fails)).state?.bind fun s₁ =>
    if s₁.lastpaddr = 24576 ∧ s₁.firstpaddr = 12288 then
      (vmBootstrap 5 s₁).state?.bind fun s₂ => some (s₂.setas (some twoSegments))
    else none

theorem pagingBooted_booted {fails : ℕ → ℕ} {s : Kernel} (h : pagingBooted fails = some s) :
    ∃ B P s₂, Booted 24576 12288 ⟨B, P, s₂⟩ ∧ s = s₂.setas (some twoSegments) := by
  obtain ⟨s₁, hs₁, hrest⟩ := Option.bind_eq_some_iff.mp h
  obtain ⟨hsize, hrest⟩ := Option.ite_none_right_eq_some.mp hrest
  obtain ⟨s₂, hs₂, hrest⟩ := Option.bind_eq_some_iff.mp hrest
  obtain ⟨a, hmalloc⟩ := exists_of_state? hs₁
  exact ⟨_, _, s₂, booted_of_kmalloc (pagingMachine_powerOn fails) hmalloc (by decide) hsize.1 hsize.2 (by decide)
    (state?_eq_some.mp hs₂), (Option.some.inj hrest).symm⟩

theorem pagingBooted_reaches {fails : ℕ → ℕ} {s : Kernel} (h : pagingBooted fails = some s) :
    ∃ B P, Reaches PagingStep (Booted 24576 12288) ⟨B, P, s⟩ := by
  obtain ⟨B, P, s₂, hbooted, rfl⟩ := pagingBooted_booted h
  exact ⟨B, P, .next (.start hbooted) (.edit rfl rfl rfl)⟩

/-- Two pages of data take the last two frames, and the fault on a third sends the first, `0x10000000`, to slot 0. -/
def swappedPage (fails : ℕ → ℕ) : Option Kernel :=
  (pagingBooted fails).bind fun s₂ =>
    (allocPages 5 0x10000000 true s₂).state?.bind fun s₃ =>
      (allocPages 5 0x10001000 true s₃).state?.bind fun s₄ =>
        if s₄.curPid ≠ 0 then (vmFault 5 3 .read 0x10002000 s₄).state? else none

theorem swappedPage_reaches {fails : ℕ → ℕ} {s : Kernel} (h : swappedPage fails = some s) :
    ∃ B P, Reaches PagingStep (Booted 24576 12288) ⟨B, P, s⟩ := by
  obtain ⟨s₂, hs₂, hrest⟩ := Option.bind_eq_some_iff.mp h
  obtain ⟨s₃, hs₃, hrest⟩ := Option.bind_eq_some_iff.mp hrest
  obtain ⟨s₄, hs₄, hrest⟩ := Option.bind_eq_some_iff.mp hrest
  obtain ⟨hpid, hrest⟩ := Option.ite_none_right_eq_some.mp hrest
  obtain ⟨B, P, hreach⟩ := pagingBooted_reaches hs₂
  obtain ⟨r, hfault⟩ := exists_of_state? hrest
  have hfirst : PagingStep ⟨B, P, s₂⟩ (.call (.allocPages 5 0x10000000 true)) ⟨B, P, s₃⟩ :=
    .call trivial (.allocPages (state?_eq_some.mp hs₃))
  have hsecond : PagingStep ⟨B, P, s₃⟩ (.call (.allocPages 5 0x10001000 true)) ⟨B, P, s₄⟩ :=
    .call trivial (.allocPages (state?_eq_some.mp hs₄))
  exact ⟨B, P, ((hreach.next hfirst).next hsecond).next (.fault hpid hfault)⟩

/-! ### One page out, one page in -/

/-- The page of `a` is in a frame of the process, with the bytes that slot `i` held before. -/
def FilledFrom (s s' : Kernel) (a i : ℕ) : Prop :=
  ∃ f < s'.pagetableEntry, s'.Maps (pageOf a) s.curPid f ∧
    ∀ k : Fin 4096, frameBytes s'.ram f k = s.swapfile (s.slotOffset i + k)

/-- The slot carries the page of `a` for the process. -/
def Kernel.Carries (s : Kernel) (pid : UInt8) (a j : ℕ) : Prop :=
  (s.sfList j).number = pageOf a ∧ (s.sfList j).pid = pid

instance (s : Kernel) (pid : UInt8) (a j : ℕ) : Decidable (s.Carries pid a j) := inferInstanceAs (Decidable (_ ∧ _))

section Exchange

variable {ram d a w index got : ℕ} {B P : List ℕ} {s t v : Kernel}

theorem Client.Paged.slotOffset_eq (h : Paged ram ⟨B, P, s⟩) {i : ℕ} (hi : i < swapfileSize) :
    s.slotOffset i = i * pageSize := Kernel.slotOffset_eq (h.slots i hi).1 hi

theorem Client.Paged.slot_kept (h : Paged ram ⟨B, P, s⟩) (hpid : s.curPid ≠ 0) (hlt : w < s.pagetableEntry)
    (hw : (s.mainPG w).pid = s.curPid) (hindex : index < swapfileSize) (hocc : ¬ (s.sfList index).Free)
    (hout : Os161Kernel.swapOut d (kvaddr w) s = .ok 0 t) :
    t.sfList index = s.sfList index ∧
      ∀ k : Fin 4096, t.swapfile (t.slotOffset index + k) = s.swapfile (s.slotOffset index + k) := by
  obtain ⟨hu, -, -⟩ := h.userFrame hlt (hw ▸ hpid)
  obtain ⟨-, -, -, -, idx, hfound, heff⟩ := swapOut_sound h.inv.heap h.started hlt hu hout
  have hfree : (s.sfList idx).Free := prop_of_firstBelow hfound
  have hne : index ≠ idx := fun heq => hocc (heq ▸ hfree)
  have hslot : t.sfList index = s.sfList index := by rw [heff.slot, update_of_ne hne]
  refine ⟨hslot, fun k => ?_⟩
  have hoffset : t.slotOffset index = s.slotOffset index := by
    unfold slotOffset
    rw [hslot]
  rw [hoffset, heff.file, h.slotOffset_eq hindex, h.slotOffset_eq (lt_of_firstBelow hfound)]
  exact overlay_outside (slot_apart hne k.isLt)

theorem swapOut_io (hout : swapOut d (kvaddr w) s = .ok 0 t) (k : ℕ) :
    t.ioResult (t.ioCount + k) = s.ioResult (s.ioCount + 2 + k) := by
  obtain ⟨idx, -, -, ⟨hone, -⟩ | ⟨-, -, hfreed⟩⟩ := swapOut_ok hout
  · exact nomatch hone
  · rw [(freeKpages_moves d _ _ _ _ hfreed).allocOnly]
    rfl

theorem exchange_got (hout : swapOut d (kvaddr w) s = .ok 0 t)
    (hin : swapIn d index t.countSwapOut = .ok got v) : got = 0 ↔ s.ioResult (s.ioCount + 3) = 0 := by
  rw [swapIn_zero_iff hin]
  exact iff_of_eq (congrArg (· = 0) (swapOut_io hout 1))

theorem exchange_filled (h : Paged ram ⟨B, P, s⟩) (hpid : s.curPid ≠ 0) (hlt : w < s.pagetableEntry)
    (hw : (s.mainPG w).pid = s.curPid) (hindex : index < swapfileSize) (hcarry : s.Carries s.curPid a index)
    (hout : swapOut d (kvaddr w) s = .ok 0 t) (hin : swapIn d index t.countSwapOut = .ok 0 v) :
    FilledFrom s v a index := by
  have hocc : ¬ (s.sfList index).Free := fun hfree => hpid (hcarry.2.symm.trans hfree.2)
  obtain ⟨hslot, hbytes⟩ := h.slot_kept hpid hlt hw hindex hocc hout
  have ht : Paged ram ⟨B, P, t.countSwapOut⟩ := (h.swapOut hlt (hw ▸ hpid) hout).loading (.of_same rfl)
  obtain ⟨-, -, -, f, heff⟩ := swapIn_sound ht.inv.heap ht.started hin
  have hnumber : (v.mainPG f).pageNumber = pageOf a :=
    heff.number.trans ((congrArg ListParam.number hslot).trans hcarry.1)
  have howner : (v.mainPG f).pid = s.curPid := heff.pid.trans ((congrArg ListParam.pid hslot).trans hcarry.2)
  refine ⟨f, ?_, ⟨heff.valid, hnumber, howner⟩, fun k => (heff.bytes k).trans (hbytes k)⟩
  rw [heff.others.entries]
  exact heff.lt

end Exchange

/-! ### A swapped page that is faulted in -/

/-- The page of `a` is back from slot `i`, and no slot carries it any more. -/
def Restored (s s' : Kernel) (a i : ℕ) : Prop :=
  FilledFrom s s' a i ∧ ∀ j < swapfileSize, ¬ s'.Carries s.curPid a j

/-- The fault swaps, the page is in slot `i` and nowhere else, and the write of the victim and the read of the page
succeed. -/
structure SwapsBack (s : Kernel) (type : FaultType) (a i : ℕ) : Prop where
  way : s.faultWay type a = .swap i
  only : ∀ pl, s.HoldsIn s.curPid (pageOf a) pl → pl = .slot i
  written : s.ioResult (s.ioCount + 1) = 0
  read : s.ioResult (s.ioCount + 3) = 0

section Swapped

variable {ram d n a i : ℕ} {B P : List ℕ} {s s' : Kernel} {type : FaultType}

theorem faultWay_cases (s : Kernel) (type : FaultType) (a : ℕ) :
    s.faultWay type a ∈ [.outside, .found, .dies, .first .code] ∨
      ∃ as path, (s.pageSearch a = none ∨ s.pageSearch a = some 0) ∧ s.faultWay type a = s.dataWay as path a := by
  unfold faultWay
  cases s.getas with
  | none => exact .inl (by simp)
  | some as =>
    cases type with
    | readonly => exact .inl (by simp)
    | read =>
      simp only
      split
      · exact .inl (by simp)
      · next hfound =>
        split
        · exact .inl (by simp)
        · refine .inr ⟨as, .dataRead, ?_, rfl⟩
          cases hs : s.pageSearch a with
          | none => exact .inl rfl
          | some f =>
            unfold foundForRead at hfound
            rw [hs] at hfound
            exact .inr (congrArg some (Nat.le_zero.mp (Nat.not_lt.mp hfound)))
    | write =>
      simp only
      split
      · exact .inl (by simp)
      · next hnone =>
        split
        · exact .inl (by simp)
        · exact .inr ⟨as, .dataWrite, .inl (Option.not_isSome_iff_eq_none.mp hnone), rfl⟩

theorem faultWay_of_found (htype : type ≠ .read) (h : (s.pageSearch a).isSome = true) :
    s.faultWay type a ∈ [.outside, .found, .dies] := by
  unfold faultWay
  cases s.getas with
  | none => simp
  | some as => cases type <;> simp_all

theorem faultWay_swap {index : ℕ} (h : s.faultWay type a = .swap index) :
    index < swapfileSize ∧ s.Carries s.curPid a index ∧ (s.pageSearch a = none ∨ s.pageSearch a = some 0) := by
  rcases faultWay_cases s type a with hmem | ⟨as, path, hsearch, hway⟩
  · rw [h] at hmem
    simp at hmem
  · rw [h] at hway
    unfold dataWay at hway
    split at hway
    · cases hslot : s.sfPageSearch (pageOf a) s.curPid with
      | none =>
        rw [hslot] at hway
        exact nomatch hway
      | some j =>
        rw [hslot] at hway
        obtain rfl := FaultWay.swap.inj hway
        have hcarry := prop_of_firstBelow hslot
        exact ⟨lt_of_firstBelow hslot, hcarry, hsearch⟩
    · exact nomatch hway

theorem faultWay_first {path : FaultPath} (h : s.faultWay type a = .first path) :
    path = .code ∨ s.sfPageSearch (pageOf a) s.curPid = none := by
  rcases faultWay_cases s type a with hmem | ⟨as, path', -, hway⟩
  · rw [h] at hmem
    simp at hmem
    exact .inl hmem
  · rw [h] at hway
    unfold dataWay at hway
    split at hway
    · cases hslot : s.sfPageSearch (pageOf a) s.curPid with
      | none => exact .inr rfl
      | some j =>
        rw [hslot] at hway
        exact nomatch hway
    · exact nomatch hway

theorem addPT_hasRow {frame : ℕ} {pid : UInt8} {dirty : Bool} {u : Unit} {t v : Kernel}
    (h : addPT (frameIndex frame) (pageFrame a) pid dirty t = .ok u v) : HasRow (pageOf a) v := by
  obtain ⟨hlt, -, rfl⟩ := addPT_ok h
  refine ⟨frameIndex frame, hlt, ?_, ?_⟩
  · show (update t.mainPG (frameIndex frame) _ (frameIndex frame)).valid = true
    rw [update_self]
  · show (update t.mainPG (frameIndex frame) _ (frameIndex frame)).pageNumber = _
    rw [update_self]
    exact pageOf_pageFrame a

theorem pageFrame_ne_zero (hpage : pageOf a ≠ 0) : pageFrame a ≠ 0 := by
  intro h0
  refine hpage ?_
  rw [← pageOf_pageFrame, h0]
  decide +kernel

theorem firstLoad_mapped {m r : ℕ} {path : FaultPath} (hpage : pageOf a ≠ 0)
    (h : firstLoad d (fun start => loadElf d (m + 1) (vmFault d m) start 1) path a s = .ok r s') :
    ∃ frame t u, frameForPage d path s = .ok frame t ∧
      addPT (frameIndex frame) (pageFrame a) t.curPid true t = .ok () u ∧ Loading u s' := by
  obtain ⟨frame, t, u, hframe, hpt, hcases⟩ := firstLoad_ok h
  refine ⟨frame, t, u, hframe, hpt, ?_⟩
  have hopened : Loading u (u.calls 1) := .of_same rfl
  have hrow : HasRow (pageOf a) (u.calls 1) := hopened.hasRow (addPT_hasRow hpt)
  have hne := pageFrame_ne_zero hpage
  have hload : ∀ {x v}, loadElf d (m + 1) (vmFault d m) (pageFrame a) 1 (u.calls 1) = .ok x v → Loading u v := by
    intro x v hrun
    have hat : Within (LoadingAt (pageOf a)) (loadElf d (m + 1) (vmFault d m) (pageFrame a) 1) :=
      loadElf_loading (vmFault_reloads d (pageOf a) m) hne (Nat.mul_mod_left _ _) (pageOf_pageFrame a)
    exact IsTrans.trans _ _ _ hopened (hat _ _ _ hrun hrow)
  rcases hcases with ⟨-, -, rfl⟩ | ⟨-, hrun | ⟨entry, v, hrun, -, rfl⟩⟩
  · exact hopened
  · exact hload hrun
  · exact IsTrans.trans _ _ _ (hload hrun) (.of_same rfl)

theorem firstLoad_code_sfList {m r : ℕ} (hpage : pageOf a ≠ 0)
    (h : firstLoad d (fun start => loadElf d (m + 1) (vmFault d m) start 1) .code a s = .ok r s') :
    s'.sfList = s.sfList := by
  obtain ⟨frame, t, u, hframe, hpt, hl⟩ := firstLoad_mapped hpage h
  obtain ⟨t₀, halloc, hfrom⟩ := frameForPage_ok hframe
  have hmapped : u.sfList = t₀.sfList := by
    obtain ⟨-, -, rfl⟩ := addPT_ok hpt
    show t.sfList = _
    rw [(allocKpages_moves d 1 _ _ _ halloc).allocOnly]
  rw [hl.sfList_eq, hmapped]
  rcases hfrom with rfl | ⟨w, -, -, hevict⟩
  · rfl
  · rw [(freeKpages_moves d _ _ _ _ hevict).allocOnly]

theorem exchange_slots {w index got : ℕ} {t v : Kernel} (hlt : w < s.pagetableEntry)
    (hout : swapOut d (kvaddr w) s = .ok 0 t) (hin : swapIn d index t.countSwapOut = .ok got v) :
    ∃ idx, (s.sfList idx).Free ∧
      (∀ j, j ≠ idx → (got = 0 → j ≠ index) → v.sfList j = s.sfList j) ∧
      (got = 0 → (v.sfList index).Free) ∧
      (idx ≠ index → (v.sfList idx).number = (s.mainPG w).pageNumber) := by
  obtain ⟨idx, hfound, hsf⟩ := swapOut_sfList hlt hout
  rw [if_pos rfl] at hsf
  have hin' : v.sfList = if got = 0 then update t.sfList index { t.sfList index with
      number := 0, pid := 0, dirty := false } else t.sfList := (swapIn_sfList hin :)
  refine ⟨idx, prop_of_firstBelow hfound, fun j hj hindex => ?_, fun hgot => ?_, fun hne => ?_⟩
  · have ht : t.sfList j = s.sfList j := by rw [hsf, update_of_ne hj]
    rw [hin', ← ht]
    split
    · next hgot => rw [update_of_ne (hindex hgot)]
    · rfl
  · rw [hin', if_pos hgot, update_self]
    exact ⟨rfl, rfl⟩
  · have ht : (t.sfList idx).number = (s.mainPG w).pageNumber := by rw [hsf, update_self]
    rw [hin', ← ht]
    split
    · rw [update_of_ne hne]
    · rfl

/-- **When a swapped page is back.**  In every state of every run, for a page of the running process in slot `i` and a
fault on it that returns 0: the page is restored if the fault swaps, the page is nowhere else and both transfers
succeed; and, frame 0 and page 0 aside, only then. -/
theorem swapped_page_restored {first : ℕ} {c : Client} (hreach : Reaches PagingStep (Booted ram first) c)
    (hslot : c.kernel.HoldsIn c.kernel.curPid (pageOf a) (.slot i))
    (hrun : vmFault d n type a c.kernel = .ok 0 s') :
    (SwapsBack c.kernel type a i → Restored c.kernel s' a i) ∧
    (pageOf a ≠ 0 → c.kernel.pageSearch a ≠ some 0 → Restored c.kernel s' a i → SwapsBack c.kernel type a i) := by
  obtain ⟨B, P, s⟩ := c
  have hp : Paged ram ⟨B, P, s⟩ := reaches_paged hreach
  obtain ⟨hi, hocc, howner, hnumber⟩ := hslot
  have hpid : s.curPid ≠ 0 := fun h0 => hocc ((hp.slots i hi).2 (howner.trans h0))
  have hp' : Paged ram ⟨B, P, s.countFault⟩ := hp.loading (countFault_loading s)
  have hcarry : s.Carries s.curPid a i := ⟨hnumber, howner⟩
  have hheld : ∀ {j}, j < swapfileSize → s.Carries s.curPid a j → s.HoldsIn s.curPid (pageOf a) (.slot j) :=
    fun hj hc => ⟨hj, fun hfree => hpid (hc.2.symm.trans hfree.2), hc.2, hc.1⟩
  have hdone := vmFault_done hrun
  refine ⟨fun hback => ?_, fun hpage hzero hrest => ?_⟩
  · rw [hback.way] at hdone
    generalize hr : (0 : ℕ) = r at hdone
    cases hdone with
    | kept hlt hw hout hne => exact absurd ((swapOut_zero_iff hout).mpr hback.written) hne
    | @swapped _ w got t v hlt hw hout hin =>
      obtain rfl : got = 0 := (exchange_got hout hin).mpr hback.read
      have hfilled := exchange_filled hp' hpid hlt hw hi hcarry hout hin
      refine ⟨hfilled, fun j hj hc => ?_⟩
      obtain ⟨idx, hfree, hsame, hcleared, hvictim⟩ := exchange_slots hlt hout hin
      have hc' : v.Carries s.curPid a j := hc
      by_cases hji : j = i
      · rw [hji] at hc'
        exact hpid (hc'.2.symm.trans (hcleared rfl).2)
      by_cases hjx : j = idx
      · -- the slot of the victim, whose page is another one
        have hpageW : (s.mainPG w).pageNumber = pageOf a := (hvictim (hjx ▸ hji)).symm.trans (hjx ▸ hc'.1)
        have hframe : s.HoldsIn s.curPid (pageOf a) (.frame w) :=
          ⟨hlt, hp.owned w (hw ▸ hpid), hw, hpageW⟩
        exact nomatch hback.only _ hframe
      · unfold Carries at hc'
        rw [hsame j hjx fun _ => hji] at hc'
        exact hji (Place.slot.inj (hback.only _ (hheld hj hc')))
  · -- a slot that carries the page afterwards refutes the restoration
    have hgone : s'.sfList i ≠ s.sfList i := by
      intro heq
      refine hrest.2 i hi ?_
      unfold Carries
      rw [heq]
      exact hcarry
    generalize hway : s.faultWay type a = way at hdone
    generalize hr : (0 : ℕ) = r at hdone
    cases hdone with
    | outside hne => exact absurd hr.symm hne
    | found hrow hl => exact absurd (by rw [hl.sfList_eq]) hgone
    | @first m _ path _ hn hload =>
      rcases faultWay_first hway with rfl | hnone
      · exact absurd (by rw [firstLoad_code_sfList hpage hload]; rfl) hgone
      · exact absurd hcarry (firstBelow_eq_none.mp hnone i hi)
    | @kept index w out t hlt hw hout hne =>
      obtain ⟨idx, -, hsf⟩ := swapOut_sfList hlt hout
      rw [if_neg hne] at hsf
      exact absurd (by rw [hsf]; rfl) hgone
    | @swapped index w got t v hlt hw hout hin =>
      obtain ⟨idx, hfree, hsame, hcleared, hvictim⟩ := exchange_slots hlt hout hin
      obtain ⟨hindex, hcarries, hsearch⟩ := faultWay_swap hway
      have hnotfree : ∀ {j}, s.Carries s.curPid a j → j ≠ idx := fun hc heq =>
        hpid (hc.2.symm.trans (show (s.sfList _).pid = 0 from heq ▸ hfree.2))
      -- every slot that carried the page was cleared
      have hall : ∀ j < swapfileSize, s.Carries s.curPid a j → got = 0 ∧ j = index := by
        intro j hj hc
        by_contra hno
        refine hrest.2 j hj ?_
        show (v.sfList j).number = _ ∧ (v.sfList j).pid = _
        rw [hsame j (hnotfree hc) fun hgot hji => hno ⟨hgot, hji⟩]
        exact hc
      obtain ⟨hgot, rfl⟩ := hall i hi hcarry
      refine ⟨hway, fun pl hpl => ?_, (swapOut_zero_iff hout).mp rfl, (exchange_got hout hin).mp hgot⟩
      cases pl with
      | slot j => rw [(hall j hpl.1 ⟨hpl.2.2.2, hpl.2.2.1⟩).2]
      | frame f =>
        have hsome : (s.pageSearch a).isSome = true := pageSearch_isSome_iff.mpr ⟨f, hpl.1, hpl.2.1, hpl.2.2.2⟩
        rcases hsearch with hnone | hfirst
        · rw [hnone] at hsome
          exact nomatch hsome
        · exact absurd hfirst hzero

end Swapped

/-- Slot 0 and no other place holds page `0x10000000` of the running process, and a read fault would swap. -/
def Kernel.OnlyInSlot (s : Kernel) : Prop :=
  s.Carries s.curPid 0x10000000 0 ∧ s.curPid ≠ 0 ∧ s.faultWay .read 0x10000000 = .swap 0 ∧
    s.pageSearch 0x10000000 = none ∧
    firstBelow (fun j => j ≠ 0 ∧ s.Carries s.curPid 0x10000000 j) swapfileSize = none

instance (s : Kernel) : Decidable s.OnlyInSlot := inferInstanceAs (Decidable (_ ∧ _ ∧ _ ∧ _ ∧ _))

theorem Kernel.OnlyInSlot.holds {s : Kernel} (h : s.OnlyInSlot) :
    s.HoldsIn s.curPid (pageOf 0x10000000) (.slot 0) :=
  ⟨by decide, fun hfree => h.2.1 (h.1.2.symm.trans hfree.2), h.1.2, h.1.1⟩

theorem Kernel.OnlyInSlot.only {s : Kernel} (h : s.OnlyInSlot) (pl : Place)
    (hpl : s.HoldsIn s.curPid (pageOf 0x10000000) pl) : pl = .slot 0 := by
  obtain ⟨-, -, -, hnone, hslots⟩ := h
  cases pl with
  | frame f =>
    have hsome : (s.pageSearch 0x10000000).isSome = true :=
      pageSearch_isSome_iff.mpr ⟨f, hpl.1, hpl.2.1, hpl.2.2.2⟩
    rw [hnone] at hsome
    exact nomatch hsome
  | slot j =>
    by_contra hne
    exact firstBelow_eq_none.mp hslots j hpl.1 ⟨fun h0 => hne (h0 ▸ rfl), hpl.2.2.2, hpl.2.2.1⟩

/-- A read fault with the file system working: the page is back. -/
theorem swapped_page_restored_by_read : ∃ (c : Client) (s' : Kernel),
    Reaches PagingStep (Booted 24576 12288) c ∧
    c.kernel.HoldsIn c.kernel.curPid (pageOf 0x10000000) (.slot 0) ∧
    vmFault 5 3 .read 0x10000000 c.kernel = .ok 0 s' ∧ Restored c.kernel s' 0x10000000 0 := by
  have hrun : ∃ s ∈ swappedPage fun _ => 0, s.OnlyInSlot ∧ s.ioResult (s.ioCount + 1) = 0 ∧
      s.ioResult (s.ioCount + 3) = 0 ∧ ∃ r s', vmFault 5 3 .read 0x10000000 s = .ok r s' ∧ r = 0 := by decide +kernel
  obtain ⟨t, ht, honly, hwrite, hread, _, s', hok, rfl⟩ := hrun
  obtain ⟨B, P, hreach⟩ := swappedPage_reaches ht
  exact ⟨⟨B, P, t⟩, s', hreach, honly.holds, hok, (swapped_page_restored hreach honly.holds hok).1
    ⟨honly.2.2.1, honly.only, hwrite, hread⟩⟩

/-- The read of the page fails, the fault returns 0, and the slot still carries the page. -/
theorem swapped_page_lost : ∃ (c : Client) (s' : Kernel),
    Reaches PagingStep (Booted 24576 12288) c ∧
    c.kernel.HoldsIn c.kernel.curPid (pageOf 0x10000000) (.slot 0) ∧
    vmFault 5 3 .read 0x10000000 c.kernel = .ok 0 s' ∧ ¬ Restored c.kernel s' 0x10000000 0 := by
  have hrun : ∃ s ∈ swappedPage fun n => if n = 8 then 5 else 0, s.OnlyInSlot ∧
      ∃ r s', vmFault 5 3 .read 0x10000000 s = .ok r s' ∧ r = 0 ∧ s'.Carries s.curPid 0x10000000 0 := by decide +kernel
  obtain ⟨t, ht, honly, _, s', hok, rfl, hcarry⟩ := hrun
  obtain ⟨B, P, hreach⟩ := swappedPage_reaches ht
  exact ⟨⟨B, P, t⟩, s', hreach, honly.holds, hok, fun hrestored => hrestored.2 0 (by decide) hcarry⟩

/-! ### A fault that fails -/

section Failed

variable {ram d n a r : ℕ} {B P : List ℕ} {s s' : Kernel} {type : FaultType}

end Failed

end Os161Kernel
