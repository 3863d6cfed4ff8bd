import Os161Kernel.DemandLoad
import Os161Kernel.StoreFaults

/-!
# The sums of the counters

`vm_fault` counts a fault when it starts and what it did when it is done, and `print_vm_stat` compares the sums.  The
faults within a fault are reloads and keep the balance (`DemandLoad`).  A first load counts its page if and only if it
returns 0 (`firstLoad_counted`), and a page that comes back from the swap file is counted if its victim was written out.
A fault that fails in between, or is for an address outside the segments, was counted when it started and is not made up
for: the sums are unequal from then on.

`statistics_balance`: they are equal in every run whose faults are all served.
-/

namespace Os161Kernel

open StateProg Search Memory Runs Kernel

/-! ### Calls that count no page -/

/-- `k` calls into the file system were made; the processes and the sums of the counters are as they were. -/
structure Steady (k : ℕ) (s s' : Kernel) : Prop where
  procs : s'.procs = s.procs
  curproc : s'.curproc = s.curproc
  started : s'.vmStarted = s.vmStarted
  entries : s'.pagetableEntry = s.pagetableEntry
  answers : s'.ioResult = s.ioResult
  calls : s'.ioCount = s.ioCount + k
  excess : s'.stats.excess = s.stats.excess
  pages : s'.stats.pages = s.stats.pages

namespace Steady

variable {j k : ℕ} {s t u : Kernel}

theorem trans (h : Steady j s t) (h' : Steady k t u) : Steady (j + k) s u where
  procs := h'.procs.trans h.procs
  curproc := h'.curproc.trans h.curproc
  started := h'.started.trans h.started
  entries := h'.entries.trans h.entries
  answers := h'.answers.trans h.answers
  calls := by rw [h'.calls, h.calls, Nat.add_assoc]
  excess := h'.excess.trans h.excess
  pages := h'.pages.trans h.pages

theorem of_allocOnly (h : AllocOnly s t) : Steady 0 s t := by
  constructor <;> rw [h]
  rfl

theorem cur_eq (h : Steady k s t) : t.cur = s.cur := by
  unfold cur
  rw [h.procs, h.curproc]

theorem getas_eq (h : Steady k s t) : t.getas = s.getas := congrArg Proc.addrspace h.cur_eq

theorem vfsCall (s : Kernel) : Steady 1 s (s.calls 1) := ⟨rfl, rfl, rfl, rfl, rfl, rfl, rfl, rfl⟩

end Steady

section Calls

variable {d w r index : ℕ} {s s' : Kernel} {path : FaultPath}

theorem addPT_steady {i v : ℕ} {pid : UInt8} {dirty : Bool} {u : Unit} (h : addPT i v pid dirty s = .ok u s') :
    Steady 0 s s' := by
  obtain ⟨-, -, rfl⟩ := addPT_ok h
  exact ⟨rfl, rfl, rfl, rfl, rfl, rfl, rfl, rfl⟩

theorem addTLB_steady {v : ℕ} {pid : UInt8} {u : Unit} (h : addTLB v pid s = .ok u s') : Steady 0 s s' := by
  have hcalled := addTLB_called h
  have hcur : s'.curproc = s.curproc := by rw [hcalled.loading.same]
  exact ⟨hcalled.procs, hcur, hcalled.loading.started, hcalled.loading.entries, hcalled.loading.ioResult_eq,
    hcalled.calls, hcalled.excess, hcalled.pages⟩

theorem swapOut_steady {address : ℕ} (h : swapOut d address s = .ok r s') : Steady 2 s s' := by
  have hcalls : Steady 2 s (s.calls 2) := ⟨rfl, rfl, rfl, rfl, rfl, rfl, rfl, rfl⟩
  obtain ⟨index, -, -, ⟨-, -, rfl⟩ | ⟨-, -, hfree⟩⟩ := swapOut_ok h
  · exact hcalls
  · have hstored : Steady 2 s (((s.calls 2).writeSlot index (frameIndex address)).enterSlot index
        (frameIndex address)) := ⟨rfl, rfl, rfl, rfl, rfl, rfl, rfl, rfl⟩
    exact hstored.trans (.of_allocOnly (freeKpages_moves d _ _ _ _ hfree).allocOnly)

theorem swapIn_steady (h : swapIn d index s = .ok r s') : Steady 2 s s' := by
  obtain ⟨a, t, t₁, t₂, halloc, -, hpt, htlb, hcases⟩ := swapIn_ok h
  have hmapped := ((Steady.of_allocOnly (allocKpages_moves d 1 _ _ _ halloc).allocOnly).trans (addPT_steady hpt)).trans
    (addTLB_steady htlb)
  have hlast : Steady 2 t₂ s' := by
    rcases hcases with ⟨-, -, rfl⟩ | ⟨-, -, rfl⟩
    · exact ⟨rfl, rfl, rfl, rfl, rfl, rfl, rfl, rfl⟩
    · exact ⟨rfl, rfl, rfl, rfl, rfl, rfl, rfl, rfl⟩
  exact hmapped.trans hlast

theorem exchange_steady {address got : ℕ} {t v : Kernel} (hout : swapOut d address s = .ok r t)
    (hin : swapIn d index t.countSwapOut = .ok got v) : Steady 4 s v := by
  have hcounted : Steady 0 t t.countSwapOut := ⟨rfl, rfl, rfl, rfl, rfl, rfl, rfl, rfl⟩
  exact ((swapOut_steady hout).trans hcounted).trans (swapIn_steady hin)

/-- The calls to write out a victim, when a first load needs one. -/
def Kernel.victimCalls (s : Kernel) (path : FaultPath) : ℕ := if path ≠ .code ∧ s.NoFrames then 2 else 0

theorem evictPage_steady {address : ℕ} {u : Unit} (h : evictPage d path address s = .ok u s') :
    Steady (if path ≠ .code then 2 else 0) s s' := by
  rcases evictPage_ok h with ⟨rfl, hfree⟩ | ⟨hne, r, t, hout, rfl⟩
  · exact .of_allocOnly (freeKpages_moves d _ _ _ _ hfree).allocOnly
  · rw [if_pos hne]
    have hcounted : Steady 0 t t.countSwapOut := ⟨rfl, rfl, rfl, rfl, rfl, rfl, rfl, rfl⟩
    exact (swapOut_steady hout).trans hcounted

theorem frameForPage_steady {frame : ℕ} (hs : s.vmStarted = true) (h : frameForPage d path s = .ok frame s') :
    Steady (s.victimCalls path) s s' := by
  unfold frameForPage at h
  obtain ⟨a, t, halloc, hrest⟩ := bind_ok_iff.mp h
  unfold victimCalls
  split at hrest
  · next h0 =>
    rw [h0] at halloc
    obtain ⟨rfl, hempty⟩ := noFrames_of_allocKpages halloc
    obtain ⟨victim, v, hchoose, hrest⟩ := bind_ok_iff.mp hrest
    obtain ⟨_, v', hevict, halloc'⟩ := bind_ok_iff.mp hrest
    obtain ⟨rfl, -⟩ := chooseVictim_ok hchoose
    have hevicted := evictPage_steady hevict
    simp only [hempty, and_true]
    exact hevicted.trans (.of_allocOnly (allocKpages_moves d 1 _ _ _ halloc').allocOnly)
  · next hne =>
    obtain ⟨rfl, rfl⟩ := pure_ok_iff.mp hrest
    have hframes : ¬ s.NoFrames := by
      intro hempty
      cases d with
      | zero => exact nomatch halloc
      | succ d =>
        rw [allocKpages_noFrames hs hempty] at halloc
        exact hne (Outcome.ok.inj halloc).1.symm
    rw [if_neg fun hboth => hframes hboth.2]
    exact .of_allocOnly (allocKpages_moves d 1 _ _ _ halloc).allocOnly

end Calls

/-! ### First loads -/

theorem loadElf_error_ne {d tries start npages e : ℕ} {fault : FaultHandler} {s s' : Kernel}
    (h : loadElf d tries fault start npages s = .ok (.error e) s') : e ≠ 0 := by
  have hpure : ∀ {n : ℕ} {t : Kernel}, n ≠ 0 → (pure (.error n) : Kern (Except ℕ ℕ)) t = .ok (.error e) s' → e ≠ 0 := by
    intro n t hn hrun
    obtain ⟨heq, -⟩ := pure_ok_iff.mp hrun
    exact Except.error.inj heq ▸ hn
  have henoexec : enoexec ≠ 0 := by decide
  unfold loadElf at h
  obtain ⟨header, t, -, hrest⟩ := bind_ok_iff.mp h
  split at hrest
  · next hne => exact hpure hne hrest
  · split at hrest
    · exact hpure henoexec hrest
    · obtain ⟨file, u, -, hrest⟩ := bind_ok_iff.mp hrest
      split at hrest
      · obtain ⟨defined, v, -, hrest⟩ := bind_ok_iff.mp hrest
        split at hrest
        · next hne => exact hpure hne hrest
        · obtain ⟨_, _, -, hrest⟩ := bind_ok_iff.mp hrest
          obtain ⟨loaded, w, -, hrest⟩ := bind_ok_iff.mp hrest
          split at hrest
          · next hne => exact hpure hne hrest
          · cases (pure_ok_iff.mp hrest).1
      · exact hpure henoexec hrest

theorem Kernel.answersOk_succ {s : Kernel} {i k : ℕ} :
    s.AnswersOk i (1 + k) ↔ s.ioResult i = 0 ∧ s.AnswersOk (i + 1) k := by
  constructor
  · exact fun h => ⟨h i (Nat.le_refl i) (by omega), fun j hlow hhigh => h j (by omega) (by omega)⟩
  · rintro ⟨hfirst, hrest⟩ j hlow hhigh
    by_cases hj : j = i
    · rw [hj]
      exact hfirst
    · exact hrest j (by omega) (by omega)

/-- The first load of the page succeeds: the executable has the page, and the calls that open and read it return 0. -/
structure Kernel.LoadsPage (s : Kernel) (as : Addrspace) (path : FaultPath) (a : ℕ) : Prop where
  file : DemandOk s.cur.image as (pageFrame a)
  answers : s.AnswersOk (s.ioCount + s.victimCalls path) (1 + demandCalls s.cur.image as (pageFrame a))

theorem Kernel.loadsPage_countFault {s : Kernel} {as : Addrspace} {path : FaultPath} {a : ℕ} :
    s.countFault.LoadsPage as path a ↔ s.LoadsPage as path a :=
  ⟨fun h => ⟨h.file, h.answers⟩, fun h => ⟨h.file, h.answers⟩⟩

/-- One more page from the disk, from the executable or from the swap file. -/
def VmStats.elfPage (st : VmStats) : UInt32 × UInt32 × UInt32 × UInt32 :=
  (st.pfZeroed, st.pfDisk + 1, st.pfElf + 1, st.pfSwapfile)

def VmStats.swapPage (st : VmStats) : UInt32 × UInt32 × UInt32 × UInt32 :=
  (st.pfZeroed, st.pfDisk + 1, st.pfElf, st.pfSwapfile + 1)

namespace VmStats

variable {st st' : VmStats} {z k e w : UInt32}

theorem of_pages_eq (h : st'.pages = (z, k, e, w)) :
    st'.pfZeroed = z ∧ st'.pfDisk = k ∧ st'.pfElf = e ∧ st'.pfSwapfile = w := by
  simpa only [pages, Prod.mk.injEq] using h

theorem elfPage_congr (h : st'.pages = st.pages) : st'.elfPage = st.elfPage := by
  obtain ⟨hz, hk, he, hw⟩ := of_pages_eq h
  unfold elfPage
  rw [hz, hk, he, hw]

theorem swapPage_congr (h : st'.pages = st.pages) : st'.swapPage = st.swapPage := by
  obtain ⟨hz, hk, he, hw⟩ := of_pages_eq h
  unfold swapPage
  rw [hz, hk, he, hw]

end VmStats

section FirstLoad

variable {d m a r : ℕ} {path : FaultPath} {as : Addrspace} {s s' : Kernel}

theorem firstLoad_counted (hs : s.vmStarted = true) (has : s.getas = some as) (hpage : pageOf a ≠ 0)
    (h : firstLoad d (fun start => loadElf d (m + 1) (vmFault d m) start 1) path a s = .ok r s') :
    (r = 0 ↔ s.LoadsPage as path a) ∧
    (r = 0 → s'.stats.excess = { s.stats.excess with served := s.stats.excess.served + 1 } ∧
      s'.stats.pages = s.stats.elfPage ∧
      s'.ioCount = s.ioCount + s.victimCalls path + 1 + demandCalls s.cur.image as (pageFrame a)) ∧
    (r ≠ 0 → s'.stats.excess = s.stats.excess) ∧ s'.vmStarted = s.vmStarted := by
  obtain ⟨frame, t, u, hframe, hpt, hcases⟩ := firstLoad_ok h
  have hu := (frameForPage_steady hs hframe).trans (addPT_steady hpt)
  have hopened := hu.trans (.vfsCall u)
  have hloads : s.LoadsPage as path a ↔ DemandOk s.cur.image as (pageFrame a) ∧ u.ioResult u.ioCount = 0 ∧
      (u.calls 1).AnswersOk (u.calls 1).ioCount (demandCalls s.cur.image as (pageFrame a)) := by
    have hiff : s.LoadsPage as path a ↔ DemandOk s.cur.image as (pageFrame a) ∧
        s.AnswersOk (s.ioCount + s.victimCalls path) (1 + demandCalls s.cur.image as (pageFrame a)) :=
      ⟨fun h => ⟨h.file, h.answers⟩, fun h => ⟨h.1, h.2⟩⟩
    rw [hiff, answersOk_succ, hu.answers, hu.calls, hopened.calls]
    unfold AnswersOk
    rw [hopened.answers]
    rfl
  -- the load, for a mapped page
  have hload : ∀ {result v}, loadElf d (m + 1) (vmFault d m) (pageFrame a) 1 (u.calls 1) = .ok result v →
      ∃ k, PageLoad k (u.calls 1) v ∧ ((∃ entry, result = .ok entry) ↔ DemandOk s.cur.image as (pageFrame a) ∧
        (u.calls 1).AnswersOk (u.calls 1).ioCount (demandCalls s.cur.image as (pageFrame a))) ∧
        ((∃ entry, result = .ok entry) → k = demandCalls s.cur.image as (pageFrame a)) := by
    intro result v hrun
    have has' : (u.calls 1).getas = some as := hopened.getas_eq.trans has
    have hmapped : Mapped (pageOf a) (u.calls 1) :=
      ⟨Loading.hasRow (.of_same rfl) (addPT_hasRow hpt), by rw [has']; exact Option.some_ne_none _⟩
    exact demandLoad_called (vmFault_serves d (pageOf a) m) (pageOf_pageFrame a) (Nat.mul_mod_left _ _)
      (pageFrame_ne_zero hpage) hmapped has' (congrArg Proc.image hopened.cur_eq) hrun
  rw [hloads]
  rcases hcases with ⟨hne, rfl, rfl⟩ | ⟨h0, hrun | ⟨entry, v, hrun, rfl, rfl⟩⟩
  · exact ⟨⟨fun hr => absurd hr hne, fun hall => absurd hall.2.1 hne⟩, fun hr => absurd hr hne, fun _ => hopened.excess,
      hopened.started⟩
  · have hne := loadElf_error_ne hrun
    obtain ⟨k, hpl, hok, -⟩ := hload hrun
    refine ⟨⟨fun hr => absurd hr hne, fun hall => ?_⟩, fun hr => absurd hr hne, fun _ => hpl.excess.trans hopened.excess,
      hpl.loading.started.trans hopened.started⟩
    obtain ⟨entry, hentry⟩ := hok.mpr ⟨hall.1, hall.2.2⟩
    exact nomatch hentry
  · obtain ⟨k, hpl, hok, hcount⟩ := hload hrun
    obtain ⟨hfile, hanswers⟩ := hok.mp ⟨entry, rfl⟩
    refine ⟨⟨fun _ => ⟨hfile, h0, hanswers⟩, fun _ => rfl⟩, fun _ => ⟨?_, ?_, ?_⟩, fun hr => absurd rfl hr,
      hpl.loading.started.trans hopened.started⟩
    · rw [v.countElf_excess, hpl.excess, hopened.excess]
    · exact VmStats.elfPage_congr (hpl.pages.trans hopened.pages)
    · show v.ioCount = _
      rw [hpl.calls, hopened.calls, hcount ⟨entry, rfl⟩]
      rfl

end FirstLoad

/-! ### Faults that are served -/

namespace VmStats

/-- The three equalities that `print_vm_stat` checks. -/
structure Balanced (st : VmStats) : Prop where
  split : st.tlbFaultsWFree + st.tlbFaultsWReplace = st.tlbFaults
  served : st.tlbReloads + st.pfDisk + st.pfZeroed = st.tlbFaults
  disk : st.pfElf + st.pfSwapfile = st.pfDisk

theorem balanced_iff {st : VmStats} : st.Balanced ↔ st.excess = ⟨0, 0, 0⟩ := by
  have hzero : ∀ x y : UInt32, x - y = 0 ↔ x = y := by grind
  simp only [excess, Excess.mk.injEq, hzero]
  exact ⟨fun h => ⟨h.split, h.served, h.disk⟩, fun h => ⟨h.1, h.2.1, h.2.2⟩⟩

end VmStats

/-- What a fault has to find on its way to be made up for by another counter. -/
def Kernel.ServedOn (s : Kernel) (as : Addrspace) (a : ℕ) : FaultWay → Prop
  | .outside => False
  | .found | .dies => True
  | .first path => pageOf a ≠ 0 ∧ s.LoadsPage as path a
  | .swap _ => s.ioResult (s.ioCount + 1) = 0

/-- The fault is served, or there is no address space and it is not counted at all. -/
def Kernel.Served (s : Kernel) (type : FaultType) (a : ℕ) : Prop :=
  ∀ as, s.getas = some as → s.ServedOn as a (s.faultWay type a)

section Faults

variable {d n a r : ℕ} {s s' : Kernel} {type : FaultType} {as : Addrspace}

theorem Kernel.served_iff (has : s.getas = some as) :
    s.Served type a ↔ s.ServedOn as a (s.faultWay type a) := by
  refine ⟨fun h => h as has, fun h as' has' => ?_⟩
  obtain rfl := Option.some.inj (has.symm.trans has')
  exact h

theorem excess_of_countFault (h : s'.stats.excess = s.countFault.stats.excess) :
    s'.stats.excess = { s.stats.excess with served := s.stats.excess.served - 1 } :=
  h.trans s.countFault_excess

theorem excess_made_up {t : Kernel} (h : t.stats.excess = s.countFault.stats.excess)
    (h' : s'.stats.excess = { t.stats.excess with served := t.stats.excess.served + 1 }) :
    s'.stats.excess = s.stats.excess := by
  rw [h', h, s.countFault_excess, UInt32.sub_add_cancel]

theorem vmFault_excess (hs : s.vmStarted = true) (h : vmFault d n type a s = .ok r s') :
    (s.Served type a → s'.vmStarted = true ∧ s'.stats.excess = s.stats.excess) ∧
    (pageOf a ≠ 0 → ¬ s.Served type a →
      s'.stats.excess = { s.stats.excess with served := s.stats.excess.served - 1 }) := by
  rcases vmFault_ok h with ⟨hnone, rfl, rfl⟩ | ⟨m, rfl, htype, ⟨as, has⟩, hrun⟩
  · refine ⟨fun _ => ⟨hs, rfl⟩, fun _ hnot => absurd (fun as has => ?_) hnot⟩
    rw [hnone] at has
    exact nomatch has
  · rw [served_iff has]
    have hdone := vmFault_done h
    generalize s.faultWay type a = way at hdone hrun
    cases hdone with
    | outside hne hs' =>
      obtain ⟨-, rfl⟩ := pure_ok_iff.mp hrun
      exact ⟨fun hserved => hserved.elim, fun _ _ => s.countFault_excess⟩
    | found hrow hl =>
      obtain ⟨-, hcalled⟩ := reloadPage_called hrun
      exact ⟨fun _ => ⟨hcalled.loading.started.trans hs, hcalled.excess⟩, fun _ hnot => absurd trivial hnot⟩
    | @first _ _ path _ hn hload =>
      have hcounted := fun hpage => firstLoad_counted (s := s.countFault) hs has hpage hrun
      refine ⟨fun hserved => ?_, fun hpage hnot => ?_⟩
      · obtain ⟨hr, hzero, -, hstarted⟩ := hcounted hserved.1
        obtain ⟨hexcess, -⟩ := hzero (hr.mpr (loadsPage_countFault.mpr hserved.2))
        exact ⟨hstarted.trans hs, excess_made_up rfl hexcess⟩
      · obtain ⟨hr, -, hne, -⟩ := hcounted hpage
        exact excess_of_countFault (hne fun h0 => hnot ⟨hpage, loadsPage_countFault.mp (hr.mp h0)⟩)
    | @kept index w out t hlt hw hout hne =>
      refine ⟨fun hserved => absurd ((swapOut_zero_iff hout).mpr hserved) hne, fun _ _ => ?_⟩
      exact excess_of_countFault (swapOut_steady hout).excess
    | @swapped index w got t v hlt hw hout hin =>
      have hsteady := exchange_steady hout hin
      refine ⟨fun _ => ⟨hsteady.started.trans hs, excess_made_up hsteady.excess v.countSwapIn_excess⟩, fun _ hnot => ?_⟩
      exact absurd ((swapOut_zero_iff hout).mp rfl) hnot

/-- **When `vm_fault` returns 0**: when the page has a row, or could be loaded from the executable, or the victim of the
exchange with the swap file could be written out; and for a write also when it could not. -/
theorem fault_succeeds_iff (hs : s.vmStarted = true) (has : s.getas = some as) (hpage : pageOf a ≠ 0)
    (h : vmFault d n type a s = .ok r s') :
    r = 0 ↔ s.ServedOn as a (s.faultWay type a) ∨ type = .write ∧ ∃ index, s.faultWay type a = .swap index := by
  obtain ⟨m, rfl, htype, -, hrun⟩ := (vmFault_ok h).resolve_left (by simp [has])
  have hdone := vmFault_done h
  generalize s.faultWay type a = way at hdone hrun
  cases hdone with
  | outside hne hs' => simp [hne, ServedOn]
  | found hrow hl => simp [ServedOn]
  | first hn hload =>
    have hcounted := (firstLoad_counted (s := s.countFault) hs has hpage hrun).1
    simpa [ServedOn, hpage] using hcounted.trans loadsPage_countFault
  | kept hlt hw hout hne =>
    have hserved : ¬ s.ioResult (s.ioCount + 1) = 0 := fun h0 => hne ((swapOut_zero_iff hout).mpr h0)
    cases type <;> simp_all [ServedOn]
  | swapped hlt hw hout hin =>
    have hserved : s.ioResult (s.ioCount + 1) = 0 := (swapOut_zero_iff hout).mp rfl
    simp [ServedOn, hserved]

theorem fault_succeeds_on_first : ∃ (s : Kernel) (as : Addrspace),
    s.getas = some as ∧ s.ServedOn as 0x10002000 (s.faultWay .read 0x10002000) := by
  have hrun : ∃ s ∈ pagingBooted fun _ => 0, (s.vmStarted = true ∧ s.getas.isSome ∧ pageOf 0x10002000 ≠ 0) ∧
      ∃ r s', vmFault 5 3 .read 0x10002000 s = .ok r s' ∧ r = 0 := by decide +kernel
  obtain ⟨s, -, ⟨hs, has, hpage⟩, r, s', h, hr⟩ := hrun
  obtain ⟨as, has⟩ := Option.isSome_iff_exists.mp has
  exact ⟨s, as, has, by simpa using (fault_succeeds_iff hs has hpage h).mp hr⟩

end Faults

/-! ### Runs -/

open Classical in
/-- The handler that only takes faults it serves. -/
noncomputable def servedOnly (fault : FaultHandler) : FaultHandler := fun type a s =>
  if s.Served type a then fault type a s else Prog.stop .depth s

/-- A started machine stays started, with the same sums. -/
def KeepsExcess (s s' : Kernel) : Prop :=
  s.vmStarted = true → s'.vmStarted = true ∧ s'.stats.excess = s.stats.excess

instance : Std.Refl KeepsExcess := ⟨fun _ hs => ⟨hs, rfl⟩⟩

instance : IsTrans Kernel KeepsExcess where
  trans s t u hst htu hs := by
    obtain ⟨ht, hexcess⟩ := hst hs
    obtain ⟨hu, hexcess'⟩ := htu ht
    exact ⟨hu, hexcess'.trans hexcess⟩

theorem AllocOnly.keepsExcess {s s' : Kernel} (h : AllocOnly s s') : KeepsExcess s s' := by
  intro hs
  constructor
  · rw [h]
    exact hs
  · rw [h]

theorem loadElf_keepsExcess (d n start npages : ℕ) :
    Within KeepsExcess (loadElf d n (servedOnly (vmFault d n)) start npages) := by
  refine loadElf_within (fun s s' h hs => ⟨h.loading.started.trans hs, congrArg VmStats.excess h.stats⟩)
    (fun s f hs => ⟨hs, rfl⟩) (fun v dirty s u s' h => (allocPages_allocOnly h).keepsExcess) ?_ start npages
  intro type a s r s' hrun hs
  unfold servedOnly at hrun
  split at hrun
  · next hserved => exact (vmFault_excess hs hrun).1 hserved
  · exact nomatch hrun

/-- The steps of a machine on which nothing else edits the counters that are summed.  Other edits, such as that of
`invalidate_TLB` when an address space is activated, may count as well. -/
def CountingStep (c : Client) (op : PagingOp) (c' : Client) : Prop :=
  PagingStep c op c' ∧ (op = .edit → c'.kernel.stats.excess = c.kernel.stats.excess)

/-- The faults of the step are served, also those within a load. -/
def StepServed (c : Client) : PagingOp → Prop
  | .call _ | .edit => True
  | .load d n => loadElf d n (servedOnly (vmFault d n)) 0 0 c.kernel = loadElf d n (vmFault d n) 0 0 c.kernel
  | .fault _ _ type a => c.kernel.Served type a

/-- A machine right after `vm_bootstrap`, with all counters at 0. -/
def CountersReset (ram first : ℕ) (c : Client) : Prop :=
  Client.Booted ram first c ∧ c.kernel.stats = ⟨0, 0, 0, 0, 0, 0, 0, 0, 0, 0⟩

theorem CountingStep.keepsExcess {c c' : Client} {op : PagingOp} (h : CountingStep c op c') (hserved : StepServed c op) :
    KeepsExcess c.kernel c'.kernel := by
  obtain ⟨hstep, hedit⟩ := h
  cases hstep with
  | call hop hcall => exact (hcall.allocOnly hop).keepsExcess
  | edit hsame =>
    intro hs
    refine ⟨?_, hedit rfl⟩
    rw [hsame]
    exact hs
  | load hpid hrun => exact loadElf_keepsExcess _ _ 0 0 _ _ _ (hserved.trans hrun)
  | fault hpid hrun => exact fun hs => (vmFault_excess hs hrun).1 hserved

/-- **The statistics balance** in every run whose faults are all served; and a fault that returns after such a run keeps
the balance, page 0 aside, only if it is served. -/
theorem statistics_balance {ram first : ℕ} {c : Client}
    (hreach : Reaches (Guarded CountingStep StepServed) (CountersReset ram first) c) :
    c.kernel.stats.Balanced ∧
    ∀ (d n a r : ℕ) (type : FaultType) (s' : Kernel), vmFault d n type a c.kernel = .ok r s' → pageOf a ≠ 0 →
      (s'.stats.Balanced ↔ c.kernel.Served type a) := by
  have hkey : c.kernel.vmStarted = true ∧ c.kernel.stats.excess = ⟨0, 0, 0⟩ := by
    refine hreach.invariant (P := fun c => c.kernel.vmStarted = true ∧ c.kernel.stats.excess = ⟨0, 0, 0⟩) ?_ ?_
    · rintro c ⟨hbooted, hzero⟩
      refine ⟨hbooted.paged.started, ?_⟩
      rw [hzero]
      rfl
    · rintro c op c' ⟨hs, hexcess⟩ ⟨hserved, hstep⟩
      obtain ⟨hs', hexcess'⟩ := hstep.keepsExcess hserved hs
      exact ⟨hs', hexcess'.trans hexcess⟩
  obtain ⟨hs, hexcess⟩ := hkey
  refine ⟨VmStats.balanced_iff.mpr hexcess, fun d n a r type s' hrun hpage => ?_⟩
  obtain ⟨hkeeps, hloses⟩ := vmFault_excess hs hrun
  rw [VmStats.balanced_iff]
  refine ⟨fun hbalanced => ?_, fun hserved => (hkeeps hserved).2.trans hexcess⟩
  by_contra hnot
  have hmissing := (hloses hpage hnot).symm.trans hbalanced
  rw [hexcess] at hmissing
  exact absurd (congrArg Excess.served hmissing) (by decide)

theorem pagingBooted_counting {fails : ℕ → ℕ} {s : Kernel} (h : pagingBooted fails = some s)
    (hstats : s.stats = ⟨0, 0, 0, 0, 0, 0, 0, 0, 0, 0⟩) :
    ∃ B P, Reaches (Guarded CountingStep StepServed) (CountersReset 24576 12288) ⟨B, P, s⟩ := by
  obtain ⟨B, P, s₂, hbooted, rfl⟩ := pagingBooted_booted h
  exact ⟨B, P, .next (i := .edit) (.start ⟨hbooted, hstats⟩) ⟨trivial, .edit rfl rfl rfl, fun _ => rfl⟩⟩

/-- The first fault on a page of data, which the executable can be opened for. -/
theorem statistics_balance_first : ∃ (c : Client),
    Reaches (Guarded CountingStep StepServed) (CountersReset 24576 12288) c ∧ c.kernel.stats.tlbFaults = 1 ∧
    c.kernel.stats.Balanced := by
  have hrun : ∃ s ∈ pagingBooted fun _ => 0, s.stats = ⟨0, 0, 0, 0, 0, 0, 0, 0, 0, 0⟩ ∧ s.curPid ≠ 0 ∧
      (s.faultWay .read 0x10002000 = .first .dataRead ∧ pageOf 0x10002000 ≠ 0) ∧
      (52 ≤ s.cur.image.size ∧ s.cur.image.IsElf ∧ s.cur.image.ehdr.phnum = 0) ∧
      (∀ k < (3 : ℕ), s.ioResult (s.ioCount + s.victimCalls .dataRead + k) = 0) ∧
      ∃ r s', vmFault 5 3 .read 0x10002000 s = .ok r s' ∧ s'.stats.tlbFaults = 1 := by decide +kernel
  obtain ⟨s, hs, hstats, hpid, ⟨hway, hpage⟩, ⟨hsize, helf, hphnum⟩, hanswers, r, s', hok, hone⟩ := hrun
  obtain ⟨B, P, hreach⟩ := pagingBooted_counting hs hstats
  have hserved : s.Served .read 0x10002000 := by
    intro as has
    rw [hway]
    have hcalls : demandCalls s.cur.image as (pageFrame 0x10002000) = 1 := by
      unfold demandCalls
      rw [hphnum]
      rfl
    refine ⟨hpage, ⟨hsize, helf, ?_, ?_⟩, ?_⟩
    · rw [hphnum]
      exact fun j hj => absurd hj (Nat.not_lt_zero j)
    · rw [hphnum]
      trivial
    · rw [hcalls]
      intro j hlow hhigh
      obtain ⟨k, rfl⟩ := Nat.exists_eq_add_of_le hlow
      exact hanswers k (by omega)
  have hstep : Guarded CountingStep StepServed ⟨B, P, s⟩ (.fault 5 3 .read 0x10002000) ⟨B, P, s'⟩ :=
    ⟨hserved, .fault hpid hok, fun h => (nomatch h)⟩
  have hnext := hreach.next hstep
  exact ⟨⟨B, P, s'⟩, hnext, hone, (statistics_balance hnext).1⟩

/-- **A read outside the segments**, as a system call with a bad pointer makes it: `vm_fault` returns an error, and
`TLB_Faults` is one ahead. -/
theorem statistics_unbalanced : ∃ (c c' : Client) (r : ℕ),
    Reaches CountingStep (CountersReset 24576 12288) c ∧ CountingStep c (.fault 5 3 .read 0x20000000) c' ∧
    vmFault 5 3 .read 0x20000000 c.kernel = .ok r c'.kernel ∧ r ≠ 0 ∧ ¬ c'.kernel.stats.Balanced := by
  have hrun : ∃ s ∈ pagingBooted fun _ => 0, s.stats = ⟨0, 0, 0, 0, 0, 0, 0, 0, 0, 0⟩ ∧ s.curPid ≠ 0 ∧
      ∃ r s', vmFault 5 3 .read 0x20000000 s = .ok r s' ∧ r ≠ 0 ∧ s'.stats.excess.served ≠ 0 := by decide +kernel
  obtain ⟨s, hs, hstats, hpid, r, s', hok, hr, hne⟩ := hrun
  obtain ⟨B, P, hreach⟩ := pagingBooted_counting hs hstats
  refine ⟨⟨B, P, s⟩, ⟨B, P, s'⟩, r, hreach.of_guarded, ⟨.fault hpid hok, fun h => (nomatch h)⟩, hok, hr,
    fun hbalanced => hne ?_⟩
  rw [VmStats.balanced_iff.mp hbalanced]

end Os161Kernel
