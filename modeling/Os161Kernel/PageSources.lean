import Os161Kernel.FaultCounters

/-!
# Where a page that is faulted in came from

Which of its counters of pages `vm_fault` increments is decided by the way it took, before `load_elf` looks at the page: a
first load counts `PF_ELF`, a page that was in a slot counts `PF_Swapfile`, and nothing ever counts `PF_Zeroed`.  But a
first load may find no program header that supplies the page and leave it as `alloc_kpages` made it, and the read from
the slot may fail.  `counters_meant`: the counters say what happened if and only if neither is so.

Page 0 is left out for reads.  `pageSearch` finds it in row 0, which the test `ret > 0` takes for no row, and the fault
calls `load_elf` with `start` 0, which loads not the page but the whole program once more.
-/

namespace Os161Kernel

open StateProg Search Memory Runs

/-! ### Where the page came from -/

/-- A header supplies the page. -/
def Addrspace.HasSupplier (as : Addrspace) (headers : List Phdr) (start : ℕ) : Prop :=
  ∃ ph ∈ headers, ph.kind = .load ∧ as.Supplies ph start

instance (as : Addrspace) (headers : List Phdr) (start : ℕ) : Decidable (as.HasSupplier headers start) :=
  inferInstanceAs (Decidable (∃ ph ∈ headers, _ ∧ _))

theorem headersCost_gt_iff {start : ℕ} {l : List Phdr} : ∀ {as : Addrspace},
    l.length ≤ headersCost (Addrspace.pageReads start) (Addrspace.pageNoted start) as l ∧
    (l.length < headersCost (Addrspace.pageReads start) (Addrspace.pageNoted start) as l ↔ as.HasSupplier l start) := by
  induction l with
  | nil => exact fun {as} => ⟨Nat.le_refl 0, fun h => absurd h (Nat.lt_irrefl 0), fun ⟨_, hmem, _⟩ => (nomatch hmem)⟩
  | cons ph rest ih =>
    intro as
    have hother : ph.kind ≠ .load ∨ ¬ as.Supplies ph start →
        (as.HasSupplier (ph :: rest) start ↔ as.HasSupplier rest start) := by
      intro hno
      unfold Addrspace.HasSupplier
      rw [List.exists_mem_cons_iff, or_iff_right fun hboth => hno.elim (· hboth.1) (· hboth.2)]
    rw [List.length_cons]
    cases hkind : ph.kind with
    | skip =>
      obtain ⟨hle, hiff⟩ := @ih as
      rw [hother (.inl (by rw [hkind]; decide)), ← hiff]
      simp only [headersCost, hkind]
      omega
    | unknown =>
      obtain ⟨hle, hiff⟩ := @ih as
      rw [hother (.inl (by rw [hkind]; decide)), ← hiff]
      simp only [headersCost, hkind]
      omega
    | load =>
      by_cases hsupplies : as.Supplies ph start
      · obtain ⟨hle, -⟩ := @ih (as.pageNoted start ph)
        have hhas : as.HasSupplier (ph :: rest) start := ⟨ph, List.mem_cons_self, hkind, hsupplies⟩
        have hone : as.pageReads start ph = 1 := if_pos hsupplies
        simp only [headersCost, hkind, hone, iff_true_right hhas]
        omega
      · obtain ⟨hle, hiff⟩ := @ih as
        have hsame : as.pageNoted start ph = as := if_neg hsupplies
        have hnone : as.pageReads start ph = 0 := if_neg hsupplies
        rw [hother (.inr hsupplies), ← hiff]
        simp only [headersCost, hkind, hsame, hnone]
        omega

namespace Kernel

variable (s s' : Kernel) (type : FaultType) (a : ℕ)

/-- Bytes of the page were read from the executable: the first load made more calls into the file system than it takes
to write out a victim, open the executable and read its header and, twice, its program headers. -/
def ElfRead : Prop := ∃ path, s.faultWay type a = .first path ∧
  s.ioCount + s.victimCalls path + 1 + (1 + 2 * s.cur.image.ehdr.phnum) < s'.ioCount

/-- They were read from the swap file: the slot that carried the page does so no more. -/
def SwapRead : Prop := ∃ i, s.faultWay type a = .swap i ∧ ¬ s'.Carries s.curPid a i

/-- The page is all zero. -/
def ZeroFilled : Prop := ∃ f, s'.rowOf (pageOf a) s'.curPid = some f ∧ ∀ k : Fin 4096, frameBytes s'.ram f k = 0

end Kernel

/-- The counter went up by one. -/
def Incremented (x x' : UInt32) : Prop := x' = x + 1

theorem not_incremented_self (x : UInt32) : ¬ Incremented x x := by
  unfold Incremented
  grind

/-- What the four counters of page faults are meant to say of a fault. -/
structure CountersMeant (s s' : Kernel) (type : FaultType) (a : ℕ) : Prop where
  elf : Incremented s.stats.pfElf s'.stats.pfElf ↔ s.ElfRead s' type a
  swapfile : Incremented s.stats.pfSwapfile s'.stats.pfSwapfile ↔ s.SwapRead s' type a
  disk : Incremented s.stats.pfDisk s'.stats.pfDisk ↔ s.ElfRead s' type a ∨ s.SwapRead s' type a
  zeroed : Incremented s.stats.pfZeroed s'.stats.pfZeroed ↔
    s'.ZeroFilled a ∧ ¬ s.ElfRead s' type a ∧ ¬ s.SwapRead s' type a
  one : (Incremented s.stats.pfElf s'.stats.pfElf ∧ ¬ Incremented s.stats.pfSwapfile s'.stats.pfSwapfile ∧
      ¬ Incremented s.stats.pfZeroed s'.stats.pfZeroed) ∨
    (¬ Incremented s.stats.pfElf s'.stats.pfElf ∧ Incremented s.stats.pfSwapfile s'.stats.pfSwapfile ∧
      ¬ Incremented s.stats.pfZeroed s'.stats.pfZeroed) ∨
    (¬ Incremented s.stats.pfElf s'.stats.pfElf ∧ ¬ Incremented s.stats.pfSwapfile s'.stats.pfSwapfile ∧
      Incremented s.stats.pfZeroed s'.stats.pfZeroed)

/-- What is counted is read: a first load has a header for the page, and the page is read back from its slot. -/
structure Kernel.SourceRead (s : Kernel) (type : FaultType) (a : ℕ) : Prop where
  first : ∀ path as, s.faultWay type a = .first path → s.getas = some as →
    as.HasSupplier (s.cur.image.headers s.cur.image.ehdr.phnum) (pageFrame a)
  swap : ∀ i, s.faultWay type a = .swap i → s.ioResult (s.ioCount + 3) = 0

section Meant

variable {ram first d n a : ℕ} {s s' : Kernel} {type : FaultType}

theorem countersMeant_elf {path : FaultPath} (hway : s.faultWay type a = .first path)
    (hpages : s'.stats.pages = s.stats.elfPage) : CountersMeant s s' type a ↔ s.ElfRead s' type a := by
  obtain ⟨hz, hk, he, hw⟩ := VmStats.of_pages_eq hpages
  have hnoswap : ¬ s.SwapRead s' type a := by
    rintro ⟨i, hswap, -⟩
    rw [hway] at hswap
    exact nomatch hswap
  have helf : Incremented s.stats.pfElf s'.stats.pfElf := he
  have hswapfile : ¬ Incremented s.stats.pfSwapfile s'.stats.pfSwapfile := hw ▸ not_incremented_self _
  have hzeroed : ¬ Incremented s.stats.pfZeroed s'.stats.pfZeroed := hz ▸ not_incremented_self _
  refine ⟨fun h => h.elf.mp helf, fun hread => ⟨iff_of_true helf hread, iff_of_false hswapfile hnoswap, ?_, ?_, ?_⟩⟩
  · exact iff_of_true hk (.inl hread)
  · exact iff_of_false hzeroed fun h => h.2.1 hread
  · exact .inl ⟨helf, hswapfile, hzeroed⟩

theorem countersMeant_swap {i : ℕ} (hway : s.faultWay type a = .swap i)
    (hpages : s'.stats.pages = s.stats.swapPage) : CountersMeant s s' type a ↔ s.SwapRead s' type a := by
  obtain ⟨hz, hk, he, hw⟩ := VmStats.of_pages_eq hpages
  have hnoelf : ¬ s.ElfRead s' type a := by
    rintro ⟨path, hfirst, -⟩
    rw [hway] at hfirst
    exact nomatch hfirst
  have helf : ¬ Incremented s.stats.pfElf s'.stats.pfElf := he ▸ not_incremented_self _
  have hswapfile : Incremented s.stats.pfSwapfile s'.stats.pfSwapfile := hw
  have hzeroed : ¬ Incremented s.stats.pfZeroed s'.stats.pfZeroed := hz ▸ not_incremented_self _
  refine ⟨fun h => h.swapfile.mp hswapfile,
    fun hread => ⟨iff_of_false helf hnoelf, iff_of_true hswapfile hread, ?_, ?_, ?_⟩⟩
  · exact iff_of_true hk (.inr hread)
  · exact iff_of_false hzeroed fun h => h.2.2 hread
  · exact .inr (.inl ⟨helf, hswapfile, hzeroed⟩)

theorem getas_of_first {path : FaultPath} (h : s.faultWay type a = .first path) : ∃ as, s.getas = some as := by
  cases has : s.getas with
  | none =>
    unfold Kernel.faultWay at h
    rw [has] at h
    exact nomatch h
  | some as => exact ⟨as, rfl⟩

theorem elfRead_iff {path : FaultPath} {as : Addrspace} (hway : s.faultWay type a = .first path)
    (hcount : s'.ioCount = s.ioCount + s.victimCalls path + 1 + demandCalls s.cur.image as (pageFrame a)) :
    s.ElfRead s' type a ↔ as.HasSupplier (s.cur.image.headers s.cur.image.ehdr.phnum) (pageFrame a) := by
  have hpath : s.ElfRead s' type a ↔
      s.ioCount + s.victimCalls path + 1 + (1 + 2 * s.cur.image.ehdr.phnum) < s'.ioCount := by
    refine ⟨fun ⟨path', hway', hlt⟩ => ?_, fun hlt => ⟨path, hway, hlt⟩⟩
    rw [hway] at hway'
    obtain rfl := FaultWay.first.inj hway'
    exact hlt
  have hcost := @headersCost_gt_iff (pageFrame a) (s.cur.image.headers s.cur.image.ehdr.phnum) as
  rw [File.headers_length] at hcost
  rw [hpath, ← hcost.2, hcount]
  unfold demandCalls
  omega

/-- **When the counters of page faults say what happened.**  In every state of every run, for a fault that returns 0 and
brings in a page that the process had in no frame; a read fault is not on page 0. -/
theorem counters_meant {c : Client} (hreach : Reaches PagingStep (Client.Booted ram first) c)
    (hnew : c.kernel.rowOf (pageOf a) c.kernel.curPid = none) (hzero : type = .read → pageOf a ≠ 0)
    (hrun : vmFault d n type a c.kernel = .ok 0 s')
    (hmapped : (s'.rowOf (pageOf a) s'.curPid).isSome) :
    CountersMeant c.kernel s' type a ↔ c.kernel.SourceRead type a := by
  obtain ⟨B, P, s⟩ := c
  have hp : Client.Paged ram ⟨B, P, s⟩ := reaches_paged hreach
  have hnorow : ¬ (s.rowOf (pageOf a) s.curPid).isSome := Option.not_isSome_iff_eq_none.mpr hnew
  -- any other fault finds page 0 in the table and loads nothing
  have hpage : s.faultWay type a ∉ [.outside, .found, .dies] → 0 < s.pagetableEntry → pageOf a ≠ 0 := by
    intro hloads hpos h0
    refine hloads (faultWay_of_found (fun htype => hzero htype h0) ?_)
    exact pageSearch_page_zero hreach hpos h0
  have hdone := vmFault_done hrun
  generalize hway : s.faultWay type a = way at hdone
  generalize hr : (0 : ℕ) = r at hdone
  show CountersMeant s s' type a ↔ s.SourceRead type a
  cases hdone with
  | outside hne => exact absurd hr.symm hne
  | found hrow hl => exact absurd hrow hnorow
  | @first m _ path _ hn hload =>
    obtain ⟨as, has⟩ := getas_of_first hway
    have hne0 : pageOf a ≠ 0 := hpage (by rw [hway]; simp) (firstLoad_entries_pos (s := s.countFault) hload)
    obtain ⟨-, hloaded, -⟩ := firstLoad_counted (s := s.countFault) hp.started has hne0 hload
    obtain ⟨-, hpages, hcount⟩ := hloaded hr.symm
    rw [countersMeant_elf hway (hpages.trans (VmStats.elfPage_congr s.countFault_pages)), elfRead_iff hway hcount]
    refine ⟨fun hsupplier => ⟨fun path' as' _ has' => ?_, fun i hswap => ?_⟩, fun h => h.first path as hway has⟩
    · rw [has] at has'
      exact Option.some.inj has' ▸ hsupplier
    · rw [hway] at hswap
      exact nomatch hswap
  | @kept index w out t hlt hw hout hne =>
    -- the victim could not be written out, and the page did not come
    obtain ⟨idx, -, -, ⟨-, -, rfl⟩ | ⟨h0, -⟩⟩ := swapOut_ok hout
    · exact absurd hmapped hnorow
    · exact absurd h0 hne
  | @swapped index w got t v hlt hw hout hin =>
    obtain ⟨idx, hfree, hsame, hcleared, -⟩ := exchange_slots hlt hout hin
    obtain ⟨-, hcarry, -⟩ := faultWay_swap hway
    have hne0 : pageOf a ≠ 0 := hpage (by rw [hway]; simp) (Nat.zero_lt_of_lt hlt)
    have hnumber : (s.sfList index).number ≠ 0 := fun h0 => hne0 (hcarry.1.symm.trans h0)
    have hpages : v.countSwapIn.stats.pages = s.stats.swapPage :=
      VmStats.swapPage_congr ((exchange_steady hout hin).pages.trans s.countFault_pages)
    rw [countersMeant_swap hway hpages]
    have hgot : got = 0 ↔ s.ioResult (s.ioCount + 3) = 0 :=
      ⟨fun h0 => (exchange_got hout hin).mp h0, fun h3 => (exchange_got hout hin).mpr h3⟩
    have hread : s.SwapRead v.countSwapIn type a ↔ got = 0 := by
      refine ⟨fun ⟨i, hswap, hnot⟩ => ?_, fun h0 => ⟨index, hway, fun hc => ?_⟩⟩
      · rw [hway] at hswap
        obtain rfl := FaultWay.swap.inj hswap
        by_contra hne
        refine hnot ?_
        have hidx : index ≠ idx := fun heq => hnumber (heq ▸ hfree.1)
        have hkept : v.sfList index = s.sfList index := hsame index hidx fun h0 => absurd h0 hne
        show (v.sfList index).number = _ ∧ (v.sfList index).pid = _
        rw [hkept]
        exact hcarry
      · have hzero : (v.sfList index).number = 0 := (hcleared h0).1
        have hpageOf : (v.sfList index).number = pageOf a := hc.1
        exact hne0 (hpageOf.symm.trans hzero)
    rw [hread, hgot]
    refine ⟨fun h3 => ⟨fun path as hfirst _ => ?_, fun _ _ => h3⟩, fun h => h.swap index hway⟩
    rw [hway] at hfirst
    exact nomatch hfirst

end Meant

/-- Seventeen pages of code, of which 16 are loaded, and one of data. -/
def tailProgram : File :=
  elfImage 0x12000 0x400000 [codePhdr 0x1000 0x400000 4 0x10000, dataPhdr 0x1000 0x10000000 4 4]

/-- The fault on the last page of the code reads it and says so. -/
theorem counters_meant_code : ∃ (c : Client) (s' : Kernel),
    Reaches PagingStep (Client.Booted (26 * pageSize) 12288) c ∧
    c.kernel.rowOf (pageOf 0x410000) c.kernel.curPid = none ∧
    vmFault 5 3 .read 0x410000 c.kernel = .ok 0 s' ∧ (s'.rowOf (pageOf 0x410000) s'.curPid).isSome ∧
    CountersMeant c.kernel s' .read 0x410000 := by
  have hrun : ∃ s ∈ programLoaded 26 (by decide) tailProgram fun _ => 0, ∃ as ∈ s.getas,
      s.rowOf (pageOf 0x410000) s.curPid = none ∧ s.faultWay .read 0x410000 = .first .code ∧
      as.HasSupplier (s.cur.image.headers s.cur.image.ehdr.phnum) (pageFrame 0x410000) ∧
      ∃ r s', vmFault 5 3 .read 0x410000 s = .ok r s' ∧ r = 0 ∧
        (s'.rowOf (pageOf 0x410000) s'.curPid).isSome := by decide +kernel
  obtain ⟨s, hs, as, has, hnew, hway, hsupplier, _, s', hok, rfl, hmapped⟩ := hrun
  obtain ⟨B, P, hreach⟩ := programLoaded_reaches (by decide) hs
  refine ⟨⟨B, P, s⟩, s', hreach, hnew, hok, hmapped,
    (counters_meant hreach hnew (fun _ => by decide +kernel) hok hmapped).mpr ⟨?_, ?_⟩⟩
  · intro path as' _ has'
    exact Option.some.inj (has.symm.trans has') ▸ hsupplier
  · intro i hswap
    rw [show s.faultWay .read 0x410000 = .first .code from hway] at hswap
    exact nomatch hswap

/-- A page of code and 151 pages of data, of which the file has four bytes. -/
def bssProgram : File := elfImage 120 0x400000 [codePhdr 116 0x400000 4 4, dataPhdr 116 0x10000000 4 0x96000]

/-- **A page of bss** is mapped without a read and counted as a page from the executable. -/
theorem bss_page_counted_as_elf : ∃ (c : Client) (s' : Kernel),
    Reaches PagingStep (Client.Booted (143 * pageSize) 12288) c ∧ c.kernel.pageSearch 0x1008c000 = none ∧
    vmFault 5 3 .read 0x1008c000 c.kernel = .ok 0 s' ∧ (s'.rowOf (pageOf 0x1008c000) s'.curPid).isSome ∧
    s'.stats.pfElf = c.kernel.stats.pfElf + 1 ∧ s'.stats.pfZeroed = c.kernel.stats.pfZeroed ∧
    ¬ c.kernel.ElfRead s' .read 0x1008c000 ∧ ¬ CountersMeant c.kernel s' .read 0x1008c000 := by
  have hrun : ∃ s ∈ programLoaded 143 (by decide) bssProgram fun _ => 0,
      s.pageSearch 0x1008c000 = none ∧ s.cur.image.ehdr.phnum = 2 ∧
      ∃ r s', vmFault 5 3 .read 0x1008c000 s = .ok r s' ∧ r = 0 ∧
        (s'.rowOf (pageOf 0x1008c000) s'.curPid).isSome ∧ s'.stats.pfElf = s.stats.pfElf + 1 ∧
        s'.stats.pfZeroed = s.stats.pfZeroed ∧ s'.ioCount = s.ioCount + 6 := by decide +kernel
  obtain ⟨s, hs, hnew, hphnum, _, s', hok, rfl, hmapped, helf, hzeroed, hcount⟩ := hrun
  obtain ⟨B, P, hreach⟩ := programLoaded_reaches (by decide) hs
  have hunread : ¬ s.ElfRead s' .read 0x1008c000 := by
    rintro ⟨path, -, hlt⟩
    rw [hphnum, hcount] at hlt
    omega
  exact ⟨⟨B, P, s⟩, s', hreach, hnew, hok, hmapped, helf, hzeroed, hunread, fun h => hunread (h.elf.mp helf)⟩

end Os161Kernel
