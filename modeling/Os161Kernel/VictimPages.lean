import Os161Kernel.FaultOutcomes
import Os161Kernel.Programs

/-!
# The pages a victim may hold

`victim_pageSearch` applies `is_codeSegment` or `is_dataSegment` to the first address of a page.  Both tests accept the
address right behind the segment, so the page that starts there counts as one of the segment's.  Behind the code that
can be the first page of the data; behind the data it is the stack page.

* A victim for a code fault is thrown away without being written out.  It is a page of the code and of nothing else,
  unless the oldest candidate is the page behind the code or the stack page.
* A victim for a data fault is written out and comes back by a fault in the data segment.  A fault is classified by its
  own address: only if the whole page lies in the data segment, and none of it in the code segment, does every fault in
  the page find its way back.
-/

namespace Os161Kernel

open StateProg Search Memory Runs Kernel Client

/-! ### Segments as sets of pages -/

namespace Addrspace

/-- The widths of the fields of `struct addrspace`. -/
structure Widths (as : Addrspace) : Prop where
  vbaseCode : as.vbaseCode < 2 ^ 32
  npagesCode : as.npagesCode < 2 ^ 16
  vbaseData : as.vbaseData < 2 ^ 32
  npagesData : as.npagesData < 2 ^ 16

/-- The page meets `[as_vbase_code, as_vbase_code + 4096*as_npages_code)`. -/
def CodePage (as : Addrspace) (p : PageNo) : Prop :=
  as.vbaseCode < pageAddr p + pageSize ∧ pageAddr p < as.vbaseCode + as.npagesCode * pageSize

/-- The page meets `[as_vbase_data, as_vbase_data + 4096*as_npages_data)`. -/
def DataPage (as : Addrspace) (p : PageNo) : Prop :=
  as.vbaseData < pageAddr p + pageSize ∧ pageAddr p < as.vbaseData + as.npagesData * pageSize

/-- The page that `as_prepare_load` allocates for the stack. -/
def StackPage (as : Addrspace) (p : PageNo) : Prop := p = pageOf as.vbaseStack

/-- Code and data occupy different pages. -/
def SegmentsApart (as : Addrspace) : Prop := ∀ p, as.CodePage p → ¬ as.DataPage p

instance (as : Addrspace) (p : PageNo) : Decidable (as.CodePage p) := inferInstanceAs (Decidable (_ ∧ _))

instance (as : Addrspace) (p : PageNo) : Decidable (as.DataPage p) := inferInstanceAs (Decidable (_ ∧ _))

instance (as : Addrspace) (p : PageNo) : Decidable (as.StackPage p) := inferInstanceAs (Decidable (_ = _))

end Addrspace

theorem pageAddr_val (p : PageNo) : pageAddr p = p.val * pageSize := by
  unfold pageAddr
  rfl

theorem segment_page_iff {base npages : ℕ} (hbase : base < 2 ^ 32) (hpages : npages < 2 ^ 16) (p : PageNo) :
    (pageAddr p ≤ (base + npages * pageSize) % 2 ^ 32 ∧ base ≤ pageAddr p) ↔
    base ≤ pageAddr p ∧ pageAddr p ≤ base + npages * pageSize ∧ base + npages * pageSize < 2 ^ 32 := by
  have hp := p.isLt
  rw [pageAddr_val]
  unfold pageSize
  omega

/-! ### Victims of code faults -/

section CodeVictims

variable {as : Addrspace} {s s' : Kernel} {p : PageNo} {v : ℕ}

/-- The page right behind the code segment, or the stack page. -/
def Addrspace.PastCode (as : Addrspace) (p : PageNo) : Prop :=
  pageAddr p = as.vbaseCode + as.npagesCode * pageSize ∨ as.StackPage p

instance (as : Addrspace) (p : PageNo) : Decidable (as.PastCode p) := inferInstanceAs (Decidable (_ ∨ _))

/-- A page of the code segment, not of the data and not the stack page. -/
structure Addrspace.OnlyCode (as : Addrspace) (p : PageNo) : Prop where
  code : as.CodePage p
  data : ¬ as.DataPage p
  stack : ¬ as.StackPage p

theorem Addrspace.onlyCode_iff (hw : as.Widths) (hapart : as.SegmentsApart) (h : as.isCodeSegment (pageAddr p)) :
    as.OnlyCode p ↔ ¬ as.PastCode p := by
  obtain ⟨hlow, hhigh, -⟩ := (segment_page_iff hw.vbaseCode hw.npagesCode p).mp h
  constructor
  · rintro ⟨⟨-, hlt⟩, -, hstack⟩ (hend | hstack')
    · omega
    · exact hstack hstack'
  · intro hpast
    have hcode : as.CodePage p := by
      refine ⟨Nat.lt_of_le_of_lt hlow (Nat.lt_add_of_pos_right (by decide)), ?_⟩
      exact Nat.lt_of_le_of_ne hhigh fun hend => hpast (.inl hend)
    exact ⟨hcode, hapart p hcode, fun hstack => hpast (.inr hstack)⟩

/-- `victim_pageSearch(0)`. -/
abbrev Kernel.codeVictim (s : Kernel) (as : Addrspace) : Option ℕ :=
  s.victimPageSearch fun a => decide (as.isCodeSegment a)

/-- An entry of the running process that `victim_pageSearch(0)` considers. -/
abbrev Kernel.CodeCandidate (s : Kernel) (as : Addrspace) : ℕ → Prop :=
  s.Candidate fun a => decide (as.isCodeSegment a)

/-- `main_PG[i].victim_counter`. -/
def Kernel.stamp (s : Kernel) (i : ℕ) : ℕ := (s.mainPG i).victimCounter.toNat

/-- Every candidate past the code has a candidate of the code before it. -/
def Kernel.CodeFirst (s : Kernel) (as : Addrspace) : Prop :=
  ∀ i, s.CodeCandidate as i → as.PastCode (s.mainPG i).pageNumber →
    ∃ j, s.CodeCandidate as j ∧ ¬ as.PastCode (s.mainPG j).pageNumber ∧ Before s.stamp j i

variable {inSegment : ℕ → Bool} {code ncode data ndata : ℕ}

theorem Kernel.victimPageSearch_eq_some : s.victimPageSearch inSegment = some v ↔
    s.Candidate inSegment v ∧ ∀ j, s.Candidate inSegment j → Before s.stamp v j := by
  rw [victimPageSearch_eq, leastBelow_eq_some]
  exact ⟨fun h => ⟨⟨h.1, h.2.1⟩, fun j hj => h.2.2 j hj.1 hj.2⟩,
    fun h => ⟨h.1.1, h.1.2, fun j hlt hj => h.2 j ⟨hlt, hj⟩⟩⟩

theorem Kernel.victimPageSearch_eq_none : s.victimPageSearch inSegment = none ↔
    ∀ i, ¬ s.Candidate inSegment i := by
  rw [victimPageSearch_eq, leastBelow_eq_none]
  exact ⟨fun h i hi => h i hi.1 hi.2, fun h i hlt hi => h i ⟨hlt, hi⟩⟩

theorem codeVictim_onlyCode_iff (hw : as.Widths) (hapart : as.SegmentsApart) :
    (∀ v, s.codeVictim as = some v → as.OnlyCode (s.mainPG v).pageNumber) ↔ s.CodeFirst as := by
  have honly : ∀ i, s.CodeCandidate as i →
      (as.OnlyCode (s.mainPG i).pageNumber ↔ ¬ as.PastCode (s.mainPG i).pageNumber) := fun i hi =>
    Addrspace.onlyCode_iff hw hapart (of_decide_eq_true hi.2.2)
  constructor
  · intro h i hi hpast
    cases hvictim : s.codeVictim as with
    | none => exact absurd hi (victimPageSearch_eq_none.mp hvictim i)
    | some v =>
      obtain ⟨hv, hleast⟩ := victimPageSearch_eq_some.mp hvictim
      exact ⟨v, hv, (honly v hv).mp (h v hvictim), hleast i hi⟩
  · intro h v hvictim
    obtain ⟨hv, hleast⟩ := victimPageSearch_eq_some.mp hvictim
    refine (honly v hv).mpr fun hpast => ?_
    -- an older candidate of the code would have been the victim
    obtain ⟨j, hj, hjcode, hjv⟩ := h v hv hpast
    have hvj := hleast j hj
    have heq : j = v := by
      unfold Before at hjv hvj
      omega
    exact hjcode (heq ▸ hpast)

theorem evictPage_code_leaves {ram d f : ℕ} {B P : List ℕ} {u : Unit} (hp : Paged ram ⟨B, P, s⟩)
    (hlt : v < s.pagetableEntry) (hpid : (s.mainPG v).pid ≠ 0) (hrun : evictPage d .code (kvaddr v) s = .ok u s')
    (hf : f < s.pagetableEntry) (huser : s.User f) (hne : f ≠ v) :
    s'.mainPG f = s.mainPG f ∧ frameBytes s'.ram f = frameBytes s.ram f := by
  have hv : s.User v := ⟨hp.owned v hpid, hpid⟩
  obtain ⟨hcalm, hL⟩ := hp.inv.heap.user_calm hp.started hlt hv
  obtain ⟨hcalm', -⟩ := hp.inv.heap.user_calm hp.started hf huser
  have hquiet := ((allocator_sound d).free hp.inv.heap hL hcalm hrun).2
  have hstays : (s.freed v).Calm f := (freed_calm_iff hne).mpr hcalm'
  exact ⟨(hquiet.row f (Set.notMem_empty f) hstays).trans (freed_mainPG hne),
    (hquiet.bytes f (Set.notMem_empty f) hstays).trans (freed_bytes hne)⟩

/-- **Eviction for code and the data.**  For every address space whose code and data occupy different pages and every
page table, the victim of a code fault holds a page of the code and not of the data or the stack, if and only if each
candidate past the code has a candidate of the code before it.  In the states of every run the eviction then leaves
every frame with a page of the data or the stack, its entry and its contents. -/
theorem code_eviction_keeps_data (hw : as.Widths) (hapart : as.SegmentsApart) :
    ((∀ v, s.codeVictim as = some v → as.OnlyCode (s.mainPG v).pageNumber) ↔ s.CodeFirst as) ∧
    ∀ ram first B P, Reaches PagingStep (Booted ram first) ⟨B, P, s⟩ → s.curPid ≠ 0 → s.CodeFirst as →
      ∀ d v s', s.codeVictim as = some v → evictPage d .code (kvaddr v) s = .ok () s' →
        ∀ f < s.pagetableEntry, ∀ q, s.Maps q s.curPid f → as.DataPage q ∨ as.StackPage q →
          s'.mainPG f = s.mainPG f ∧ frameBytes s'.ram f = frameBytes s.ram f := by
  refine ⟨codeVictim_onlyCode_iff hw hapart, ?_⟩
  intro ram first B P hreach hpid hfirst d v s' hvictim hrun f hf q hq hpage
  obtain ⟨⟨hlt, hown, -⟩, -⟩ := victimPageSearch_eq_some.mp hvictim
  have honly := (codeVictim_onlyCode_iff hw hapart).mpr hfirst v hvictim
  refine evictPage_code_leaves (reaches_paged hreach) hlt (hown ▸ hpid) hrun hf ⟨hq.1, hq.2.2 ▸ hpid⟩ ?_
  rintro rfl
  rw [hq.2.1] at honly
  exact hpage.elim honly.data honly.stack

/-- Where the two segments lie. -/
def Addrspace.LaidOut (as : Addrspace) (code ncode data ndata : ℕ) : Prop :=
  as.vbaseCode = code ∧ as.npagesCode = ncode ∧ as.vbaseData = data ∧ as.npagesData = ndata

instance (as : Addrspace) (code ncode data ndata : ℕ) : Decidable (as.LaidOut code ncode data ndata) :=
  inferInstanceAs (Decidable (_ ∧ _ ∧ _ ∧ _))

theorem Addrspace.LaidOut.widths (h : as.LaidOut code ncode data ndata)
    (hcode : code < 2 ^ 32) (hncode : ncode < 2 ^ 16) (hdata : data < 2 ^ 32) (hndata : ndata < 2 ^ 16) :
    as.Widths := by
  obtain ⟨rfl, rfl, rfl, rfl⟩ := h
  exact ⟨hcode, hncode, hdata, hndata⟩

theorem Addrspace.LaidOut.apart (h : as.LaidOut code ncode data ndata)
    (hle : code + ncode * pageSize ≤ pageFrame data) : as.SegmentsApart := by
  obtain ⟨rfl, rfl, rfl, -⟩ := h
  rintro p ⟨-, hcode⟩ ⟨hdata, -⟩
  rw [pageAddr_val] at hcode hdata
  unfold pageFrame at hle
  unfold pageSize at hcode hdata hle
  omega

/-- One page of code and one of data, far apart. -/
def apartProgram : File := elfImage 120 0x400000 [codePhdr 116 0x400000 4 4, dataPhdr 116 0x10000000 4 4]

/-- The victim is the page of the code. -/
theorem code_eviction_keeps_data_apart : ∃ (c : Client) (as : Addrspace) (v : ℕ) (s' : Kernel),
    Reaches PagingStep (Booted (24 * pageSize) 12288) c ∧ c.kernel.getas = some as ∧
    c.kernel.codeVictim as = some v ∧ as.OnlyCode (c.kernel.mainPG v).pageNumber ∧
    evictPage 5 .code (kvaddr v) c.kernel = .ok () s' ∧
    ∀ f < c.kernel.pagetableEntry, ∀ q, c.kernel.Maps q c.kernel.curPid f → as.DataPage q ∨ as.StackPage q →
      s'.mainPG f = c.kernel.mainPG f ∧ frameBytes s'.ram f = frameBytes c.kernel.ram f := by
  have hrun : ∃ s ∈ programLoaded 24 (by decide) apartProgram fun _ => 0, ∃ as ∈ s.getas, ∃ v ∈ s.codeVictim as,
      s.curPid ≠ 0 ∧ as.LaidOut 0x400000 1 0x10000000 1 ∧ as.CodePage (s.mainPG v).pageNumber ∧
      ¬ as.DataPage (s.mainPG v).pageNumber ∧ ¬ as.StackPage (s.mainPG v).pageNumber ∧
      ∃ u s', evictPage 5 .code (kvaddr v) s = .ok u s' ∧ True := by decide +kernel
  obtain ⟨s, hs, as, has, v, hv, hpid, hlaid, hcode, hdata, hstack, _, s', hevict, -⟩ := hrun
  obtain ⟨B, P, hreach⟩ := programLoaded_reaches (by decide) hs
  have hsound := code_eviction_keeps_data (s := s) (hlaid.widths (by decide) (by decide) (by decide) (by decide))
    (hlaid.apart (by decide))
  have honly : ∀ w, s.codeVictim as = some w → as.OnlyCode (s.mainPG w).pageNumber := by
    intro w hw
    rw [← Option.some.inj (hv.symm.trans hw)]
    exact ⟨hcode, hdata, hstack⟩
  exact ⟨⟨B, P, s⟩, as, v, s', hreach, has, hv, ⟨hcode, hdata, hstack⟩, hevict,
    hsound.2 _ _ B P hreach hpid (hsound.1.mp honly) 5 v s' hv hevict⟩

/-- Seventeen pages of code, of which 16 are loaded, and the data from `0x411010` on, in the next page.  The header of
the data comes first. -/
def touchingProgram : File :=
  elfImage 0x20000 0x400000 [dataPhdr 0x12010 0x411010 4 4, codePhdr 0x1000 0x400000 4 0x10000]

/-- The program in a machine that has just enough frames for it. -/
def crowdedMachine : Option Kernel := programLoaded 22 (by decide) touchingProgram fun _ => 0

/-- Code and data occupy different pages and touch.  The victim of the fault on the last page of the code is the page of
the data: the fault returns 0 and the page is neither in memory nor in the swap file. -/
theorem code_eviction_drops_data : ∃ (c : Client) (as : Addrspace) (v : ℕ) (s' : Kernel),
    Reaches PagingStep (Booted (22 * pageSize) 12288) c ∧ c.kernel.curPid ≠ 0 ∧ c.kernel.getas = some as ∧
    as.Widths ∧ as.SegmentsApart ∧ c.kernel.codeVictim as = some v ∧
    c.kernel.Maps (pageOf 0x411010) c.kernel.curPid v ∧ as.DataPage (pageOf 0x411010) ∧
    ¬ as.CodePage (pageOf 0x411010) ∧ vmFault 5 3 .read 0x410000 c.kernel = .ok 0 s' ∧
    s'.rowOf (pageOf 0x411010) s'.curPid = none ∧ s'.sfPageSearch (pageOf 0x411010) s'.curPid = none := by
  have hrun : ∃ s ∈ crowdedMachine, ∃ as ∈ s.getas, ∃ v ∈ s.codeVictim as, s.curPid ≠ 0 ∧
      as.LaidOut 0x400000 17 0x411010 1 ∧ s.Maps (pageOf 0x411010) s.curPid v ∧ as.DataPage (pageOf 0x411010) ∧
      ¬ as.CodePage (pageOf 0x411010) ∧ ∃ r s', vmFault 5 3 .read 0x410000 s = .ok r s' ∧ r = 0 ∧
        s'.rowOf (pageOf 0x411010) s'.curPid = none ∧ s'.sfPageSearch (pageOf 0x411010) s'.curPid = none := by
    decide +kernel
  obtain ⟨s, hs, as, has, v, hv, hpid, hlaid, hmaps, hdata, hcode, _, s', hok, rfl, hrow, hslot⟩ := hrun
  obtain ⟨B, P, hreach⟩ := programLoaded_reaches (by decide) hs
  exact ⟨⟨B, P, s⟩, as, v, s', hreach, hpid, has, hlaid.widths (by decide) (by decide) (by decide) (by decide),
    hlaid.apart (by decide), hv, hmaps, hdata, hcode, hok, hrow, hslot⟩

end CodeVictims

/-! ### Faults on pages written out -/

section DataVictims

variable {as : Addrspace} {s : Kernel} {p : PageNo} {a index : ℕ}

/-- The addresses of a page. -/
def InPage (p : PageNo) (a : ℕ) : Prop := pageAddr p ≤ a ∧ a < pageAddr p + pageSize

theorem InPage.page_eq (h : InPage p a) : pageOf a = p := by
  obtain ⟨hlow, hhigh⟩ := h
  rw [pageAddr_val] at hlow hhigh
  have hdiv : a / pageSize = p.val := Nat.div_eq_of_lt_le hlow (by rw [Nat.succ_mul]; exact hhigh)
  unfold pageOf
  rw [hdiv]
  exact Fin.ofNat_val_eq_self p

/-- The page ends inside the data segment and has no address of the code segment. -/
def Addrspace.WholePage (as : Addrspace) (p : PageNo) : Prop :=
  pageAddr p + (pageSize - 1) ≤ (as.vbaseData + as.npagesData * pageSize) % 2 ^ 32 ∧
  (pageAddr p + (pageSize - 1) < as.vbaseCode ∨ (as.vbaseCode + as.npagesCode * pageSize) % 2 ^ 32 < pageAddr p ∨
    (as.vbaseCode + as.npagesCode * pageSize) % 2 ^ 32 < as.vbaseCode)

instance (as : Addrspace) (p : PageNo) : Decidable (as.WholePage p) := inferInstanceAs (Decidable (_ ∧ (_ ∨ _ ∨ _)))

theorem inPage_forall_iff {base last : ℕ} (h : base ≤ pageAddr p) :
    (∀ a, InPage p a → a ≤ last ∧ base ≤ a) ↔ pageAddr p + (pageSize - 1) ≤ last := by
  constructor
  · intro hall
    exact (hall (pageAddr p + (pageSize - 1)) ⟨Nat.le_add_right _ _, Nat.add_lt_add_left (by decide) _⟩).1
  · rintro hlast a ⟨hlow, hhigh⟩
    unfold pageSize at hlast hhigh
    omega

theorem inPage_forall_not_iff {base last : ℕ} : (∀ a, InPage p a → ¬ (a ≤ last ∧ base ≤ a)) ↔
    pageAddr p + (pageSize - 1) < base ∨ last < pageAddr p ∨ last < base := by
  constructor
  · intro hall
    by_contra hmeet
    unfold pageSize at hmeet
    -- the page's first address or, if the interval starts later, the interval's
    refine hall (max (pageAddr p) base) ⟨Nat.le_max_left _ _, ?_⟩ ⟨?_, Nat.le_max_right _ _⟩
    · unfold pageSize
      omega
    · omega
  · rintro hmeet a ⟨hlow, hhigh⟩ ⟨hlast, hbase⟩
    unfold pageSize at hmeet hhigh
    omega

theorem Addrspace.wholePage_iff (h : as.isDataSegment (pageAddr p)) :
    (∀ a, InPage p a → as.isDataSegment a ∧ ¬ as.isCodeSegment a) ↔ as.WholePage p := by
  unfold Addrspace.WholePage
  rw [← inPage_forall_iff h.2, ← inPage_forall_not_iff]
  exact ⟨fun hall => ⟨fun a ha => (hall a ha).1, fun a ha => (hall a ha).2⟩,
    fun hboth a ha => ⟨hboth.1 a ha, hboth.2 a ha⟩⟩

theorem Kernel.faultWay_swap_iff (has : s.getas = some as) (habsent : s.pageSearch a = none)
    (hslot : s.sfPageSearch (pageOf a) s.curPid = some index) :
    (s.faultWay .read a = .swap index ∧ s.faultWay .write a = .swap index) ↔
      as.isDataSegment a ∧ ¬ as.isCodeSegment a := by
  have hread : s.faultWay .read a = if as.isCodeSegment a then .first .code else s.dataWay as .dataRead a := by
    have hfound : ¬ s.foundForRead a := by
      unfold foundForRead
      rw [habsent]
      exact Nat.lt_irrefl 0
    simp only [faultWay, has, if_neg hfound]
  have hdata : ∀ path, s.dataWay as path a = if as.isDataSegment a then .swap index else .outside := by
    intro path
    simp only [dataWay, hslot]
  rw [hread, faultWay_write_absent has habsent, hdata, hdata]
  by_cases hcode : as.isCodeSegment a
  · simp [hcode]
  · by_cases hin : as.isDataSegment a
    · simp [hcode, hin]
    · simp [hcode, hin]

/-- **Faults on a page that was swapped out.**  For every address space and every page that `is_dataSegment` accepts by
its first address, all addresses of the page are data and not code if and only if the page is whole.  In every state
where the page is in the swap file and not in the table, every read and every write in it goes the way of the swap-in if
and only if the page is whole. -/
theorem swapped_page_faults_back (h : as.isDataSegment (pageAddr p)) :
    ((∀ a, InPage p a → as.isDataSegment a ∧ ¬ as.isCodeSegment a) ↔ as.WholePage p) ∧
    ∀ s : Kernel, ∀ index, s.getas = some as → s.pageSearch (pageAddr p) = none →
      s.sfPageSearch p s.curPid = some index →
      ((∀ a, InPage p a → s.faultWay .read a = .swap index ∧ s.faultWay .write a = .swap index) ↔ as.WholePage p) := by
  refine ⟨as.wholePage_iff h, fun s index has habsent hslot => ?_⟩
  rw [← as.wholePage_iff h]
  have hway : ∀ a, InPage p a → ((s.faultWay .read a = .swap index ∧ s.faultWay .write a = .swap index) ↔
      as.isDataSegment a ∧ ¬ as.isCodeSegment a) := by
    intro a ha
    have hsearch : s.pageSearch a = s.pageSearch (pageAddr p) := by
      unfold pageSearch
      rw [ha.page_eq, pageOf_pageAddr]
    exact faultWay_swap_iff has (hsearch.trans habsent) (ha.page_eq.symm ▸ hslot)
  exact forall₂_congr hway

/-- A page of the data comes back wherever it is touched. -/
theorem swapped_page_faults_back_first : ∃ (c : Client) (as : Addrspace),
    Reaches PagingStep (Booted 24576 12288) c ∧ c.kernel.getas = some as ∧
    ∀ a, InPage (pageOf 0x10000000) a → c.kernel.faultWay .read a = .swap 0 ∧ c.kernel.faultWay .write a = .swap 0 := by
  have hrun : ∃ s ∈ swappedPage fun _ => 0, ∃ as ∈ s.getas, as.isDataSegment (pageAddr (pageOf 0x10000000)) ∧
      as.WholePage (pageOf 0x10000000) ∧ s.pageSearch (pageAddr (pageOf 0x10000000)) = none ∧
      s.sfPageSearch (pageOf 0x10000000) s.curPid = some 0 := by decide +kernel
  obtain ⟨s, hs, as, has, hdata, hwhole, habsent, hslot⟩ := hrun
  obtain ⟨B, P, hreach⟩ := swappedPage_reaches hs
  exact ⟨⟨B, P, s⟩, as, hreach, has, ((swapped_page_faults_back hdata).2 s 0 has habsent hslot).mpr hwhole⟩

/-- The crowded machine after two faults: the first loads the last page of the code in place of the page of the data,
the second that page in place of the stack page. -/
def stackSwappedOut : Option Kernel :=
  crowdedMachine.bind fun s =>
    if s.curPid ≠ 0 then
      (vmFault 5 3 .read 0x410000 s).state?.bind fun s₁ =>
        if s₁.curPid ≠ 0 then (vmFault 5 3 .read 0x411020 s₁).state? else none
    else none

theorem stackSwappedOut_reaches (h : stackSwappedOut = some s) :
    ∃ B P, Reaches PagingStep (Booted (22 * pageSize) 12288) ⟨B, P, s⟩ := by
  obtain ⟨s₀, hs₀, hrest⟩ := Option.bind_eq_some_iff.mp h
  obtain ⟨hpid, hrest⟩ := Option.ite_none_right_eq_some.mp hrest
  obtain ⟨s₁, hs₁, hrest⟩ := Option.bind_eq_some_iff.mp hrest
  obtain ⟨hpid', hrest⟩ := Option.ite_none_right_eq_some.mp hrest
  obtain ⟨B, P, hreach⟩ := programLoaded_reaches (by decide) hs₀
  obtain ⟨r, hfault⟩ := exists_of_state? hs₁
  obtain ⟨r', hfault'⟩ := exists_of_state? hrest
  exact ⟨B, P, (hreach.next (.fault hpid hfault)).next (.fault hpid' hfault')⟩

/-- The stack page is in the swap file, its first address is accepted, and faults behind the end of the data return
errors. -/
theorem swapped_stack_page_lost : ∃ (c : Client) (as : Addrspace) (s₁ s₂ : Kernel),
    Reaches PagingStep (Booted (22 * pageSize) 12288) c ∧ c.kernel.getas = some as ∧
    as.isDataSegment (pageAddr (pageOf 0x412014)) ∧ ¬ as.isDataSegment 0x412014 ∧
    c.kernel.sfPageSearch (pageOf 0x412014) c.kernel.curPid = some 0 ∧
    vmFault 5 3 .read 0x412014 c.kernel = .ok einval s₁ ∧ vmFault 5 3 .write 0x412014 c.kernel = .ok 1 s₂ := by
  have hrun : ∃ s ∈ stackSwappedOut, ∃ as ∈ s.getas, as.isDataSegment (pageAddr (pageOf 0x412014)) ∧
      ¬ as.isDataSegment 0x412014 ∧ s.sfPageSearch (pageOf 0x412014) s.curPid = some 0 ∧
      (∃ r s₁, vmFault 5 3 .read 0x412014 s = .ok r s₁ ∧ r = einval) ∧
      ∃ r s₂, vmFault 5 3 .write 0x412014 s = .ok r s₂ ∧ r = 1 := by decide +kernel
  obtain ⟨s, hs, as, has, hdata, hbehind, hslot, ⟨_, s₁, hok, rfl⟩, _, s₂, hok', rfl⟩ := hrun
  obtain ⟨B, P, hreach⟩ := stackSwappedOut_reaches hs
  exact ⟨⟨B, P, s⟩, as, s₁, s₂, hreach, has, hdata, hbehind, hslot, hok, hok'⟩

end DataVictims

end Os161Kernel
