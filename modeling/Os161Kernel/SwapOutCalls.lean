import Os161Kernel.StoreFaults
import Os161Kernel.VictimPages

/-!
# What `vm_fault` hands to `swapOut`

Four places of `vm_fault` call `swapOut` with the frame of a victim: the first load of a data page after a read and after
a write fault, when `alloc_kpages` has no frame, and the swap-in after either.  Only one of them looks at the answer of
`victim_pageSearch` before it computes an address from it; the others rely on the process having a page that
`is_dataSegment` accepts.

`SwapOutCall` lists the calls, `vmFault_of_way` says what `vm_fault` does on each of its ways, and
`SwapOutCall.ownData_iff` when a call gets a frame of the process with a page of the data or the stack.

That the list is complete is said by putting another function in the place of `swapOut` (`vmFaultWith`): as long as it
does the same on the calls of the list, nothing changes.
-/

namespace Os161Kernel

open StateProg Search Memory Runs Kernel

/-! ### The calls -/

section Calls

variable {d n a x : ℕ} {s t : Kernel} {as : Addrspace} {type : FaultType}

/-- `vm_fault(type, a)`, called in `s`, calls `swapOut(x)` in `t`. -/
inductive SwapOutCall (d : ℕ) (type : FaultType) (a : ℕ) (s : Kernel) : ℕ → Kernel → Prop
  | swap {index : ℕ} {victim : Option ℕ} {t : Kernel} (hway : s.faultWay type a = .swap index)
      (hchoose : chooseVictim .dataRead s.countFault = .ok victim t) :
      SwapOutCall d type a s (victimAddress victim) t
  | first {path : FaultPath} {victim : Option ℕ} {t₀ t : Kernel} (hway : s.faultWay type a = .first path)
      (hpath : path ≠ .code) (halloc : allocKpages d 1 s.countFault = .ok 0 t₀)
      (hchoose : chooseVictim path t₀ = .ok victim t) : SwapOutCall d type a s (victimAddress victim) t

variable {path : FaultPath} {victim : Option ℕ}

theorem frameForPage_swapOut {t₀ : Kernel} (hpath : path ≠ .code)
    (halloc : allocKpages d 1 s = .ok 0 t₀) (hchoose : chooseVictim path t₀ = .ok victim t) :
    ∃ rest : ℕ → Kern ℕ, frameForPage d path s = (swapOut d (victimAddress victim) >>= rest) t := by
  have hevict : evictPage d path (victimAddress victim) = (do
      let _ ← swapOut d (victimAddress victim)
      Prog.update countSwapOut) := by
    cases path with
    | code => exact absurd rfl hpath
    | dataRead => rfl
    | dataWrite => rfl
  refine ⟨fun _ => Prog.update countSwapOut >>= fun _ => allocKpages d 1, ?_⟩
  unfold frameForPage
  rw [bind_of_ok halloc, if_pos rfl, bind_of_ok hchoose, hevict, Prog.bind_assoc]

theorem SwapOutCall.run (h : SwapOutCall d type a s x t) (has : s.getas = some as) (htype : type ≠ .readonly) :
    ∃ rest : ℕ → Kern ℕ, vmFault d (n + 1) type a s = (swapOut d x >>= rest) t := by
  rw [vmFault_of_way has htype]
  cases h with
  | swap hway hchoose =>
    have hvictim := bind_of_ok (f := fun victim => pure (victimAddress victim)) hchoose
    rw [hway]
    show ∃ rest : ℕ → Kern ℕ, (if type = .read then _ else _ : Kern ℕ) s.countFault = _
    split
    · exact ⟨_, bind_of_ok hvictim⟩
    · exact ⟨_, bind_of_ok hvictim⟩
  | first hway hpath halloc hchoose =>
    obtain ⟨rest, hframe⟩ := frameForPage_swapOut hpath halloc hchoose
    rw [hway, faultOn, firstLoad, bind_apply, hframe, ← bind_apply, Prog.bind_assoc]
    exact ⟨_, rfl⟩

/-! ### Their arguments -/

/-- An entry of the running process that `victim_pageSearch(1)` considers. -/
abbrev Kernel.DataCandidate (s : Kernel) (as : Addrspace) : ℕ → Prop :=
  s.Candidate fun v => decide (as.isDataSegment v)

theorem Kernel.hasVictim_iff : s.HasVictim as ↔ ∃ i, s.DataCandidate as i := by
  unfold HasVictim
  constructor
  · intro h
    obtain ⟨v, hv⟩ := Option.isSome_iff_exists.mp h
    exact ⟨v, victimPageSearch_candidate hv⟩
  · rintro ⟨i, hi⟩
    rw [Option.isSome_iff_ne_none]
    exact fun hnone => victimPageSearch_eq_none.mp hnone i hi

/-- The page right behind the data, where `as_prepare_load` puts the stack. -/
def Addrspace.BehindData (as : Addrspace) (p : PageNo) : Prop :=
  pageAddr p = as.vbaseData + as.npagesData * pageSize

/-- A valid entry of the running process with a page of the data or the stack. -/
structure OwnDataFrame (s : Kernel) (as : Addrspace) (f : ℕ) : Prop where
  lt : f < s.pagetableEntry
  valid : s.Valid f
  own : (s.mainPG f).pid = s.curPid
  page : as.DataPage (s.mainPG f).pageNumber ∨ as.BehindData (s.mainPG f).pageNumber

theorem Addrspace.dataPage_of_accepted {p : PageNo} (h : as.isDataSegment (pageAddr p)) :
    as.DataPage p ∨ as.BehindData p := by
  obtain ⟨hlast, hbase⟩ := h
  have hle : pageAddr p ≤ as.vbaseData + as.npagesData * pageSize := hlast.trans (Nat.mod_le _ _)
  rcases Nat.lt_or_eq_of_le hle with hlt | heq
  · exact .inl ⟨Nat.lt_of_le_of_lt hbase (Nat.lt_add_of_pos_right (by decide)), hlt⟩
  · exact .inr heq

theorem Kernel.DataCandidate.ownData {i : ℕ} (h : s.DataCandidate as i) (howned : OwnedValid s) (hpid : s.curPid ≠ 0) :
    OwnDataFrame s as i :=
  ⟨h.1, howned i (h.2.1 ▸ hpid), h.2.1, as.dataPage_of_accepted (of_decide_eq_true h.2.2)⟩

theorem chooseVictim_data (hpath : path ≠ .code) (has : s.getas = some as)
    (h : chooseVictim path s = .ok victim t) :
    t = s ∧ victim = s.victimPageSearch fun v => decide (as.isDataSegment v) := by
  unfold chooseVictim at h
  rw [bind_of_ok (read_apply _ s), has] at h
  cases path with
  | code => exact absurd rfl hpath
  | dataRead =>
    obtain ⟨rfl, rfl⟩ := read_ok_iff.mp h
    exact ⟨rfl, rfl⟩
  | dataWrite =>
    simp only [bind_ok_iff, read_ok_iff, panicIf, require_ok_iff, pure_ok_iff] at h
    obtain ⟨_, _, ⟨rfl, rfl⟩, _, _, ⟨-, rfl⟩, rfl, rfl⟩ := h
    exact ⟨rfl, rfl⟩

theorem chooseVictim_dataRead (has : s.getas = some as) :
    chooseVictim .dataRead s = .ok (s.victimPageSearch fun v => decide (as.isDataSegment v)) s := by
  unfold chooseVictim
  rw [bind_of_ok (read_apply _ s), has]
  rfl

theorem SwapOutCall.argument (h : SwapOutCall d type a s x t) (has : s.getas = some as) :
    t = s.countFault ∧ x = victimAddress (s.victimPageSearch fun v => decide (as.isDataSegment v)) := by
  have has' : s.countFault.getas = some as := has
  cases h with
  | swap hway hchoose =>
    obtain ⟨rfl, rfl⟩ := chooseVictim_data (by decide) has' hchoose
    exact ⟨rfl, rfl⟩
  | first hway hpath halloc hchoose =>
    obtain ⟨rfl, -⟩ := noFrames_of_allocKpages halloc
    obtain ⟨rfl, rfl⟩ := chooseVictim_data hpath has' hchoose
    exact ⟨rfl, rfl⟩

theorem chooseVictim_getas (h : chooseVictim path s = .ok victim t) :
    ∃ as, s.getas = some as := by
  unfold chooseVictim at h
  rw [bind_of_ok (read_apply _ s)] at h
  cases has : s.getas with
  | none =>
    rw [has] at h
    exact nomatch h
  | some as => exact ⟨as, rfl⟩

theorem SwapOutCall.getas (h : SwapOutCall d type a s x t) : ∃ as, s.getas = some as := by
  cases h with
  | swap hway hchoose => exact chooseVictim_getas (s := s.countFault) hchoose
  | first hway hpath halloc hchoose =>
    obtain ⟨rfl, -⟩ := noFrames_of_allocKpages halloc
    exact chooseVictim_getas (s := s.countFault) hchoose

/-- **A call gets a data frame of the process** if and only if the process has one.  Nothing is used of the state but
the invariant of paging runs, which holds inside loads as well. -/
theorem SwapOutCall.ownData_iff {ram : ℕ} {B P : List ℕ} (h : SwapOutCall d type a s x t)
    (hp : Client.Paged ram ⟨B, P, s⟩) (hpid : s.curPid ≠ 0) (has : s.getas = some as) :
    OwnDataFrame t as (frameIndex x) ↔ ∃ i, s.DataCandidate as i := by
  obtain ⟨rfl, rfl⟩ := h.argument has
  rw [← hasVictim_iff]
  unfold HasVictim
  cases hvictim : s.victimPageSearch fun v => decide (as.isDataSegment v) with
  | none =>
    -- the address made from -1 lies outside the table
    have hle := s.pagetableEntry_le
    refine ⟨fun hown => absurd hown.lt ?_, fun hsome => nomatch hsome⟩
    rw [frameIndex_victimAddress_none]
    show ¬ 0xfffff < s.pagetableEntry
    omega
  | some v =>
    have hcand : s.DataCandidate as v := victimPageSearch_candidate hvictim
    have hindex : frameIndex (victimAddress (some v)) = v :=
      frameIndex_kvaddr_self (Nat.le_of_lt (Nat.lt_of_lt_of_le hcand.1 s.pagetableEntry_le))
    rw [hindex]
    have hown := hcand.ownData hp.owned hpid
    exact ⟨fun _ => rfl, fun _ => ⟨hown.lt, hown.valid, hown.own, hown.page⟩⟩

end Calls

/-! ### Every call -/

section Every

variable (out : ℕ → Kern ℕ) (d : ℕ)

/-- `evictPage` with `out` in the place of `swapOut`; so are the next ones. -/
def evictPageWith (path : FaultPath) (address : ℕ) : Kern Unit :=
  match path with
  | .code => freeKpages d address
  | .dataRead | .dataWrite => do
    let _ ← out address
    .update countSwapOut

def frameForPageWith (path : FaultPath) : Kern ℕ := do
  let a ← allocKpages d 1
  if a = 0 then do
    let victim ← chooseVictim path
    evictPageWith out d path (victimAddress victim)
    allocKpages d 1
  else
    pure a

/-- A first load once it has a frame. -/
def loadInto (load : ℕ → Kern (Except ℕ ℕ)) (a frame : ℕ) : Kern ℕ := do
  let pid ← .read curPid
  addPT (frameIndex frame) (pageFrame a) pid true
  let opened ← vfsCall
  if opened ≠ 0 then
    pure opened
  else do
    match ← load (pageFrame a) with
    | .error e => pure e
    | .ok _ =>
      .update countElf
      pure 0

/-- The rest of `swapForRead` and `swapForWrite` after the call of `swapOut`. -/
def swapBack (type : FaultType) (index r : ℕ) : Kern ℕ :=
  if type = .read then
    if r ≠ 0 then
      pure 1
    else do
      .update countSwapOut
      let _ ← swapIn d index
      .update countSwapIn
      pure 0
  else do
    .when (r = 0) do
      .update countSwapOut
      let _ ← swapIn d index
      .update countSwapIn
    pure 0

/-- `vm_fault` by its ways.  Without an address space, and for `VM_FAULT_READONLY`, it calls no `swapOut`. -/
def vmFaultWith : ℕ → FaultHandler
  | 0 => fun _ _ => .stop .depth
  | n + 1 => fun type a s =>
    if s.getas = none ∨ type = .readonly then vmFault d (n + 1) type a s
    else match s.faultWay type a with
      | .first path =>
        (frameForPageWith out d path >>= loadInto (fun start => loadElf d (n + 1) (vmFaultWith n) start 1) a) s.countFault
      | .swap index => (dataVictim >>= fun address => out address >>= swapBack d type index) s.countFault
      | way => faultOn d n type a way s.countFault

/-- A call of `swapOut(x)` in `t` by a fault that comes while the process, in the kernel since `s`, loads pages. -/
def CallsSwapOut (d : ℕ) (s : Kernel) (x : ℕ) (t : Kernel) : Prop :=
  ∃ type a s', PagingMoves d s s' ∧ SwapOutCall d type a s' x t

variable {out d} {s₀ s : Kernel} {type : FaultType} {a n : ℕ}

theorem evictPageWith_eq {path : FaultPath} {x : ℕ} {t : Kernel} (h : path ≠ .code → out x t = swapOut d x t) :
    evictPageWith out d path x t = evictPage d path x t := by
  have hcall : path ≠ .code → (out x >>= fun _ => Prog.update countSwapOut) t =
      (swapOut d x >>= fun _ => Prog.update countSwapOut) t := fun hpath => by
    rw [bind_apply, h hpath, ← bind_apply]
  cases path with
  | code => rfl
  | dataRead => exact hcall (by decide)
  | dataWrite => exact hcall (by decide)

theorem frameForPageWith_eq {path : FaultPath} (hout : ∀ x t, SwapOutCall d type a s x t → out x t = swapOut d x t)
    (hway : s.faultWay type a = .first path) :
    frameForPageWith out d path s.countFault = frameForPage d path s.countFault := by
  unfold frameForPageWith frameForPage
  rw [bind_apply, bind_apply]
  cases halloc : allocKpages d 1 s.countFault with
  | stop e => rfl
  | ok frame t₀ =>
    by_cases h0 : frame = 0
    · simp only [if_pos h0]
      rw [h0] at halloc
      rw [bind_apply, bind_apply]
      cases hchoose : chooseVictim path t₀ with
      | stop e => rfl
      | ok victim t =>
        have hevict := evictPageWith_eq fun hpath => hout _ t (.first hway hpath halloc hchoose)
        simp only [bind_apply, hevict]
    · simp only [if_neg h0]

theorem loadInto_eq {load load' : ℕ → Kern (Except ℕ ℕ)} {frame : ℕ} {t : Kernel}
    (h : ∀ u, addPT (frameIndex frame) (pageFrame a) t.curPid true t = .ok () u →
      load (pageFrame a) (u.calls 1) = load' (pageFrame a) (u.calls 1)) :
    loadInto load a frame t = loadInto load' a frame t := by
  unfold loadInto
  rw [bind_of_ok (read_apply _ t), bind_of_ok (read_apply _ t), bind_apply, bind_apply]
  cases hpt : addPT (frameIndex frame) (pageFrame a) t.curPid true t with
  | stop e => rfl
  | ok _ u =>
    have hcall : vfsCall u = .ok (u.ioResult u.ioCount) (u.calls 1) := rfl
    simp only [bind_of_ok hcall]
    split
    · rfl
    · rw [bind_apply, bind_apply, h u hpt]

theorem faultOn_first (path : FaultPath) : faultOn d n type a (.first path) =
    frameForPage d path >>= loadInto (fun start => loadElf d (n + 1) (vmFault d n) start 1) a := rfl

theorem faultOn_swap (index : ℕ) : faultOn d n type a (.swap index) =
    dataVictim >>= fun address => swapOut d address >>= swapBack d type index := by
  unfold faultOn swapForRead swapForWrite swapBack
  by_cases htype : type = .read
  · simp only [if_pos htype]
  · simp only [if_neg htype]

theorem loadElf_agree (h : ∀ type a, Agree (PagingMoves d s₀) (vmFaultWith out d n type a) (vmFault d n type a))
    (tries start npages : ℕ) : Agree (PagingMoves d s₀) (loadElf d tries (vmFaultWith out d n) start npages)
      (loadElf d tries (vmFault d n) start npages) := by
  have hP : Congruence (fun f => ∀ s, Silent s (f s)) (fun _ => True)
      (fun {α} (m m' : Kern α) => Agree (PagingMoves d s₀) m m') :=
    (agree_congruence (PagingMoves d s₀)).weaken (fun _ hf s hs => hs.loading (hf s).loading) fun _ => id
  have hregion : ∀ (s : Kernel) f, PagingMoves d s (s.mapas f) := fun _ f => (PagingMove.region f).moves
  refine loadElf_walk hP trivial trivial trivial
    (fun a _ => storeFrame_walk hP trivial (fun type _ a => h type a) a tries) (fun v _ => .of_within ?_)
    (fun _ v m r w x => .of_within ?_) fun _ => .of_within (asPrepareLoad_within hregion allocPages_paging)
  · exact fun s u s' hr => (finishSegment_uncounted v s u s' hr).loading.moves d
  · exact asDefineRegion_within (fun _ _ hu => hu.loading.moves d) hregion allocPages_paging v m r w x

/-- **Nothing but the calls of the list matters.** -/
theorem vmFaultWith_agree (hout : ∀ x t, CallsSwapOut d s₀ x t → out x t = swapOut d x t) :
    ∀ n type a, Agree (PagingMoves d s₀) (vmFaultWith out d n type a) (vmFault d n type a) := by
  intro n
  induction n with
  | zero => exact fun _ _ _ _ => ⟨rfl, nofun⟩
  | succ n ih =>
    intro type a s hs
    have hlisted : ∀ x t, SwapOutCall d type a s x t → out x t = swapOut d x t :=
      fun x t hcall => hout x t ⟨type, a, s, hs, hcall⟩
    have heq : vmFaultWith out d (n + 1) type a s = vmFault d (n + 1) type a s := by
      by_cases hnone : s.getas = none ∨ type = .readonly
      · exact if_pos hnone
      obtain ⟨hsome, htype⟩ := not_or.mp hnone
      obtain ⟨as, has⟩ := Option.ne_none_iff_exists'.mp hsome
      rw [vmFault_of_way has htype]
      refine (if_neg hnone).trans ?_
      cases hway : s.faultWay type a with
      | outside => rfl
      | found => rfl
      | dies => rfl
      | first path =>
        rw [faultOn_first]
        simp only
        rw [bind_apply, bind_apply, frameForPageWith_eq hlisted hway]
        cases hframe : frameForPage d path s.countFault with
        | stop e => rfl
        | ok frame t =>
          refine loadInto_eq fun u hpt => (loadElf_agree ih _ _ _ _ ?_).1
          have hfault : PagingMoves d s₀ s.countFault := hs.loading (countFault_loading s)
          have hmapped : PagingMoves d s₀ u := IsTrans.trans _ _ _ hfault (mapPage_paging hframe hpt)
          exact hmapped.loading (.of_same rfl)
      | swap index =>
        rw [faultOn_swap]
        show (dataVictim >>= fun address => out address >>= swapBack d type index) s.countFault = _
        rw [bind_apply, bind_apply]
        cases hvictim : dataVictim s.countFault with
        | stop e => rfl
        | ok address t =>
          obtain ⟨victim, t', hchoose, hpure⟩ := bind_ok_iff.mp hvictim
          obtain ⟨rfl, rfl⟩ := pure_ok_iff.mp hpure
          simp only [bind_apply, hlisted _ _ (.swap hway hchoose)]
    refine ⟨heq, fun r t hrun => ?_⟩
    rw [heq] at hrun
    exact IsTrans.trans _ _ _ hs (vmFault_paging d (n + 1) type a s r t hrun)

end Every

/-- **`swapOut` gets data frames of the faulting process.**  In every state of every paging run, for every call of
`swapOut` that a fault of a user process makes from there on, by itself or inside `load_elf`: its argument is a frame of
the machine whose entry is valid, belongs to the process and holds a page of the data or the stack, if and only if the
process then has a page that `is_dataSegment` accepts by its first address.  There are no other calls. -/
theorem swapOut_gets_own_data {ram first d : ℕ} {c : Client}
    (hreach : Reaches PagingStep (Client.Booted ram first) c) (hpid : c.kernel.curPid ≠ 0) :
    (∀ x t as, CallsSwapOut d c.kernel x t → t.getas = some as →
      (OwnDataFrame t as (frameIndex x) ↔ ∃ i, t.DataCandidate as i)) ∧
    ∀ out, (∀ x t, CallsSwapOut d c.kernel x t → out x t = swapOut d x t) →
      (∀ n type a, vmFaultWith out d n type a c.kernel = vmFault d n type a c.kernel) ∧
      ∀ n, loadElf d n (vmFaultWith out d n) 0 0 c.kernel = loadElf d n (vmFault d n) 0 0 c.kernel := by
  obtain ⟨B, P, s⟩ := c
  refine ⟨fun x t as ⟨type, a, s', hmoves, hcall⟩ has => ?_, fun out hout => ⟨fun n type a => ?_, fun n => ?_⟩⟩
  · obtain ⟨hcur, hp⟩ := hmoves.keepsPaged hpid B P (reaches_paged hreach)
    obtain ⟨as', has'⟩ := hcall.getas
    obtain ⟨rfl, -⟩ := hcall.argument has'
    exact hcall.ownData_iff hp (hcur ▸ hpid) has
  · exact (vmFaultWith_agree hout n type a s .refl).1
  · exact (loadElf_agree (vmFaultWith_agree hout n) n 0 0 s .refl).1

/-- The crowded machine after the page of the data was dropped: the fault on it writes out the stack page. -/
theorem swapOut_gets_own_data_stack : ∃ (c : Client) (as : Addrspace) (x : ℕ) (t : Kernel),
    Reaches PagingStep (Client.Booted (22 * pageSize) 12288) c ∧ c.kernel.getas = some as ∧
    SwapOutCall 5 .read 0x411020 c.kernel x t ∧ OwnDataFrame t as (frameIndex x) := by
  have hrun : ∃ s ∈ crowdedMachine, s.curPid ≠ 0 ∧ ∃ r s₁, vmFault 5 3 .read 0x410000 s = .ok r s₁ ∧
      ∃ as ∈ s₁.getas, ∃ v ∈ s₁.victimPageSearch fun v => decide (as.isDataSegment v),
        s₁.curPid ≠ 0 ∧ s₁.faultWay .read 0x411020 = .first .dataRead ∧
        ∃ r t, allocKpages 5 1 s₁.countFault = .ok r t ∧ r = 0 := by decide +kernel
  obtain ⟨s, hs, hpid, r, s₁, hfault, as, has, v, hv, hpid', hway, _, t₀, halloc, rfl⟩ := hrun
  obtain ⟨B, P, hreach⟩ := programLoaded_reaches (by decide) hs
  have hreach' := hreach.next (.fault hpid hfault)
  obtain ⟨rfl, -⟩ := noFrames_of_allocKpages halloc
  have hcall : SwapOutCall 5 .read 0x411020 s₁ _ _ :=
    .first hway (by decide) halloc (chooseVictim_dataRead (s := s₁.countFault) has)
  exact ⟨⟨B, P, s₁⟩, as, _, _, hreach', has, hcall, ((swapOut_gets_own_data hreach' hpid').1 _ _ as
    ⟨_, _, s₁, .refl, hcall⟩ has).mpr ⟨v, victimPageSearch_candidate hv⟩⟩

/-- After the stack page went to the swap file, the process has no page that the search accepts; a read on the stack page
makes `vm_fault` call `swapOut` with what it computed from -1. -/
theorem swapOut_gets_no_frame : ∃ (c : Client) (as : Addrspace) (t : Kernel),
    Reaches PagingStep (Client.Booted (22 * pageSize) 12288) c ∧ c.kernel.curPid ≠ 0 ∧ c.kernel.getas = some as ∧
    SwapOutCall 5 .read 0x412004 c.kernel 0x7ffff000 t ∧ ¬ frameIndex 0x7ffff000 < t.pagetableEntry := by
  have hrun : ∃ s ∈ stackSwappedOut, ∃ as ∈ s.getas, s.curPid ≠ 0 ∧ s.faultWay .read 0x412004 = .swap 0 ∧
      (s.victimPageSearch fun v => decide (as.isDataSegment v)) = none ∧ s.pagetableEntry ≤ 0xfffff := by
    decide +kernel
  obtain ⟨s, hs, as, has, hpid, hway, hnone, hle⟩ := hrun
  obtain ⟨B, P, hreach⟩ := stackSwappedOut_reaches hs
  have hchoose : chooseVictim .dataRead s.countFault = .ok none s.countFault := by
    rw [chooseVictim_dataRead (s := s.countFault) has]
    exact congrArg (Outcome.ok · s.countFault) hnone
  refine ⟨⟨B, P, s⟩, as, s.countFault, hreach, hpid, has, .swap hway hchoose, ?_⟩
  have hindex : frameIndex 0x7ffff000 = 0xfffff := frameIndex_victimAddress_none
  rw [hindex]
  exact Nat.not_lt.mpr hle

end Os161Kernel
