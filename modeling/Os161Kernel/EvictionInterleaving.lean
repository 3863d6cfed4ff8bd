import Os161Kernel.FrameAccounting

/-!
# Evictions by several processes

When `vm_fault` loads a page for the first time and `alloc_kpages` has no frame, it picks a victim among the pages of
the process, gives its frame up and asks `alloc_kpages` again.  The three places of the source that do so differ in how
the victim goes: a code page is dropped with `free_kpages`, a data page is written out with `swapOut`, and the read
path does not test whether a victim was found.  None looks at the second result of `alloc_kpages` nor at that of
`swapOut`; what `addPT` gets is computed from it.

The timer preempts kernel code, so each of these calls is one step here and the steps of any number of faulting
processes interleave.  A frame given up goes to the list they all share.
-/

namespace Os161Kernel

open StateProg Search Memory Runs Kernel

/-! ### One process -/

/-- The three first-load paths. -/
inductive FaultPath where
  | code
  | dataRead
  | dataWrite
deriving DecidableEq

/-- The call that comes next. -/
inductive EvictPhase where
  | first
  | choose
  | evict (victim : Option ℕ)
  | again
  | map (address : ℕ) (evicted : Bool)
deriving DecidableEq

/-- A phase whose call takes a frame from the list or puts one there. -/
def EvictPhase.usesList : EvictPhase → Bool
  | .first | .evict _ | .again => true
  | .choose | .map _ _ => false

/-- A process inside `vm_fault`. -/
structure Faulting where
  proc : ℕ
  path : FaultPath
  vaddr : ℕ
  phase : EvictPhase
deriving DecidableEq

/-- The next call writes a page to the swap file. -/
def Faulting.writesOut (x : Faulting) : Bool :=
  match x.phase, x.path with
  | .evict _, .dataRead | .evict _, .dataWrite => true
  | _, _ => false

/-- `victim_page*PAGE_SIZE + MIPS_KSEG0`, with -1 for no victim. -/
def victimAddress : Option ℕ → ℕ
  | some v => kvaddr v
  | none => 0x7ffff000

/-- `victim_pageSearch(type)` and the test that two of the paths make. -/
def chooseVictim (path : FaultPath) : Kern (Option ℕ) := do
  match ← .read getas with
  | none => .stop .nullDeref
  | some as =>
    match path with
    | .code =>
      let victim ← .read fun s => s.victimPageSearch fun a => decide (as.isCodeSegment a)
      panicIf (victim = none) "No victim found."
      pure victim
    | .dataRead => .read fun s => s.victimPageSearch fun a => decide (as.isDataSegment a)
    | .dataWrite =>
      let victim ← .read fun s => s.victimPageSearch fun a => decide (as.isDataSegment a)
      panicIf (victim = none) " "
      pure victim

/-- The victim's page goes. -/
def evictPage (d : ℕ) (path : FaultPath) (address : ℕ) : Kern Unit :=
  match path with
  | .code => freeKpages d address
  | .dataRead | .dataWrite => do
    let _ ← swapOut d address
    .update fun s => { s with stats := { s.stats with sfWrites := s.stats.sfWrites + 1 } }

variable {d address : ℕ} {path : FaultPath} {s s' : Kernel} {u : Unit}

theorem evictPage_ok
    (h : evictPage d path address s = .ok u s') :
    (path = .code ∧ freeKpages d address s = .ok () s') ∨
    (path ≠ .code ∧ ∃ r t, swapOut d address s = .ok r t ∧
      s' = { t with stats := { t.stats with sfWrites := t.stats.sfWrites + 1 } }) := by
  cases path with
  | code => exact .inl ⟨rfl, h⟩
  | dataRead =>
    obtain ⟨r, t, hout, hupd⟩ := bind_ok_iff.mp h
    exact .inr ⟨by decide, r, t, hout, (update_ok_iff.mp hupd).symm⟩
  | dataWrite =>
    obtain ⟨r, t, hout, hupd⟩ := bind_ok_iff.mp h
    exact .inr ⟨by decide, r, t, hout, (update_ok_iff.mp hupd).symm⟩

/-- The next call, and the phase after it; `none` when the frame is mapped. -/
def nextCall (d : ℕ) (x : Faulting) : Kern (Option EvictPhase) :=
  match x.phase with
  | .first => do
    let a ← allocKpages d 1
    pure (some (if a = 0 then .choose else .map a false))
  | .choose => do
    let victim ← chooseVictim x.path
    pure (some (.evict victim))
  | .evict victim => do
    evictPage d x.path (victimAddress victim)
    pure (some .again)
  | .again => do
    let a ← allocKpages d 1
    pure (some (.map a true))
  | .map a _ => do
    let pid ← .read curPid
    addPT (frameIndex a) x.vaddr pid true
    pure none

theorem evictPage_lt (hs : s.vmStarted = true)
    (h : evictPage d path address s = .ok u s') : frameIndex address < s.pagetableEntry := by
  have hswap : ∀ {m : Kern Unit}, (swapOut d address >>= fun _ => m) s = .ok u s' →
      frameIndex address < s.pagetableEntry := by
    intro m hrun
    obtain ⟨r, t, hout, -⟩ := bind_ok_iff.mp hrun
    obtain ⟨-, -, hlt, -⟩ := swapOut_ok hout
    exact hlt
  cases path with
  | code =>
    cases d with
    | zero => exact nomatch h
    | succ d =>
      rcases freeKpagesBody_ok h with ⟨hearly, -⟩ | ⟨-, hlt, -⟩
      · exact absurd (hs.symm.trans hearly) (by decide)
      · exact hlt
  | dataRead => exact hswap h
  | dataWrite => exact hswap h

theorem chooseVictim_ok {victim : Option ℕ}
    (h : chooseVictim path s = .ok victim s') :
    s' = s ∧ ∀ w, victim = some w → w < s.pagetableEntry ∧ (s.mainPG w).pid = s.curPid := by
  have hcand : ∀ inSegment w, s.victimPageSearch inSegment = some w →
      w < s.pagetableEntry ∧ (s.mainPG w).pid = s.curPid := by
    intro inSegment w hw
    have hc := victimPageSearch_candidate hw
    exact ⟨hc.1, hc.2.1⟩
  unfold chooseVictim at h
  obtain ⟨as, _, hread, h⟩ := bind_ok_iff.mp h
  obtain ⟨-, rfl⟩ := read_ok_iff.mp hread
  cases as with
  | none => exact (stop_ok_iff.mp h).elim
  | some as =>
    cases path with
    | code =>
      simp only [bind_ok_iff, read_ok_iff, panicIf, require_ok_iff, pure_ok_iff] at h
      obtain ⟨_, _, ⟨hv, rfl⟩, _, _, ⟨-, rfl⟩, rfl, rfl⟩ := h
      exact ⟨rfl, fun w hw => hcand _ w (hv.trans hw)⟩
    | dataRead =>
      obtain ⟨hv, rfl⟩ := read_ok_iff.mp h
      exact ⟨rfl, fun w hw => hcand _ w (hv.trans hw)⟩
    | dataWrite =>
      simp only [bind_ok_iff, read_ok_iff, panicIf, require_ok_iff, pure_ok_iff] at h
      obtain ⟨_, _, ⟨hv, rfl⟩, _, _, ⟨-, rfl⟩, rfl, rfl⟩ := h
      exact ⟨rfl, fun w hw => hcand _ w (hv.trans hw)⟩

theorem frameIndex_victimAddress_none : frameIndex (victimAddress none) = 0xfffff := by decide +kernel

/-! ### The system -/

/-- The kernel with the processes inside `vm_fault`. -/
structure EvictSystem where
  kernel : Kernel
  flight : List Faulting

/-- Process `n` faults on a page that is not there, or goes on with its next call. -/
inductive EvictOp where
  | fault (n : ℕ) (path : FaultPath) (vaddr : ℕ)
  | run (n d : ℕ)

namespace EvictSystem

/-- Process `n` gets the processor and makes its next call. -/
def runNext (n d : ℕ) (x : Faulting) : Kern (Option EvictPhase) := do
  let cur ← .read curproc
  .when (cur ≠ n) (switchTo n)
  nextCall d x

/-- One call; a call that stops is no step. -/
def step (σ : EvictSystem) : EvictOp → Option EvictSystem
  | .fault n path vaddr =>
    if ∀ x ∈ σ.flight, x.proc ≠ n then some { σ with flight := ⟨n, path, vaddr, .first⟩ :: σ.flight } else none
  | .run n d =>
    (σ.flight.find? fun x => x.proc = n).bind fun x =>
      match runNext n d x σ.kernel with
      | .stop _ => none
      | .ok none s' => some ⟨s', σ.flight.filter fun x => x.proc ≠ n⟩
      | .ok (some phase) s' => some ⟨s', { x with phase := phase } :: σ.flight.filter fun x => x.proc ≠ n⟩

/-- Every address that goes to `addPT` after an eviction is that of a frame which `alloc_kpages` gave to this process
and which is still nobody else's: below `PAGETABLE_ENTRY`, valid, without an owner yet, off the list. -/
def Granted (σ : EvictSystem) : Prop :=
  ∀ x ∈ σ.flight, ∀ a, x.phase = .map a true → frameIndex a < σ.kernel.pagetableEntry ∧
    a = kvaddr (frameIndex a) ∧ σ.kernel.Valid (frameIndex a) ∧ (σ.kernel.mainPG (frameIndex a)).pid = 0 ∧
    frameIndex a ∉ σ.kernel.freeFrames ∧
    ∀ y ∈ σ.flight, ∀ e, y.phase = .map a e → y.proc = x.proc

/-- Who faults is a user process, and no other process of its pid is inside `vm_fault`.  While a process is between
its eviction and its second `alloc_kpages`, no other one calls `alloc_kpages` or evicts; the write of a victim
succeeds. -/
def Meets (σ : EvictSystem) : EvictOp → Prop
  | .fault n _ _ => (σ.kernel.procs n).pid ≠ 0 ∧
      ∀ x ∈ σ.flight, (σ.kernel.procs x.proc).pid ≠ (σ.kernel.procs n).pid
  | .run n _ => ∀ x ∈ σ.flight, x.proc = n →
      (x.phase.usesList = true → ∀ y ∈ σ.flight, y.proc ≠ n → y.phase ≠ .again) ∧
      (x.writesOut = true → σ.kernel.ioResult (σ.kernel.ioCount + 1) = 0)

instance (σ : EvictSystem) : ∀ op, Decidable (σ.Meets op)
  | .fault _ _ _ => inferInstanceAs (Decidable (_ ∧ ∀ x ∈ _, _))
  | .run _ _ => inferInstanceAs (Decidable (∀ x ∈ _, _))

/-- A state to start from: one that a kernel reaches after `vm_bootstrap`, with nobody inside `vm_fault`. -/
def Start (σ : EvictSystem) : Prop :=
  σ.flight = [] ∧ ∃ ram first B P, Reaches Client.Step (Client.Booted ram first) ⟨B, P, σ.kernel⟩

/-- What a process relies on for its next call, when `P` are the pages handed out. -/
def PhaseOk (P : List ℕ) (s : Kernel) (x : Faulting) : Prop :=
  match x.phase with
  | .first | .choose | .evict none => True
  | .evict (some w) => w < s.pagetableEntry ∧ s.User w ∧ (s.mainPG w).pid = (s.procs x.proc).pid
  | .again => s.frameList ≠ []
  | .map a _ => (∃ f, a = kvaddr f) ∧ a ∈ P

/-- The invariant of the runs that meet the condition. -/
structure Inv (ram : ℕ) (B P : List ℕ) (σ : EvictSystem) : Prop where
  client : Client.Inv ram [] ⟨B, P, σ.kernel⟩
  started : σ.kernel.vmStarted = true
  owned : OwnedValid σ.kernel
  users : ∀ x ∈ σ.flight, (σ.kernel.procs x.proc).pid ≠ 0
  pids : ∀ x ∈ σ.flight, ∀ y ∈ σ.flight, x.proc ≠ y.proc →
    (σ.kernel.procs x.proc).pid ≠ (σ.kernel.procs y.proc).pid
  phases : ∀ x ∈ σ.flight, PhaseOk P σ.kernel x
  distinct : ∀ x ∈ σ.flight, ∀ y ∈ σ.flight, ∀ a e e', x.phase = .map a e → y.phase = .map a e' →
    x.proc = y.proc

variable {ram : ℕ} {B P : List ℕ} {σ σ' : EvictSystem}

theorem Inv.granted (h : σ.Inv ram B P) : σ.Granted := by
  intro x hx a hphase
  have hok := h.phases x hx
  rw [PhaseOk, hphase] at hok
  obtain ⟨⟨f, rfl⟩, hmem⟩ := hok
  obtain ⟨hheld, hcalm⟩ := livePage_iff.mp (h.client.pages f hmem)
  obtain ⟨hlt, hvalid, hpid⟩ := (held_iff h.started).mp hheld
  have hindex : frameIndex (kvaddr f) = f :=
    frameIndex_kvaddr_self (Nat.le_of_lt (Nat.lt_of_lt_of_le hlt σ.kernel.pagetableEntry_le))
  rw [hindex]
  refine ⟨hlt, rfl, hvalid, hpid, fun hfree => (h.client.account.of_mem hfree).2 hvalid, fun y hy e hphase' => ?_⟩
  exact h.distinct y hy x hx _ e true hphase' hphase

variable {n d a w : ℕ} {P' : List ℕ} {s' s t : Kernel} {x : Faulting} {r : Option EvictPhase} {path : FaultPath} {u : Unit}

theorem Inv.advance {D : Set ℕ} (h : σ.Inv ram B P)
    (hclient : Client.Inv ram [] ⟨B, P', s'⟩) (hleaves : Leaves D σ.kernel s') (howned : OwnedValid s')
    (hprocs : s'.procs = σ.kernel.procs)
    (hD : ∀ y ∈ σ.flight, y.proc ≠ n → ∀ w ∈ D, σ.kernel.User w → (σ.kernel.mainPG w).pid ≠
      (σ.kernel.procs y.proc).pid)
    (hP : ∀ y ∈ σ.flight, y.proc ≠ n → ∀ a e, y.phase = .map a e → a ∈ P → a ∈ P')
    (hlist : ∀ y ∈ σ.flight, y.proc ≠ n → y.phase = .again → s'.frameList ≠ []) :
    Inv ram B P' ⟨s', σ.flight.filter fun x => x.proc ≠ n⟩ where
  client := hclient
  started := hleaves.setup.started.trans h.started
  owned := howned
  users x hx := by
    show (s'.procs x.proc).pid ≠ 0
    rw [hprocs]
    exact h.users x (List.mem_of_mem_filter hx)
  pids x hx y hy := by
    show x.proc ≠ y.proc → (s'.procs x.proc).pid ≠ (s'.procs y.proc).pid
    rw [hprocs]
    exact h.pids x (List.mem_of_mem_filter hx) y (List.mem_of_mem_filter hy)
  distinct x hx y hy := h.distinct x (List.mem_of_mem_filter hx) y (List.mem_of_mem_filter hy)
  phases y hy := by
    obtain ⟨hmem, hne⟩ := List.mem_filter.mp hy
    have hne : y.proc ≠ n := of_decide_eq_true hne
    have hok := h.phases y hmem
    show PhaseOk P' s' y
    unfold PhaseOk at hok ⊢
    split
    · trivial
    · trivial
    · trivial
    · next w hphase =>
      rw [hphase] at hok
      obtain ⟨hlt, hu, hpid⟩ := hok
      have hcalm := (h.client.heap.user_calm h.started hlt hu).1
      have hw : w ∉ D := fun hmemD => hD y hmem hne w hmemD hu hpid
      have hrow := hleaves.row w hw hcalm
      refine ⟨hleaves.setup.entries ▸ hlt, ?_, ?_⟩
      · unfold User Valid
        rw [hrow]
        exact hu
      · rw [hrow, hprocs]
        exact hpid
    · next hphase => exact hlist y hmem hne hphase
    · next a e hphase =>
      rw [hphase] at hok
      exact ⟨hok.1, hP y hmem hne a e hphase hok.2⟩

theorem Inv.enter (h : σ.Inv ram B P) (huser : (σ.kernel.procs x.proc).pid ≠ 0)
    (hpids : ∀ y ∈ σ.flight, (σ.kernel.procs y.proc).pid ≠ (σ.kernel.procs x.proc).pid)
    (hok : PhaseOk P σ.kernel x)
    (hmap : ∀ y ∈ σ.flight, ∀ a e e', x.phase = .map a e → y.phase ≠ .map a e') :
    Inv ram B P { σ with flight := x :: σ.flight } where
  client := h.client
  started := h.started
  owned := h.owned
  users y hy := by
    rcases List.mem_cons.mp hy with rfl | hy
    · exact huser
    · exact h.users y hy
  pids y hy z hz hne := by
    rcases List.mem_cons.mp hy with rfl | hy' <;> rcases List.mem_cons.mp hz with rfl | hz'
    · exact absurd rfl hne
    · exact (hpids z hz').symm
    · exact hpids y hy'
    · exact h.pids y hy' z hz' hne
  phases y hy := by
    rcases List.mem_cons.mp hy with rfl | hy
    · exact hok
    · exact h.phases y hy
  distinct y hy z hz a e e' hpy hpz := by
    rcases List.mem_cons.mp hy with rfl | hy' <;> rcases List.mem_cons.mp hz with rfl | hz'
    · rfl
    · exact absurd hpz (hmap z hz' a e e' hpy)
    · exact absurd hpy (hmap y hy' a e' e hpz)
    · exact h.distinct y hy' z hz' a e e' hpy hpz

/-! ### The calls -/

/-- A process got the processor: the TLB may have been emptied, nothing else changed. -/
def Dispatched (n : ℕ) (s t : Kernel) : Prop :=
  t = { s with
    curproc := n
    tlb := t.tlb
    freeTLBEntries := t.freeTLBEntries
    tlbPid := t.tlbPid
    stats := t.stats }

theorem runNext_ok
    (h : runNext n d x s = .ok r s') : ∃ t, Dispatched n s t ∧ nextCall d x t = .ok r s' := by
  unfold runNext at h
  simp only [bind_ok_iff, read_ok_iff, when_ok_iff] at h
  obtain ⟨_, _, ⟨rfl, rfl⟩, _, t, hwhen, hnext⟩ := h
  refine ⟨t, ?_, hnext⟩
  rcases hwhen with ⟨-, hswitch⟩ | ⟨heq, rfl⟩
  · unfold switchTo asActivate at hswitch
    simp only [bind_ok_iff, update_ok_iff, read_ok_iff] at hswitch
    obtain ⟨_, _, rfl, as, _, ⟨-, rfl⟩, hactivate⟩ := hswitch
    cases as with
    | none =>
      rw [← (pure_ok_iff.mp hactivate).2]
      rfl
    | some as =>
      simp only [bind_ok_iff, read_ok_iff, when_ok_iff, update_ok_iff, invalidateTLB] at hactivate
      obtain ⟨_, _, ⟨-, rfl⟩, _, _, ⟨-, rfl⟩, hcases⟩ := hactivate
      rcases hcases with ⟨-, _, _, rfl, rfl⟩ | ⟨-, rfl⟩
      · rfl
      · rfl
  · unfold Dispatched
    rw [← not_not.mp heq]

theorem Dispatched.sameOwners (h : Dispatched n s t) : SameOwners s t := by
  unfold SameOwners
  rw [h]

theorem Dispatched.inv (h : σ.Inv ram B P) (hd : Dispatched n σ.kernel t) :
    Inv ram B P { σ with kernel := t } := by
  have hclient := (h.client.of_sameOwners hd.sameOwners).inv
  have hprocs : t.procs = σ.kernel.procs := by rw [hd]
  refine ⟨hclient, by rw [hd]; exact h.started, h.owned.of_same (by rw [hd]), fun x hx => ?_, fun x hx y hy => ?_,
    fun x hx => ?_, h.distinct⟩
  · show (t.procs x.proc).pid ≠ 0
    rw [hprocs]
    exact h.users x hx
  · show x.proc ≠ y.proc → (t.procs x.proc).pid ≠ (t.procs y.proc).pid
    rw [hprocs]
    exact h.pids x hx y hy
  · have hok := h.phases x hx
    show PhaseOk P t x
    rw [hd]
    exact hok

theorem Inv.alloc (h : σ.Inv ram B P)
    (hwait : ∀ y ∈ σ.flight, y.proc ≠ n → y.phase ≠ .again) (hrun : allocKpages d 1 σ.kernel = .ok a s') :
    s'.procs = σ.kernel.procs ∧
      ((a = 0 ∧ σ.kernel.frameList = [] ∧ Inv ram B P ⟨s', σ.flight.filter fun x => x.proc ≠ n⟩) ∨
      (∃ f, a = kvaddr f) ∧ a ∉ P ∧ Inv ram B (a :: P) ⟨s', σ.flight.filter fun x => x.proc ≠ n⟩) := by
  have hclient := (h.client.allocKpages hrun).inv
  have hmoves := allocKpages_moves d 1 _ _ _ hrun
  have howned := h.owned.moves hmoves
  have hprocs : s'.procs = σ.kernel.procs := by rw [hmoves.allocOnly]
  have hwait' : ∀ y ∈ σ.flight, y.proc ≠ n → y.phase = .again → s'.frameList ≠ [] := fun y hy hne hphase =>
    absurd hphase (hwait y hy hne)
  refine ⟨hprocs, ?_⟩
  cases (allocator_sound d).alloc h.client.heap (fun _ => Nat.one_ne_zero) hrun with
  | none ha inv quiet =>
    left
    rw [if_pos ha] at hclient
    refine ⟨ha, ?_, h.advance hclient (.of_quiet quiet) howned hprocs
      (fun _ _ _ w hw => absurd hw (Set.notMem_empty w)) (fun _ _ _ _ _ _ => id) hwait'⟩
    cases d with
    | zero => exact nomatch hrun
    | succ d =>
      rcases allocKpagesBody_ok hrun with ⟨-, -, -, hempty, -⟩ | ⟨-, -, -, addr, t, -, -, ha'⟩ | ⟨hearly, -⟩
      · exact hempty
      · have : kseg0 + addr = 0 := ha'.symm.trans ha
        simp only [kseg0] at this
        omega
      · exact absurd (h.started.symm.trans hearly) (by decide)
  | frame f X ha hf one new quiet inv live zero =>
    right
    subst ha
    rw [if_neg (kvaddr_ne_zero f)] at hclient
    refine ⟨⟨f, rfl⟩, fun hmem => inv.not_mem_of_cons (List.mem_append_right B hmem),
      h.advance hclient (.of_quiet quiet) howned hprocs (fun _ _ _ w hw hu _ => ?_)
        (fun _ _ _ _ _ _ hmem => List.mem_cons_of_mem _ hmem) hwait'⟩
    exact new w hw (h.client.heap.user_calm h.started (by
      have hsub := one rfl
      rw [hsub] at hw
      have hlt := ((busy_iff (quiet.vmStarted.trans h.started)).mp (livePage_iff.mp live).2.busy).1
      rw [Set.mem_singleton_iff.mp hw]
      exact quiet.pagetableEntry ▸ hlt) hu).1

theorem evictPage_frees
    (hio : path ≠ .code → s.ioResult (s.ioCount + 1) = 0)
    (h : evictPage d path (kvaddr w) s = .ok u s') :
    ∃ t v, SameOwners s t ∧ t.procs = s.procs ∧ freeKpages d (kvaddr w) t = .ok () v ∧ SameOwners v s' ∧
      s'.procs = v.procs := by
  rcases evictPage_ok h with ⟨-, hfree⟩ | ⟨hpath, r, v, hswap, rfl⟩
  · exact ⟨s, s', rfl, rfl, hfree, rfl, rfl⟩
  · obtain ⟨index, -, -, ⟨-, hne, -⟩ | ⟨-, -, hfree⟩⟩ := swapOut_ok hswap
    · exact absurd (hio hpath) hne
    · exact ⟨_, v, s.stored_sameOwners index _, rfl, hfree, rfl, rfl⟩

theorem Inv.evict (h : σ.Inv ram B P)
    (hwait : ∀ y ∈ σ.flight, y.proc ≠ n → y.phase ≠ .again) (hlt : w < σ.kernel.pagetableEntry)
    (hu : σ.kernel.User w) (hothers : ∀ y ∈ σ.flight, y.proc ≠ n →
      (σ.kernel.mainPG w).pid ≠ (σ.kernel.procs y.proc).pid)
    (hio : path ≠ .code → σ.kernel.ioResult (σ.kernel.ioCount + 1) = 0)
    (hrun : evictPage d path (kvaddr w) σ.kernel = .ok u s') :
    s'.procs = σ.kernel.procs ∧ s'.frameList ≠ [] ∧
      Inv ram B P ⟨s', σ.flight.filter fun x => x.proc ≠ n⟩ := by
  obtain ⟨t, v, hst, hprocst, hfree, hvs, hprocsv⟩ := evictPage_frees hio hrun
  have hclient := (h.client.of_sameOwners hst).inv
  have hstart : t.vmStarted = true := by rw [hst]; exact h.started
  have hlt' : w < t.pagetableEntry := by rw [hst]; exact hlt
  have hut : t.User w := by rw [hst]; exact hu
  obtain ⟨hcalm, hL⟩ := hclient.heap.user_calm hstart hlt' hut
  have herase : P.erase (kvaddr w) = P := List.erase_of_not_mem fun hmem => hL (List.mem_append_right B hmem)
  have hclient' := (hclient.freeKpages hstart (.inr ⟨hlt', hut⟩) hfree).inv
  rw [herase] at hclient'
  obtain ⟨-, hquiet⟩ := (allocator_sound d).free hclient.heap hL hcalm hfree
  have hleaves : Leaves (∅ ∪ {w} ∪ ∅) σ.kernel s' :=
    ((Leaves.of_sameOwners hst).trans (.of_freed_quiet hquiet)).trans (.of_sameOwners hvs)
  have hlist : s'.frameList ≠ [] := by
    have hmem := freeKpages_mem hstart (Nat.le_of_lt (Nat.lt_of_lt_of_le hlt' t.pagetableEntry_le)) hfree
    have hsame : s'.frameList = v.frameList := by rw [hvs]
    intro hnil
    rw [freeFrames, ← hsame, hnil] at hmem
    exact List.not_mem_nil hmem
  have hprocs : s'.procs = σ.kernel.procs := by
    rw [hprocsv, (freeKpages_moves d _ _ _ _ hfree).allocOnly, ← hprocst]
  have howned : OwnedValid s' := by
    have hstored : OwnedValid t := h.owned.of_same (by rw [hst])
    exact (hstored.moves (freeKpages_moves d _ _ _ _ hfree)).of_same (by rw [hvs])
  refine ⟨hprocs, hlist, h.advance (hclient'.of_sameOwners hvs).inv hleaves howned hprocs (fun y hy hne g hg _ => ?_)
    (fun _ _ _ _ _ _ => id) fun y hy hne hphase => absurd hphase (hwait y hy hne)⟩
  have hgw : g = w := by simpa using hg
  rw [hgw]
  exact hothers y hy hne

theorem Inv.map {v : ℕ} {pid : UInt8} {dirty e : Bool} (h : σ.Inv ram B P)
    (hx : x ∈ σ.flight) (hproc : x.proc = n) (hphase : x.phase = .map a e)
    (hrun : addPT (frameIndex a) v pid dirty σ.kernel = .ok () s') :
    Inv ram B (P.erase a) ⟨s', σ.flight.filter fun x => x.proc ≠ n⟩ := by
  have hok := h.phases x hx
  rw [PhaseOk, hphase] at hok
  obtain ⟨⟨f, rfl⟩, hmem⟩ := hok
  obtain ⟨hheld, hcalm⟩ := livePage_iff.mp (h.client.pages f hmem)
  obtain ⟨hlt, -, hkernel⟩ := (held_iff h.started).mp hheld
  have hindex : frameIndex (kvaddr f) = f :=
    frameIndex_kvaddr_self (Nat.le_of_lt (Nat.lt_of_lt_of_le hlt σ.kernel.pagetableEntry_le))
  have hclient := (h.client.addPT h.started hmem hrun).inv
  have howned := h.owned.addPT hrun
  rw [hindex] at hrun
  obtain ⟨-, -, rfl⟩ := addPT_ok hrun
  refine h.advance hclient (.of_mapped ((QuietBut.refl _).weaken (Set.empty_subset _)) h.started hcalm rfl)
    howned rfl (fun y _ _ g hg hu => ?_) (fun y hy hne a' e' hphase' hmem' => ?_) fun y hy _ hagain => ?_
  · rw [Set.mem_singleton_iff.mp hg] at hu
    exact absurd hkernel hu.2
  · refine (List.mem_erase_of_ne fun heq => hne ?_).mpr hmem'
    rw [heq] at hphase'
    exact (h.distinct y hy x hx _ e' e hphase' hphase).trans hproc
  · have hok := h.phases y hy
    rw [PhaseOk, hagain] at hok
    exact hok

theorem Inv.rejoin {phase : EvictPhase} (h : σ.Inv ram B P)
    (hx : x ∈ σ.flight) (hprocs : s'.procs = σ.kernel.procs)
    (hrest : Inv ram B P' ⟨s', σ.flight.filter fun y => y.proc ≠ x.proc⟩)
    (hok : PhaseOk P' s' { x with phase := phase })
    (hmap : ∀ y ∈ σ.flight, y.proc ≠ x.proc → ∀ a e e', phase = .map a e → y.phase ≠ .map a e') :
    Inv ram B P' ⟨s', { x with phase := phase } :: σ.flight.filter fun y => y.proc ≠ x.proc⟩ := by
  refine hrest.enter (x := { x with phase := phase }) ?_ (fun y hy => ?_) hok fun y hy => ?_
  · show (s'.procs x.proc).pid ≠ 0
    rw [hprocs]
    exact h.users x hx
  · obtain ⟨hmem, hne⟩ := List.mem_filter.mp hy
    show (s'.procs y.proc).pid ≠ (s'.procs x.proc).pid
    rw [hprocs]
    exact h.pids y hmem x hx (of_decide_eq_true hne)
  · obtain ⟨hmem, hne⟩ := List.mem_filter.mp hy
    exact hmap y hmem (of_decide_eq_true hne)

theorem Inv.not_map (h : σ.Inv ram B P) (ha : a ∉ P) : ∀ y ∈ σ.flight, ∀ e, y.phase ≠ .map a e := by
  intro y hy e hphase
  have hok := h.phases y hy
  rw [PhaseOk, hphase] at hok
  exact ha hok.2

theorem Inv.next (h : σ.Inv ram B P)
    (hx : x ∈ σ.flight) (hcur : σ.kernel.curproc = x.proc)
    (hwait : x.phase.usesList = true → ∀ y ∈ σ.flight, y.proc ≠ x.proc → y.phase ≠ .again)
    (hio : x.writesOut = true → σ.kernel.ioResult (σ.kernel.ioCount + 1) = 0)
    (hrun : nextCall d x σ.kernel = .ok r s') :
    ∃ P', Inv ram B P' ⟨s', (r.map fun phase => { x with phase := phase }).toList ++
      σ.flight.filter fun y => y.proc ≠ x.proc⟩ := by
  have hpid : σ.kernel.curPid = (σ.kernel.procs x.proc).pid := by
    unfold curPid cur
    rw [hcur]
  cases hphase : x.phase with
  | first =>
    -- the first `alloc_kpages`
    simp only [nextCall, hphase, bind_ok_iff, pure_ok_iff] at hrun
    obtain ⟨a, _, halloc, rfl, rfl⟩ := hrun
    obtain ⟨hprocs, ⟨ha, -, hrest⟩ | ⟨⟨f, hf⟩, hnew, hrest⟩⟩ := h.alloc (hwait (by rw [hphase]; rfl)) halloc
    · rw [if_pos ha]
      exact ⟨P, h.rejoin hx hprocs hrest trivial fun _ _ _ _ _ _ hmap => nomatch hmap⟩
    · rw [if_neg (hf ▸ kvaddr_ne_zero f)]
      refine ⟨a :: P, h.rejoin hx hprocs hrest ⟨⟨f, hf⟩, List.mem_cons_self⟩ fun y hy _ a' e e' hmap => ?_⟩
      obtain ⟨rfl, -⟩ := EvictPhase.map.inj hmap
      exact h.not_map hnew y hy e'
  | choose =>
    -- `victim_pageSearch`
    simp only [nextCall, hphase, bind_ok_iff, pure_ok_iff] at hrun
    obtain ⟨victim, _, hchoose, rfl, rfl⟩ := hrun
    obtain ⟨hsame, hvictim⟩ := chooseVictim_ok hchoose
    rw [hsame]
    have hrest : Inv ram B P ⟨σ.kernel, σ.flight.filter fun y => y.proc ≠ x.proc⟩ :=
      h.advance h.client (.of_sameOwners rfl) h.owned rfl (fun _ _ _ w hw => absurd hw (Set.notMem_empty w))
        (fun _ _ _ _ _ _ => id) fun y hy _ hagain => by
          have hok := h.phases y hy
          rw [PhaseOk, hagain] at hok
          exact hok
    refine ⟨P, h.rejoin hx rfl hrest ?_ fun _ _ _ _ _ _ hmap => nomatch hmap⟩
    cases victim with
    | none => trivial
    | some w =>
      obtain ⟨hlt, hw⟩ := hvictim w rfl
      rw [hpid] at hw
      exact ⟨hlt, ⟨h.owned w (hw ▸ h.users x hx), hw ▸ h.users x hx⟩, hw⟩
  | evict victim =>
    -- the eviction
    simp only [nextCall, hphase, bind_ok_iff, pure_ok_iff] at hrun
    obtain ⟨_, _, hevict, rfl, rfl⟩ := hrun
    have hok := h.phases x hx
    rw [PhaseOk, hphase] at hok
    cases victim with
    | none =>
      have hlt := evictPage_lt h.started hevict
      have hle := σ.kernel.pagetableEntry_le
      rw [frameIndex_victimAddress_none] at hlt
      omega
    | some w =>
      obtain ⟨hlt, hu, hw⟩ := hok
      have hwrites : x.path ≠ .code → σ.kernel.ioResult (σ.kernel.ioCount + 1) = 0 := by
        intro hpath
        refine hio ?_
        unfold Faulting.writesOut
        rw [hphase]
        cases hp : x.path with
        | code => exact absurd hp hpath
        | dataRead => rfl
        | dataWrite => rfl
      obtain ⟨hprocs, hlist, hrest⟩ := h.evict (hwait (by rw [hphase]; rfl)) hlt hu
        (fun y hy hne => by rw [hw]; exact h.pids x hx y hy fun heq => hne heq.symm) hwrites hevict
      exact ⟨P, h.rejoin hx hprocs hrest hlist fun _ _ _ _ _ _ hmap => nomatch hmap⟩
  | again =>
    -- the second `alloc_kpages`: the freed frame is still there
    simp only [nextCall, hphase, bind_ok_iff, pure_ok_iff] at hrun
    obtain ⟨a, _, halloc, rfl, rfl⟩ := hrun
    have hok := h.phases x hx
    rw [PhaseOk, hphase] at hok
    obtain ⟨hprocs, ⟨-, hempty, -⟩ | ⟨⟨f, hf⟩, hnew, hrest⟩⟩ := h.alloc (hwait (by rw [hphase]; rfl)) halloc
    · exact absurd hempty hok
    · refine ⟨a :: P, h.rejoin hx hprocs hrest ⟨⟨f, hf⟩, List.mem_cons_self⟩ fun y hy _ a' e e' hmap => ?_⟩
      obtain ⟨rfl, -⟩ := EvictPhase.map.inj hmap
      exact h.not_map hnew y hy e'
  | map a e =>
    simp only [nextCall, hphase, bind_ok_iff, read_ok_iff, pure_ok_iff] at hrun
    obtain ⟨_, _, ⟨rfl, rfl⟩, _, _, hpt, rfl, rfl⟩ := hrun
    exact ⟨P.erase a, h.map hx rfl hphase hpt⟩

theorem Inv.step {op : EvictOp} (h : σ.Inv ram B P) (hmeets : σ.Meets op) (hstep : σ.step op = some σ') :
    ∃ P', σ'.Inv ram B P' := by
  cases op with
  | fault n path vaddr =>
    simp only [EvictSystem.step, Option.ite_none_right_eq_some] at hstep
    rw [← Option.some.inj hstep.2]
    exact ⟨P, h.enter hmeets.1 hmeets.2 trivial fun _ _ _ _ _ hmap => nomatch hmap⟩
  | run n d =>
    simp only [EvictSystem.step] at hstep
    obtain ⟨x, hfind, hstep⟩ := Option.bind_eq_some_iff.mp hstep
    have hx := List.mem_of_find?_eq_some hfind
    have hn : x.proc = n := by
      have hfst := List.find?_some hfind
      exact of_decide_eq_true hfst
    subst hn
    obtain ⟨hwait, hio⟩ := hmeets x hx rfl
    have hnext : ∀ {r s'}, runNext x.proc d x σ.kernel = .ok r s' →
        ∃ P', Inv ram B P' ⟨s', (r.map fun phase => { x with phase := phase }).toList ++
          σ.flight.filter fun y => y.proc ≠ x.proc⟩ := by
      intro r s' hrun
      obtain ⟨t, hdisp, hcall⟩ := runNext_ok hrun
      refine (Dispatched.inv h hdisp).next hx (by rw [hdisp]) hwait (fun hw => ?_) hcall
      show t.ioResult (t.ioCount + 1) = 0
      rw [hdisp]
      exact hio hw
    split at hstep
    · exact nomatch hstep
    · next s' hrun =>
      rw [← Option.some.inj hstep]
      exact hnext hrun
    · next phase s' hrun =>
      rw [← Option.some.inj hstep]
      exact hnext hrun

end EvictSystem

/-- **An evicted frame is available to the evictor.**  Along every run of the calls of any number of faulting processes
that meets the condition, every address that goes to `addPT` after an eviction is that of a frame which the process
got from `alloc_kpages` and which is nobody else's. -/
theorem evicted_frame_granted {σ₀ σ : EvictSystem} (hstart : σ₀.Start)
    (h : Reaches (Guarded (StepOf EvictSystem.step) EvictSystem.Meets) (· = σ₀) σ) : σ.Granted := by
  obtain ⟨hflight, ram, first, B, P, hreach⟩ := hstart
  obtain ⟨hclient, hs, -⟩ := Client.reaches_inv hreach
  have hnone : ∀ x, x ∉ σ₀.flight := fun x hx => absurd hx (hflight ▸ List.not_mem_nil)
  have hinv : ∃ P', σ.Inv ram B P' := by
    refine h.invariant (P := fun σ => ∃ P', σ.Inv ram B P') ?_ ?_
    · rintro σ rfl
      exact ⟨P, hclient, hs, Client.reaches_ownedValid hreach, fun x hx => absurd hx (hnone x),
        fun x hx => absurd hx (hnone x), fun x hx => absurd hx (hnone x), fun x hx => absurd hx (hnone x)⟩
    · rintro σ op σ' ⟨P', hσ⟩ ⟨hmeets, hstep⟩
      exact hσ.step hmeets hstep
  obtain ⟨P', hσ⟩ := hinv
  exact hσ.granted

/-! ### A machine without a free frame -/

/-- Process 1 takes frames for `n` pages from 0x400000 on. -/
def fill : ℕ → Kernel → Option Kernel
  | 0, s => some s
  | n + 1, s => (allocPages 5 (0x400000 + n * pageSize) true s).state?.bind (fill n)

theorem fill_reaches {c : Client → Prop} {B P : List ℕ} {n : ℕ}
    (hreach : Reaches Client.Step c ⟨B, P, s⟩) (h : fill n s = some s') : Reaches Client.Step c ⟨B, P, s'⟩ := by
  induction n generalizing s with
  | zero =>
    rw [← Option.some.inj h]
    exact hreach
  | succ n ih =>
    obtain ⟨t, ht, hrest⟩ := Option.bind_eq_some_iff.mp h
    exact ih (.next hreach (Client.Step.allocPages (state?_eq_some.mp ht))) hrest

/-- The address space of the processes: a data segment of sixteen pages. -/
def dataSegment : Addrspace := ⟨0, 0, 0, 0, 0x400000, 16, 16, 0, 0⟩

/-- All frames but those of the kernel are data pages of process 1. -/
def fullMemory : Option EvictSystem :=
  (kmalloc 5 8 smallMachineProcs).state?.bind fun s₁ =>
    if s₁.lastpaddr = 65536 ∧ s₁.firstpaddr = 12288 then
      (vmBootstrap 5 s₁).state?.bind fun s₂ => (fill 12 s₂).map fun s =>
        ⟨{ s with
          sfList := fun i => ⟨0, 0, i, false⟩
          procs := fun n => { s.procs n with addrspace := some dataSegment } }, []⟩
    else none

theorem fullMemory_start {σ : EvictSystem} (h : fullMemory = some σ) : σ.Start := by
  unfold fullMemory at h
  obtain ⟨s₁, hs₁, h⟩ := Option.bind_eq_some_iff.mp h
  obtain ⟨b, hmalloc⟩ := exists_of_state? hs₁
  rw [Option.ite_none_right_eq_some] at h
  obtain ⟨hsize, h⟩ := h
  obtain ⟨s₂, hs₂, h⟩ := Option.bind_eq_some_iff.mp h
  obtain ⟨s, hs, rfl⟩ := Option.map_eq_some_iff.mp h
  have hbooted := Client.booted_of_kmalloc smallMachineProcs_powerOn hmalloc (by decide) hsize.1 hsize.2
    (by decide) (state?_eq_some.mp hs₂)
  have hfull := fill_reaches (.start hbooted) hs
  refine ⟨rfl, 65536, 12288, if b = 0 then [] else [b], [], .next (i := .other) hfull (.other rfl)⟩

/-- Process 1 evicts a page, is granted its frame and is about to map it; process 2 faults only then. -/
theorem evicted_frame_granted_in_turn : ∃ σ₀ σ : EvictSystem, σ₀.Start ∧
    Reaches (Guarded (StepOf EvictSystem.step) EvictSystem.Meets) (· = σ₀) σ ∧
    (∃ x ∈ σ.flight, x.proc = 1 ∧ x.phase = .map (kvaddr 3) true) ∧ σ.Granted := by
  have hrun : ∃ σ₀ ∈ fullMemory, ∃ σ ∈ follow (restrict EvictSystem.step EvictSystem.Meets)
      [.fault 1 .dataWrite 0x40f000, .run 1 5, .run 1 5, .run 1 5, .run 1 5, .fault 2 .dataRead 0x400000, .run 2 5] σ₀,
      ∃ x ∈ σ.flight, x.proc = 1 ∧ x.phase = .map (kvaddr 3) true := by decide +kernel
  obtain ⟨σ₀, hσ₀, σ, hfollow, hmapped⟩ := hrun
  have hreach : Reaches (Guarded (StepOf EvictSystem.step) EvictSystem.Meets) (· = σ₀) σ := by
    rw [← stepOf_restrict]
    exact .of_follow _ (.start rfl) hfollow
  exact ⟨σ₀, σ, fullMemory_start hσ₀, hreach, hmapped, evicted_frame_granted (fullMemory_start hσ₀) hreach⟩

/-- Process 2 takes the frame that process 1 gave up before process 1 asks for it.  Process 1 goes on with the address
that `alloc_kpages` returns when it fails. -/
theorem evicted_frame_stolen : ∃ σ₀ σ : EvictSystem, σ₀.Start ∧
    Reaches (StepOf EvictSystem.step) (· = σ₀) σ ∧
    (∃ x ∈ σ.flight, x.proc = 1 ∧ x.phase = .map 0 true) ∧
    (∃ x ∈ σ.flight, x.proc = 2 ∧ x.phase = .map (kvaddr 3) false) ∧ ¬ σ.Granted := by
  have hrun : ∃ σ₀ ∈ fullMemory, ∃ σ ∈ follow EvictSystem.step
      [.fault 1 .dataWrite 0x40f000, .run 1 5, .run 1 5, .run 1 5, .fault 2 .dataWrite 0x400000, .run 2 5, .run 1 5] σ₀,
      (∃ x ∈ σ.flight, x.proc = 1 ∧ x.phase = .map 0 true) ∧
      ∃ x ∈ σ.flight, x.proc = 2 ∧ x.phase = .map (kvaddr 3) false := by decide +kernel
  obtain ⟨σ₀, hσ₀, σ, hfollow, ⟨x, hx, hproc, hphase⟩, hother⟩ := hrun
  refine ⟨σ₀, σ, fullMemory_start hσ₀, .of_follow _ (.start rfl) hfollow, ⟨x, hx, hproc, hphase⟩, hother,
    fun hgranted => ?_⟩
  have hlt := (hgranted x hx 0 hphase).1
  have hle := σ.kernel.pagetableEntry_le
  have hindex : frameIndex 0 = 0x80000 := by decide +kernel
  omega

end Os161Kernel
