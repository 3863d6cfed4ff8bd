import Os161Kernel.Fault
import Os161Kernel.SwapConservation

/-!
# What loading a page leaves alone

A fault that loads a page maps it before it reads it.  Every store of the copy then finds the page with `pageSearch`, so
a fault within the fault only reloads the TLB, and the whole of `load_elf` for one page edits memory contents, the TLB,
the device buffer, counters, dirty bits and the place where bss is taken to start (`Loading`).  That is
`loadElf_loading`; what holds of rows, slots and the heap is derived from `Loading` and never looks at the loader
again.
-/

namespace Os161Kernel

open StateProg Search Memory Runs Function Kernel

/-! ### The relation -/

/-- An address space up to the place where bss is taken to start. -/
def Addrspace.regions (as : Addrspace) : Addrspace := { as with vbaseBss := 0 }

/-- What a load may edit. -/
structure Loading (s s' : Kernel) : Prop where
  same : s' = { s with
    ram := s'.ram
    mainPG := s'.mainPG
    tlb := s'.tlb
    freeTLBEntries := s'.freeTLBEntries
    nextVictim := s'.nextVictim
    procs := s'.procs
    ioCount := s'.ioCount
    iobuf := s'.iobuf
    badfaultfunc := s'.badfaultfunc
    stats := s'.stats }
  row : ∀ f, s'.mainPG f = { s.mainPG f with dirty := (s'.mainPG f).dirty }
  proc : ∀ n, (s'.procs n).pid = (s.procs n).pid ∧ (s'.procs n).image = (s.procs n).image ∧
    (s'.procs n).addrspace.map Addrspace.regions = (s.procs n).addrspace.map Addrspace.regions

instance : Std.Refl Loading := ⟨fun _ => ⟨rfl, fun _ => rfl, fun _ => ⟨rfl, rfl, rfl⟩⟩⟩

instance : IsTrans Kernel Loading where
  trans s t u hst htu := by
    refine ⟨?_, fun f => ?_, fun n => ?_⟩
    · have hu := htu.same
      rw [hst.same] at hu
      exact hu
    · have hu := htu.row f
      rw [hst.row f] at hu
      exact hu
    · obtain ⟨hpid, himage, has⟩ := hst.proc n
      obtain ⟨hpid', himage', has'⟩ := htu.proc n
      exact ⟨hpid'.trans hpid, himage'.trans himage, has'.trans has⟩

namespace Loading

variable {s s' : Kernel} {L : List ℕ} {V : List (ℕ × ℕ)}

theorem of_same (h : s' = { s with
    ram := s'.ram
    tlb := s'.tlb
    freeTLBEntries := s'.freeTLBEntries
    nextVictim := s'.nextVictim
    ioCount := s'.ioCount
    iobuf := s'.iobuf
    badfaultfunc := s'.badfaultfunc
    stats := s'.stats }) : Loading s s' := by
  have hrows : s'.mainPG = s.mainPG := by rw [h]
  have hprocs : s'.procs = s.procs := by rw [h]
  refine ⟨?_, fun f => by rw [hrows], fun n => by rw [hprocs]; exact ⟨rfl, rfl, rfl⟩⟩
  rw [hrows, hprocs]
  exact h

theorem valid_iff (h : Loading s s') {f : ℕ} : s'.Valid f ↔ s.Valid f := by
  unfold Valid
  rw [h.row f]

theorem pid_eq (h : Loading s s') (f : ℕ) : (s'.mainPG f).pid = (s.mainPG f).pid := by rw [h.row f]

theorem pageNumber_eq (h : Loading s s') (f : ℕ) : (s'.mainPG f).pageNumber = (s.mainPG f).pageNumber := by
  rw [h.row f]

theorem entries (h : Loading s s') : s'.pagetableEntry = s.pagetableEntry := by rw [h.same]

theorem started (h : Loading s s') : s'.vmStarted = s.vmStarted := by rw [h.same]

theorem sfList_eq (h : Loading s s') : s'.sfList = s.sfList := by rw [h.same]

theorem ioResult_eq (h : Loading s s') : s'.ioResult = s.ioResult := by rw [h.same]

theorem curPid_eq (h : Loading s s') : s'.curPid = s.curPid := by
  have hcur : s'.curproc = s.curproc := by rw [h.same]
  unfold curPid cur
  rw [hcur]
  exact (h.proc _).1

theorem maps_iff (h : Loading s s') {p : PageNo} {pid : UInt8} {f : ℕ} : s'.Maps p pid f ↔ s.Maps p pid f := by
  unfold Maps
  rw [h.valid_iff, h.pid_eq, h.pageNumber_eq]

theorem held_eq (h : Loading s s') : s'.Held = s.Held := by
  have hfirst : s'.firstpaddr = s.firstpaddr := by rw [h.same]
  funext f
  unfold Held
  rw [h.started, h.entries, hfirst, h.pid_eq]
  simp only [h.valid_iff]

theorem heapView_eq (h : Loading s s') : s'.heapView = s.heapView := by
  have hroots : s'.kheaproots = s.kheaproots := by rw [h.same]
  have hrefs : s'.pagerefs = s.pagerefs := by rw [h.same]
  have hsized : s'.sizebases = s.sizebases := by rw [h.same]
  have hall : s'.allbase = s.allbase := by rw [h.same]
  have hlist : s'.frameList = s.frameList := by rw [h.same]
  unfold heapView
  rw [h.held_eq, hroots, hrefs, hsized, hall, hlist]

theorem heapInv (h : Loading s s') (hinv : HeapInv L V s) : HeapInv L V s' := by
  refine ⟨?_, ?_⟩
  · have hearly := hinv.early
    rw [h.same]
    exact hearly
  · rw [h.heapView_eq]
    exact hinv.ok

theorem ownedValid (h : Loading s s') (hown : OwnedValid s) : OwnedValid s' := by
  intro f hf
  rw [h.pid_eq] at hf
  exact h.valid_iff.mpr (hown f hf)

end Loading

/-! ### A page that is mapped -/

/-- Some row maps page `p`, for whatever process. -/
def HasRow (p : PageNo) (s : Kernel) : Prop := ∃ i < s.pagetableEntry, s.Valid i ∧ (s.mainPG i).pageNumber = p

theorem pageSearch_isSome_iff {s : Kernel} {a : ℕ} : (s.pageSearch a).isSome = true ↔ HasRow (pageOf a) s := by
  unfold pageSearch HasRow
  exact firstBelow_isSome

theorem Loading.hasRow {s s' : Kernel} {p : PageNo} (h : Loading s s') (hrow : HasRow p s) : HasRow p s' := by
  obtain ⟨i, hi, hv, hp⟩ := hrow
  exact ⟨i, h.entries ▸ hi, h.valid_iff.mpr hv, (h.pageNumber_eq i).trans hp⟩

/-- While page `p` is mapped, only what a load may edit. -/
def LoadingAt (p : PageNo) (s s' : Kernel) : Prop := HasRow p s → Loading s s'

instance (p : PageNo) : Std.Refl (LoadingAt p) := ⟨fun s _ => Std.Refl.refl s⟩

instance (p : PageNo) : IsTrans Kernel (LoadingAt p) where
  trans s t u hst htu hrow := IsTrans.trans s t u (hst hrow) (htu ((hst hrow).hasRow hrow))

theorem Loading.at {s s' : Kernel} (h : Loading s s') (p : PageNo) : LoadingAt p s s' := fun _ => h

/-- An edit of a load that counts nothing. -/
structure Uncounted (s s' : Kernel) : Prop where
  loading : Loading s s'
  stats : s'.stats = s.stats

instance : Std.Refl Uncounted := ⟨fun s => ⟨Std.Refl.refl s, rfl⟩⟩

instance : IsTrans Kernel Uncounted :=
  ⟨fun _ _ _ hst htu => ⟨IsTrans.trans _ _ _ hst.loading htu.loading, htu.stats.trans hst.stats⟩⟩

/-- It leaves the TLB alone as well. -/
structure Silent (s s' : Kernel) : Prop extends Uncounted s s' where
  tlb : s'.tlb = s.tlb

/-! ### The steps of a load -/

section Steps

variable {p : PageNo} {tries : ℕ} {fault : FaultHandler}

theorem SameButTlb.loading {s s' : Kernel} (h : SameButTlb s s') (hpid : s'.tlbPid = s.tlbPid) : Loading s s' := by
  refine .of_same ?_
  rw [h, ← hpid]

theorem addTLB_loading (v : ℕ) (pid : UInt8) : Within Loading (addTLB v pid) := by
  intro s u s' h
  obtain ⟨i, -, -, rfl⟩ := addTLB_ok_iff.mp h
  refine (s.tlbFill_sameButTlb _ i).loading ?_
  unfold tlbFill
  cases s.freeSlot <;> rfl

theorem addTLB_uncounted (v : ℕ) (pid : UInt8) : Within Uncounted (addTLB v pid) := by
  intro s u s' h
  refine ⟨addTLB_loading v pid s u s' h, ?_⟩
  obtain ⟨i, -, -, rfl⟩ := addTLB_ok_iff.mp h
  unfold tlbFill
  cases s.freeSlot <;> rfl

theorem removeTLBv1_loading (v : ℕ) : Within Loading (removeTLBv1 v) := by
  refine within_update fun s => (s.tlbRemove_sameButTlb _).loading ?_
  unfold tlbRemove
  cases s.tlbProbe (pageOf v) <;> rfl

theorem removeTLBv1_uncounted (v : ℕ) : Within Uncounted (removeTLBv1 v) := by
  intro s u s' h
  refine ⟨removeTLBv1_loading v s u s' h, ?_⟩
  obtain rfl := update_ok_iff.mp h
  unfold tlbRemove
  cases s.tlbProbe (pageOf v) <;> rfl

theorem reloadPage_loading (a : ℕ) : Within Loading (reloadPage a) :=
  within_bind (within_read _) fun _ => within_bind (addTLB_loading a _) fun _ =>
    within_bind (within_update fun _ => .of_same rfl) fun _ => within_pure 0

theorem protectPage_loading (s : Kernel) (v : ℕ) : Loading s (s.protectPage v) := by
  unfold protectPage
  cases s.pageSearch v with
  | none => exact Std.Refl.refl s
  | some i =>
    refine ⟨rfl, fun f => ?_, fun _ => ⟨rfl, rfl, rfl⟩⟩
    simp only [setRow]
    by_cases hf : f = i
    · rw [hf, update_self]
    · rw [update_of_ne hf]

theorem mapas_loading (s : Kernel) {f : Addrspace → Addrspace} (hf : ∀ as, (f as).regions = as.regions) :
    Loading s (s.mapas f) := by
  refine ⟨rfl, fun _ => rfl, fun n => ?_⟩
  show (update s.procs s.curproc _ n).pid = _ ∧ (update s.procs s.curproc _ n).image = _ ∧
    (update s.procs s.curproc _ n).addrspace.map _ = _
  by_cases hn : n = s.curproc
  · rw [hn, update_self]
    refine ⟨rfl, rfl, ?_⟩
    show (s.getas.map f).map Addrspace.regions = s.getas.map Addrspace.regions
    cases s.getas with
    | none => rfl
    | some as => exact congrArg some (hf as)
  · rw [update_of_ne hn]
    exact ⟨rfl, rfl, rfl⟩

theorem noteBss_regions (as : Addrspace) (v n : ℕ) : (as.noteBss v n).regions = as.regions := by
  unfold Addrspace.noteBss
  split <;> rfl

theorem protectPage_uncounted (s : Kernel) (v : ℕ) : Uncounted s (s.protectPage v) := by
  refine ⟨protectPage_loading s v, ?_⟩
  unfold protectPage
  cases s.pageSearch v <;> rfl

theorem finishSegment_uncounted (v : ℕ) : Within Uncounted (finishSegment v) := by
  refine within_bind (removeTLBv1_uncounted v) fun _ => within_bind (within_read _) fun got => ?_
  cases got with
  | none => exact within_stop _
  | some as =>
    refine within_bind (within_when fun _ => within_update fun s => protectPage_uncounted s v) fun _ => ?_
    exact within_bind (within_read _) fun pid => addTLB_uncounted v pid

/-! ### Along the text of the loader

A relation between programs that is put in for the stores, the ends of segments and the regions comes out for the
loader. -/

section Walk

variable {P : ∀ {α : Type}, Kern α → Kern α → Prop} {E : Stop → Prop} {g : FaultHandler}
  (hP : Congruence (fun f => ∀ s, Silent s (f s)) E P) (hdepth : E .depth) (hnull : E .nullDeref)
  (hcatch : E (.panic "I can't handle this... I think I'll just die now...\n")) {lo hi : ℕ}

include hP

theorem vfsCall_walk : P vfsCall vfsCall :=
  hP.bind (hP.read _) fun r => hP.bind (hP.update fun _ => ⟨⟨.of_same rfl, rfl⟩, rfl⟩) fun _ => hP.pure r

include hdepth

theorem storeFrame_walk (hfault : ∀ type, type ≠ .read → ∀ a, P (fault type a) (g type a)) (a : ℕ) :
    ∀ n, P (storeFrame fault a n) (storeFrame g a n) := by
  intro n
  induction n with
  | zero => exact hP.stop hdepth
  | succ n ih =>
    refine hP.bind (hP.read _) fun access => ?_
    cases access with
    | hit f => exact hP.pure _
    | readonly =>
      exact hP.bind (hfault _ (by decide) a) fun r => Congruence.ite (fun _ => ih) fun _ => hP.pure _
    | miss => exact hP.bind (hfault _ (by decide) a) fun r => Congruence.ite (fun _ => ih) fun _ => hP.pure _

theorem emufsRead_walk {move move' : ℕ → ℕ → Kern ℕ}
    (hmove : ∀ base got, lo ≤ base → 0 < got → base + got ≤ hi → P (move base got) (move' base got)) :
    ∀ n base offset resid, lo ≤ base → base + resid ≤ hi →
      P (emufsRead move n base offset resid) (emufsRead move' n base offset resid) := by
  intro n
  induction n with
  | zero => exact fun _ _ _ _ _ => hP.stop hdepth
  | succ n ih =>
    intro base offset resid hbase hresid
    refine Congruence.ite (fun _ => hP.pure _) fun _ => hP.bind (vfsCall_walk hP) fun err => ?_
    refine Congruence.ite (fun _ => hP.pure _) fun _ => hP.bind (hP.read _) fun file => ?_
    refine hP.bind (hP.update fun s => ⟨⟨.of_same rfl, rfl⟩, rfl⟩) fun _ => ?_
    refine Congruence.ite (fun _ => hP.pure _) fun hgot => ?_
    refine hP.bind (hmove base _ hbase (Nat.pos_of_ne_zero hgot) (by omega)) fun r => ?_
    exact Congruence.ite (fun _ => hP.pure _) fun _ => ih _ _ _ (by omega) (by omega)

theorem readKernel_walk (offset len : ℕ) : P (readKernel offset len) (readKernel offset len) :=
  emufsRead_walk hP hdepth (fun _ _ _ _ _ => hP.pure 0) _ 0 offset len (Nat.zero_le 0) (Nat.le_refl _)

theorem forPhdrs_walk {eh : Ehdr} {body body' : Phdr → Kern ℕ} (hbody : ∀ ph, P (body ph) (body' ph)) :
    ∀ k, P (forPhdrs eh body k) (forPhdrs eh body' k) := by
  intro k
  induction k with
  | zero => exact hP.pure 0
  | succ k ih =>
    refine hP.bind (readKernel_walk hP hdepth _ _) fun got => ?_
    refine Congruence.ite (fun _ => hP.pure _) fun _ => Congruence.ite (fun _ => hP.pure _) fun _ => ?_
    refine hP.bind (hP.read _) fun ph => ?_
    cases ph.kind with
    | skip => exact ih
    | unknown => exact hP.pure _
    | load => exact hP.bind (hbody ph) fun r => Congruence.ite (fun _ => hP.pure _) fun _ => ih

include hcatch

omit hdepth in
theorem copyPages_walk (hstore : ∀ a, lo ≤ a → a < hi → P (storeFrame fault a tries) (storeFrame g a tries)) :
    ∀ m pos dest len, lo ≤ dest → dest + len ≤ hi → (m ≠ 0 → 0 < len ∧ m ≤ pagesTouched dest len) →
      P (copyPages tries fault m pos dest len) (copyPages tries g m pos dest len) := by
  intro m
  induction m with
  | zero => exact fun _ _ _ _ _ _ => hP.pure 0
  | succ m ih =>
    intro pos dest len hlo hhi htouched
    obtain ⟨hpos, hpages⟩ := htouched (Nat.succ_ne_zero m)
    refine hP.bind (hstore dest hlo (by omega)) fun got => ?_
    cases got with
    | some f =>
      refine hP.bind (hP.update fun s => ⟨⟨.of_same rfl, rfl⟩, rfl⟩) fun _ => ih _ _ _ (by omega) (by omega) fun hm => ?_
      unfold pagesTouched pageSize at *
      omega
    | none => exact hP.bind (hP.read _) fun _ => hP.bind (hP.require hcatch) fun _ => hP.pure _

omit hdepth in
theorem copyout_walk (hstore : ∀ a, lo ≤ a → a < hi → P (storeFrame fault a tries) (storeFrame g a tries))
    (dest len : ℕ) (hlo : lo ≤ dest) (hpos : 0 < len) (hhi : dest + len ≤ hi) :
    P (copyout tries fault dest len) (copyout tries g dest len) := by
  refine Congruence.ite (fun _ => hP.pure _) fun _ => ?_
  refine hP.bind (hP.update fun s => ⟨⟨.of_same rfl, rfl⟩, rfl⟩) fun _ => ?_
  refine hP.bind (copyPages_walk hP hcatch hstore _ 0 dest len hlo hhi fun _ => ⟨hpos, Nat.le_refl _⟩) fun r => ?_
  exact hP.bind (hP.update fun s => ⟨⟨.of_same rfl, rfl⟩, rfl⟩) fun _ => hP.pure r

include hnull

/-- **The rule for loads.**  With `start` 0 a load may store anywhere, otherwise in the pages that are asked for. -/
theorem loadElf_walk {d start npages : ℕ}
    (hstore : ∀ a, start = 0 ∨ start ≤ a ∧ a < start + npages * pageSize →
      P (storeFrame fault a tries) (storeFrame g a tries))
    (hfinish : ∀ v, start = 0 ∨ v = start → P (finishSegment v) (finishSegment v))
    (hdefine : start = 0 → ∀ v m r w x, P (asDefineRegion d v m r w x) (asDefineRegion d v m r w x))
    (hprepare : start = 0 → P (asPrepareLoad d) (asPrepareLoad d)) :
    P (loadElf d tries fault start npages) (loadElf d tries g start npages) := by
  have hsegment : ∀ offset v m n, start = 0 ∨ v = start ∧ min n m ≤ npages * pageSize →
      P (loadSegment tries fault offset v m n) (loadSegment tries g offset v m n) := by
    intro offset v m n hwhere
    have hnoted : ∀ s : Kernel, Silent s (s.mapas fun as => as.noteBss v (min n m)) :=
      fun s => ⟨⟨mapas_loading s fun as => noteBss_regions as _ _, rfl⟩, rfl⟩
    have hread : P (readUser tries fault v offset (min n m)) (readUser tries g v offset (min n m)) :=
      emufsRead_walk hP hdepth (fun base got hbase => copyout_walk hP hcatch
        (fun a hlo hhi => hstore a (hwhere.imp_right (by omega))) base got hbase) _ v offset _ (Nat.le_refl v)
        (Nat.le_refl _)
    refine hP.bind (hP.update hnoted) fun _ => hP.bind hread fun got => ?_
    refine Congruence.ite (fun _ => hP.pure _) fun _ => ?_
    exact hP.bind (hfinish v (hwhere.imp_right (·.1))) fun _ => hP.pure _
  have hload : ∀ ph, P (loadPhdr tries fault start npages ph) (loadPhdr tries g start npages ph) := by
    refine fun ph => hP.bind (hP.read _) fun got => ?_
    cases got with
    | none => exact hP.stop hnull
    | some as =>
      refine Congruence.ite (fun h0 => hsegment _ _ _ _ (.inl h0)) fun _ => ?_
      exact Congruence.ite (fun _ => hsegment _ _ _ _ (.inr ⟨rfl, by omega⟩)) fun _ => hP.pure 0
  have hdefined : ∀ ph, P (definePhdr d start ph) (definePhdr d start ph) := fun ph =>
    hP.bind (hP.when fun h0 => hdefine h0 _ _ _ _ _) fun _ => hP.pure 0
  refine hP.bind (readKernel_walk hP hdepth _ _) fun header => ?_
  refine Congruence.ite (fun _ => hP.pure _) fun _ => Congruence.ite (fun _ => hP.pure _) fun _ => ?_
  refine hP.bind (hP.read _) fun file => Congruence.ite (fun _ => ?_) fun _ => hP.pure _
  refine hP.bind (forPhdrs_walk hP hdepth hdefined _) fun defined => Congruence.ite (fun _ => hP.pure _) fun _ => ?_
  refine hP.bind (hP.when hprepare) fun _ => hP.bind (forPhdrs_walk hP hdepth hload _) fun loaded => ?_
  exact Congruence.ite (fun _ => hP.pure _) fun _ => hP.pure _

end Walk

/-! ### Invariants of the loader

What the stores do, and what the loader edits itself, decide what the load of a page keeps. -/

section Any

variable {I : Kernel → Prop} {E : Stop → Prop}

theorem storeFrame_holds (hdepth : E .depth) {a : ℕ}
    (hwrite : ∀ s, I s → s.storeAccess a = .miss → Ends (fun _ t => I t) E (fault .write a) s)
    (hreadonly : ∀ s, I s → s.storeAccess a = .readonly → Ends (fun _ t => I t) E (fault .readonly a) s) :
    ∀ n, Holds I E (storeFrame fault a n) := by
  intro n
  induction n with
  | zero => exact holds_stop hdepth
  | succ n ih =>
    intro s hI
    refine ends_bind (ends_read ?_)
    cases haccess : s.storeAccess a with
    | hit f => exact ends_pure hI
    | readonly =>
      exact ends_bind ((hreadonly s hI haccess).mono fun r t _ ht => ends_ite (fun _ => ih t ht) fun _ => ends_pure ht)
    | miss =>
      exact ends_bind ((hwrite s hI haccess).mono fun r t _ ht => ends_ite (fun _ => ih t ht) fun _ => ends_pure ht)

theorem silent_congruence (hI : ∀ s s', Silent s s' → I s → I s') :
    Congruence (fun f => ∀ s, Silent s (f s)) E (fun {α} (m _ : Kern α) => Holds I E m) :=
  (holds_congruence I E).weaken (fun _ hf s => hI s _ (hf s)) fun _ => id

/-- **`load_elf` for one page** keeps what the stores to the page and the end of the segment keep. -/
theorem loadPage_holds (hI : ∀ s s', Silent s s' → I s → I s') (hdepth : E .depth) (hnull : E .nullDeref)
    (hcatch : E (.panic "I can't handle this... I think I'll just die now...\n")) {d start : ℕ} (hne : start ≠ 0)
    (hstart : start % pageSize = 0)
    (hstore : ∀ a, pageOf a = pageOf start → Holds I E (storeFrame fault a tries))
    (hfinish : Holds I E (finishSegment start)) : Holds I E (loadElf d tries fault start 1) := by
  refine loadElf_walk (g := fault) (silent_congruence hI) hdepth hnull hcatch (fun a ha => hstore a ?_)
    (fun v hv => hv.resolve_left hne ▸ hfinish) (fun h0 => absurd h0 hne) fun h0 => absurd h0 hne
  have hpage : a / pageSize = start / pageSize := by
    have hin := ha.resolve_left hne
    unfold pageSize at *
    omega
  unfold pageOf
  rw [hpage]

end Any

/-! ### Whole loads

A preorder that edits which count nothing, new regions, new pages and the fault handler keep to is kept to. -/

section Whole

variable {R : Kernel → Kernel → Prop} [Std.Refl R] [IsTrans Kernel R] {d : ℕ}
  (hedit : ∀ s s', Uncounted s s' → R s s') (hregion : ∀ s f, R s (s.mapas f))
  (hmap : ∀ v dirty, Within R (allocPages d v dirty)) (hfault : ∀ type a, Within R (fault type a))

section Regions

include hedit hregion hmap

omit hregion in
theorem definePage_within (vbase i : ℕ) : Within R (definePage d vbase i) := by
  refine within_bind (hmap _ _) fun _ => within_bind (within_read _) fun _ =>
    within_bind (within_read _) fun pid => within_when fun _ => ?_
  exact fun s u s' h => hedit s s' (addTLB_uncounted _ pid s u s' h)

theorem asDefineRegion_within (v m : ℕ) (r w x : Bool) : Within R (asDefineRegion d v m r w x) := by
  refine within_ite (fun _ => ?_) fun _ => ?_
  · exact within_bind (within_update fun s => hregion s _) fun _ => within_forBelow (definePage_within hedit hmap v) _
  · refine within_bind (within_require _ _) fun _ => within_bind (within_require _ _) fun _ =>
      within_bind (within_read _) fun got => ?_
    cases got with
    | none => exact within_stop _
    | some as =>
      exact within_bind (within_update fun s => hregion s _) fun _ => within_forBelow (definePage_within hedit hmap v) _

omit hedit in
theorem asPrepareLoad_within : Within R (asPrepareLoad d) := by
  refine within_bind (within_read _) fun got => ?_
  cases got with
  | none => exact within_stop _
  | some as => exact within_bind (within_update fun s => hregion s _) fun _ => hmap _ _

end Regions

include hedit hregion hmap hfault

theorem loadElf_within (start npages : ℕ) : Within R (loadElf d tries fault start npages) := by
  have hP : Congruence (fun f => ∀ s, Silent s (f s)) (fun _ => True) (fun {α} (m _ : Kern α) => Within R m) :=
    (within_congruence R).weaken (fun _ hf s => hedit s _ (hf s).toUncounted) fun _ => id
  exact loadElf_walk (g := fault) hP trivial trivial trivial
    (fun a _ => storeFrame_walk (g := fault) hP trivial (fun type _ a => hfault type a) a tries)
    (fun v _ s u s' hr => hedit s s' (finishSegment_uncounted v s u s' hr))
    (fun _ => asDefineRegion_within hedit hregion hmap) fun _ => asPrepareLoad_within hregion hmap

end Whole

/-! ### One page -/

/-- A handler that, for stores to page `p`, only reloads while the page is mapped. -/
structure Reloads (p : PageNo) (fault : FaultHandler) : Prop where
  write : ∀ a, pageOf a = p → Within (LoadingAt p) (fault .write a)
  readonly : ∀ a, Within Loading (fault .readonly a)

theorem LoadingAt.loading {s₀ s s' : Kernel} (h : LoadingAt p s₀ s) (hl : Loading s s') : LoadingAt p s₀ s' :=
  IsTrans.trans _ _ _ h (hl.at p)

/-- **`load_elf` for one page** edits only what a load may edit. -/
theorem loadElf_loading (h : Reloads p fault) {d start : ℕ} (hne : start ≠ 0) (hstart : start % pageSize = 0)
    (hp : pageOf start = p) : Within (LoadingAt p) (loadElf d tries fault start 1) := by
  have hfinish : Within (LoadingAt p) (finishSegment start) := fun s u s' hr =>
    (finishSegment_uncounted start s u s' hr).loading.at p
  have hreadonly : ∀ a, Within (LoadingAt p) (fault .readonly a) := fun a s r s' hr => (h.readonly a s r s' hr).at p
  refine within_of_holds fun s₀ => loadPage_holds (fun s s' hl hs => hs.loading hl.loading) trivial trivial trivial hne hstart
    (fun a ha => ?_) (hfinish.holds s₀)
  exact storeFrame_holds trivial (fun s hs _ => (h.write a (ha.trans hp)).holds s₀ s hs)
    (fun s hs _ => (hreadonly a).holds s₀ s hs) tries

end Steps

/-! ### What a returning fault did -/

section Faults

variable {d n a r : ℕ} {s s' : Kernel} {as : Addrspace} {load : ℕ → Kern (Except ℕ ℕ)}

theorem countFault_loading (s : Kernel) : Loading s s.countFault := .of_same rfl

/-- A store to a page that has a row. -/
theorem vmFault_write_ok (hrow : HasRow (pageOf a) s) (h : vmFault d n .write a s = .ok r s') :
    (s.getas = none ∧ s' = s) ∨ reloadPage a s.countFault = .ok r s' := by
  rcases vmFault_ok h with ⟨hnone, -, hsame⟩ | ⟨m, -, -, ⟨as, has⟩, hrun⟩
  · exact .inl ⟨hnone, hsame⟩
  · rw [faultWay_write_found has (pageSearch_isSome_iff.mpr hrow)] at hrun
    exact .inr hrun

/-- **A fault within a fault** reloads. -/
theorem vmFault_reloads (d : ℕ) (p : PageNo) (n : ℕ) : Reloads p (vmFault d n) := by
  refine ⟨fun a ha s r s' hrun hrow => ?_, fun a s r s' hrun => ?_⟩
  · rcases vmFault_write_ok (ha ▸ hrow) hrun with ⟨-, rfl⟩ | hreload
    · exact Std.Refl.refl _
    · exact IsTrans.trans _ _ _ (countFault_loading s) (reloadPage_loading a _ _ _ hreload)
  · rw [(readonly_ok hrun).2]
    exact Std.Refl.refl _

end Faults

end Os161Kernel
