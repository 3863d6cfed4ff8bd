import Os161Kernel.EvictionInterleaving
import Os161Kernel.LoadElf

/-!
# Page faults: `vm_fault`

`vm_fault` handles a miss in one of three ways.  A page that `pageSearch` finds is entered in the TLB again.  A page
of the code segment, or a page of the data segment that is not in the swap file, is loaded for the first time: a frame
is taken, by eviction if need be, and mapped, and `load_elf` reads the page from the executable.  A page of the data
segment that is in the swap file replaces another one: a victim is written out and the page read back.

The read and the write case are written out separately in the source and differ:

* a read takes the answer 0 of `pageSearch` for "not found", a write does not;
* a write to a code page that is not there panics;
* a read fault whose victim cannot be written out returns 1, a write fault returns 0.

`load_elf` copies to user memory and so faults again.  `vmFault` ties the circle `n` calls deep and gives a store `n`
tries; theorems are for every `n`.
-/

namespace Os161Kernel

open StateProg Search Memory Kernel

/-! ### Counters -/

namespace Kernel

/-- Edit the counters. -/
def count (s : Kernel) (f : VmStats → VmStats) : Kernel := { s with stats := f s.stats }

/-- `TLB_Faults` and one of its two parts, at the start of a fault. -/
def countFault (s : Kernel) : Kernel := s.count fun st =>
  if s.freeTLBEntries ≠ 0 then
    { st with tlbFaults := st.tlbFaults + 1, tlbFaultsWFree := st.tlbFaultsWFree + 1 }
  else
    { st with tlbFaults := st.tlbFaults + 1, tlbFaultsWReplace := st.tlbFaultsWReplace + 1 }

/-- They are taken back for a process that is closed. -/
def uncountFault (s : Kernel) : Kernel := s.count fun st =>
  if s.freeTLBEntries ≠ 0 then
    { st with tlbFaults := st.tlbFaults - 1, tlbFaultsWFree := st.tlbFaultsWFree - 1 }
  else
    { st with tlbFaults := st.tlbFaults - 1, tlbFaultsWReplace := st.tlbFaultsWReplace - 1 }

def countReload (s : Kernel) : Kernel := s.count fun st => { st with tlbReloads := st.tlbReloads + 1 }

def countElf (s : Kernel) : Kernel := s.count fun st =>
  { st with pfDisk := st.pfDisk + 1, pfElf := st.pfElf + 1 }

def countSwapOut (s : Kernel) : Kernel := s.count fun st => { st with sfWrites := st.sfWrites + 1 }

def countSwapIn (s : Kernel) : Kernel := s.count fun st =>
  { st with pfDisk := st.pfDisk + 1, pfSwapfile := st.pfSwapfile + 1 }

end Kernel

/-- `faultaddress & PAGE_FRAME`. -/
def pageFrame (a : ℕ) : ℕ := a / pageSize * pageSize

/-! ### The three ways -/

/-- A page that is there is entered in the TLB. -/
def reloadPage (a : ℕ) : Kern ℕ := do
  let pid ← .read curPid
  addTLB a pid
  .update countReload
  pure 0

/-- A frame for a page that is loaded for the first time. -/
def frameForPage (d : ℕ) (path : FaultPath) : Kern ℕ := do
  let a ← allocKpages d 1
  if a = 0 then do
    let victim ← chooseVictim path
    evictPage d path (victimAddress victim)
    allocKpages d 1
  else
    pure a

/-- The page of `a` is loaded for the first time. -/
def firstLoad (d : ℕ) (load : ℕ → Kern (Except ℕ ℕ)) (path : FaultPath) (a : ℕ) : Kern ℕ := do
  let frame ← frameForPage d path
  let pid ← .read curPid
  addPT (frameIndex frame) (pageFrame a) pid true
  let opened ← vfsCall
  if opened ≠ 0 then
    pure opened
  else do
    match ← load (pageFrame a) with
    | .error e => pure e
    | .ok _ =>
      .update countElf
      pure 0

/-- `victim_pageSearch(data_seg)` for a swap-in, which does not ask whether there is one. -/
def dataVictim : Kern ℕ := do
  let victim ← chooseVictim .dataRead
  pure (victimAddress victim)

/-- The page in slot `index` comes back, after a read fault. -/
def swapForRead (d index : ℕ) : Kern ℕ := do
  let address ← dataVictim
  let out ← swapOut d address
  if out ≠ 0 then
    pure 1
  else do
    .update countSwapOut
    let _ ← swapIn d index
    .update countSwapIn
    pure 0

/-- The same after a write fault: the result of `swapOut` decides only whether the page comes back. -/
def swapForWrite (d index : ℕ) : Kern ℕ := do
  let address ← dataVictim
  let out ← swapOut d address
  .when (out = 0) do
    .update countSwapOut
    let _ ← swapIn d index
    .update countSwapIn
  pure 0

/-! ### The handler -/

/-- `pageSearch(addr) > 0`. -/
def Kernel.foundForRead (s : Kernel) (a : ℕ) : Prop := 0 < (s.pageSearch a).getD 0

instance (s : Kernel) (a : ℕ) : Decidable (s.foundForRead a) := inferInstanceAs (Decidable (_ < _))

/-- `case VM_FAULT_READ`. -/
def readFault (d : ℕ) (load : ℕ → Kern (Except ℕ ℕ)) (as : Addrspace) (a : ℕ) : Kern ℕ := do
  if ← .read fun s => decide (s.foundForRead a) then
    reloadPage (pageFrame a)
  else if as.isCodeSegment a then
    firstLoad d load .code a
  else if as.isDataSegment a then do
    match ← .read fun s => s.sfPageSearch (pageOf a) s.curPid with
    | none => firstLoad d load .dataRead a
    | some index => swapForRead d index
  else
    pure einval

/-- `case VM_FAULT_WRITE`. -/
def writeFault (d : ℕ) (load : ℕ → Kern (Except ℕ ℕ)) (as : Addrspace) (a : ℕ) : Kern ℕ := do
  if ← .read fun s => (s.pageSearch a).isSome then
    reloadPage a
  else if as.isCodeSegment a then
    panic "You cannot write 0x%x, is a code segment.\n"
  else if as.isDataSegment a then do
    match ← .read fun s => s.sfPageSearch (pageOf a) s.curPid with
    | none => firstLoad d load .dataWrite a
    | some index => swapForWrite d index
  else
    pure 1

/-- The body of `vm_fault`. -/
def vmFaultBody (d : ℕ) (load : ℕ → Kern (Except ℕ ℕ)) (type : FaultType) (a : ℕ) : Kern ℕ := do
  match ← .read getas with
  | none => pure efault
  | some as =>
    .update countFault
    match type with
    | .readonly => do
      .update uncountFault
      sysExit d
    | .read => readFault d load as a
    | .write => writeFault d load as a

/-- `vm_fault(faulttype, tf)` at the fault address `a`, with `n` levels of faults within faults. -/
def vmFault (d : ℕ) : ℕ → FaultHandler
  | 0 => fun _ _ => .stop .depth
  | n + 1 => vmFaultBody d fun start => loadElf d (n + 1) (vmFault d n) start 1

/-! ### Ways -/

/-- The ways a fault goes.  `dies` is a write to a code page that is not there, and every `VM_FAULT_READONLY`. -/
inductive FaultWay where
  | outside
  | found
  | first (path : FaultPath)
  | swap (index : ℕ)
  | dies
deriving DecidableEq

namespace Kernel

/-- The way of a data page that `pageSearch` did not find. -/
def dataWay (s : Kernel) (as : Addrspace) (path : FaultPath) (a : ℕ) : FaultWay :=
  if as.isDataSegment a then
    match s.sfPageSearch (pageOf a) s.curPid with
    | none => .first path
    | some index => .swap index
  else .outside

/-- The way of the fault at `a`. -/
def faultWay (s : Kernel) (type : FaultType) (a : ℕ) : FaultWay :=
  match s.getas with
  | none => .outside
  | some as =>
    match type with
    | .readonly => .dies
    | .read =>
      if s.foundForRead a then .found
      else if as.isCodeSegment a then .first .code
      else s.dataWay as .dataRead a
    | .write =>
      if (s.pageSearch a).isSome then .found
      else if as.isCodeSegment a then .dies
      else s.dataWay as .dataWrite a

end Kernel

section Ways

variable {d n a r : ℕ} {s s' : Kernel} {as : Addrspace} {type : FaultType}

/-- What `vm_fault` does on each way. -/
def faultOn (d n : ℕ) (type : FaultType) (a : ℕ) : FaultWay → Kern ℕ
  | .outside => pure (if type = .read then einval else 1)
  | .found => reloadPage (if type = .read then pageFrame a else a)
  | .first path => firstLoad d (fun start => loadElf d (n + 1) (vmFault d n) start 1) path a
  | .swap index => if type = .read then swapForRead d index else swapForWrite d index
  | .dies => panic "You cannot write 0x%x, is a code segment.\n"

theorem vmFault_of_way (has : s.getas = some as) (htype : type ≠ .readonly) :
    vmFault d (n + 1) type a s = faultOn d n type a (s.faultWay type a) s.countFault := by
  show vmFaultBody d _ type a s = _
  unfold vmFaultBody faultWay
  rw [bind_of_ok (read_apply _ s), has]
  have hdata : ∀ {α : Type} (f : Option ℕ → Kern α), (Prog.read (fun s => s.sfPageSearch (pageOf a) s.curPid) >>= f)
      s.countFault = f (s.sfPageSearch (pageOf a) s.curPid) s.countFault := fun f => rfl
  cases type with
  | readonly => exact absurd rfl htype
  | read =>
    show readFault d _ as a s.countFault = _
    unfold readFault
    rw [bind_of_ok (read_apply _ s.countFault)]
    simp only [decide_eq_true_eq, show s.countFault.foundForRead a ↔ s.foundForRead a from Iff.rfl]
    split
    · rfl
    · split
      · rfl
      · unfold dataWay
        split
        · rw [hdata]
          cases s.sfPageSearch (pageOf a) s.curPid with
          | none => rfl
          | some index => rfl
        · rfl
  | write =>
    show writeFault d _ as a s.countFault = _
    unfold writeFault
    rw [bind_of_ok (read_apply _ s.countFault), show s.countFault.pageSearch a = s.pageSearch a from rfl]
    simp only
    split
    · rfl
    · split
      · rfl
      · unfold dataWay
        split
        · rw [hdata]
          cases s.sfPageSearch (pageOf a) s.curPid with
          | none => rfl
          | some index => rfl
        · rfl

theorem sysExit_ne_ok {α : Type} {x : α} : sysExit d s ≠ .ok x s' := by
  intro h
  unfold sysExit at h
  obtain ⟨got, _, -, hrest⟩ := bind_ok_iff.mp h
  cases got with
  | none => exact stop_ok_iff.mp hrest
  | some as =>
    obtain ⟨_, _, -, hstop⟩ := bind_ok_iff.mp hrest
    exact stopWith_ok_iff.mp hstop

/-- **Inversion of a fault** that returned. -/
theorem vmFault_ok (h : vmFault d n type a s = .ok r s') :
    (s.getas = none ∧ r = efault ∧ s' = s) ∨
    ∃ m, n = m + 1 ∧ type ≠ .readonly ∧ (∃ as, s.getas = some as) ∧
      faultOn d m type a (s.faultWay type a) s.countFault = .ok r s' := by
  cases n with
  | zero => exact nomatch h
  | succ m =>
    cases has : s.getas with
    | none =>
      change vmFaultBody d _ type a s = _ at h
      unfold vmFaultBody at h
      rw [bind_of_ok (read_apply _ s), has] at h
      obtain ⟨rfl, rfl⟩ := pure_ok_iff.mp h
      exact .inl ⟨rfl, rfl, rfl⟩
    | some as =>
      have htype : type ≠ .readonly := by
        rintro rfl
        change vmFaultBody d _ .readonly a s = _ at h
        unfold vmFaultBody at h
        rw [bind_of_ok (read_apply _ s), has] at h
        exact sysExit_ne_ok h
      rw [vmFault_of_way has htype] at h
      exact .inr ⟨m, rfl, htype, ⟨as, rfl⟩, h⟩

theorem readonly_ok (h : vmFault d n .readonly a s = .ok r s') : s.getas = none ∧ s' = s := by
  rcases vmFault_ok h with ⟨hnone, -, hsame⟩ | ⟨m, -, htype, -⟩
  · exact ⟨hnone, hsame⟩
  · exact absurd rfl htype

theorem faultWay_write_found (has : s.getas = some as) (h : (s.pageSearch a).isSome = true) :
    s.faultWay .write a = .found := by
  simp only [faultWay, has, if_pos h]

theorem faultWay_write_absent (has : s.getas = some as) (h : s.pageSearch a = none) :
    s.faultWay .write a = if as.isCodeSegment a then .dies else s.dataWay as .dataWrite a := by
  simp [faultWay, has, h]

end Ways

end Os161Kernel
