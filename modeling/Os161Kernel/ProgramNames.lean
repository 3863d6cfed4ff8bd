import Os161Kernel.Vfs
import Mathlib.Data.List.TakeWhile

/-!
# The name of a program

A demand fault opens the executable by `curproc->p_name`.  `vfs_open` may destroy the path it is given: in a path
`device:path` the function `getdevice` overwrites the colon with a NUL.  The menu hands `runprogram` a copy of the name,
but `vm_fault` hands out the name itself.
-/

namespace Os161Kernel

open Calls Runs

/-! ### C strings in buffers -/

/-- The string in a buffer: what stands before the first NUL. -/
def cString (buf : List Char) : Name := buf.takeWhile fun c => c ≠ '\x00'

/-- A buffer with a copy of the string, as `kstrdup` and `strcpy` make it. -/
def kstrdup (buf : List Char) : List Char := cString buf ++ ['\x00']

/-- The loop of `getdevice` goes on at this character. -/
def inDevice (c : Char) : Bool := c ≠ ':' && c ≠ '/'

/-- The device of a path `device:path`.  The first colon or slash has to be a colon, and not the first character. -/
def deviceOf (path : Name) : Option Name :=
  if path.takeWhile inDevice ≠ [] ∧ (path.dropWhile inDevice).head? = some ':' then some (path.takeWhile inDevice)
  else none

/-- The assignment `path[colon]=0` of `getdevice`. -/
def cutDevice (buf : List Char) : List Char :=
  match deviceOf (cString buf) with
  | some device => buf.set device.length '\x00'
  | none => buf

theorem ne_nul_of_mem_cString {buf : List Char} {c : Char} (h : c ∈ cString buf) : decide (c ≠ '\x00') = true :=
  List.mem_takeWhile_imp (p := fun c => decide (c ≠ '\x00')) h

theorem cString_append_nul {name : Name} (h : ∀ c ∈ name, decide (c ≠ '\x00') = true) (rest : List Char) :
    cString (name ++ '\x00' :: rest) = name := by
  unfold cString
  rw [List.takeWhile_append_of_pos h]
  exact List.append_nil name

@[simp] theorem cString_kstrdup (buf : List Char) : cString (kstrdup buf) = cString buf :=
  cString_append_nul (fun _ => ne_nul_of_mem_cString) []

theorem deviceOf_eq_some {path device : Name} (h : deviceOf path = some device) :
    (∃ sub, path = device ++ ':' :: sub) ∧ ∀ c ∈ device, inDevice c = true := by
  unfold deviceOf at h
  by_cases hcut : path.takeWhile inDevice ≠ [] ∧ (path.dropWhile inDevice).head? = some ':'
  · rw [if_pos hcut] at h
    obtain rfl := Option.some.inj h
    obtain ⟨sub, hsub⟩ := List.head?_eq_some_iff.mp hcut.2
    refine ⟨⟨sub, ?_⟩, fun c hc => List.mem_takeWhile_imp hc⟩
    rw [← hsub, List.takeWhile_append_dropWhile]
  · rw [if_neg hcut] at h
    exact nomatch h

theorem deviceOf_device {path device : Name} (h : deviceOf path = some device) : deviceOf device = none := by
  have hdrop : device.dropWhile inDevice = [] := List.dropWhile_eq_nil_iff.mpr (deviceOf_eq_some h).2
  unfold deviceOf
  rw [hdrop]
  exact if_neg fun hcut => nomatch hcut.2

/-- What is left of a path once it has been opened. -/
def leftOf (path : Name) : Name := (deviceOf path).getD path

theorem leftOf_eq_self_iff {path : Name} : leftOf path = path ↔ deviceOf path = none := by
  unfold leftOf
  cases hdev : deviceOf path with
  | none => exact iff_of_true rfl rfl
  | some device =>
    apply iff_of_false _ (Option.some_ne_none device)
    show device ≠ path
    obtain ⟨sub, hpath⟩ := (deviceOf_eq_some hdev).1
    intro heq
    have hlen := congrArg List.length hpath
    rw [← heq, List.length_append, List.length_cons] at hlen
    omega

theorem leftOf_leftOf (path : Name) : leftOf (leftOf path) = leftOf path := by
  rw [leftOf_eq_self_iff]
  unfold leftOf
  cases hdev : deviceOf path with
  | none => exact hdev
  | some device => exact deviceOf_device hdev

theorem cString_cutDevice (buf : List Char) : cString (cutDevice buf) = leftOf (cString buf) := by
  unfold cutDevice leftOf
  cases hdev : deviceOf (cString buf) with
  | none => rfl
  | some device =>
    obtain ⟨sub, hpath⟩ := (deviceOf_eq_some hdev).1
    have hbuf : buf = device ++ ':' :: (sub ++ buf.dropWhile fun c => decide (c ≠ '\x00')) :=
      calc buf = cString buf ++ buf.dropWhile fun c => decide (c ≠ '\x00') := List.takeWhile_append_dropWhile.symm
        _ = _ := by rw [hpath, List.append_assoc, List.cons_append]
    have hset : buf.set device.length '\x00' =
        device ++ '\x00' :: (sub ++ buf.dropWhile fun c => decide (c ≠ '\x00')) := by
      conv_lhs => rw [hbuf]
      rw [List.set_append_right _ _ (Nat.le_refl _), Nat.sub_self, List.set_cons_zero]
    show cString (buf.set device.length '\x00') = device
    rw [hset]
    apply cString_append_nul
    intro c hc
    have hmem : c ∈ cString buf := by
      rw [hpath]
      exact List.mem_append_left _ hc
    exact ne_nul_of_mem_cString hmem

/-! ### Opening the executable -/

/-- A path in a buffer, and what it is looked up in. -/
structure PathBuffer where
  vfs : Vfs
  path : List Char

/-- `vfs_open` of a path for reading.  The colon is gone before the lookup can fail. -/
def vfsOpen (p : ℕ) : Call VfsStop Errno PathBuffer ℕ := do
  let path ← .read fun b => cString b.path
  .update fun b => { b with path := cutDevice b.path }
  .onPart PathBuffer.vfs (fun b v => { b with vfs := v }) (Vfs.openFile p path false false false none)

theorem vfsOpen_path (p : ℕ) (b : PathBuffer) : Ends (vfsOpen p) b (fun _ t => t.path = cutDevice b.path)
    (fun _ t => t.path = cutDevice b.path) True := by
  unfold vfsOpen
  rw [ends_bind, ends_read, ends_bind, ends_update, ends_onPart]
  exact ends_any (fun _ _ => rfl) fun _ _ => rfl

/-- A process that runs a program. -/
structure ProgramRun where
  vfs : Vfs
  proc : ℕ
  /-- `p_name`, with its NUL. -/
  pName : List Char
  /-- The strings that demand faults have passed to `vfs_open`. -/
  opened : List Name

/-- `common_prog`, the start of `cmd_progthread` and the open of `runprogram`: the process owns one copy of the name,
and `runprogram` opens another. -/
def commonProg (parent : ℕ) (args : List Char) : VfsCall ProgramRun := do
  let proc ← Vfs.procCreateRunprogram parent
  let pName := kstrdup args
  .require ((cString args).length < 128) (.kassert "strlen(args[0]) < sizeof(progname)")
  let progname := kstrdup args
  let _ ← .onPart (fun v => ⟨v, progname⟩) (fun _ b => b.vfs) (vfsOpen proc)
  let vfs ← .read id
  pure { vfs := vfs, proc := proc, pName := pName, opened := [] }

namespace ProgramRun

/-- The open of a demand fault. -/
def faultOpen : Call VfsStop Errno ProgramRun ℕ := do
  let r ← .read id
  .update fun r => { r with opened := r.opened ++ [cString r.pName] }
  .onPart (fun r => ⟨r.vfs, r.pName⟩) (fun r b => { r with vfs := b.vfs, pName := b.path }) (vfsOpen r.proc)

inductive Op where
  | fault
  | others (vfs : Vfs)

/-- A demand fault, which `vm_fault` may answer with an error, or anything that other processes and the menu do to the
file systems in between. -/
def step (r : ProgramRun) : Op → Option ProgramRun
  | .fault => (faultOpen r).state?
  | .others vfs => some { r with vfs := vfs }

/-- The program `args` has been started and opened. -/
def Started (args : List Char) (r : ProgramRun) : Prop :=
  ∃ parent v v', commonProg parent args v = .ok r v'

/-- The strings that faults have passed to `vfs_open`, and the one that the next fault will pass. -/
def passed (r : ProgramRun) : List Name := r.opened ++ [cString r.pName]

/-- The first fault passes the name, every later one what is left of it. -/
def Inv (name : Name) (r : ProgramRun) : Prop :=
  r.passed = name :: List.replicate r.opened.length (leftOf name)

variable {args : List Char} {name : Name} {r r' : ProgramRun}

theorem Started.inv (h : Started args r) : Inv (cString args) r := by
  obtain ⟨parent, v, v', hrun⟩ := h
  obtain ⟨proc, v₁, -, hrun⟩ := bind_ok_iff.mp hrun
  obtain ⟨_, v₂, -, hrun⟩ := bind_ok_iff.mp hrun
  obtain ⟨x, v₃, -, hrun⟩ := bind_ok_iff.mp hrun
  obtain ⟨rfl, -⟩ := Reply.ok.inj hrun
  show [cString (kstrdup args)] = _
  rw [cString_kstrdup]
  rfl

theorem faultOpen_name (h : (faultOpen r).state? = some r') :
    r'.opened = r.opened ++ [cString r.pName] ∧ r'.pName = cutDevice r.pName := by
  apply Ends.of_state? (S := True) (P := fun t => t.opened = r.opened ++ [cString r.pName] ∧ t.pName = cutDevice r.pName)
    _ h
  unfold faultOpen
  rw [ends_bind, ends_read, ends_bind, ends_update, ends_onPart]
  exact (vfsOpen_path ..).mono (fun _ _ hpath => ⟨rfl, hpath⟩) fun _ _ hpath => ⟨rfl, hpath⟩

theorem Inv.name_cases (h : Inv name r) : cString r.pName = name ∨ cString r.pName = leftOf name := by
  have hmem : cString r.pName ∈ r.passed := List.mem_append_right _ (List.mem_singleton_self _)
  rw [h, List.mem_cons] at hmem
  exact hmem.imp_right List.eq_of_mem_replicate

theorem Inv.fault (h : Inv name r) (hfault : (faultOpen r).state? = some r') : Inv name r' := by
  obtain ⟨hopened, hname⟩ := faultOpen_name hfault
  have hleft : cString r'.pName = leftOf name := by
    rw [hname, cString_cutDevice]
    cases h.name_cases with
    | inl hwhole => rw [hwhole]
    | inr hcut => rw [hcut, leftOf_leftOf]
  calc r'.passed = r.passed ++ [leftOf name] := by rw [passed, hleft, hopened, passed]
    _ = name :: (List.replicate r.opened.length (leftOf name) ++ [leftOf name]) := by rw [h, List.cons_append]
    _ = name :: List.replicate r'.opened.length (leftOf name) := by
      rw [← List.replicate_succ', hopened, List.length_append, List.length_singleton]

theorem Inv.step {op : Op} (h : Inv name r) (hstep : r.step op = some r') : Inv name r' := by
  cases op with
  | fault => exact h.fault hstep
  | others vfs =>
    obtain rfl := Option.some.inj hstep
    exact h

theorem inv_of_reaches (h : Reaches (StepOf step) (Started args) r) : Inv (cString args) r := by
  apply h.invariant (P := Inv (cString args))
  · exact fun _ hr => hr.inv
  · exact fun _ _ _ hr hstep => hr.step hstep

end ProgramRun

/-- **Demand faults keep the name of the program exactly when it has no device.**  After any number of demand faults of
the process, whether they found the file or not, all faults so far and the next one pass the name of the program to
`vfs_open` if and only if the name is not of the form `device:path`, or there was no fault yet. -/
theorem faults_pass_program_name_iff {args : List Char} {r : ProgramRun}
    (h : Reaches (StepOf ProgramRun.step) (ProgramRun.Started args) r) :
    (∀ path ∈ r.passed, path = cString args) ↔ deviceOf (cString args) = none ∨ r.opened = [] := by
  rw [ProgramRun.inv_of_reaches h, ← leftOf_eq_self_iff]
  constructor
  · intro hall
    by_cases hnil : r.opened = []
    · exact .inr hnil
    · refine .inl (hall _ (List.mem_cons_of_mem _ ?_))
      exact List.mem_replicate.mpr ⟨fun hlen => hnil (List.eq_nil_of_length_eq_zero hlen), rfl⟩
  · intro hcond path hmem
    cases List.mem_cons.mp hmem with
    | inl heq => exact heq
    | inr hrep =>
      obtain ⟨hlen, rfl⟩ := List.mem_replicate.mp hrep
      cases hcond with
      | inl hleft => exact hleft
      | inr hnil => exact absurd (congrArg List.length hnil) hlen

/-- An emufs mounted on `emu0` whose root, the current directory, holds one file `sh`. -/
def shellTree : Vfs where
  knowndevs := [{ name := ['e', 'm', 'u', '0'], rawname := none, fs := some 0, vnode := 0 }]
  fs _ := { root := 0, volname := none }
  ops x := if x = 0 then .emufsDir else .emufsFile
  vnFs _ := some 0
  entry d name := if d = 0 ∧ name = ['s', 'h'] then some 1 else none
  vnodes := 2
  bootfs := some 0
  cwd _ := some 0
  procs := 1

/-- The program `sh` at its second fault. -/
theorem faults_pass_sh : ∃ r, Reaches (StepOf ProgramRun.step) (ProgramRun.Started ['s', 'h']) r ∧
    r.opened = [['s', 'h']] ∧ ∀ path ∈ r.passed, path = ['s', 'h'] := by
  have hrun : ∃ r v r', commonProg 0 ['s', 'h'] shellTree = .ok r v ∧ r.step .fault = some r' ∧
      r'.opened = [['s', 'h']] := ⟨_, _, _, rfl, rfl, rfl⟩
  obtain ⟨r, v, r', hstart, hstep, hopened⟩ := hrun
  have hreach : Reaches (StepOf ProgramRun.step) (ProgramRun.Started ['s', 'h']) r' :=
    .next (i := ProgramRun.Op.fault) (.start ⟨0, shellTree, v, hstart⟩) hstep
  exact ⟨r', hreach, hopened, (faults_pass_program_name_iff hreach).mpr (.inl (by decide))⟩

/-- **The second fault has lost the path.**  The program `emu0:sh` starts and its first demand fault opens it.  The
second fault passes `emu0`, which is looked up in the current directory and not found. -/
theorem second_fault_passes_device : ∃ r r' r'', ProgramRun.Started ['e', 'm', 'u', '0', ':', 's', 'h'] r ∧
    (ProgramRun.faultOpen r = .ok 1 r' ∧ r'.opened = [['e', 'm', 'u', '0', ':', 's', 'h']]) ∧
    (ProgramRun.faultOpen r' = .fail .enoent r'' ∧
      r''.opened = [['e', 'm', 'u', '0', ':', 's', 'h'], ['e', 'm', 'u', '0']]) := by
  have hrun : ∃ r v r' r'', commonProg 0 ['e', 'm', 'u', '0', ':', 's', 'h'] shellTree = .ok r v ∧
      (ProgramRun.faultOpen r = .ok 1 r' ∧ r'.opened = [['e', 'm', 'u', '0', ':', 's', 'h']]) ∧
      (ProgramRun.faultOpen r' = .fail .enoent r'' ∧
        r''.opened = [['e', 'm', 'u', '0', ':', 's', 'h'], ['e', 'm', 'u', '0']]) :=
    ⟨_, _, _, _, rfl, ⟨rfl, rfl⟩, rfl, rfl⟩
  obtain ⟨r, v, r', r'', hstart, hrest⟩ := hrun
  exact ⟨r, r', r'', ⟨0, shellTree, v, hstart⟩, hrest⟩

end Os161Kernel
