import Os161Kernel.Lib.Runs
import Mathlib.Data.List.Basic
import Mathlib.Data.List.Count

/-!
# Process identifiers: `proc.c`

`proc_create` takes the pid from `next_free_pid`, an 8-bit counter that is only ever incremented.  The rows
of `main_PG` and the slots of `sf_list` are keyed by this pid, with 0 for the kernel and for free.

A process is told apart by its block; blocks are numbered in the order of creation.  Whether the two
allocations of `proc_create` succeed is part of the operation.
-/

namespace Os161Kernel

open Runs

/-- A live `struct proc`. -/
structure Process where
  block : ℕ
  pid : UInt8
deriving DecidableEq

/-- The live processes, `kproc` and `next_free_pid`. -/
structure ProcTable where
  nextFreePid : UInt8
  created : ℕ
  kproc : Option ℕ
  live : List Process

namespace ProcTable

/-- `proc_create(name)`; nothing changes when an allocation fails. -/
def procCreate (kmallocOk kstrdupOk : Bool) (t : ProcTable) : Option Process × ProcTable :=
  if kmallocOk && kstrdupOk then
    (some ⟨t.created, t.nextFreePid⟩, { t with
      nextFreePid := t.nextFreePid + 1
      created := t.created + 1
      live := ⟨t.created, t.nextFreePid⟩ :: t.live })
  else
    (none, t)

/-- `proc_bootstrap()`, which panics without memory. -/
def procBootstrap (kmallocOk kstrdupOk : Bool) (t : ProcTable) : Option ProcTable :=
  match t.procCreate kmallocOk kstrdupOk with
  | (some p, t') => some { t' with kproc := some p.block }
  | (none, _) => none

/-- `proc_create_runprogram(name)`. -/
def procCreateRunprogram (kmallocOk kstrdupOk : Bool) (t : ProcTable) : ProcTable :=
  (t.procCreate kmallocOk kstrdupOk).2

theorem procCreateRunprogram_of_memory {a b : Bool} (h : (a && b) = true) (t : ProcTable) :
    t.procCreateRunprogram a b = { t with
      nextFreePid := t.nextFreePid + 1
      created := t.created + 1
      live := ⟨t.created, t.nextFreePid⟩ :: t.live } := by
  rw [procCreateRunprogram, procCreate, if_pos h]

theorem procCreateRunprogram_of_no_memory {a b : Bool} (h : (a && b) = false) (t : ProcTable) :
    t.procCreateRunprogram a b = t := by
  rw [procCreateRunprogram, procCreate, if_neg (by rw [h]; decide)]

/-- `proc_destroy(proc)` of a live process other than `kproc`, as it asserts. -/
def procDestroy (block : ℕ) (t : ProcTable) : Option ProcTable :=
  if t.kproc = some block then none
  else some { t with live := t.live.filter fun p => p.block ≠ block }

end ProcTable

/-- Creations and destructions after the bootstrap. -/
inductive ProcOp where
  | procCreateRunprogram (kmallocOk kstrdupOk : Bool)
  | procDestroy (block : ℕ)
deriving DecidableEq

namespace ProcOp

def run (t : ProcTable) : ProcOp → Option ProcTable
  | procCreateRunprogram a b => some (t.procCreateRunprogram a b)
  | procDestroy block => t.procDestroy block

/-- A creation whose allocations succeed. -/
def Creates : ProcOp → Bool
  | procCreateRunprogram a b => a && b
  | procDestroy _ => false

end ProcOp

/-- The table after `proc_bootstrap()` on the zeroed data of the kernel image. -/
def ProcTable.booted : ProcTable := ⟨1, 1, some 0, [⟨0, 0⟩]⟩

example : ProcTable.procBootstrap true true ⟨0, 0, none, []⟩ = some ProcTable.booted := rfl

/-- Live processes have different pids, and only `kproc` has pid 0. -/
def ProcTable.PidsIdentify (t : ProcTable) : Prop :=
  (∀ p ∈ t.live, ∀ q ∈ t.live, p ≠ q → p.pid ≠ q.pid) ∧
    ∀ p ∈ t.live, t.kproc ≠ some p.block → p.pid ≠ 0

/-- What every run keeps: the pid of the `n`-th process created is `n` modulo 256. -/
structure ProcTable.Counted (n : ℕ) (t : ProcTable) : Prop where
  created : t.created = n
  next : t.nextFreePid = UInt8.ofNat n
  kproc : t.kproc = some 0
  live : ∀ p ∈ t.live, p.block < n ∧ p.pid = UInt8.ofNat p.block

variable {n : ℕ} {t t' : ProcTable} {op : ProcOp}

theorem ProcTable.Counted.step (h : t.Counted n)
    (hop : op.run t = some t') : t'.Counted (n + op.Creates.toNat) := by
  cases op with
  | procCreateRunprogram a b =>
    obtain rfl := Option.some.inj hop
    show (t.procCreateRunprogram a b).Counted (n + (a && b).toNat)
    cases hab : a && b with
    | false =>
      rw [ProcTable.procCreateRunprogram_of_no_memory hab]
      exact h
    | true =>
      rw [ProcTable.procCreateRunprogram_of_memory hab]
      refine ⟨congrArg (· + 1) h.created, ?_, h.kproc, ?_⟩
      · show t.nextFreePid + 1 = _
        rw [h.next]
        exact (UInt8.ofNat_add n 1).symm
      · intro p hp
        rcases List.mem_cons.mp hp with rfl | hp
        · exact ⟨by rw [h.created]; exact Nat.lt_succ_self n, by rw [h.created, h.next]⟩
        · obtain ⟨hlt, hpid⟩ := h.live p hp
          exact ⟨Nat.lt_succ_of_lt hlt, hpid⟩
  | procDestroy block =>
    have hop' : t.procDestroy block = some t' := hop
    unfold ProcTable.procDestroy at hop'
    split at hop'
    · exact nomatch hop'
    · obtain rfl := Option.some.inj hop'
      exact ⟨h.created, h.next, h.kproc, fun p hp => h.live p (List.mem_of_mem_filter hp)⟩

theorem ProcTable.Counted.follow : ∀ (ops : List ProcOp) {n : ℕ} {t t' : ProcTable}, t.Counted n →
    Runs.follow (fun t op => op.run t) ops t = some t' → t'.Counted (n + ops.countP ProcOp.Creates) := by
  intro ops
  induction ops with
  | nil =>
    intro n t t' h hrun
    rw [← Option.some.inj hrun]
    exact h
  | cons op ops ih =>
    intro n t t' h hrun
    obtain ⟨u, hop, hrest⟩ := Option.bind_eq_some_iff.mp hrun
    have := ih (h.step hop) hrest
    rw [List.countP_cons]
    cases hc : op.Creates with
    | false =>
      rw [hc] at this
      simpa using this
    | true =>
      rw [hc] at this
      rw [if_pos rfl, Nat.add_comm (List.countP _ _) 1, ← Nat.add_assoc]
      exact this

theorem ProcTable.booted_counted : ProcTable.booted.Counted 1 := by
  refine ⟨rfl, rfl, rfl, fun p hp => ?_⟩
  obtain rfl := List.mem_singleton.mp hp
  exact ⟨Nat.zero_lt_one, rfl⟩

theorem ProcTable.Counted.identify (h : t.Counted n) (hn : n ≤ 256) :
    t.PidsIdentify := by
  have hpid : ∀ p ∈ t.live, p.pid.toNat = p.block := by
    intro p hp
    obtain ⟨hlt, hpid⟩ := h.live p hp
    rw [hpid]
    exact UInt8.toNat_ofNat_of_lt (show p.block < 256 by omega)
  constructor
  · intro p hp q hq hne heq
    apply hne
    have hblock : p.block = q.block := by rw [← hpid p hp, ← hpid q hq, heq]
    cases p
    cases q
    simp only [Process.mk.injEq]
    exact ⟨hblock, heq⟩
  · intro p hp hk h0
    apply hk
    rw [h.kproc, ← hpid p hp, h0]
    rfl

theorem ProcTable.Counted.not_identify (h : t.Counted 256)
    (hc : op.Creates = true) (hop : op.run t = some t') : ¬ t'.PidsIdentify := by
  cases op with
  | procDestroy _ => exact nomatch hc
  | procCreateRunprogram a b =>
    have hlive : (⟨256, 0⟩ : Process) ∈ t'.live := by
      rw [← Option.some.inj hop, ProcTable.procCreateRunprogram_of_memory hc, h.created, h.next]
      exact List.mem_cons_self
    have hk : t'.kproc = some 0 := (h.step hop).kproc
    intro hid
    refine hid.2 _ hlive ?_ rfl
    rw [hk]
    decide

theorem exists_prefix_of_lt_countP {α : Type} (p : α → Bool) : ∀ (l : List α) (n : ℕ), n < l.countP p →
    ∃ pre a, (pre ++ [a]) <+: l ∧ p a = true ∧ pre.countP p = n := by
  intro l
  induction l with
  | nil => exact fun n hn => absurd hn (Nat.not_lt_zero n)
  | cons a l ih =>
    intro n hn
    rw [List.countP_cons] at hn
    by_cases ha : p a = true
    · cases n with
      | zero => exact ⟨[], a, ⟨l, rfl⟩, ha, rfl⟩
      | succ n =>
        rw [if_pos ha] at hn
        obtain ⟨pre, b, ⟨rest, hpre⟩, hb, hcount⟩ := ih n (by omega)
        refine ⟨a :: pre, b, ⟨rest, congrArg (a :: ·) hpre⟩, hb, ?_⟩
        rw [List.countP_cons, if_pos ha, hcount]
    · rw [if_neg ha] at hn
      obtain ⟨pre, b, ⟨rest, hpre⟩, hb, hcount⟩ := ih n (by omega)
      refine ⟨a :: pre, b, ⟨rest, congrArg (a :: ·) hpre⟩, hb, ?_⟩
      rw [List.countP_cons, if_neg ha, hcount, Nat.add_zero]

/-- **Pids identify live processes for exactly 255 creations.**  For every sequence of creations and
destructions after the bootstrap that goes through, live processes have different pids and none but
`kproc` has pid 0 after every prefix of it, if and only if at most 255 of its creations succeeded. -/
theorem pids_identify_iff (ops : List ProcOp) (t : ProcTable)
    (hrun : follow (fun t op => op.run t) ops ProcTable.booted = some t) :
    (∀ pre t', pre <+: ops → follow (fun t op => op.run t) pre ProcTable.booted = some t' →
      t'.PidsIdentify) ↔ ops.countP ProcOp.Creates ≤ 255 := by
  constructor
  · intro hall
    by_contra hmany
    obtain ⟨pre, op, hpre, hc, hcount⟩ :=
      exists_prefix_of_lt_countP ProcOp.Creates ops 255 (by omega)
    obtain ⟨rest, hrest⟩ := hpre
    -- the prefix of a run that goes through goes through
    obtain ⟨u, hu⟩ : ∃ u, follow (fun t op => ProcOp.run t op) (pre ++ [op]) ProcTable.booted = some u := by
      rw [← hrest, follow_append] at hrun
      obtain ⟨u, hu, _⟩ := Option.bind_eq_some_iff.mp hrun
      exact ⟨u, hu⟩
    have hu' := hu
    rw [follow_append] at hu'
    obtain ⟨v, hv, hlast⟩ := Option.bind_eq_some_iff.mp hu'
    have hcounted := ProcTable.booted_counted.follow pre hv
    rw [hcount] at hcounted
    obtain ⟨w, hop, hw⟩ := Option.bind_eq_some_iff.mp hlast
    rw [Option.some.inj hw] at hop
    exact hcounted.not_identify hc hop (hall _ u ⟨rest, hrest⟩ hu)
  · intro hfew pre t' hpre hrun'
    have hcounted := ProcTable.booted_counted.follow pre hrun'
    have hle := hpre.sublist.countP_le (p := ProcOp.Creates)
    exact hcounted.identify (by omega)

/-- One program run after the bootstrap. -/
theorem pids_identify_first_program :
    (ProcTable.mk 2 2 (some 0) [⟨1, 1⟩, ⟨0, 0⟩]).PidsIdentify :=
  (pids_identify_iff [.procCreateRunprogram true true] _ rfl).mpr (by decide)
    [.procCreateRunprogram true true] _ (List.prefix_refl _) rfl

/-- **The 256th program run gets the kernel's pid.**  Programs run and are destroyed one after the other; the
last one created has pid 0 while `kproc` is alive. -/
theorem pids_collide_with_kernel : ∃ t p, Reaches (StepOf fun t op => ProcOp.run t op)
    (· = ProcTable.booted) t ∧ p ∈ t.live ∧ t.kproc ≠ some p.block ∧ p.pid = 0 := by
  obtain ⟨t, hrun, htest⟩ := exists_reaches_of_follow (fun t op => ProcOp.run t op)
    (· = ProcTable.booted) ProcTable.booted
    ((List.range 255).flatMap (fun n => [.procCreateRunprogram true true, .procDestroy (n + 1)]) ++
      [.procCreateRunprogram true true])
    (fun t => decide ((⟨256, 0⟩ : Process) ∈ t.live ∧ t.kproc ≠ some 256)) rfl (by decide +kernel)
  obtain ⟨hlive, hk⟩ := of_decide_eq_true htest
  exact ⟨t, ⟨256, 0⟩, hrun, hlive, hk, rfl⟩

end Os161Kernel
