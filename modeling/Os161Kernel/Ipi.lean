import Os161Kernel.Lib.Runs

/-!
# Interprocessor interrupts

Other CPUs set bits in `c_ipi_pending` of their target, queue shootdowns there and raise its interrupt line, all under
`c_ipi_lock`.  The target's `mainbus_interrupt` first calls `interprocessor_interrupt`, which takes the bits and the
queue under the lock, and then lowers the line.  What is sent in between sets a bit and finds the line already up.
-/

namespace Os161Kernel

open Runs

inductive IpiPhase where
  | running
  /-- `mainbus_interrupt` has seen `LAMEBUS_IPI_BIT`. -/
  | taken
  /-- `interprocessor_interrupt` has returned. -/
  | handled
  | halted
  | panicked
deriving DecidableEq

/-- A CPU of several, as their interrupts see it; `line` is `CTLCPU_CIPI`. -/
structure IpiCpu (τ : Type) where
  ipiPending : BitVec 32
  shootdown : List τ
  line : Bool
  phase : IpiPhase

namespace IpiCpu

variable {τ : Type}

/-- What another CPU sends; the target takes the interrupt, handles it and lowers the line. -/
inductive Op (τ : Type) where
  | send (code : Fin 32)
  | tlbshootdown (mapping : τ)
  | take
  | handle
  | clear

/-- The bit of a code is set and the line raised, as in `ipi_send`. -/
def post (s : IpiCpu τ) (code : ℕ) : IpiCpu τ := { s with ipiPending := s.ipiPending ||| 1#32 <<< code, line := true }

/-- `interprocessor_interrupt`.  `IPI_PANIC` is 0, `IPI_OFFLINE` 1 and `IPI_TLBSHOOTDOWN` 3; nothing is done for
`IPI_UNIDLE`.  `vm_tlbshootdown` panics. -/
def interprocessorInterrupt (s : IpiCpu τ) : IpiCpu τ :=
  if s.ipiPending.getLsbD 0 || s.ipiPending.getLsbD 1 then { s with phase := .halted }
  else if s.ipiPending.getLsbD 3 && !s.shootdown.isEmpty then { s with phase := .panicked }
  else { s with
    ipiPending := 0
    shootdown := if s.ipiPending.getLsbD 3 then [] else s.shootdown
    phase := .handled }

def step (s : IpiCpu τ) : Op τ → Option (IpiCpu τ)
  | .send code => some (s.post code)
  -- with `TLBSHOOTDOWN_MAX` of them queued the sender panics
  | .tlbshootdown mapping =>
    if s.shootdown.length = 16 then none else some ({ s with shootdown := s.shootdown ++ [mapping] }.post 3)
  | .take => if s.phase = .running ∧ s.line = true then some { s with phase := .taken } else none
  | .handle => if s.phase = .taken then some s.interprocessorInterrupt else none
  | .clear => if s.phase = .handled then some { s with phase := .running, line := false } else none

/-- After `cpu_create`. -/
def created : IpiCpu τ := ⟨0, [], false, .running⟩

/-- Sent by another CPU. -/
def Op.Sent : Op τ → Prop
  | .send _ | .tlbshootdown _ => True
  | _ => False

/-- Nothing is sent between the handler's end and the lowering of the line. -/
def OnTime (s : IpiCpu τ) (op : Op τ) : Prop := op.Sent → s.phase ≠ .handled

/-- Something is pending that the target does not hear of. -/
def Stranded (s : IpiCpu τ) : Prop := s.ipiPending ≠ 0 ∧ s.line = false ∧ s.phase = .running

/-- What holds in every run. -/
structure Inv (s : IpiCpu τ) : Prop where
  queue : s.shootdown.length ≤ 16
  bit : s.shootdown ≠ [] → s.ipiPending.getLsbD 3 = true

/-- What holds besides when everything is sent on time. -/
structure Heard (s : IpiCpu τ) : Prop where
  line : s.ipiPending ≠ 0 → s.line = true
  handled : s.phase = .handled → s.ipiPending = 0

variable {s s' : IpiCpu τ} {op : Op τ}

theorem Inv.step (h : Inv s) (hstep : s.step op = some s') : Inv s' := by
  obtain ⟨hqueue, hbit⟩ := h
  cases op with
  | send code =>
    obtain rfl := Option.some.inj hstep
    exact ⟨hqueue, fun hne => by simp [post, hbit hne]⟩
  | tlbshootdown mapping =>
    simp only [IpiCpu.step, Option.ite_none_left_eq_some, Option.some.injEq] at hstep
    obtain ⟨hroom, rfl⟩ := hstep
    exact ⟨by simp [post]; omega, fun _ => by simp [post]⟩
  | take => constructor <;> grind [IpiCpu.step]
  | handle => constructor <;> grind [IpiCpu.step, interprocessorInterrupt]
  | clear => constructor <;> grind [IpiCpu.step]

theorem Heard.step (h : Heard s) (htime : OnTime s op) (hstep : s.step op = some s') : Heard s' := by
  obtain ⟨hline, hhandled⟩ := h
  cases op with
  | send code => constructor <;> grind [IpiCpu.step, post, OnTime, Op.Sent]
  | tlbshootdown mapping => constructor <;> grind [IpiCpu.step, post, OnTime, Op.Sent]
  | take => constructor <;> grind [IpiCpu.step]
  | handle => constructor <;> grind [IpiCpu.step, interprocessorInterrupt]
  | clear => constructor <;> grind [IpiCpu.step]

theorem Stranded.step (h : Stranded s) (hop : ¬ op.Sent) : s.step op = none := by
  obtain ⟨-, hline, hphase⟩ := h
  cases op <;> simp_all [IpiCpu.step, Op.Sent]

/-- **An interrupt arrives unless it is late.**  If nothing is sent between the end of the handler and the lowering of
the line, the line is up whenever something is pending.  In general at most 16 shootdowns are queued, and their bit is
set; but something can be pending that the target does not hear of, and then it does nothing about it by itself. -/
theorem ipi_arrives_unless_late :
    (∀ s : IpiCpu τ, Reaches (Guarded (StepOf step) OnTime) (· = created) s → s.ipiPending ≠ 0 → s.line = true) ∧
    (∀ s : IpiCpu τ, Reaches (StepOf step) (· = created) s →
      s.shootdown.length ≤ 16 ∧ (s.shootdown ≠ [] → s.ipiPending.getLsbD 3 = true)) ∧
    (∃ s : IpiCpu τ, Reaches (StepOf step) (· = created) s ∧ s.Stranded) ∧
    ∀ s : IpiCpu τ, s.Stranded → ∀ op, ¬ op.Sent → s.step op = none := by
  refine ⟨fun s hs => ?_, fun s hs => ?_, ?_, fun s hs op hop => hs.step hop⟩
  · exact (hs.invariant (P := Heard) (by rintro _ rfl; constructor <;> simp [created])
      fun _ _ _ h hstep => h.step hstep.1 hstep.2).line
  · have hinv := hs.invariant (P := Inv) (by rintro _ rfl; constructor <;> simp [created])
      fun _ _ _ h hstep => h.step hstep
    exact ⟨hinv.queue, hinv.bit⟩
  · -- the second `IPI_UNIDLE` is late
    have hs : Reaches (StepOf step) (· = created) (⟨4, [], false, .running⟩ : IpiCpu τ) :=
      Reaches.of_follow [.send 2, .take, .handle, .send 2, .clear] (.start rfl)
        (by simp [follow, step, post, interprocessorInterrupt, created])
    exact ⟨_, hs, by simp [Stranded]⟩

end IpiCpu
end Os161Kernel
