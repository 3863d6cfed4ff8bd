import Os161Kernel.Lib.Runs

/-!
# Console output: `console.c` over `lser.c`

`putch_intr` waits for the semaphore `cs_wsem` and hands its character to `lser_write`, which panics when the device is
still busy; the semaphore is posted by `con_start`, when the interrupt handler has seen that a character is out.  From
interrupt handlers and under spinlocks `putch` polls instead, in the middle of all this: `lser_writepolled` waits for
the character on its way, sends its own and leaves things so that the handler still comes.

`ls_lock` makes `lser_write`, `lser_writepolled` and the first half of `lser_irq` one step each.  Any number of threads,
the device and the handler interleave in any way; the handler may be called at any time, since it also serves input.  A
device that is sending loses a character that is written to it.
-/

namespace Os161Kernel

open Runs

/-- `struct lser_softc` with its device, and the threads in `putch_intr`: the character of a thread that has passed
`P(cs->cs_wsem)`.  `handed` is what was passed to the driver, `line` what the device has taken. -/
structure Lser where
  wsem : ℕ
  putch : ℕ → Option UInt8
  wbusy : Bool
  /-- `LSER_IRQ_ACTIVE` in `LSER_REG_WIRQ`. -/
  active : Bool
  sending : Bool
  /-- The handler has cleared `ls_wbusy` and not called `con_start` yet. -/
  starting : Bool
  handed : List UInt8
  line : List UInt8

namespace Lser

inductive Op where
  | P (t : ℕ) (ch : UInt8)
  | lserWrite (t : ℕ)
  | lserWritepolled (ch : UInt8)
  /-- The device is done with a character. -/
  | sent
  | lserIrq
  | conStart

/-- A write to `LSER_REG_CHAR`. -/
def regChar (s : Lser) (ch : UInt8) : Lser :=
  if s.sending then s else { s with sending := true, line := s.line ++ [ch] }

/-- `lser_poll_until_write`, if the loop ends. -/
def pollUntilWrite (s : Lser) : Option Lser :=
  if s.active then some s else if s.sending then some { s with sending := false, active := true } else none

/-- `lser_writepolled`. -/
def lserWritepolled (s : Lser) (ch : UInt8) : Option Lser :=
  let s := { s with handed := s.handed ++ [ch] }
  if s.wbusy then do
    let s ← s.pollUntilWrite
    ({ s with active := false }.regChar ch).pollUntilWrite
  else do
    let s ← ({ s with active := false }.regChar ch).pollUntilWrite
    some { s with active := false }

def step (s : Lser) : Op → Option Lser
  | .P t ch =>
    if s.putch t = none ∧ 0 < s.wsem then
      some { s with wsem := s.wsem - 1, putch := fun u => if u = t then some ch else s.putch u }
    else none
  | .lserWrite t =>
    match s.putch t with
    | some ch =>
      -- lser: Not clear to write
      if s.wbusy then none
      else some ({ s with
        wbusy := true
        putch := fun u => if u = t then none else s.putch u
        handed := s.handed ++ [ch] }.regChar ch)
    | none => none
  | .lserWritepolled ch => s.lserWritepolled ch
  | .sent => if s.sending then some { s with sending := false, active := true } else none
  | .lserIrq =>
    if s.starting then none
    else if s.active then some { s with wbusy := false, active := false, starting := true } else some s
  | .conStart => if s.starting then some { s with wsem := s.wsem + 1, starting := false } else none

/-- After `config_con` and `config_lser`. -/
def configured : Lser := ⟨1, fun _ => none, false, false, false, false, [], []⟩

/-! ### The invariant -/

/-- Who may have the right to use the device. -/
inductive Party where
  | thread (t : ℕ)
  | device
  | handler

/-- **Who has the right**; nobody while the semaphore is 1. -/
structure Inv (o : Option Party) (s : Lser) : Prop where
  free : s.wsem = if o = none then 1 else 0
  thread : ∀ t, s.putch t ≠ none ↔ o = some (.thread t)
  device : s.wbusy = true ↔ o = some .device
  handler : s.starting = true ↔ o = some .handler
  busy : s.wbusy = (s.sending || s.active)
  apart : s.sending = true → s.active = false
  line : s.line = s.handed

variable {s s' : Lser} {ch : UInt8} {o : Option Party}

theorem inv_configured : Inv none configured where
  free := rfl
  thread t := by simp [configured]
  device := by simp [configured]
  handler := by simp [configured]
  busy := rfl
  apart := by simp [configured]
  line := rfl

/-- **A polled write** ends, takes its turn and leaves `ls_wbusy` and the semaphore as they were. -/
theorem Inv.lserWritepolled (h : Inv o s) (ch : UInt8) : ∃ s', s.lserWritepolled ch = some s' ∧ Inv o s' := by
  obtain ⟨hfree, hthread, hdevice, hhandler, hbusy, hapart, hline⟩ := h
  cases hs : s.sending <;> cases ha : s.active <;> simp [hs, ha] at hbusy hapart <;>
    simp only [Lser.lserWritepolled, pollUntilWrite, regChar, hs, ha, hbusy]
  all_goals refine ⟨_, rfl, hfree, hthread, ?_, hhandler, rfl, by simp, by simp [hline]⟩
  all_goals simpa [hbusy] using hdevice

theorem Inv.not_wbusy {t : ℕ} (h : Inv o s) (ht : s.putch t = some ch) : s.wbusy = false := by
  have ho := (h.thread t).mp (by simp [ht])
  simpa [ho] using h.device

theorem Inv.step {op : Op} (h : Inv o s) (hstep : s.step op = some s') : ∃ o', Inv o' s' := by
  have hinv := h
  obtain ⟨hfree, hthread, hdevice, hhandler, hbusy, hapart, hline⟩ := h
  cases op with
  | P t ch =>
    simp only [Lser.step] at hstep
    refine ⟨some (.thread t), ?_, fun u => ?_, ?_, ?_, ?_, ?_, ?_⟩ <;> grind
  | lserWrite t =>
    simp only [Lser.step] at hstep
    split at hstep
    · next ch hch =>
      have hclear := hinv.not_wbusy hch
      have ht := hthread t
      have hs : s.sending = false := by grind
      simp only [hclear, regChar, hs, Bool.false_eq_true, if_false, Option.some.injEq] at hstep
      subst hstep
      refine ⟨some .device, ?_, fun u => ?_, ?_, ?_, ?_, ?_, ?_⟩ <;> grind
    · cases hstep
  | lserWritepolled ch =>
    obtain ⟨t, ht, h'⟩ := hinv.lserWritepolled ch
    exact ⟨o, Option.some.inj (ht.symm.trans hstep) ▸ h'⟩
  | sent =>
    simp only [Lser.step] at hstep
    refine ⟨o, ?_, fun u => ?_, ?_, ?_, ?_, ?_, ?_⟩ <;> grind
  | lserIrq =>
    simp only [Lser.step] at hstep
    refine ⟨if s.active then some .handler else o, ?_, fun u => ?_, ?_, ?_, ?_, ?_, ?_⟩ <;> grind
  | conStart =>
    simp only [Lser.step, Option.ite_none_right_eq_some, Option.some.injEq] at hstep
    obtain ⟨hs, rfl⟩ := hstep
    refine ⟨none, ?_, fun u => ?_, ?_, ?_, ?_, ?_, ?_⟩ <;> grind

/-- **Console output is lossless.**  In every interleaving the device has taken the characters in the order in which they
were passed to the driver, `lser_write` does not panic, `lser_writepolled` does not poll for ever, and the semaphore is 0
exactly while a thread, the device or the handler is about to lead to its being posted. -/
theorem console_output_lossless (h : Reaches (StepOf step) (· = configured) s) :
    s.line = s.handed ∧ (∀ t ch, s.putch t = some ch → ∃ s', s.step (.lserWrite t) = some s') ∧
    (∀ ch, ∃ s', s.step (.lserWritepolled ch) = some s') ∧
    (s.wsem = 0 ↔ (∃ t, s.putch t ≠ none) ∨ s.sending = true ∨ s.active = true ∨ s.starting = true) := by
  obtain ⟨o, hinv⟩ := h.invariant (P := fun s => ∃ o, Inv o s) (by rintro _ rfl; exact ⟨none, inv_configured⟩)
    fun _ _ _ hs hstep => hs.choose_spec.step hstep
  refine ⟨hinv.line, fun t ch ht => ?_, fun ch => ?_, ?_⟩
  · simp [Lser.step, ht, hinv.not_wbusy ht]
  · obtain ⟨t, ht, -⟩ := hinv.lserWritepolled ch
    exact ⟨t, ht⟩
  · obtain ⟨hfree, hthread, hdevice, hhandler, hbusy, -, -⟩ := hinv
    simp only [hthread]
    rcases o with _ | (t | _ | _) <;> simp_all

/-- A thread and an interrupt handler print while a character is on its way. -/
theorem console_output_lossless_busy : ∃ s, Reaches (StepOf step) (· = configured) s ∧ s.handed = [72, 105, 33] ∧
    s.line = s.handed := by
  obtain ⟨s, hs, hp⟩ := exists_reaches_of_follow step (· = configured) configured
    [.P 1 72, .lserWrite 1, .lserWritepolled 105, .lserIrq, .conStart, .P 2 33, .lserWrite 2]
    (fun s => s.handed = [72, 105, 33]) rfl (by decide)
  exact ⟨s, hs, of_decide_eq_true hp, (console_output_lossless hs).1⟩

end Lser
end Os161Kernel
