import Os161Kernel.Lib.Runs

/-!
# Threads at the disk: `lhd.c`

The card has one buffer, one sector register and one status register.  `lhd_io` takes the semaphore `lh_clear` for each
sector, fills the buffer, starts the operation and waits for `lh_done`; the interrupt handler clears the status register,
leaves the result in `lh_result` and posts `lh_done`.  Here any number of threads do this at once, and their accesses,
those of the handler and the completions of the hardware interleave in any way.  The handler may be called for nothing.

What the hardware has done is kept in a log.
-/

namespace Os161Kernel

open Runs

/-- What a thread wants of a sector: to write these bytes, or to read. -/
structure LhdRequest (β : Type) where
  sector : ℕ
  data : Option β
deriving DecidableEq

/-- How far a thread is with a sector in `lhd_io`. -/
inductive LhdPhase (β : Type) where
  | outside
  /-- `P(lh->lh_clear)` has returned. -/
  | cleared (r : LhdRequest β)
  /-- The buffer holds what is to be written. -/
  | filled (r : LhdRequest β)
  /-- `LHD_REG_SECT` is set. -/
  | aimed (r : LhdRequest β)
  /-- `LHD_REG_STAT` is set. -/
  | started (r : LhdRequest β)
  /-- `P(lh->lh_done)` has returned. -/
  | served (r : LhdRequest β)
deriving DecidableEq

/-- The status codes, those of a finished operation as one; `write` is `LHD_ISWRITE`. -/
inductive LhdStat where
  | idle
  | working (write : Bool)
  | finished (code : ℕ)

/-- How far `lhd_irq` is with a finished operation. -/
inductive LhdHandler where
  | idle
  | cleared (code : ℕ)
  | stored

/-- An operation that the hardware has finished, with the buffer after it. -/
structure LhdEntry (β : Type) where
  sector : ℕ
  write : Bool
  buf : β
  code : ℕ

structure LhdCard (β : Type) where
  clear : ℕ
  done : ℕ
  phase : ℕ → LhdPhase β
  sect : ℕ
  stat : LhdStat
  buf : β
  result : ℕ
  handler : LhdHandler
  disk : ℕ → β
  log : List (LhdEntry β)

namespace LhdCard

variable {β : Type}

/-- The next access of a thread, for `r` if it enters; a thread that has the card gives up, because the bytes to be
written cannot be had; the hardware finishes an operation; the handler is called or goes on. -/
inductive Op (β : Type) where
  | next (t : ℕ) (r : LhdRequest β)
  | giveUp (t : ℕ)
  | finish (code : ℕ)
  | irq

def goto (s : LhdCard β) (t : ℕ) (p : LhdPhase β) : LhdCard β :=
  { s with phase := fun u => if u = t then p else s.phase u }

/-- The hardware carries an operation out; only `LHD_OK`, which is 4, moves bytes. -/
def finish (s : LhdCard β) (write : Bool) (code : ℕ) : LhdCard β :=
  let buf := if code = 4 ∧ write = false then s.disk s.sect else s.buf
  { s with
    stat := .finished code
    buf := buf
    disk := fun n => if code = 4 ∧ write = true ∧ n = s.sect then s.buf else s.disk n
    log := ⟨s.sect, write, buf, code⟩ :: s.log }

def step (s : LhdCard β) : Op β → Option (LhdCard β)
  | .next t r =>
    match s.phase t with
    | .outside => if 0 < s.clear then some ({ s with clear := s.clear - 1 }.goto t (.cleared r)) else none
    | .cleared r => some ({ s with buf := r.data.getD s.buf }.goto t (.filled r))
    | .filled r => some ({ s with sect := r.sector }.goto t (.aimed r))
    | .aimed r => some ({ s with stat := .working r.data.isSome }.goto t (.started r))
    | .started r => if 0 < s.done then some ({ s with done := s.done - 1 }.goto t (.served r)) else none
    | .served _ => some ({ s with clear := s.clear + 1 }.goto t .outside)
  | .giveUp t =>
    match s.phase t with
    | .cleared _ => some ({ s with clear := s.clear + 1 }.goto t .outside)
    | _ => none
  | .finish code =>
    match s.stat with
    | .working write => some (s.finish write code)
    | _ => none
  | .irq =>
    match s.handler, s.stat with
    | .idle, .finished code => some { s with stat := .idle, handler := .cleared code }
    | .idle, _ => some s
    | .cleared code, _ => some { s with result := code, handler := .stored }
    | .stored, _ => some { s with done := s.done + 1, handler := .idle }

/-- After `config_lhd`. -/
structure Configured (s : LhdCard β) : Prop where
  clear : s.clear = 1
  done : s.done = 0
  phase : ∀ t, s.phase t = .outside
  stat : s.stat = .idle
  handler : s.handler = .idle

/-! ### The invariant -/

/-- The last operation was the one asked for, and ended with `code`; the buffer is as it left it. -/
def Delivered (s : LhdCard β) (r : LhdRequest β) (code : ℕ) : Prop :=
  s.log.head? = some ⟨r.sector, r.data.isSome, s.buf, code⟩ ∧ ∀ d, r.data = some d → s.buf = d

/-- The card has nothing to do, to report or to post. -/
def Quiet (s : LhdCard β) : Prop := s.stat = .idle ∧ s.handler = .idle ∧ s.done = 0

/-- Where the card stands with the operation that has been started. -/
def Busy (s : LhdCard β) (r : LhdRequest β) : Prop :=
  match s.stat, s.handler, s.done with
  | .working write, .idle, 0 => write = r.data.isSome ∧ s.sect = r.sector ∧ ∀ d, r.data = some d → s.buf = d
  | .finished code, .idle, 0 => s.Delivered r code
  | .idle, .cleared code, 0 => s.Delivered r code
  | .idle, .stored, 0 => s.Delivered r s.result
  | .idle, .idle, 1 => s.Delivered r s.result
  | _, _, _ => False

/-- What holds while a thread is at a phase. -/
def Serves (s : LhdCard β) : LhdPhase β → Prop
  | .outside => s.Quiet
  | .cleared _ => s.Quiet
  | .filled r => s.Quiet ∧ ∀ d, r.data = some d → s.buf = d
  | .aimed r => s.Quiet ∧ s.sect = r.sector ∧ ∀ d, r.data = some d → s.buf = d
  | .started r => s.Busy r
  | .served r => s.Quiet ∧ s.Delivered r s.result

/-- The card serves thread `t`, or nobody if that is outside. -/
structure Inv (t : ℕ) (s : LhdCard β) : Prop where
  free : s.phase t = .outside → s.clear = 1
  held : s.phase t ≠ .outside → s.clear = 0
  others : ∀ u, u ≠ t → s.phase u = .outside
  serves : s.Serves (s.phase t)

variable {s s' : LhdCard β} {t : ℕ}

theorem Configured.inv (h : Configured s) : Inv 0 s := by
  constructor <;> simp [Serves, Quiet, h.phase, h.clear, h.stat, h.handler, h.done]

theorem Inv.nextInside {r : LhdRequest β} (h : Inv t s) (ht : s.phase t ≠ .outside)
    (hstep : s.step (.next t r) = some s') : Inv t s' := by
  obtain ⟨hfree, hheld, hothers, hserves⟩ := h
  simp only [LhdCard.step] at hstep
  cases hp : s.phase t with
  | outside => exact absurd hp ht
  | started r =>
    simp only [hp, Serves, Option.ite_none_right_eq_some, Option.some.injEq] at hstep hserves
    obtain ⟨hpos, rfl⟩ := hstep
    -- the semaphore is posted last
    constructor <;> grind [goto, Serves, Quiet, Busy, Delivered]
  | _ r =>
    simp only [hp, Serves, Option.some.injEq] at hstep hserves
    subst hstep
    constructor <;> grind [goto, Serves, Quiet, Busy, Delivered]

/-- **The hardware and the handler** leave the threads where they are. -/
theorem Inv.working (h : Inv t s) (hclear : s'.clear = s.clear) (hphase : s'.phase = s.phase)
    (hserves : ∀ p, s.Serves p → s'.Serves p) : Inv t s' := by
  obtain ⟨hfree, hheld, hothers, hs⟩ := h
  constructor <;> simp_all

theorem Inv.step {op : Op β} (h : Inv t s) (hstep : s.step op = some s') : ∃ t', Inv t' s' := by
  have hinside : ∀ u, s.phase u ≠ .outside → u = t := fun u hu => by_contra fun hne => hu (h.others u hne)
  cases op with
  | next u r =>
    by_cases hu : s.phase u = .outside
    · simp only [LhdCard.step, hu, Option.ite_none_right_eq_some, Option.some.injEq] at hstep
      obtain ⟨hpos, rfl⟩ := hstep
      obtain ⟨hfree, hheld, hothers, hserves⟩ := h
      -- the semaphore is up, so nobody is inside
      have ht : s.phase t = .outside := by
        by_contra hne
        simp [hheld hne] at hpos
      refine ⟨u, ?_, ?_, ?_, ?_⟩ <;> grind [goto, Serves, Quiet]
    · obtain rfl := hinside u hu
      exact ⟨u, h.nextInside hu hstep⟩
  | giveUp u =>
    obtain ⟨hfree, hheld, hothers, hserves⟩ := h
    refine ⟨t, ?_, ?_, ?_, ?_⟩ <;> grind [LhdCard.step, goto, Serves, Quiet]
  | finish code =>
    simp only [LhdCard.step] at hstep
    split at hstep
    · obtain rfl := Option.some.inj hstep
      refine ⟨t, h.working rfl rfl fun p hp => ?_⟩
      cases p <;> grind [LhdCard.finish, Serves, Quiet, Busy, Delivered]
    · cases hstep
  | irq =>
    simp only [LhdCard.step] at hstep
    refine ⟨t, ?_⟩
    split at hstep <;> obtain rfl := Option.some.inj hstep
    all_goals
      refine h.working rfl rfl fun p hp => ?_
      cases p <;> grind [Serves, Quiet, Busy, Delivered]

/-- **Requests at the disk do not meet.**  In every interleaving at most one thread is between `P(lh_clear)` and
`V(lh_clear)`; it writes to the card only while that is idle; when it has passed `P(lh_done)`, the last operation of the
hardware was its own, `lh_result` is the result of that and the buffer as it was left, with its own bytes if it wrote;
and while it waits, the hardware or the handler is at work for it, or `lh_done` is posted. -/
theorem disk_requests_apart (h : Reaches (StepOf step) Configured s) :
    (∀ t u, s.phase t ≠ .outside → s.phase u ≠ .outside → t = u) ∧
    (∀ t r, s.phase t = .cleared r ∨ s.phase t = .filled r ∨ s.phase t = .aimed r → s.stat = .idle) ∧
    (∀ t r, s.phase t = .served r → s.Delivered r s.result) ∧
    (∀ t r, s.phase t = .started r → s.stat ≠ .idle ∨ s.handler ≠ .idle ∨ s.done = 1) := by
  obtain ⟨o, hinv⟩ := h.invariant (P := fun s => ∃ t, Inv t s) (fun _ hs => ⟨0, hs.inv⟩)
    fun _ _ _ hs hstep => hs.choose_spec.step hstep
  obtain ⟨-, -, hothers, hserves⟩ := hinv
  refine ⟨?_, ?_, ?_, ?_⟩ <;> grind [Serves, Quiet, Busy]

/-- A card with an empty disk. -/
def idleCard : LhdCard ℕ := ⟨1, 0, fun _ => .outside, 0, .idle, 0, 0, .idle, fun _ => 0, []⟩

/-- A write of 7 to sector 3, with a call of the handler for nothing in between. -/
theorem disk_requests_apart_write : ∃ s : LhdCard ℕ, Reaches (StepOf step) Configured s ∧ s.disk 3 = 7 ∧
    s.Delivered ⟨3, some 7⟩ s.result := by
  obtain ⟨s, hs, hp⟩ := exists_reaches_of_follow step Configured idleCard
    [.next 1 ⟨3, some 7⟩, .next 1 ⟨0, none⟩, .next 1 ⟨0, none⟩, .next 1 ⟨0, none⟩, .irq, .finish 4, .irq, .irq, .irq,
      .next 1 ⟨0, none⟩] (fun s => decide (s.disk 3 = 7 ∧ s.phase 1 = .served ⟨3, some 7⟩))
      ⟨rfl, rfl, fun _ => rfl, rfl, rfl⟩ (by decide)
  obtain ⟨hdisk, hphase⟩ := of_decide_eq_true hp
  exact ⟨s, hs, hdisk, (disk_requests_apart hs).2.2.1 1 _ hphase⟩

end LhdCard
end Os161Kernel
