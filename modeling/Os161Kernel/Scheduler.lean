import Os161Kernel.Lib.Calls
import Os161Kernel.Lib.Queues
import Os161Kernel.Lib.Runs

/-!
# The scheduler

Threads wait on thread lists: the run queue and the zombies of each CPU, the sleepers of each wait channel, and two
lists on the stack of whatever a CPU executes, `victims` of `thread_consider_migration` and the threads that
`wchan_wakeone` and `wchan_wakeall` have taken off their channel.

The functions of `thread.c` are cut where they give up a run queue lock or a wait channel lock.  Each part is a call on
the state of the whole machine; the parts of all CPUs interleave.  `Activity` says in which function a CPU is between
two of its parts.  A CPU that found its run queue empty idles inside `thread_switch`, with its last thread still
current; interrupt handlers run there and may wake threads or migrate them.
-/

namespace Os161Kernel

open Calls Queues Runs Function

/-- `threadstate_t`. -/
inductive ThreadState where
  | run
  | ready
  | sleep
  | zombie
deriving DecidableEq

/-- The thread lists.  `woken c` is `list` of `wchan_wakeall`, and holds the `target` of `wchan_wakeone`. -/
inductive Threadlist where
  | runqueue (c : ℕ)
  | zombies (c : ℕ)
  | wchan (w : ℕ)
  | victims (c : ℕ)
  | woken (c : ℕ)
deriving DecidableEq

/-- What has become of a thread.  While `thread_fork` prepares it, only its parent knows it. -/
inductive Life where
  | absent
  | setUp (parent : ℕ)
  | created
  | destroyed
deriving DecidableEq

/-- What a CPU is in the middle of, with the local variables that it needs later. -/
inductive Activity where
  | none
  | waking
  | counting (i myCount totalCount : ℕ)
  | sending (i oneShare toSend : ℕ)
deriving DecidableEq

/-- The threads and the CPUs. -/
structure Sched where
  numcpus : ℕ
  lists : Threadlist → List ℕ
  tState : ℕ → ThreadState
  tCpu : ℕ → ℕ
  life : ℕ → Life
  curthread : ℕ → ℕ
  isidle : ℕ → Bool
  activity : ℕ → Activity

/-- Calls on the scheduler return no error codes; they stop at a failed assertion or a null thread. -/
abbrev SchedCall := Call String Empty Sched

namespace Sched

/-! ### Thread lists -/

/-- `threadlist_addtail`. -/
def threadlistAddtail (tl : Threadlist) (t : ℕ) : SchedCall Unit :=
  .update fun s => { s with lists := update s.lists tl (s.lists tl ++ [t]) }

/-- `threadlist_addhead`. -/
def threadlistAddhead (tl : Threadlist) (t : ℕ) : SchedCall Unit :=
  .update fun s => { s with lists := update s.lists tl (t :: s.lists tl) }

/-- `threadlist_remhead`. -/
def threadlistRemhead (tl : Threadlist) : SchedCall (Option ℕ) := do
  match ← .read fun s => s.lists tl with
  | [] => pure none
  | t :: rest => do
    .update fun s => { s with lists := update s.lists tl rest }
    pure (some t)

/-- `threadlist_remtail`. -/
def threadlistRemtail (tl : Threadlist) : SchedCall (Option ℕ) := do
  match ← .read fun s => (s.lists tl).getLast? with
  | none => pure none
  | some t => do
    .update fun s => { s with lists := update s.lists tl (s.lists tl).dropLast }
    pure (some t)

/-- `n` rounds of `while ((t = threadlist_remhead(tl)) != NULL) body(t);` -/
def drainRounds (tl : Threadlist) (body : ℕ → SchedCall Unit) : ℕ → SchedCall Unit
  | 0 => pure ()
  | n + 1 => do
    match ← threadlistRemhead tl with
    | none => pure ()
    | some t => do
      body t
      drainRounds tl body n

/-- `while ((t = threadlist_remhead(tl)) != NULL) body(t);` for a body that does not add to the list. -/
def drain (tl : Threadlist) (body : ℕ → SchedCall Unit) : SchedCall Unit := do
  let n ← .read fun s => (s.lists tl).length
  drainRounds tl body n

/-! ### Switching -/

def setActivity (c : ℕ) (a : Activity) : SchedCall Unit :=
  .update fun s => { s with activity := update s.activity c a }

/-- `thread_make_runnable`.  The interrupt that it may send to an idle CPU is a hint: an idle CPU looks at its run
queue anyway. -/
def threadMakeRunnable (target : ℕ) : SchedCall Unit := do
  let targetcpu ← .read fun s => s.tCpu target
  .update fun s => { s with tState := update s.tState target .ready }
  threadlistAddtail (.runqueue targetcpu) target

/-- The `switch` of `thread_switch` on CPU `c`. -/
def enqueueCur (c cur wc : ℕ) : ThreadState → SchedCall Unit
  | .run => .stop "Illegal S_RUN in thread_switch\n"
  | .ready => do
    let targetcpu ← .read fun s => s.tCpu cur
    .require (targetcpu = c) "spinlock_do_i_hold(&targetcpu->c_runqueue_lock)"
    threadMakeRunnable cur
  | .sleep => threadlistAddtail (.wchan wc) cur
  | .zombie => threadlistAddtail (.zombies c) cur

/-- One round of the loop in `thread_switch` that looks for the next thread, and the switch to it. -/
def switchNext (c : ℕ) : SchedCall Unit := do
  match ← threadlistRemhead (.runqueue c) with
  | none => pure ()
  | some next =>
    .update fun s => { s with
      isidle := update s.isidle c false
      curthread := update s.curthread c next
      tState := update s.tState next .run }

/-- `thread_switch` on CPU `c`, up to the first time it idles. -/
def threadSwitch (c : ℕ) (newstate : ThreadState) (wc : ℕ) : SchedCall Unit := do
  let idle ← .read fun s => s.isidle c
  let queue ← .read fun s => s.lists (.runqueue c)
  if idle = true ∨ (newstate = .ready ∧ queue = []) then pure ()
  else do
    let cur ← .read fun s => s.curthread c
    enqueueCur c cur wc newstate
    .update fun s => { s with
      tState := update s.tState cur newstate
      isidle := update s.isidle c true }
    switchNext c

/-! ### The beginning and the end of a thread -/

/-- `thread_fork` up to `thread_make_runnable`. -/
def forkCreate (c t : ℕ) : SchedCall Unit :=
  .update fun s => { s with
    life := update s.life t (.setUp (s.curthread c))
    tState := update s.tState t .ready
    tCpu := update s.tCpu t (s.tCpu (s.curthread c)) }

/-- The error exits of `thread_fork`. -/
def forkFail (t : ℕ) : SchedCall Unit :=
  .update fun s => { s with life := update s.life t .destroyed }

/-- The end of `thread_fork`. -/
def forkStart (t : ℕ) : SchedCall Unit := do
  .update fun s => { s with life := update s.life t .created }
  threadMakeRunnable t

/-- `thread_destroy` on CPU `c`. -/
def threadDestroy (c t : ℕ) : SchedCall Unit := do
  let cur ← .read fun s => s.curthread c
  .require (t ≠ cur) "thread != curthread"
  let state ← .read fun s => s.tState t
  .require (state ≠ .run) "thread->t_state != S_RUN"
  .update fun s => { s with life := update s.life t .destroyed }

/-- The body of the loop in `exorcise`. -/
def exorciseOne (c z : ℕ) : SchedCall Unit := do
  let cur ← .read fun s => s.curthread c
  .require (z ≠ cur) "z != curthread"
  let state ← .read fun s => s.tState z
  .require (state = .zombie) "z->t_state == S_ZOMBIE"
  threadDestroy c z

/-- `exorcise` on CPU `c`. -/
def exorcise (c : ℕ) : SchedCall Unit := drain (.zombies c) (exorciseOne c)

/-! ### Wait channels -/

/-- `wchan_wakeone` up to `thread_make_runnable`. -/
def wchanWakeone (c w : ℕ) : SchedCall Unit := do
  match ← threadlistRemhead (.wchan w) with
  | none => pure ()
  | some target => do
    threadlistAddtail (.woken c) target
    setActivity c .waking

/-- `wchan_wakeall` up to the first `thread_make_runnable`. -/
def wchanWakeall (c w : ℕ) : SchedCall Unit := do
  drain (.wchan w) fun target => threadlistAddtail (.woken c) target
  setActivity c .waking

/-- The next `thread_make_runnable` of a wakeup, or its end. -/
def wakeNext (c : ℕ) : SchedCall Unit := do
  match ← threadlistRemhead (.woken c) with
  | none => setActivity c .none
  | some target => threadMakeRunnable target

/-! ### Migration -/

/-- The first loop of `thread_consider_migration`, for CPU `i`. -/
def migrationCount (c i myCount totalCount : ℕ) : SchedCall Unit := do
  let count ← .read fun s => (s.lists (.runqueue i)).length
  setActivity c (.counting (i + 1) (if i = c then count else myCount) (totalCount + count))

/-- The loop that fills `victims`. -/
def migrationCollect (c : ℕ) : ℕ → SchedCall Unit
  | 0 => pure ()
  | n + 1 => do
    match ← threadlistRemtail (.runqueue c) with
    | none => .stop "threadlist_addhead: null thread"
    | some t => do
      threadlistAddhead (.victims c) t
      migrationCollect c n

/-- From the computation of `one_share` to the filling of `victims`. -/
def migrationChoose (c myCount totalCount numcpus : ℕ) : SchedCall Unit :=
  let oneShare := (totalCount + numcpus - 1) / numcpus
  if myCount < oneShare then setActivity c .none
  else do
    .update fun s => { s with lists := update s.lists (.victims c) [] }
    migrationCollect c (myCount - oneShare)
    setActivity c (.sending 0 oneShare (myCount - oneShare))

/-- The body of the loop that sends victims to CPU `i`. -/
def migrationSendOne (c i t : ℕ) : SchedCall Unit := do
  let cur ← .read fun s => s.curthread c
  if t = cur then threadlistAddtail (.victims c) t
  else do
    .update fun s => { s with tCpu := update s.tCpu t i }
    threadlistAddtail (.runqueue i) t

/-- The loop that sends victims to CPU `i`; it returns what is left of `to_send`. -/
def migrationSendLoop (c i oneShare : ℕ) : ℕ → SchedCall ℕ
  | 0 => pure 0
  | toSend + 1 => do
    let count ← .read fun s => (s.lists (.runqueue i)).length
    if count < oneShare then do
      match ← threadlistRemhead (.victims c) with
      | none => .stop "t->t_cpu: null thread"
      | some t => do
        migrationSendOne c i t
        migrationSendLoop c i oneShare toSend
    else pure (toSend + 1)

def migrationSend (c i oneShare toSend : ℕ) : SchedCall Unit :=
  if i = c then setActivity c (.sending (i + 1) oneShare toSend)
  else do
    let left ← migrationSendLoop c i oneShare toSend
    setActivity c (.sending (i + 1) oneShare left)

/-- The end of `thread_consider_migration`: leftovers go back to the own run queue. -/
def migrationRestore (c : ℕ) : SchedCall Unit := do
  drain (.victims c) fun t => threadlistAddtail (.runqueue c) t
  let victims ← .read fun s => s.lists (.victims c)
  .require (victims = []) "threadlist_isempty(&victims)"
  setActivity c .none

/-- The next part of `thread_consider_migration` on CPU `c`. -/
def threadConsiderMigration (c : ℕ) : SchedCall Unit := do
  let numcpus ← .read Sched.numcpus
  match ← .read fun s => s.activity c with
  | .none => setActivity c (.counting 0 0 0)
  | .waking => pure ()
  | .counting i myCount totalCount =>
    if i < numcpus then migrationCount c i myCount totalCount else migrationChoose c myCount totalCount numcpus
  | .sending i oneShare toSend =>
    if i < numcpus ∧ 0 < toSend then migrationSend c i oneShare toSend else migrationRestore c

/-! ### Interleavings -/

/-- The parts that CPU `c` can execute. -/
inductive Op where
  | forkCreate (c t : ℕ)
  | forkFail (c t : ℕ)
  | forkStart (c t : ℕ)
  | threadYield (c : ℕ)
  | wchanSleep (c w : ℕ)
  | threadExit (c : ℕ)
  | idle (c : ℕ)
  | exorcise (c : ℕ)
  | wchanWakeone (c w : ℕ)
  | wchanWakeall (c w : ℕ)
  | wakeNext (c : ℕ)
  | threadConsiderMigration (c : ℕ)

/-- CPU `c` executes its current thread, or an interrupt handler on top of it. -/
def Running (s : Sched) (c : ℕ) : Prop := c < s.numcpus ∧ s.isidle c = false ∧ s.activity c = .none

instance (s : Sched) (c : ℕ) : Decidable (s.Running c) := inferInstanceAs (Decidable (_ ∧ _ ∧ _))

/-- When a part can be executed.  `hardclock` yields on an idle CPU too; wakeups and migrations are made by interrupt
handlers, on an idle CPU as well. -/
def Enabled (s : Sched) : Op → Prop
  | .forkCreate c t => s.Running c ∧ s.life t = .absent
  | .forkFail c t | .forkStart c t => s.Running c ∧ s.life t = .setUp (s.curthread c)
  | .wchanSleep c _ | .threadExit c | .exorcise c => s.Running c
  | .threadYield c | .wchanWakeone c _ | .wchanWakeall c _ => c < s.numcpus ∧ s.activity c = .none
  | .idle c => c < s.numcpus ∧ s.isidle c = true ∧ s.activity c = .none
  | .wakeNext c => c < s.numcpus ∧ s.activity c = .waking
  | .threadConsiderMigration c => c < s.numcpus ∧ s.activity c ≠ .waking

instance (s : Sched) : (op : Op) → Decidable (s.Enabled op)
  | .forkCreate .. | .forkFail .. | .forkStart .. => inferInstanceAs (Decidable (_ ∧ _))
  | .wchanSleep c _ | .threadExit c | .exorcise c => inferInstanceAs (Decidable (s.Running c))
  | .threadYield .. | .wchanWakeone .. | .wchanWakeall .. => inferInstanceAs (Decidable (_ ∧ _))
  | .idle .. => inferInstanceAs (Decidable (_ ∧ _ ∧ _))
  | .wakeNext .. | .threadConsiderMigration .. => inferInstanceAs (Decidable (_ ∧ _))

/-- The code of a part. -/
def code : Op → SchedCall Unit
  | .forkCreate c t => Sched.forkCreate c t
  | .forkFail _ t => Sched.forkFail t
  | .forkStart _ t => Sched.forkStart t
  | .threadYield c => threadSwitch c .ready 0
  | .wchanSleep c w => threadSwitch c .sleep w
  | .threadExit c => threadSwitch c .zombie 0
  | .idle c => switchNext c
  | .exorcise c => Sched.exorcise c
  | .wchanWakeone c w => Sched.wchanWakeone c w
  | .wchanWakeall c w => Sched.wchanWakeall c w
  | .wakeNext c => Sched.wakeNext c
  | .threadConsiderMigration c => Sched.threadConsiderMigration c

def step (s : Sched) (op : Op) : Option Sched := if s.Enabled op then (code op s).state? else none

/-- After `cpu_create` for each CPU: every CPU has its first thread, and there are no others. -/
structure Booted (s : Sched) : Prop where
  lists : ∀ tl, s.lists tl = []
  life : ∀ t, s.life t = if ∃ c < s.numcpus, s.curthread c = t then .created else .absent
  tCpu : ∀ c < s.numcpus, s.tCpu (s.curthread c) = c
  isidle : ∀ c, s.isidle c = false
  activity : ∀ c, s.activity c = .none

end Sched

end Os161Kernel
