import Mathlib.Algebra.Group.Int.Defs
import Os161Kernel.Vfs

/-!
# Wakeups of the semaphore file system

A read of a semaphore takes from its count until it has as much as it asked for, and waits on `sems_cv` in between.  The
operations that raise the count wake readers only if the count was zero: one reader if it becomes one, all of them if
it becomes more.  A reader that has been signalled runs again when it gets the lock, and by then the count may have been
raised further without another wakeup.

The code between two lock operations is one step, and condition variables have Mesa semantics: `cv_signal` makes one of
the waiting readers runnable, whichever, and `cv_broadcast` all of them.
-/

namespace Os161Kernel

open Calls Runs Function

/-- Where a reader is: not in `semfs_read`, waiting on `sems_cv`, or signalled and due to run; with `uio_resid`. -/
inductive SemfsReader where
  | outside
  | waiting (resid : ℕ)
  | signalled (resid : ℕ)

/-- `struct semfs_sem` as far as its count goes, and the threads that may read it. -/
structure SemfsCount where
  count : ℕ
  reader : ℕ → SemfsReader

abbrev SemfsCountCall := Call String Errno SemfsCount

namespace SemfsCount

/-! ### The code -/

def setCount (n : ℕ) : SemfsCountCall Unit := .update fun s => { s with count := n }

def setReader (t : ℕ) (x : SemfsReader) : SemfsCountCall Unit :=
  .update fun s => { s with reader := update s.reader t x }

/-- A waiting reader is made runnable. -/
def wake : SemfsReader → SemfsReader
  | .waiting resid => .signalled resid
  | x => x

/-- `cv_signal`, which picks a thread. -/
def cvSignal (pick : ℕ) : SemfsCountCall Unit :=
  .update fun s => { s with reader := update s.reader pick (wake (s.reader pick)) }

/-- `cv_broadcast`. -/
def cvBroadcast : SemfsCountCall Unit := .update fun s => { s with reader := fun t => wake (s.reader t) }

/-- `semfs_wakeup`. -/
def semfsWakeup (newcount pick : ℕ) : SemfsCountCall Unit := do
  let count ← .read count
  if 0 < count ∨ newcount = 0 then pure ()
  else if newcount = 1 then cvSignal pick
  else cvBroadcast

/-- `semfs_read` of thread `t`, from taking the lock or the end of `cv_wait` to the next `cv_wait` or the end. -/
def readRegion (t resid : ℕ) : SemfsCountCall Unit := do
  if resid = 0 then setReader t .outside
  else do
    let count ← .read count
    let consume := min resid count
    setCount (count - consume)
    if resid - consume = 0 then setReader t .outside
    else do
      let count ← .read SemfsCount.count
      .require (count = 0) "semfs_read loops without cv_wait"
      setReader t (.waiting (resid - consume))

/-- `semfs_write`. -/
def semfsWrite (resid pick : ℕ) : SemfsCountCall Unit := do
  if resid = 0 then pure ()
  else do
    let count ← .read count
    let newcount := (count + resid) % 2 ^ 32
    if newcount < count then .fail .efbig
    else do
      semfsWakeup newcount pick
      setCount newcount

/-- `semfs_truncate`. -/
def semfsTruncate (len : ℤ) (pick : ℕ) : SemfsCountCall Unit := do
  if len < 0 then .fail .einval
  else if 2 ^ 32 - 1 < len then .fail .efbig
  else do
    semfsWakeup len.toNat pick
    setCount len.toNat

/-! ### Interleavings -/

/-- What a thread does next; `pick` is the thread that `cv_signal` picks. -/
inductive Op where
  | read (t resid : ℕ)
  | resume (t : ℕ)
  | write (resid pick : ℕ)
  | truncate (len : ℤ) (pick : ℕ)

variable {s s' : SemfsCount} {t x resid pick n : ℕ} {op : Op}

/-- Thread `t` waits on `sems_cv`. -/
def Waits (s : SemfsCount) (t : ℕ) : Prop := ∃ resid, s.reader t = .waiting resid

/-- Thread `t` has been signalled and is due to run. -/
def Due (s : SemfsCount) (t : ℕ) : Prop := ∃ resid, s.reader t = .signalled resid

/-- `cv_signal` picks a thread that waits, if there is one. -/
def Picks (s : SemfsCount) (pick : ℕ) : Prop := (∃ t, s.Waits t) → s.Waits pick

def Enabled (s : SemfsCount) : Op → Prop
  | .read t _ => s.reader t = .outside
  | .resume t => s.Due t
  | .write _ pick | .truncate _ pick => s.Picks pick

/-- What a reader that is due still wants. -/
def wanted (s : SemfsCount) (t : ℕ) : ℕ :=
  match s.reader t with
  | .signalled resid => resid
  | .outside | .waiting _ => 0

def code (s : SemfsCount) : Op → SemfsCountCall Unit
  | .read t resid => readRegion t resid
  | .resume t => readRegion t (s.wanted t)
  | .write resid pick => semfsWrite resid pick
  | .truncate len pick => semfsTruncate len pick

/-- A step, which may be a call that fails. -/
def Step (s : SemfsCount) (op : Op) (s' : SemfsCount) : Prop := s.Enabled op ∧ (code s op s).state? = some s'

/-- A semaphore that has just been made. -/
def Created (s : SemfsCount) : Prop := s.count = 0 ∧ ∀ t, s.reader t = .outside

/-- **No wakeup is lost**: if a reader waits although there is something to read, another one is due to run. -/
def NoLostWakeup (s : SemfsCount) : Prop := (∃ t, s.Waits t) → 0 < s.count → ∃ t, s.Due t

/-- A reader that runs after a signal takes all there is, or leaves nobody waiting, or is not the only one that was
signalled. -/
def Suffices (s : SemfsCount) : Op → Prop
  | .resume t => s.count ≤ s.wanted t ∨ (∀ x, ¬ s.Waits x) ∨ ∃ x, x ≠ t ∧ s.Due x
  | .read _ _ | .write _ _ | .truncate _ _ => True

/-! ### The steps -/

/-- A reader takes what it can get, and waits if that is not enough. -/
def afterRead (s : SemfsCount) (t resid : ℕ) : SemfsCount :=
  ⟨s.count - min resid s.count,
    update s.reader t (if resid ≤ s.count then .outside else .waiting (resid - s.count))⟩

theorem readRegion_eq (t resid : ℕ) (s : SemfsCount) : readRegion t resid s = .ok () (s.afterRead t resid) := by
  have hends : Ends (readRegion t resid) s (fun _ s' => s' = s.afterRead t resid) fun _ _ => False := by
    unfold readRegion setReader setCount afterRead
    by_cases hzero : resid = 0
    · simp [hzero]
    · rw [if_neg hzero]
      simp only [ends_bind, ends_read, ends_update]
      by_cases henough : resid ≤ s.count
      · rw [Nat.min_eq_left henough, Nat.sub_self, if_pos rfl, ends_update, if_pos henough]
      · have hall : min resid s.count = s.count := Nat.min_eq_right (by omega)
        rw [hall, if_neg (by omega), if_neg henough]
        simp
  obtain ⟨⟨⟩, s', hrun, rfl⟩ := hends.exists_ok
  exact hrun

theorem count_afterRead_pos : 0 < (s.afterRead t resid).count ↔ resid < s.count := by
  show 0 < s.count - min resid s.count ↔ _
  omega

theorem reader_afterRead (h : resid < s.count) :
    (s.afterRead t resid).reader = update s.reader t .outside := by
  show update s.reader t (if resid ≤ s.count then .outside else .waiting (resid - s.count)) = _
  rw [if_pos (Nat.le_of_lt h)]

/-- What `semfs_wakeup` does to the readers. -/
def woken (s : SemfsCount) (newcount pick : ℕ) : ℕ → SemfsReader :=
  if 0 < s.count ∨ newcount = 0 then s.reader
  else if newcount = 1 then update s.reader pick (wake (s.reader pick))
  else fun t => wake (s.reader t)

theorem semfsWakeup_eq (newcount pick : ℕ) (s : SemfsCount) :
    semfsWakeup newcount pick s = .ok () { s with reader := s.woken newcount pick } := by
  unfold semfsWakeup woken
  rw [bind_of_ok (read_apply _ _)]
  by_cases hquiet : 0 < s.count ∨ newcount = 0
  · rw [if_pos hquiet, if_pos hquiet]
    rfl
  · rw [if_neg hquiet, if_neg hquiet]
    by_cases hone : newcount = 1
    · rw [if_pos hone, if_pos hone]
      rfl
    · rw [if_neg hone, if_neg hone]
      rfl

theorem wakeup_then_set (newcount pick : ℕ) (s : SemfsCount) :
    (semfsWakeup newcount pick >>= fun _ => setCount newcount) s = .ok () ⟨newcount, s.woken newcount pick⟩ := by
  rw [bind_of_ok (semfsWakeup_eq newcount pick s)]
  rfl

theorem write_cases (h : (semfsWrite resid pick s).state? = some s') :
    s' = s ∨ ∃ n, s' = ⟨n, s.woken n pick⟩ := by
  unfold semfsWrite at h
  by_cases hzero : resid = 0
  · rw [if_pos hzero] at h
    exact .inl (Option.some.inj h).symm
  · rw [if_neg hzero, bind_of_ok (read_apply _ _)] at h
    by_cases hover : (s.count + resid) % 2 ^ 32 < s.count
    · rw [if_pos hover] at h
      exact .inl (Option.some.inj h).symm
    · rw [if_neg hover, wakeup_then_set] at h
      exact .inr ⟨_, (Option.some.inj h).symm⟩

theorem truncate_cases {len : ℤ} (h : (semfsTruncate len pick s).state? = some s') :
    s' = s ∨ ∃ n, s' = ⟨n, s.woken n pick⟩ := by
  unfold semfsTruncate at h
  by_cases hneg : len < 0
  · rw [if_pos hneg] at h
    exact .inl (Option.some.inj h).symm
  · rw [if_neg hneg] at h
    by_cases hbig : 2 ^ 32 - 1 < len
    · rw [if_pos hbig] at h
      exact .inl (Option.some.inj h).symm
    · rw [if_neg hbig, wakeup_then_set] at h
      exact .inr ⟨_, (Option.some.inj h).symm⟩

/-! ### Wakeups -/

theorem wake_ne_waiting (y : SemfsReader) : wake y ≠ .waiting resid := by
  cases y with
  | outside => exact nofun
  | waiting r => exact nofun
  | signalled r => exact nofun

theorem NoLostWakeup.set (h : s.NoLostWakeup) (hpick : s.Picks pick) (n : ℕ) : NoLostWakeup ⟨n, s.woken n pick⟩ := by
  rintro ⟨t, resid, ht⟩ hpos
  replace ht : s.woken n pick t = .waiting resid := ht
  replace hpos : 0 < n := hpos
  show ∃ t resid, s.woken n pick t = .signalled resid
  unfold woken at ht ⊢
  by_cases hquiet : 0 < s.count ∨ n = 0
  · rw [if_pos hquiet] at ht ⊢
    exact h ⟨t, resid, ht⟩ (by omega)
  · rw [if_neg hquiet] at ht ⊢
    by_cases hone : n = 1
    · rw [if_pos hone] at ht ⊢
      have htp : t ≠ pick := by
        rintro rfl
        rw [update_self] at ht
        exact wake_ne_waiting _ ht
      rw [update_of_ne htp] at ht
      -- somebody was waiting, so the one that was picked was
      obtain ⟨r, hr⟩ := hpick ⟨t, resid, ht⟩
      refine ⟨pick, r, ?_⟩
      rw [update_self, hr]
      rfl
    · rw [if_neg hone] at ht
      exact absurd ht (wake_ne_waiting _)

theorem NoLostWakeup.read (h : s.NoLostWakeup) (hout : s.reader t = .outside) :
    (s.afterRead t resid).NoLostWakeup := by
  rintro ⟨x, r, hx⟩ hpos
  rw [count_afterRead_pos] at hpos
  have hsame : (s.afterRead t resid).reader = s.reader := by
    rw [reader_afterRead hpos, ← hout, update_eq_self]
  unfold Due
  rw [hsame] at hx ⊢
  exact h ⟨x, r, hx⟩ (by omega)

theorem waits_outside_iff (hdue : s.Due t) {m : ℕ} :
    Waits ⟨m, update s.reader t .outside⟩ x ↔ s.Waits x := by
  obtain ⟨r, hr⟩ := hdue
  unfold Waits
  by_cases hxt : x = t
  · subst hxt
    simp only [update_self, hr, reduceCtorEq]
  · simp only [update_of_ne hxt]

theorem due_outside_iff {m : ℕ} : Due ⟨m, update s.reader t .outside⟩ x ↔ x ≠ t ∧ s.Due x := by
  unfold Due
  by_cases hxt : x = t
  · subst hxt
    simp
  · simp [hxt]

theorem noLostWakeup_resume_iff (hdue : s.Due t) :
    (s.afterRead t resid).NoLostWakeup ↔ s.count ≤ resid ∨ (∀ x, ¬ s.Waits x) ∨ ∃ x, x ≠ t ∧ s.Due x := by
  by_cases hall : s.count ≤ resid
  · refine ⟨fun _ => .inl hall, fun _ _ hpos => ?_⟩
    rw [count_afterRead_pos] at hpos
    omega
  · have hleft : resid < s.count := Nat.not_le.mp hall
    have hreader : s.afterRead t resid = ⟨(s.afterRead t resid).count, update s.reader t .outside⟩ := by
      rw [← reader_afterRead hleft]
    have hpos : 0 < (s.afterRead t resid).count := count_afterRead_pos.mpr hleft
    rw [hreader]
    unfold NoLostWakeup
    simp only [waits_outside_iff hdue, due_outside_iff, hall, false_or]
    constructor
    · intro h
      by_cases hwaits : ∃ x, s.Waits x
      · exact .inr (h hwaits hpos)
      · exact .inl fun x hx => hwaits ⟨x, hx⟩
    · rintro (hnobody | hother) ⟨x, hx⟩ -
      · exact absurd hx (hnobody x)
      · exact hother

theorem NoLostWakeup.step_iff (h : s.NoLostWakeup) (hstep : Step s op s') : s'.NoLostWakeup ↔ s.Suffices op := by
  obtain ⟨henabled, hrun⟩ := hstep
  cases op with
  | read t resid =>
    replace hrun : (readRegion t resid s).state? = some s' := hrun
    rw [readRegion_eq] at hrun
    obtain rfl := Option.some.inj hrun
    exact ⟨fun _ => trivial, fun _ => h.read henabled⟩
  | resume t =>
    replace hrun : (readRegion t (s.wanted t) s).state? = some s' := hrun
    rw [readRegion_eq] at hrun
    obtain rfl := Option.some.inj hrun
    exact noLostWakeup_resume_iff henabled
  | write resid pick =>
    refine ⟨fun _ => trivial, fun _ => ?_⟩
    rcases write_cases hrun with rfl | ⟨n, rfl⟩
    · exact h
    · exact h.set henabled n
  | truncate len pick =>
    refine ⟨fun _ => trivial, fun _ => ?_⟩
    rcases truncate_cases hrun with rfl | ⟨n, rfl⟩
    · exact h
    · exact h.set henabled n

/-- **When wakeups suffice.**  In a run in which every reader that runs after a signal takes all there is, or leaves
nobody waiting, or is not the only one that was signalled, no wakeup is ever lost; and the first step of any other kind
loses one. -/
theorem wakeups_suffice_iff (hs : Reaches (Guarded Step Suffices) Created s) :
    s.NoLostWakeup ∧ ∀ op s', Step s op s' → (s'.NoLostWakeup ↔ s.Suffices op) := by
  have hgood : s.NoLostWakeup := by
    refine Reaches.invariant (P := NoLostWakeup) ?_ ?_ hs
    · rintro s ⟨hcount, -⟩ - hpos
      omega
    · rintro s op s' hgood ⟨hsuffices, hstep⟩
      exact (hgood.step_iff hstep).mpr hsuffices
  exact ⟨hgood, fun op s' hstep => hgood.step_iff hstep⟩

/-- A semaphore with nobody near it. -/
def fresh : SemfsCount := ⟨0, fun _ => .outside⟩

/-- One reader waits, is signalled and takes what it wants. -/
theorem wakeups_suffice_one_reader :
    ∃ s, Reaches (Guarded Step Suffices) Created s ∧ s.Due 0 ∧ s.count = 1 ∧ s.NoLostWakeup := by
  have hcreated : Reaches (Guarded Step Suffices) Created fresh := .start ⟨rfl, fun _ => rfl⟩
  have hwaits := hcreated.next (i := Op.read 0 1) ⟨trivial, rfl, rfl⟩
  have hsignalled := hwaits.next (i := Op.write 1 0) ⟨trivial, fun _ => ⟨1, rfl⟩, rfl⟩
  exact ⟨_, hsignalled, ⟨1, rfl⟩, rfl, (wakeups_suffice_iff hsignalled).1⟩

/-- **A wakeup is lost.**  Two readers wait for one unit each; the first write signals one of them and the second write,
before that one has run, signals nobody.  The signalled reader takes its unit, and the other one keeps waiting with one
unit to be had and nobody due. -/
theorem second_write_wakes_nobody :
    ∃ s, Reaches Step Created s ∧ s.Waits 1 ∧ s.count = 1 ∧ ∀ t, ¬ s.Due t := by
  have hcreated : Reaches Step Created fresh := .start ⟨rfl, fun _ => rfl⟩
  have hfirst := hcreated.next (i := Op.read 0 1) ⟨rfl, rfl⟩
  have hboth := hfirst.next (i := Op.read 1 1) ⟨rfl, rfl⟩
  have hsignalled := hboth.next (i := Op.write 1 0) ⟨fun _ => ⟨1, rfl⟩, rfl⟩
  have hsecond := hsignalled.next (i := Op.write 1 1) ⟨fun _ => ⟨1, rfl⟩, rfl⟩
  have hresumed := hsecond.next (i := Op.resume 0) ⟨⟨1, rfl⟩, rfl⟩
  refine ⟨_, hresumed, ⟨1, rfl⟩, rfl, ?_⟩
  rintro t ⟨resid, ht⟩
  match t with
  | 0 => exact nomatch ht
  | 1 => exact nomatch ht
  | t + 2 => exact nomatch ht

end SemfsCount

end Os161Kernel
