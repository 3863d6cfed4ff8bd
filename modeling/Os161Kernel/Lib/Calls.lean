import Mathlib.Algebra.Group.Nat.Defs
import Mathlib.Tactic.Common

/-!
# Calls that report errors

A C function that returns an error code leaves its effects behind when it fails, and its caller may look at the code
and go on.  A call here ends in one of three ways: it returns a value, it fails with a code, both in some state, or it
stops the machine.  Only the stop is final.

`Ends m s Q E` says that from `s` the call does not stop, that it returns only as `Q` says and fails only as `E` says;
`Ends m s Q E True` says the same of a call that may stop.  The rules compute it along the text of a call; a function
that has been specified once is used through `Ends.mono`.
-/

namespace Calls

/-- How a call ends. -/
inductive Reply (ε ρ σ α : Type) where
  | ok (a : α) (s : σ)
  | fail (x : ρ) (s : σ)
  | stop (e : ε)

/-- The state that a call leaves behind, unless it stops. -/
def Reply.state? {ε ρ σ α : Type} : Reply ε ρ σ α → Option σ
  | .ok _ s | .fail _ s => some s
  | .stop _ => none

/-- The call returned a value. -/
def Reply.returned {ε ρ σ α : Type} : Reply ε ρ σ α → Bool
  | .ok _ _ => true
  | .fail _ _ | .stop _ => false

theorem Reply.ok_of_returned {ε ρ σ α : Type} {r : Reply ε ρ σ α} (h : r.returned = true) : ∃ a s, r = .ok a s := by
  cases r with
  | ok a s => exact ⟨a, s, rfl⟩
  | fail x s => exact nomatch h
  | stop e => exact nomatch h

/-- The call returned a value, in a state, that pass a test. -/
def Reply.returnedIn {ε ρ σ α : Type} (p : α → σ → Bool) : Reply ε ρ σ α → Bool
  | .ok a s => p a s
  | .fail _ _ | .stop _ => false

theorem Reply.ok_of_returnedIn {ε ρ σ α : Type} {p : α → σ → Bool} {r : Reply ε ρ σ α} (h : r.returnedIn p = true) :
    ∃ a s, r = .ok a s ∧ p a s = true := by
  cases r with
  | ok a s => exact ⟨a, s, rfl, h⟩
  | fail x s => exact nomatch h
  | stop e => exact nomatch h

/-- A call over states `σ` that may fail with a code `ρ` or stop with a reason `ε`. -/
def Call (ε ρ σ α : Type) : Type := σ → Reply ε ρ σ α

variable {ε ρ σ α β : Type}

namespace Call

def ret (a : α) : Call ε ρ σ α := fun s => .ok a s

def seq (m : Call ε ρ σ α) (f : α → Call ε ρ σ β) : Call ε ρ σ β := fun s =>
  match m s with
  | .ok a s' => f a s'
  | .fail x s' => .fail x s'
  | .stop e => .stop e

instance : Monad (Call ε ρ σ) where
  pure := ret
  bind := seq

/-- Read a part of the state. -/
def read (f : σ → α) : Call ε ρ σ α := fun s => .ok (f s) s

/-- Replace the state. -/
def update (f : σ → σ) : Call ε ρ σ Unit := fun s => .ok () (f s)

/-- Return an error code. -/
def fail (x : ρ) : Call ε ρ σ α := fun s => .fail x s

/-- Stop the machine. -/
def stop (e : ε) : Call ε ρ σ α := fun _ => .stop e

/-- Stop unless the condition holds. -/
def require (c : Prop) [Decidable c] (e : ε) : Call ε ρ σ Unit := if c then ret () else stop e

/-- Run the call only if the condition holds. -/
def when (c : Prop) [Decidable c] (m : Call ε ρ σ Unit) : Call ε ρ σ Unit := if c then m else ret ()

/-- Make the call and look at its code. -/
def attempt (m : Call ε ρ σ α) : Call ε ρ σ (Except ρ α) := fun s =>
  match m s with
  | .ok a s' => .ok (.ok a) s'
  | .fail x s' => .ok (.error x) s'
  | .stop e => .stop e

/-- Make the call on a part of the state. -/
def onPart {τ : Type} (get : τ → σ) (put : τ → σ → τ) (m : Call ε ρ σ α) : Call ε ρ τ α := fun t =>
  match m (get t) with
  | .ok a s => .ok a (put t s)
  | .fail x s => .fail x (put t s)
  | .stop e => .stop e

/-- Make the call on a larger state and leave it again; what it held at the end is part of the result. -/
def onLarger {τ : Type} (enter : σ → τ) (leave : τ → σ) (m : Call ε ρ τ α) : Call ε ρ σ (α × τ) := fun s =>
  match m (enter s) with
  | .ok a t => .ok (a, t) (leave t)
  | .fail x t => .fail x (leave t)
  | .stop e => .stop e

/-- `for (i = 0; i < n; i++) a = f(i, a);` -/
def loopBelow (f : ℕ → α → Call ε ρ σ α) : ℕ → α → Call ε ρ σ α
  | 0, a => ret a
  | n + 1, a => seq (loopBelow f n a) (f n)

end Call

section Inversion

open Call

@[simp] theorem pure_apply (a : α) (s : σ) : (pure a : Call ε ρ σ α) s = .ok a s := rfl

@[simp] theorem read_apply (f : σ → α) (s : σ) : (read f : Call ε ρ σ α) s = .ok (f s) s := rfl

@[simp] theorem fail_apply (x : ρ) (s : σ) : (fail x : Call ε ρ σ α) s = .fail x s := rfl

theorem bind_apply (m : Call ε ρ σ α) (f : α → Call ε ρ σ β) (s : σ) :
    (m >>= f) s = match m s with
      | .ok a s' => f a s'
      | .fail x s' => .fail x s'
      | .stop e => .stop e := rfl

theorem bind_of_ok {m : Call ε ρ σ α} {f : α → Call ε ρ σ β} {s t : σ} {a : α} (hm : m s = .ok a t) :
    (m >>= f) s = f a t := by
  rw [bind_apply, hm]

theorem bind_of_fail {m : Call ε ρ σ α} {f : α → Call ε ρ σ β} {s t : σ} {x : ρ} (hm : m s = .fail x t) :
    (m >>= f) s = .fail x t := by
  rw [bind_apply, hm]

theorem bind_of_stop {m : Call ε ρ σ α} {f : α → Call ε ρ σ β} {s : σ} {e : ε} (hm : m s = .stop e) :
    (m >>= f) s = .stop e := by
  rw [bind_apply, hm]

/-- **Inversion of a sequence** that returned. -/
theorem bind_ok_iff {m : Call ε ρ σ α} {f : α → Call ε ρ σ β} {s s' : σ} {b : β} :
    (m >>= f) s = .ok b s' ↔ ∃ a t, m s = .ok a t ∧ f a t = .ok b s' := by
  rw [bind_apply]
  cases m s with
  | ok a t => simp
  | fail x t => simp
  | stop e => simp

theorem onLarger_ok_iff {τ : Type} {enter : σ → τ} {leave : τ → σ} {m : Call ε ρ τ α} {s s' : σ} {a : α × τ} :
    onLarger enter leave m s = .ok a s' ↔ m (enter s) = .ok a.1 a.2 ∧ s' = leave a.2 := by
  unfold onLarger
  obtain ⟨a, t'⟩ := a
  cases m (enter s) with
  | ok b t =>
    simp only [Reply.ok.injEq, Prod.mk.injEq, eq_comm (a := s')]
    refine and_congr_right fun hab => ?_
    rw [hab.2]
  | fail x t => simp
  | stop e => simp

theorem require_ok_iff {c : Prop} [Decidable c] {e : ε} {s s' : σ} {a : Unit} :
    (require c e : Call ε ρ σ Unit) s = .ok a s' ↔ c ∧ s' = s := by
  unfold require
  split
  · next hc => simp [ret, hc, eq_comm]
  · next hc => simp [stop, hc]

theorem attempt_ok_iff {m : Call ε ρ σ α} {s s' : σ} {r : Except ρ α} :
    attempt m s = .ok r s' ↔ (∃ a, r = .ok a ∧ m s = .ok a s') ∨ ∃ x, r = .error x ∧ m s = .fail x s' := by
  unfold attempt
  cases m s with
  | ok a t => simp [eq_comm]
  | fail x t => simp [eq_comm]
  | stop e => simp

end Inversion

/-! ### Specifications -/

/-- From `s` the call returns in `Q` or fails in `E`; it does not stop, unless `S` allows it. -/
def Ends (m : Call ε ρ σ α) (s : σ) (Q : α → σ → Prop) (E : ρ → σ → Prop) (S : Prop := False) : Prop :=
  match m s with
  | .ok a s' => Q a s'
  | .fail x s' => E x s'
  | .stop _ => S

variable {Q Q' : α → σ → Prop} {E E' : ρ → σ → Prop} {S : Prop} {s s' : σ} {m : Call ε ρ σ α}

theorem Ends.mono (h : Ends m s Q E S) (hQ : ∀ a t, Q a t → Q' a t) (hE : ∀ x t, E x t → E' x t) :
    Ends m s Q' E' S := by
  unfold Ends at *
  cases hm : m s with
  | ok a t =>
    simp only [hm] at h
    exact hQ a t h
  | fail x t =>
    simp only [hm] at h
    exact hE x t h
  | stop e =>
    simp only [hm] at h
    exact h

/-- A call that may stop, of which nothing else matters. -/
theorem ends_any (hQ : ∀ a t, Q a t) (hE : ∀ x t, E x t) : Ends m s Q E True := by
  unfold Ends
  cases m s with
  | ok a t => exact hQ a t
  | fail x t => exact hE x t
  | stop e => exact trivial

theorem Ends.of_ok {a : α} (h : Ends m s Q E S) (hm : m s = .ok a s') : Q a s' := by
  unfold Ends at h
  rw [hm] at h
  exact h

theorem Ends.of_fail {x : ρ} (h : Ends m s Q E S) (hm : m s = .fail x s') : E x s' := by
  unfold Ends at h
  rw [hm] at h
  exact h

theorem Ends.exists_ok (h : Ends m s Q fun _ _ => False) : ∃ a t, m s = .ok a t ∧ Q a t := by
  unfold Ends at h
  cases hm : m s with
  | ok a t =>
    rw [hm] at h
    exact ⟨a, t, rfl, h⟩
  | fail x t =>
    rw [hm] at h
    exact h.elim
  | stop e =>
    rw [hm] at h
    exact h.elim

/-- What the end of a call has to satisfy, when the end is known. -/
theorem ends_of_ok_iff {a : α} (hm : m s = .ok a s') : Ends m s Q E S ↔ Q a s' := by
  unfold Ends
  rw [hm]

theorem ends_of_fail_iff {x : ρ} (hm : m s = .fail x s') : Ends m s Q E S ↔ E x s' := by
  unfold Ends
  rw [hm]

/-- Two calls that end alike satisfy the same specifications. -/
theorem ends_congr {m' : Call ε ρ σ α} (hm : m s = m' s') : Ends m s Q E S ↔ Ends m' s' Q E S := by
  unfold Ends
  rw [hm]

theorem Ends.not_stop {e : ε} (h : Ends m s Q E) : m s ≠ .stop e := by
  intro hm
  unfold Ends at h
  rw [hm] at h
  exact h

theorem Ends.of_state? {P : σ → Prop} (h : Ends m s (fun _ t => P t) (fun _ t => P t) S)
    (hm : (m s).state? = some s') : P s' := by
  unfold Ends at h
  cases hr : m s with
  | ok a t =>
    simp only [hr, Reply.state?, Option.some.injEq] at h hm
    exact hm ▸ h
  | fail x t =>
    simp only [hr, Reply.state?, Option.some.injEq] at h hm
    exact hm ▸ h
  | stop e =>
    rw [hr] at hm
    exact nomatch hm

@[simp] theorem ends_pure {a : α} : Ends (pure a : Call ε ρ σ α) s Q E S ↔ Q a s := Iff.rfl

@[simp] theorem ends_read {f : σ → α} : Ends (Call.read f : Call ε ρ σ α) s Q E S ↔ Q (f s) s := Iff.rfl

@[simp] theorem ends_update {f : σ → σ} {Q : Unit → σ → Prop} :
    Ends (Call.update f : Call ε ρ σ Unit) s Q E S ↔ Q () (f s) := Iff.rfl

@[simp] theorem ends_fail {x : ρ} : Ends (Call.fail x : Call ε ρ σ α) s Q E S ↔ E x s := Iff.rfl

@[simp] theorem ends_stop {e : ε} : Ends (Call.stop e : Call ε ρ σ α) s Q E S ↔ S := Iff.rfl

/-- **A sequence**: what the first call returns is handed to the second, what it fails with is the result. -/
@[simp] theorem ends_bind {f : α → Call ε ρ σ β} {Q : β → σ → Prop} :
    Ends (m >>= f) s Q E S ↔ Ends m s (fun a t => Ends (f a) t Q E S) E S := by
  unfold Ends
  rw [bind_apply]
  cases m s with
  | ok a t => rfl
  | fail x t => rfl
  | stop e => rfl

@[simp] theorem ends_require {c : Prop} [Decidable c] {e : ε} {Q : Unit → σ → Prop} :
    Ends (Call.require c e : Call ε ρ σ Unit) s Q E ↔ c ∧ Q () s := by
  unfold Call.require
  split
  · next hc => exact ⟨fun h => ⟨hc, h⟩, fun h => h.2⟩
  · next hc => exact ⟨fun h => h.elim, fun h => hc h.1⟩

@[simp] theorem ends_require_or_stop {c : Prop} [Decidable c] {e : ε} {Q : Unit → σ → Prop} :
    Ends (Call.require c e : Call ε ρ σ Unit) s Q E True ↔ (c → Q () s) := by
  unfold Call.require
  split
  · next hc => exact ⟨fun h _ => h, fun h => h hc⟩
  · next hc => exact ⟨fun _ h => absurd h hc, fun _ => trivial⟩

theorem ends_ite {c : Prop} [Decidable c] {m' : Call ε ρ σ α} :
    Ends (if c then m else m') s Q E S ↔ (c → Ends m s Q E S) ∧ (¬ c → Ends m' s Q E S) := by
  split
  · next hc => exact ⟨fun h => ⟨fun _ => h, fun hn => absurd hc hn⟩, fun h => h.1 hc⟩
  · next hc => exact ⟨fun h => ⟨fun h' => absurd h' hc, fun _ => h⟩, fun h => h.2 hc⟩

theorem ends_when {c : Prop} [Decidable c] {m : Call ε ρ σ Unit} {Q : Unit → σ → Prop} :
    Ends (Call.when c m) s Q E S ↔ (c → Ends m s Q E S) ∧ (¬ c → Q () s) := by
  unfold Call.when
  rw [ends_ite]
  rfl

/-- **Loop rule.**  An indexed property that each round carries from `i` to `i + 1` holds after the loop. -/
theorem ends_loopBelow {f : ℕ → α → Call ε ρ σ α} {P : ℕ → α → σ → Prop} {n : ℕ} {a : α} (h : P 0 a s)
    (hstep : ∀ i < n, ∀ a s, P i a s → Ends (f i a) s (P (i + 1)) E S) :
    Ends (Call.loopBelow f n a) s (P n) E S := by
  induction n with
  | zero => exact h
  | succ n ih =>
    have hbind : Ends (Call.loopBelow f n a >>= f n) s (P (n + 1)) E S := by
      rw [ends_bind]
      apply (ih fun i hi => hstep i (Nat.lt_succ_of_lt hi)).mono _ fun _ _ => id
      intro b t hb
      exact hstep n (Nat.lt_succ_self n) b t hb
    exact hbind

@[simp] theorem ends_attempt {Q : Except ρ α → σ → Prop} :
    Ends (Call.attempt m) s Q E S ↔ Ends m s (fun a t => Q (.ok a) t) (fun x t => Q (.error x) t) S := by
  unfold Ends Call.attempt
  cases m s with
  | ok a t => rfl
  | fail x t => rfl
  | stop e => rfl

/-- **A call on a part of the state** leaves the rest alone. -/
@[simp] theorem ends_onPart {τ : Type} {get : τ → σ} {put : τ → σ → τ} {t : τ} {Q : α → τ → Prop} {E : ρ → τ → Prop} :
    Ends (Call.onPart get put m) t Q E S ↔
      Ends m (get t) (fun a s => Q a (put t s)) (fun x s => E x (put t s)) S := by
  unfold Ends Call.onPart
  cases m (get t) with
  | ok a s => rfl
  | fail x s => rfl
  | stop e => rfl

/-- **A call on a larger state.** -/
@[simp] theorem ends_onLarger {τ : Type} {enter : σ → τ} {leave : τ → σ} {m : Call ε ρ τ α} {Q : α × τ → σ → Prop} :
    Ends (Call.onLarger enter leave m) s Q E S ↔
      Ends m (enter s) (fun a t => Q (a, t) (leave t)) (fun x t => E x (leave t)) S := by
  unfold Ends Call.onLarger
  cases m (enter s) with
  | ok a t => rfl
  | fail x t => rfl
  | stop e => rfl

end Calls
