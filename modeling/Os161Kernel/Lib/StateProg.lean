import Mathlib.Algebra.Group.Nat.Defs
import Mathlib.Logic.Relation
import Mathlib.Tactic.Common

/-!
# State programs that may stop the machine

A program reads and replaces a state and either returns a value or stops: the machine halts, or the
running thread never comes back.  A stop carries a reason and no continuation sees it.

Two rules cover the proofs made with such programs.

* **Inversion** (`bind_ok_iff`): a run of a sequence that returned is two runs that returned.
* **`Within`**: a program all of whose returning runs stay inside a reflexive and transitive relation.

Nothing here fixes the state, the reasons or the values.
-/

namespace StateProg

/-- The end of a run: a value with the state left behind, or a stop. -/
inductive Outcome (ε σ α : Type) where
  | ok (a : α) (s : σ)
  | stop (e : ε)

/-- The state a run left behind, if it returned. -/
def Outcome.state? {ε σ α : Type} : Outcome ε σ α → Option σ
  | .ok _ s => some s
  | .stop _ => none

/-- A program over states `σ` that may stop with a reason `ε`. -/
def Prog (ε σ α : Type) : Type := σ → Outcome ε σ α

variable {ε σ α β : Type}

namespace Prog

def ret (a : α) : Prog ε σ α := fun s => .ok a s

def seq (m : Prog ε σ α) (f : α → Prog ε σ β) : Prog ε σ β := fun s =>
  match m s with
  | .ok a s' => f a s'
  | .stop e => .stop e

instance : Monad (Prog ε σ) where
  pure := ret
  bind := seq

/-- Read a part of the state. -/
def read (f : σ → α) : Prog ε σ α := fun s => .ok (f s) s

/-- Replace the state. -/
def update (f : σ → σ) : Prog ε σ Unit := fun s => .ok () (f s)

/-- Stop for a reason. -/
def stop (e : ε) : Prog ε σ α := fun _ => .stop e

/-- Stop for a reason that depends on the state. -/
def stopWith (f : σ → ε) : Prog ε σ α := fun s => .stop (f s)

/-- Stop unless the condition holds. -/
def require (c : Prop) [Decidable c] (e : ε) : Prog ε σ Unit := if c then ret () else stop e

/-- Run `m` only if the condition holds. -/
def when (c : Prop) [Decidable c] (m : Prog ε σ Unit) : Prog ε σ Unit := if c then m else ret ()

/-- `for (i = 0; i < n; i++) f(i);` -/
def forBelow (f : ℕ → Prog ε σ Unit) : ℕ → Prog ε σ Unit
  | 0 => ret ()
  | n + 1 => seq (forBelow f n) fun _ => f n

end Prog

/-! ### Evaluation and inversion -/

section Inversion

open Prog

@[simp] theorem Prog.pure_apply (a : α) (s : σ) : (pure a : Prog ε σ α) s = .ok a s := rfl

@[simp] theorem read_apply (f : σ → α) (s : σ) : (read f : Prog ε σ α) s = .ok (f s) s := rfl

@[simp] theorem Prog.update_apply (f : σ → σ) (s : σ) : (update f : Prog ε σ Unit) s = .ok () (f s) := rfl

@[simp] theorem Prog.stop_apply (e : ε) (s : σ) : (stop e : Prog ε σ α) s = .stop e := rfl

@[simp] theorem Prog.stopWith_apply (f : σ → ε) (s : σ) : (stopWith f : Prog ε σ α) s = .stop (f s) := rfl

theorem bind_apply (m : Prog ε σ α) (f : α → Prog ε σ β) (s : σ) :
    (m >>= f) s = match m s with
      | .ok a s' => f a s'
      | .stop e => .stop e := rfl

theorem bind_of_ok {m : Prog ε σ α} {f : α → Prog ε σ β} {s s' : σ} {a : α} (h : m s = .ok a s') :
    (m >>= f) s = f a s' := by
  rw [bind_apply, h]

theorem Prog.bind_assoc {γ : Type} (m : Prog ε σ α) (f : α → Prog ε σ β) (g : β → Prog ε σ γ) :
    (m >>= f) >>= g = m >>= fun a => f a >>= g := by
  funext s
  rw [bind_apply, bind_apply, bind_apply]
  cases m s with
  | ok a t => rfl
  | stop e => rfl

theorem Prog.bind_congr {m : Prog ε σ α} {f g : α → Prog ε σ β} (h : ∀ a, f a = g a) : m >>= f = m >>= g := by
  rw [funext h]

theorem bind_of_stop {m : Prog ε σ α} {f : α → Prog ε σ β} {s : σ} {e : ε} (h : m s = .stop e) :
    (m >>= f) s = .stop e := by
  rw [bind_apply, h]

/-- **Inversion of a sequence.**  A returning run splits at the bind. -/
theorem bind_ok_iff {m : Prog ε σ α} {f : α → Prog ε σ β} {s s' : σ} {b : β} :
    (m >>= f) s = .ok b s' ↔ ∃ a t, m s = .ok a t ∧ f a t = .ok b s' := by
  rw [bind_apply]
  cases m s with
  | ok a t => simp
  | stop e => simp

theorem exists_of_state? {o : Outcome ε σ α} {s : σ} (h : o.state? = some s) : ∃ a, o = .ok a s := by
  cases o with
  | ok a t => exact ⟨a, by rw [Option.some.inj h]⟩
  | stop e => exact nomatch h

theorem state?_eq_some {m : Prog ε σ Unit} {s s' : σ} : (m s).state? = some s' ↔ m s = .ok () s' := by
  cases m s with
  | ok a t => simp [Outcome.state?]
  | stop e => simp [Outcome.state?]

/-- Whether a run returned with a property can be computed. -/
instance {P : α → σ → Prop} [∀ a s, Decidable (P a s)] (m : Prog ε σ α) (s : σ) :
    Decidable (∃ a s', m s = .ok a s' ∧ P a s') :=
  match m s with
  | .ok a t => decidable_of_iff (P a t) ⟨fun h => ⟨a, t, rfl, h⟩, fun ⟨_, _, h, hp⟩ => by cases h; exact hp⟩
  | .stop _ => isFalse fun ⟨_, _, h, _⟩ => nomatch h

theorem pure_ok_iff {a b : α} {s s' : σ} :
    (pure a : Prog ε σ α) s = .ok b s' ↔ a = b ∧ s = s' := by
  rw [pure_apply, Outcome.ok.injEq]

theorem read_ok_iff {f : σ → α} {b : α} {s s' : σ} :
    (read f : Prog ε σ α) s = .ok b s' ↔ f s = b ∧ s = s' := by
  rw [read_apply, Outcome.ok.injEq]

theorem update_ok_iff {f : σ → σ} {u : Unit} {s s' : σ} :
    (update f : Prog ε σ Unit) s = .ok u s' ↔ f s = s' := by
  rw [update_apply, Outcome.ok.injEq]
  exact ⟨And.right, fun h => ⟨rfl, h⟩⟩

theorem stop_ok_iff {e : ε} {a : α} {s s' : σ} :
    (stop e : Prog ε σ α) s = .ok a s' ↔ False := by
  rw [stop_apply]
  exact ⟨fun h => (nomatch h), False.elim⟩

theorem stopWith_ok_iff {f : σ → ε} {a : α} {s s' : σ} :
    (stopWith f : Prog ε σ α) s = .ok a s' ↔ False := by
  rw [stopWith_apply]
  exact ⟨fun h => (nomatch h), False.elim⟩

theorem require_ok_iff {c : Prop} [Decidable c] {e : ε} {u : Unit} {s s' : σ} :
    (require c e : Prog ε σ Unit) s = .ok u s' ↔ c ∧ s = s' := by
  unfold require
  split
  · next h => exact ⟨fun hr => ⟨h, (Outcome.ok.inj hr).2⟩, fun hr => by rw [hr.2]; rfl⟩
  · next h => exact ⟨fun hr => (nomatch hr), fun hr => absurd hr.1 h⟩

theorem when_ok_iff {c : Prop} [Decidable c] {m : Prog ε σ Unit} {u : Unit} {s s' : σ} :
    (when c m) s = .ok u s' ↔ (c ∧ m s = .ok u s') ∨ (¬ c ∧ s' = s) := by
  unfold when
  split
  · next h => simp only [h, true_and, not_true_eq_false, false_and, or_false]
  · next h =>
    simp only [h, false_and, not_false_eq_true, true_and, false_or]
    exact ⟨fun hr => ((Outcome.ok.inj hr).2).symm, fun hr => by rw [hr]; rfl⟩

theorem forBelow_zero_ok_iff {f : ℕ → Prog ε σ Unit} {u : Unit} {s s' : σ} :
    forBelow f 0 s = .ok u s' ↔ s = s' :=
  ⟨fun h => (Outcome.ok.inj h).2, fun h => by rw [h]; rfl⟩

theorem forBelow_succ_ok_iff {f : ℕ → Prog ε σ Unit} {n : ℕ} {u : Unit} {s s' : σ} :
    forBelow f (n + 1) s = .ok u s' ↔ ∃ t, forBelow f n s = .ok () t ∧ f n t = .ok u s' := by
  show (forBelow f n >>= fun _ => f n) s = _ ↔ _
  rw [bind_ok_iff]
  exact ⟨fun ⟨_, t, h⟩ => ⟨t, h⟩, fun ⟨t, h⟩ => ⟨(), t, h⟩⟩

/-- **Loop rule.**  An indexed property that each round carries from `i` to `i + 1` holds after the loop. -/
theorem forBelow_induct {f : ℕ → Prog ε σ Unit} {P : ℕ → σ → Prop} : ∀ {n : ℕ},
    (∀ i < n, ∀ s u s', P i s → f i s = .ok u s' → P (i + 1) s') →
    ∀ {s s' : σ} {u : Unit}, P 0 s → forBelow f n s = .ok u s' → P n s' := by
  intro n
  induction n with
  | zero =>
    intro _ s s' u h0 h
    rw [← forBelow_zero_ok_iff.mp h]
    exact h0
  | succ n ih =>
    intro hstep s s' u h0 h
    obtain ⟨t, ht, hf⟩ := forBelow_succ_ok_iff.mp h
    have hn : P n t := ih (fun i hi => hstep i (Nat.lt_succ_of_lt hi)) h0 ht
    exact hstep n (Nat.lt_succ_self n) t u s' hn hf

theorem require_of {c : Prop} [Decidable c] {e : ε} (h : c) :
    (require c e : Prog ε σ Unit) = pure () := if_pos h

theorem require_of_not {c : Prop} [Decidable c] {e : ε} (h : ¬ c) :
    (require c e : Prog ε σ Unit) = stop e := if_neg h

end Inversion

/-! ### Programs that stay inside a relation -/

/-- Every returning run of `m` relates the state before to the state after. -/
def Within (T : σ → σ → Prop) (m : Prog ε σ α) : Prop :=
  ∀ s a s', m s = .ok a s' → T s s'

section Within

variable {T : σ → σ → Prop} [Std.Refl T] [IsTrans σ T]

omit [IsTrans σ T] in
theorem within_pure (a : α) : Within T (pure a : Prog ε σ α) := by
  intro s b s' h
  rw [(pure_ok_iff.mp h).2]
  exact Std.Refl.refl s'

omit [IsTrans σ T] in
theorem within_read (f : σ → α) : Within T (Prog.read f : Prog ε σ α) := by
  intro s b s' h
  rw [(read_ok_iff.mp h).2]
  exact Std.Refl.refl s'

omit [Std.Refl T] [IsTrans σ T] in
theorem within_update {f : σ → σ} (h : ∀ s, T s (f s)) : Within T (Prog.update f : Prog ε σ Unit) := by
  intro s u s' hs
  rw [← update_ok_iff.mp hs]
  exact h s

omit [Std.Refl T] [IsTrans σ T] in
theorem within_stop (e : ε) : Within T (Prog.stop e : Prog ε σ α) :=
  fun _ _ _ h => (stop_ok_iff.mp h).elim

omit [IsTrans σ T] in
theorem within_require (c : Prop) [Decidable c] (e : ε) : Within T (Prog.require c e : Prog ε σ Unit) := by
  intro s u s' h
  rw [(require_ok_iff.mp h).2]
  exact Std.Refl.refl s'

omit [Std.Refl T] in
theorem within_bind {m : Prog ε σ α} {f : α → Prog ε σ β} (hm : Within T m)
    (hf : ∀ a, Within T (f a)) : Within T (m >>= f) := by
  intro s b s' h
  obtain ⟨a, t, hmt, hft⟩ := bind_ok_iff.mp h
  exact IsTrans.trans s t s' (hm s a t hmt) (hf a t b s' hft)

omit [Std.Refl T] [IsTrans σ T] in
theorem within_ite {c : Prop} [Decidable c] {m m' : Prog ε σ α} (h : c → Within T m)
    (h' : ¬ c → Within T m') : Within T (if c then m else m') := by
  split
  · next hc => exact h hc
  · next hc => exact h' hc

theorem within_forBelow {f : ℕ → Prog ε σ Unit} (h : ∀ i, Within T (f i)) :
    ∀ n, Within T (Prog.forBelow f n) := by
  intro n
  induction n with
  | zero => exact within_pure ()
  | succ n ih => exact within_bind ih fun _ => h n

omit [IsTrans σ T] in
theorem within_when {c : Prop} [Decidable c] {m : Prog ε σ Unit} (h : c → Within T m) :
    Within T (Prog.when c m) :=
  within_ite h fun _ => within_pure ()

end Within

/-! ### Every end of a run -/

/-- The run from `s` ends well: it returns with `Q`, or stops for a reason in `E`. -/
def Ends (Q : α → σ → Prop) (E : ε → Prop) (m : Prog ε σ α) (s : σ) : Prop :=
  match m s with
  | .ok a t => Q a t
  | .stop e => E e

section Ends

variable {Q Q' : α → σ → Prop} {R : β → σ → Prop} {E : ε → Prop} {m : Prog ε σ α} {s t : σ}

theorem ends_iff : Ends Q E m s ↔ (∀ a t, m s = .ok a t → Q a t) ∧ ∀ e, m s = .stop e → E e := by
  unfold Ends
  cases m s with
  | ok a t => simp
  | stop e => simp

theorem Ends.stop (h : Ends Q E m s) {e : ε} (hm : m s = .stop e) : E e := (ends_iff.mp h).2 e hm

theorem Ends.mono (h : Ends Q E m s) (hQ : ∀ a t, m s = .ok a t → Q a t → Q' a t) : Ends Q' E m s := by
  obtain ⟨hok, hstop⟩ := ends_iff.mp h
  exact ends_iff.mpr ⟨fun a t hm => hQ a t hm (hok a t hm), hstop⟩

theorem Ends.of_ok {a : α} (hm : m s = .ok a t) (h : Q a t) : Ends Q E m s := by
  unfold Ends
  rw [hm]
  exact h

theorem Ends.congr {m' : Prog ε σ α} {s' : σ} (h : Ends Q E m' s') (hm : m s = m' s') : Ends Q E m s := by
  unfold Ends at *
  rw [hm]
  exact h

theorem Ends.weaken {E' : ε → Prop} (h : Ends Q E m s) (hE : ∀ e, E e → E' e) : Ends Q E' m s := by
  obtain ⟨hok, hstop⟩ := ends_iff.mp h
  exact ends_iff.mpr ⟨hok, fun e hm => hE e (hstop e hm)⟩

theorem ends_pure {a : α} (h : Q a s) : Ends Q E (pure a) s := h

theorem ends_read {f : σ → α} (h : Q (f s) s) : Ends Q E (Prog.read f) s := h

theorem ends_update {f : σ → σ} {Q : Unit → σ → Prop} (h : Q () (f s)) : Ends Q E (Prog.update f) s := h

theorem ends_stop {e : ε} (h : E e) : Ends Q E (Prog.stop e) s := h

theorem ends_require {c : Prop} [Decidable c] {e : ε} {Q : Unit → σ → Prop} (h : c → Q () s) (h' : ¬ c → E e) :
    Ends Q E (Prog.require c e) s := by
  by_cases hc : c
  · rw [require_of hc]
    exact h hc
  · rw [require_of_not hc]
    exact h' hc

theorem ends_bind {f : α → Prog ε σ β} (h : Ends (fun a t => Ends R E (f a) t) E m s) : Ends R E (m >>= f) s := by
  unfold Ends at *
  rw [bind_apply]
  cases hm : m s with
  | ok a t =>
    rw [hm] at h
    exact h
  | stop e =>
    rw [hm] at h
    exact h

theorem ends_ite {c : Prop} [Decidable c] {m' : Prog ε σ α} (h : c → Ends Q E m s) (h' : ¬ c → Ends Q E m' s) :
    Ends Q E (if c then m else m') s := by
  split
  · next hc => exact h hc
  · next hc => exact h' hc

end Ends

/-- `I` is an invariant of `m`, which stops only for reasons in `E`. -/
def Holds (I : σ → Prop) (E : ε → Prop) (m : Prog ε σ α) : Prop := ∀ s, I s → Ends (fun _ t => I t) E m s

section Holds

variable {I : σ → Prop} {E : ε → Prop}

theorem holds_pure (a : α) : Holds I E (pure a : Prog ε σ α) := fun _ h => h

theorem holds_read (f : σ → α) : Holds I E (Prog.read f : Prog ε σ α) := fun _ h => h

theorem holds_update {f : σ → σ} (h : ∀ s, I s → I (f s)) : Holds I E (Prog.update f : Prog ε σ Unit) := h

theorem holds_stop {e : ε} (h : E e) : Holds I E (Prog.stop e : Prog ε σ α) := fun _ _ => h

theorem holds_stopWith {f : σ → ε} (h : ∀ s, E (f s)) : Holds I E (Prog.stopWith f : Prog ε σ α) := fun s _ => h s

theorem holds_require {c : Prop} [Decidable c] {e : ε} (h : E e) : Holds I E (Prog.require c e : Prog ε σ Unit) :=
  fun _ hI => ends_require (fun _ => hI) fun _ => h

theorem holds_bind {m : Prog ε σ α} {f : α → Prog ε σ β} (hm : Holds I E m) (hf : ∀ a, Holds I E (f a)) :
    Holds I E (m >>= f) :=
  fun s hI => ends_bind ((hm s hI).mono fun a t _ ht => hf a t ht)

theorem holds_ite {c : Prop} [Decidable c] {m m' : Prog ε σ α} (h : c → Holds I E m) (h' : ¬ c → Holds I E m') :
    Holds I E (if c then m else m') := fun s hI => ends_ite (fun hc => h hc s hI) fun hc => h' hc s hI

theorem holds_when {c : Prop} [Decidable c] {m : Prog ε σ Unit} (h : c → Holds I E m) : Holds I E (Prog.when c m) :=
  holds_ite h fun _ => holds_pure ()

theorem holds_forBelow {f : ℕ → Prog ε σ Unit} (h : ∀ i, Holds I E (f i)) : ∀ n, Holds I E (Prog.forBelow f n) := by
  intro n
  induction n with
  | zero => exact holds_pure ()
  | succ n ih => exact holds_bind ih fun _ => h n

/-- What a program leaves alone and why it stops, put together. -/
theorem holds_of_within {T : σ → σ → Prop} {m : Prog ε σ α} (hT : ∀ s s', T s s' → I s → I s') (hw : Within T m)
    (hs : Holds (fun _ => True) E m) : Holds I E m := fun s hI =>
  (hs s trivial).mono fun a t hm _ => hT s t (hw s a t hm) hI

/-- A relation is kept when everything it relates to a state is an invariant. -/
theorem within_of_holds {T : σ → σ → Prop} [Std.Refl T] {m : Prog ε σ α}
    (h : ∀ s, Holds (T s) (fun _ => True) m) : Within T m := by
  intro s a t hm
  exact (ends_iff.mp (h s s (Std.Refl.refl s))).1 a t hm

theorem Within.holds {T : σ → σ → Prop} [IsTrans σ T] {m : Prog ε σ α} (h : Within T m) (s₀ : σ) :
    Holds (T s₀) (fun _ => True) m := fun s hs =>
  ends_iff.mpr ⟨fun a t hm => IsTrans.trans s₀ s t hs (h s a t hm), fun _ _ => trivial⟩

-- a goal about a program is never decided by running it
attribute [irreducible] Ends

end Holds

/-! ### Relations that follow the text of a program -/

/-- A relation between programs that sequencing respects.  `U` are the updates and `E` the reasons to stop that are
related to themselves.  A proof along the text of a program, made once for such a relation, holds for all of them. -/
structure Congruence (U : (σ → σ) → Prop) (E : ε → Prop)
    (P : ∀ {α : Type}, Prog ε σ α → Prog ε σ α → Prop) : Prop where
  pure {α : Type} (a : α) : P (Pure.pure a) (Pure.pure a)
  read {α : Type} (f : σ → α) : P (Prog.read f) (Prog.read f)
  update {f : σ → σ} (h : U f) : P (Prog.update f) (Prog.update f)
  stop {α : Type} {e : ε} (h : E e) : P (Prog.stop e : Prog ε σ α) (Prog.stop e)
  bind {α β : Type} {m m' : Prog ε σ α} {f f' : α → Prog ε σ β} (hm : P m m') (hf : ∀ a, P (f a) (f' a)) :
    P (m >>= f) (m' >>= f')

section Congruence

variable {U U' : (σ → σ) → Prop} {E E' : ε → Prop} {P : ∀ {α : Type}, Prog ε σ α → Prog ε σ α → Prop}

namespace Congruence

/-- Fewer updates and fewer reasons are related as well. -/
theorem weaken (hP : Congruence U E P) (hU : ∀ f, U' f → U f) (hE : ∀ e, E' e → E e) : Congruence U' E' P where
  pure := hP.pure
  read := hP.read
  update h := hP.update (hU _ h)
  stop h := hP.stop (hE _ h)
  bind := hP.bind

variable (hP : Congruence U E P)

include hP

theorem require {c : Prop} [Decidable c] {e : ε} (h : E e) : P (Prog.require c e) (Prog.require c e) := by
  unfold Prog.require
  split
  · exact hP.pure ()
  · exact hP.stop h

omit hP in
theorem ite {c : Prop} [Decidable c] {m m' n n' : Prog ε σ α} (h : c → P m m') (h' : ¬ c → P n n') :
    P (if c then m else n) (if c then m' else n') := by
  split
  · next hc => exact h hc
  · next hc => exact h' hc

theorem when {c : Prop} [Decidable c] {m m' : Prog ε σ Unit} (h : c → P m m') :
    P (Prog.when c m) (Prog.when c m') :=
  ite h fun _ => hP.pure ()

end Congruence

theorem holds_congruence (I : σ → Prop) (E : ε → Prop) :
    Congruence (fun f => ∀ s, I s → I (f s)) E (fun {α} (m _ : Prog ε σ α) => Holds I E m) where
  pure := holds_pure
  read := holds_read
  update := holds_update
  stop := holds_stop
  bind := holds_bind

/-- Staying inside a relation follows the text. -/
theorem within_congruence (T : σ → σ → Prop) [Std.Refl T] [IsTrans σ T] :
    Congruence (fun f => ∀ s, T s (f s)) (fun _ => True) (fun {α} (m _ : Prog ε σ α) => Within T m) where
  pure := within_pure
  read := within_read
  update := within_update
  stop _ := within_stop _
  bind := within_bind

/-- Where `I` holds the two programs do the same, and keep it. -/
def Agree (I : σ → Prop) (m m' : Prog ε σ α) : Prop := ∀ s, I s → m s = m' s ∧ ∀ a t, m s = .ok a t → I t

theorem Agree.of_within {T : σ → σ → Prop} [IsTrans σ T] {s₀ : σ} {m : Prog ε σ α} (h : Within T m) :
    Agree (T s₀) m m := fun s hs => ⟨rfl, fun a t hm => IsTrans.trans s₀ s t hs (h s a t hm)⟩

theorem Agree.bind {I : σ → Prop} {m m' : Prog ε σ α} {f f' : α → Prog ε σ β} (hm : Agree I m m')
    (hf : ∀ a, Agree I (f a) (f' a)) : Agree I (m >>= f) (m' >>= f') := by
  intro s hs
  obtain ⟨heq, hkeep⟩ := hm s hs
  rw [bind_apply, bind_apply, ← heq]
  cases hrun : m s with
  | ok a t => exact hf a t (hkeep a t hrun)
  | stop e => exact ⟨rfl, nofun⟩

theorem agree_congruence (I : σ → Prop) :
    Congruence (fun f => ∀ s, I s → I (f s)) (fun _ => True) (fun {α} (m m' : Prog ε σ α) => Agree I m m') where
  pure _ := fun _ hs => ⟨rfl, fun _ _ h => (pure_ok_iff.mp h).2 ▸ hs⟩
  read _ := fun _ hs => ⟨rfl, fun _ _ h => (read_ok_iff.mp h).2 ▸ hs⟩
  update hf := fun s hs => ⟨rfl, fun _ _ h => update_ok_iff.mp h ▸ hf s hs⟩
  stop _ := fun _ _ => ⟨rfl, nofun⟩
  bind := Agree.bind

/-- The first program is the second one, cut off with `e` at some point or not at all. -/
def CutOff (e : ε) (m m' : Prog ε σ α) : Prop := ∀ s, m s = .stop e ∨ m' s = m s

theorem CutOff.refl (e : ε) (m : Prog ε σ α) : CutOff e m m := fun _ => .inr rfl

theorem cutOff_congruence (e : ε) :
    Congruence (fun _ => True) (fun _ => True) (fun {α} (m m' : Prog ε σ α) => CutOff e m m') where
  pure a := .refl e _
  read f := .refl e _
  update _ := .refl e _
  stop _ := .refl e _
  bind {α β m m' f f'} hm hf := by
    intro s
    rw [bind_apply, bind_apply]
    rcases hm s with hcut | hsame
    · rw [hcut]
      exact .inl rfl
    · rw [hsame]
      cases m s with
      | ok a t => exact hf a t
      | stop x => exact .inr rfl

end Congruence

end StateProg
