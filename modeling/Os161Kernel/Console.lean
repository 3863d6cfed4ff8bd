import Os161Kernel.Lib.Runs
import Mathlib.Data.List.Basic
import Mathlib.Logic.Function.Basic

/-!
# Console input: `console.c`

Characters that arrive are put into a circular buffer by the interrupt handler `con_input` and taken out by `getch`.
How full the buffer is, is kept twice: in the two indices, and in a semaphore that the handler posts last and the reader
waits for first.  The handler may run on another CPU than the reader, so each of the two is cut into its accesses to the
shared state and these are interleaved in any way.  There is one reader, and the handler does not interrupt itself.

The characters that were accepted and those that `getch` returned are kept beside the state.
-/

namespace Os161Kernel

open Runs Function

/-- `CONSOLE_INPUT_BUFFER_SIZE`. -/
def consoleInputBufferSize : ℕ := 32

/-- How far `getch_intr` has come. -/
inductive GetchPhase where
  | idle
  /-- `P(cs->cs_rsem)` has returned. -/
  | granted
  /-- The character is in `ret`. -/
  | loaded (ret : UInt8)
deriving DecidableEq

/-- How far `con_input` has come with a character it accepted. -/
inductive InputPhase where
  | idle
  /-- There is room for the character. -/
  | accepted (ch : UInt8)
  /-- The character is in the buffer. -/
  | stored
  /-- The head has been moved. -/
  | moved
deriving DecidableEq

/-- `struct con_softc` as far as input goes, with the histories. -/
structure Console where
  rsem : ℕ
  gotchars : ℕ → UInt8
  gotcharsHead : ℕ
  gotcharsTail : ℕ
  getch : GetchPhase
  input : InputPhase
  accepted : List UInt8
  returned : List UInt8

namespace Console

/-- An access of the interrupt handler or of the reader. -/
inductive Op where
  | conInput (ch : UInt8)
  | store
  | moveHead
  | V
  | P
  | load
  | moveTail

/-- `(head + 1) % CONSOLE_INPUT_BUFFER_SIZE`. -/
def nexthead (s : Console) : ℕ := (s.gotcharsHead + 1) % consoleInputBufferSize

def step (s : Console) : Op → Option Console
  | .conInput ch =>
    if s.input = .idle then
      -- overflow; drop character
      if s.nexthead = s.gotcharsTail then some s
      else some { s with input := .accepted ch, accepted := s.accepted ++ [ch] }
    else none
  | .store =>
    match s.input with
    | .accepted ch => some { s with gotchars := update s.gotchars s.gotcharsHead ch, input := .stored }
    | _ => none
  | .moveHead => if s.input = .stored then some { s with gotcharsHead := s.nexthead, input := .moved } else none
  | .V => if s.input = .moved then some { s with rsem := s.rsem + 1, input := .idle } else none
  | .P => if s.getch = .idle ∧ 0 < s.rsem then some { s with rsem := s.rsem - 1, getch := .granted } else none
  | .load => if s.getch = .granted then some { s with getch := .loaded (s.gotchars s.gotcharsTail) } else none
  | .moveTail =>
    match s.getch with
    | .loaded ret => some { s with
        gotcharsTail := (s.gotcharsTail + 1) % consoleInputBufferSize
        getch := .idle
        returned := s.returned ++ [ret] }
    | _ => none

/-- After `config_con`.  The buffer holds anything. -/
structure Configured (s : Console) : Prop where
  rsem : s.rsem = 0
  gotcharsHead : s.gotcharsHead = 0
  gotcharsTail : s.gotcharsTail = 0
  getch : s.getch = .idle
  input : s.input = .idle
  accepted : s.accepted = []
  returned : s.returned = []

/-! ### The invariant -/

/-- Accepted characters that are not in the buffer yet. -/
def unstored (s : Console) : ℕ :=
  match s.input with
  | .accepted _ => 1
  | _ => 0

/-- Accepted characters that the head has not been moved for. -/
def unmoved (s : Console) : ℕ :=
  match s.input with
  | .accepted _ | .stored => 1
  | _ => 0

/-- Accepted characters that have not been posted. -/
def unposted (s : Console) : ℕ := if s.input = .idle then 0 else 1

/-- Characters the reader has been granted and not taken yet. -/
def taking (s : Console) : ℕ := if s.getch = .idle then 0 else 1

/-- **The buffer in terms of the histories.** -/
structure Inv (s : Console) : Prop where
  head : ∃ k, k + s.unmoved = s.accepted.length ∧ s.gotcharsHead = k % consoleInputBufferSize
  tail : s.gotcharsTail = s.returned.length % consoleInputBufferSize
  count : s.rsem + s.taking + s.unposted + s.returned.length = s.accepted.length
  room : s.accepted.length < s.returned.length + consoleInputBufferSize
  returned : s.returned <+: s.accepted
  slots : ∀ i, s.returned.length ≤ i → i + s.unstored < s.accepted.length →
    s.accepted[i]? = some (s.gotchars (i % consoleInputBufferSize))
  pending : ∀ ch, s.input = .accepted ch → s.accepted.getLast? = some ch
  loaded : ∀ ret, s.getch = .loaded ret → s.accepted[s.returned.length]? = some ret

variable {s s' : Console} {ch : UInt8}

theorem Configured.inv (h : Configured s) : Inv s := by
  have hlog : s.accepted.length = 0 := by rw [h.accepted, List.length_nil]
  have hret : s.returned.length = 0 := by rw [h.returned, List.length_nil]
  refine ⟨⟨0, ?_, h.gotcharsHead⟩, ?_, ?_, ?_, ?_, fun i _ hi => ?_, fun ch hch => ?_, fun ret hloaded => ?_⟩
  · rw [unmoved, h.input, hlog]
    rfl
  · rw [hret, h.gotcharsTail]
    rfl
  · rw [h.rsem, taking, if_pos h.getch, unposted, if_pos h.input, hret, hlog]
  · rw [hlog, hret]
    decide
  · rw [h.returned]
    exact List.nil_prefix
  · omega
  · rw [h.input] at hch
    exact nomatch hch
  · rw [h.getch] at hloaded
    exact nomatch hloaded

theorem Inv.nexthead_eq_tail_iff (h : Inv s) (hidle : s.input = .idle) :
    s.nexthead = s.gotcharsTail ↔ s.accepted.length = s.returned.length + 31 := by
  obtain ⟨k, hk, hhead⟩ := h.head
  have hroom := h.room
  have hle : s.returned.length ≤ s.accepted.length := h.returned.length_le
  have hunmoved : s.unmoved = 0 := by rw [unmoved, hidle]
  rw [nexthead, hhead, h.tail]
  unfold consoleInputBufferSize at *
  omega

theorem Inv.granted (h : Inv s) (hbusy : s.getch ≠ .idle) : s.returned.length + s.unposted < s.accepted.length := by
  have hcount := h.count
  rw [taking, if_neg hbusy] at hcount
  omega

theorem unstored_le_unposted (s : Console) : s.unstored ≤ s.unposted := by
  unfold unstored unposted
  cases s.input with
  | accepted ch => simp
  | _ => simp

theorem Inv.conInput (h : Inv s) (hidle : s.input = .idle) (hroom : s.nexthead ≠ s.gotcharsTail) :
    Inv { s with input := .accepted ch, accepted := s.accepted ++ [ch] } := by
  have hfull := (h.nexthead_eq_tail_iff hidle).not.mp hroom
  have hlt := h.room
  obtain ⟨k, hk, hhead⟩ := h.head
  have hunmoved : s.unmoved = 0 := by rw [unmoved, hidle]
  have hcount := h.count
  rw [unposted, if_pos hidle] at hcount
  refine ⟨⟨k, ?_, hhead⟩, h.tail, ?_, ?_, ?_, fun i hle hi => ?_, fun ch' hch' => ?_, fun ret hloaded => ?_⟩
  · simp only [unmoved, List.length_append, List.length_singleton]
    omega
  · simp only [taking, unposted, reduceCtorEq, if_false, List.length_append, List.length_singleton] at hcount ⊢
    omega
  · simp only [List.length_append, List.length_singleton]
    unfold consoleInputBufferSize at *
    omega
  · exact h.returned.trans (List.prefix_append _ _)
  · simp only [unstored, List.length_append, List.length_singleton] at hi
    have hi' : i < s.accepted.length := by omega
    rw [List.getElem?_append_left hi']
    refine h.slots i hle ?_
    rw [unstored, hidle]
    exact hi'
  · obtain rfl := InputPhase.accepted.inj hch'
    exact List.getLast?_concat
  · have hold := h.loaded ret hloaded
    obtain ⟨hlen, -⟩ := List.getElem?_eq_some_iff.mp hold
    rw [List.getElem?_append_left hlen]
    exact hold

theorem Inv.store (h : Inv s) (hphase : s.input = .accepted ch) :
    Inv { s with gotchars := update s.gotchars s.gotcharsHead ch, input := .stored } := by
  obtain ⟨k, hk, hhead⟩ := h.head
  have hunmoved : s.unmoved = 1 := by rw [unmoved, hphase]
  have hroom := h.room
  have hcount := h.count
  rw [unposted, hphase, if_neg nofun] at hcount
  refine ⟨⟨k, ?_, hhead⟩, h.tail, ?_, h.room, h.returned, fun i hle hi => ?_, fun ch' hch' => ?_, h.loaded⟩
  · simp only [unmoved]
    omega
  · simp only [taking, unposted, reduceCtorEq, if_false] at hcount ⊢
    omega
  · simp only [unstored, Nat.add_zero] at hi
    have hi' : i < s.accepted.length := hi
    show s.accepted[i]? = some (update s.gotchars s.gotcharsHead ch (i % consoleInputBufferSize))
    by_cases hlast : i = k
    · -- the slot that was written
      have hgot := h.pending ch hphase
      rw [List.getLast?_eq_getElem?, ← hk, hunmoved, Nat.add_sub_cancel] at hgot
      rw [hlast, hgot, ← hhead, update_self]
    · -- another one: fewer than 32 characters lie between the two
      have hne : i % consoleInputBufferSize ≠ s.gotcharsHead := by
        have hle' : s.returned.length ≤ i := hle
        rw [hhead]
        unfold consoleInputBufferSize at *
        omega
      rw [update_of_ne hne]
      refine h.slots i hle ?_
      rw [unstored, hphase]
      show i + 1 < _
      omega
  · exact nomatch hch'

theorem Inv.moveHead (h : Inv s) (hphase : s.input = .stored) :
    Inv { s with gotcharsHead := s.nexthead, input := .moved } := by
  obtain ⟨k, hk, hhead⟩ := h.head
  rw [unmoved, hphase] at hk
  have hcount := h.count
  rw [unposted, hphase, if_neg nofun] at hcount
  refine ⟨⟨k + 1, hk, ?_⟩, h.tail, ?_, h.room, h.returned, fun i hle hi => h.slots i hle ?_, nofun, h.loaded⟩
  · rw [nexthead, hhead, Nat.mod_add_mod]
  · simp only [taking, unposted, reduceCtorEq, if_false] at hcount ⊢
    omega
  · rw [unstored, hphase]
    exact hi

theorem Inv.post (h : Inv s) (hphase : s.input = .moved) : Inv { s with rsem := s.rsem + 1, input := .idle } := by
  obtain ⟨k, hk, hhead⟩ := h.head
  rw [unmoved, hphase] at hk
  have hcount := h.count
  rw [unposted, hphase, if_neg nofun] at hcount
  refine ⟨⟨k, hk, hhead⟩, h.tail, ?_, h.room, h.returned, fun i hle hi => h.slots i hle ?_, nofun, h.loaded⟩
  · simp only [taking, unposted, if_true] at hcount ⊢
    omega
  · rw [unstored, hphase]
    exact hi

theorem Inv.wait (h : Inv s) (hidle : s.getch = .idle) (hpos : 0 < s.rsem) :
    Inv { s with rsem := s.rsem - 1, getch := .granted } := by
  have hcount := h.count
  rw [taking, if_pos hidle] at hcount
  refine ⟨h.head, h.tail, ?_, h.room, h.returned, h.slots, h.pending, nofun⟩
  simp only [taking, unposted, reduceCtorEq, if_false] at hcount ⊢
  omega

theorem Inv.slot_tail (h : Inv s) (hbusy : s.getch ≠ .idle) :
    s.accepted[s.returned.length]? = some (s.gotchars s.gotcharsTail) := by
  have hgranted := h.granted hbusy
  have hle := s.unstored_le_unposted
  rw [h.tail]
  exact h.slots _ (Nat.le_refl _) (by omega)

theorem Inv.load (h : Inv s) (hphase : s.getch = .granted) :
    Inv { s with getch := .loaded (s.gotchars s.gotcharsTail) } := by
  have hbusy : s.getch ≠ .idle := by
    rw [hphase]
    decide
  have hcount := h.count
  rw [taking, if_neg hbusy] at hcount
  refine ⟨h.head, h.tail, ?_, h.room, h.returned, h.slots, h.pending, fun ret hret => ?_⟩
  · simp only [taking, unposted, reduceCtorEq, if_false] at hcount ⊢
    omega
  · obtain rfl := GetchPhase.loaded.inj hret
    exact h.slot_tail hbusy

theorem Inv.moveTail {ret : UInt8} (h : Inv s) (hphase : s.getch = .loaded ret) :
    Inv { s with
      gotcharsTail := (s.gotcharsTail + 1) % consoleInputBufferSize
      getch := .idle
      returned := s.returned ++ [ret] } := by
  have hbusy : s.getch ≠ .idle := by
    rw [hphase]
    nofun
  have hgot := h.loaded ret hphase
  have hroom := h.room
  have hcount := h.count
  rw [taking, if_neg hbusy] at hcount
  obtain ⟨rest, hrest⟩ := h.returned
  refine ⟨h.head, ?_, ?_, ?_, ?_, fun i hle hi => h.slots i ?_ hi, h.pending, nofun⟩
  · simp only [List.length_append, List.length_singleton]
    rw [h.tail, Nat.mod_add_mod]
  · simp only [taking, unposted, if_true, List.length_append, List.length_singleton] at hcount ⊢
    omega
  · simp only [List.length_append, List.length_singleton]
    omega
  · -- the next accepted character is the one returned
    show s.returned ++ [ret] <+: s.accepted
    rw [← hrest] at hgot ⊢
    rw [List.getElem?_append_right (Nat.le_refl _), Nat.sub_self] at hgot
    cases rest with
    | nil => exact nomatch hgot
    | cons c rest =>
      obtain rfl := Option.some.inj hgot
      refine ⟨rest, ?_⟩
      rw [List.append_assoc]
      rfl
  · simp only [List.length_append, List.length_singleton] at hle
    omega

theorem Inv.step {op : Op} (h : Inv s) (hstep : s.step op = some s') : Inv s' := by
  cases op with
  | conInput ch =>
    simp only [Console.step] at hstep
    split at hstep
    · next hidle =>
      split at hstep
      · exact Option.some.inj hstep ▸ h
      · next hroom => exact Option.some.inj hstep ▸ h.conInput hidle hroom
    · exact nomatch hstep
  | store =>
    simp only [Console.step] at hstep
    split at hstep
    · next ch hphase => exact Option.some.inj hstep ▸ h.store hphase
    · exact nomatch hstep
  | moveHead =>
    simp only [Console.step] at hstep
    split at hstep
    · next hphase => exact Option.some.inj hstep ▸ h.moveHead hphase
    · exact nomatch hstep
  | V =>
    simp only [Console.step] at hstep
    split at hstep
    · next hphase => exact Option.some.inj hstep ▸ h.post hphase
    · exact nomatch hstep
  | P =>
    simp only [Console.step] at hstep
    split at hstep
    · next hphase => exact Option.some.inj hstep ▸ h.wait hphase.1 hphase.2
    · exact nomatch hstep
  | load =>
    simp only [Console.step] at hstep
    split at hstep
    · next hphase => exact Option.some.inj hstep ▸ h.load hphase
    · exact nomatch hstep
  | moveTail =>
    simp only [Console.step] at hstep
    split at hstep
    · next ret hphase => exact Option.some.inj hstep ▸ h.moveTail hphase
    · exact nomatch hstep

/-- **Console input is a lossless queue up to its capacity**, in every interleaving.  What `getch` returned is a prefix
of what `con_input` accepted; `con_input` drops a character exactly when 31 accepted ones have not been taken; between
calls the semaphore counts the characters in the buffer; and `getch` never looks at an empty slot: it finds the next
accepted character there. -/
theorem console_input_lossless (h : Reaches (StepOf step) Configured s) :
    s.returned <+: s.accepted ∧
    (∀ ch, s.input = .idle → (s.step (.conInput ch) = some s ↔ s.accepted.length = s.returned.length + 31)) ∧
    (s.input = .idle → s.getch = .idle →
      s.rsem = (s.gotcharsHead + consoleInputBufferSize - s.gotcharsTail) % consoleInputBufferSize) ∧
    (s.getch = .granted → s.gotcharsHead ≠ s.gotcharsTail ∧
      s.accepted[s.returned.length]? = some (s.gotchars s.gotcharsTail)) := by
  have hinv : Inv s := h.invariant (P := Inv) (fun _ h => h.inv) fun _ _ _ hs hstep => hs.step hstep
  refine ⟨hinv.returned, fun ch hidle => ?_, fun hinput hgetch => ?_, fun hphase => ?_⟩
  · rw [← hinv.nexthead_eq_tail_iff hidle]
    simp only [Console.step, if_pos hidle]
    constructor
    · intro hsame
      by_contra hroom
      rw [if_neg hroom] at hsame
      have hlog := congrArg (fun t => t.accepted.length) (Option.some.inj hsame)
      simp at hlog
    · intro hfull
      rw [if_pos hfull]
  · obtain ⟨k, hk, hhead⟩ := hinv.head
    have hcount := hinv.count
    have hroom := hinv.room
    have hunmoved : s.unmoved = 0 := by rw [unmoved, hinput]
    rw [taking, if_pos hgetch, unposted, if_pos hinput] at hcount
    rw [hhead, hinv.tail]
    unfold consoleInputBufferSize at *
    omega
  · have hbusy : s.getch ≠ .idle := by
      rw [hphase]
      decide
    refine ⟨?_, hinv.slot_tail hbusy⟩
    obtain ⟨k, hk, hhead⟩ := hinv.head
    have hgranted := hinv.granted hbusy
    have hroom := hinv.room
    have hle : s.unmoved ≤ s.unposted := by
      unfold unmoved unposted
      cases s.input with
      | _ => simp
    rw [hhead, hinv.tail]
    unfold consoleInputBufferSize at *
    omega

/-- A configured console whose buffer holds zeros. -/
def empty : Console := ⟨0, fun _ => 0, 0, 0, .idle, .idle, [], []⟩

/-- The second character arrives while the first is being taken. -/
theorem console_input_lossless_two_chars :
    ∃ s, Reaches (StepOf step) Configured s ∧ s.accepted = [97, 98] ∧ s.returned = [97] ∧
      s.returned <+: s.accepted := by
  have hrun : ∃ s, follow step
      [.conInput 97, .store, .moveHead, .V, .P, .conInput 98, .load, .store, .moveTail, .moveHead] empty = some s ∧
      s.accepted = [97, 98] ∧ s.returned = [97] := ⟨_, rfl, rfl, rfl⟩
  obtain ⟨s, hs, haccepted, hreturned⟩ := hrun
  have hreach : Reaches (StepOf step) Configured s :=
    Reaches.of_follow _ (.start ⟨rfl, rfl, rfl, rfl, rfl, rfl, rfl⟩) hs
  exact ⟨s, hreach, haccepted, hreturned, (console_input_lossless hreach).1⟩

end Console

end Os161Kernel
