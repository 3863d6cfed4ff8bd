import Os161Kernel.Lib.Calls
import Os161Kernel.LoadElf

/-!
# Copies between user space and the kernel: `copyinout.c`

The range that a user program names is checked against the end of user space before anything is copied.  The check
computes the last address of the range in 32 bits.  A string is copied byte by byte up to its terminator, the caller's
limit or the end of user space, whichever comes first.

Here every user address below the end of user space can be accessed, so no copy is cut short by a fault; each access to
user memory is recorded.
-/

namespace Os161Kernel

open Calls Memory

/-- A copy in progress: user memory by address, the kernel's buffer, `tm_badfaultfunc`, and the user addresses that have
been accessed. -/
structure UserCopy where
  user : Bytes
  buffer : Bytes
  badfaultfunc : Bool
  touched : List ℕ

abbrev CopyCall := Call Empty Errno UserCopy

namespace UserCopy

/-- `USERSPACETOP`. -/
def userspacetop : ℕ := kseg0

/-! ### The code -/

/-- `copycheck(userptr, len, &stoplen)`. -/
def copycheck (userptr len : ℕ) : CopyCall ℕ :=
  let bot := userptr
  let top := (bot + len + (2 ^ 32 - 1)) % 2 ^ 32
  if top < bot then .fail .efault
  else if userspacetop ≤ bot then .fail .efault
  else if userspacetop ≤ top then pure (userspacetop - bot)
  else pure len

/-- Read a byte of user memory. -/
def loadUser (a : ℕ) : CopyCall UInt8 := do
  .update fun s => { s with touched := s.touched ++ [a % 2 ^ 32] }
  .read fun s => s.user (a % 2 ^ 32)

/-- Write a byte of user memory. -/
def storeUser (a : ℕ) (x : UInt8) : CopyCall Unit :=
  .update fun s => { s with
    touched := s.touched ++ [a % 2 ^ 32]
    user := overlay s.user (a % 2 ^ 32) 1 fun _ => x }

def storeBuffer (i : ℕ) (x : UInt8) : CopyCall Unit :=
  .update fun s => { s with buffer := overlay s.buffer i 1 fun _ => x }

def setBadfaultfunc (b : Bool) : CopyCall Unit := .update fun s => { s with badfaultfunc := b }

/-- The check of `copyin` and `copyout`: a single block is not truncated. -/
def checkBlock (userptr len : ℕ) : CopyCall Unit := do
  let stoplen ← copycheck userptr len
  if stoplen ≠ len then .fail .efault else pure ()

/-- `memcpy(dest, usersrc, len)`. -/
def memcpyIn (usersrc len : ℕ) : CopyCall Unit :=
  .loopBelow (fun i _ => do
    let x ← loadUser (usersrc + i)
    storeBuffer i x) len ()

/-- `memcpy(userdest, src, len)`. -/
def memcpyOut (userdest len : ℕ) : CopyCall Unit :=
  .loopBelow (fun i _ => do
    let x ← .read fun s => s.buffer i
    storeUser (userdest + i) x) len ()

/-- `copyin(usersrc, dest, len)`. -/
def copyin (usersrc len : ℕ) : CopyCall Unit := do
  checkBlock usersrc len
  setBadfaultfunc true
  memcpyIn usersrc len
  setBadfaultfunc false

/-- `copyout(src, userdest, len)`. -/
def copyout (userdest len : ℕ) : CopyCall Unit := do
  checkBlock userdest len
  setBadfaultfunc true
  memcpyOut userdest len
  setBadfaultfunc false

/-- The loop of `copystr` from user memory, for the `k` bytes from index `i` on: the number of bytes with the
terminator, if it was met. -/
def copystrLoop (src : ℕ) : ℕ → ℕ → CopyCall (Option ℕ)
  | 0, _ => pure none
  | k + 1, i => do
    let x ← loadUser (src + i)
    storeBuffer i x
    let x ← loadUser (src + i)
    if x = 0 then pure (some (i + 1)) else copystrLoop src k (i + 1)

/-- `copystr(dest, src, maxlen, stoplen, gotlen)` from user memory; the result is `*gotlen`. -/
def copystr (src maxlen stoplen : ℕ) : CopyCall ℕ := do
  match ← copystrLoop src (min maxlen stoplen) 0 with
  | some gotlen => pure gotlen
  | none => if stoplen < maxlen then .fail .efault else .fail .enametoolong

/-- `copyinstr(usersrc, dest, len, actual)`; the result is `*actual`. -/
def copyinstr (usersrc len : ℕ) : CopyCall ℕ := do
  let stoplen ← copycheck usersrc len
  setBadfaultfunc true
  let result ← .attempt (copystr usersrc len stoplen)
  setBadfaultfunc false
  match result with
  | .ok actual => pure actual
  | .error e => .fail e

/-! ### The check -/

variable {ptr len i k : ℕ} {s : UserCopy}

theorem copycheck_eq (hptr : ptr < 2 ^ 32) (hpos : 1 ≤ len) (hlen : len < 2 ^ 32) :
    copycheck ptr len =
      if userspacetop ≤ ptr ∨ 2 ^ 32 ≤ ptr + len - 1 then Call.fail .efault
      else pure (min len (userspacetop - ptr)) := by
  have hsum : ptr + len + (2 ^ 32 - 1) = ptr + len - 1 + 2 ^ 32 := by omega
  have htop : userspacetop < 2 ^ 32 := by decide
  unfold copycheck
  simp only [hsum, Nat.add_mod_right]
  by_cases hwrap : 2 ^ 32 ≤ ptr + len - 1
  · have hmod : (ptr + len - 1) % 2 ^ 32 < ptr := by omega
    rw [if_pos hmod, if_pos (.inr hwrap)]
  · have hmod : (ptr + len - 1) % 2 ^ 32 = ptr + len - 1 := Nat.mod_eq_of_lt (by omega)
    rw [hmod, if_neg (by omega)]
    by_cases hkernel : userspacetop ≤ ptr
    · rw [if_pos hkernel, if_pos (.inl hkernel)]
    · have hpass : ¬ (userspacetop ≤ ptr ∨ 2 ^ 32 ≤ ptr + len - 1) := fun h => h.elim hkernel hwrap
      rw [if_neg hkernel, if_neg hpass]
      by_cases hcross : userspacetop ≤ ptr + len - 1
      · rw [if_pos hcross, Nat.min_eq_right (by omega)]
      · rw [if_neg hcross, Nat.min_eq_left (by omega)]

theorem checkBlock_eq (hptr : ptr < 2 ^ 32) (hpos : 1 ≤ len) (hlen : len < 2 ^ 32) :
    checkBlock ptr len s = if ptr + len ≤ userspacetop then .ok () s else .fail .efault s := by
  have htop : userspacetop < 2 ^ 32 := by decide
  unfold checkBlock
  rw [copycheck_eq hptr hpos hlen]
  by_cases hrefused : userspacetop ≤ ptr ∨ 2 ^ 32 ≤ ptr + len - 1
  · rw [if_pos hrefused, bind_of_fail (fail_apply _ _), if_neg (by omega)]
  · rw [if_neg hrefused, bind_of_ok (pure_apply _ _)]
    by_cases hfits : ptr + len ≤ userspacetop
    · rw [if_neg (by omega), if_pos hfits]
      rfl
    · rw [if_pos (by omega), if_neg hfits]
      rfl

/-! ### The copies -/

/-- The user addresses of a range. -/
def addresses (ptr n : ℕ) : List ℕ := (List.range n).map fun k => ptr + k

theorem addresses_succ (ptr n : ℕ) : addresses ptr (n + 1) = addresses ptr n ++ [ptr + n] := by
  unfold addresses
  rw [List.range_succ, List.map_append]
  rfl

variable {n a z : ℕ} {s' t : UserCopy}

theorem lt_of_mem_addresses (h : a ∈ addresses ptr n) : a < ptr + n := by
  obtain ⟨k, hk, rfl⟩ := List.mem_map.mp h
  exact Nat.add_lt_add_left (List.mem_range.mp hk) ptr

theorem overlay_succ (m : Bytes) (a n : ℕ) (src : ℕ → UInt8) :
    overlay (overlay m a n src) (a + n) 1 (fun _ => src n) = overlay m a (n + 1) src := by
  rw [← overlay_overlay_append src]
  exact overlay_congr_src fun k hk => by rw [Nat.lt_one_iff.mp hk, Nat.add_zero]

/-- The state after the first `n` bytes of user memory at `ptr` have been copied to the buffer. -/
def takenIn (s : UserCopy) (ptr n : ℕ) : UserCopy :=
  { s with buffer := overlay s.buffer 0 n fun k => s.user (ptr + k), touched := s.touched ++ addresses ptr n }

/-- The state after the first `n` bytes of the buffer have been copied to user memory at `ptr`. -/
def sentOut (s : UserCopy) (ptr n : ℕ) : UserCopy :=
  { s with user := overlay s.user ptr n s.buffer, touched := s.touched ++ addresses ptr n }

theorem takenIn_zero (s : UserCopy) (ptr : ℕ) : s.takenIn ptr 0 = s := by
  simp only [takenIn, overlay_zero, addresses, List.range_zero, List.map_nil, List.append_nil]

theorem memcpyIn_eq (hend : ptr + len ≤ 2 ^ 32) (s : UserCopy) : memcpyIn ptr len s = .ok () (s.takenIn ptr len) := by
  have hends : Ends (memcpyIn ptr len) s (fun _ t => t = s.takenIn ptr len) fun _ _ => False := by
    -- after `i` rounds the first `i` bytes are in the buffer
    apply ends_loopBelow (P := fun i _ t => t = s.takenIn ptr i)
    · exact (s.takenIn_zero ptr).symm
    · rintro i hi _ t rfl
      have hmod : (ptr + i) % 2 ^ 32 = ptr + i := Nat.mod_eq_of_lt (by omega)
      simp only [ends_bind, loadUser, storeBuffer, ends_update, ends_read, hmod, takenIn, addresses_succ,
        List.append_assoc]
      have hbyte := overlay_succ s.buffer 0 i fun k => s.user (ptr + k)
      rw [Nat.zero_add] at hbyte
      rw [hbyte]
  obtain ⟨⟨⟩, t, hrun, rfl⟩ := hends.exists_ok
  exact hrun

theorem memcpyOut_eq (hend : ptr + len ≤ 2 ^ 32) (s : UserCopy) :
    memcpyOut ptr len s = .ok () (s.sentOut ptr len) := by
  have hends : Ends (memcpyOut ptr len) s (fun _ t => t = s.sentOut ptr len) fun _ _ => False := by
    -- after `i` rounds the first `i` bytes are in user memory
    apply ends_loopBelow (P := fun i _ t => t = s.sentOut ptr i)
    · simp only [sentOut, overlay_zero, addresses, List.range_zero, List.map_nil, List.append_nil]
    · rintro i hi _ t rfl
      have hmod : (ptr + i) % 2 ^ 32 = ptr + i := Nat.mod_eq_of_lt (by omega)
      simp only [ends_bind, storeUser, ends_update, ends_read, hmod, sentOut, addresses_succ, List.append_assoc]
      rw [overlay_succ s.user ptr i s.buffer]
  obtain ⟨⟨⟩, t, hrun, rfl⟩ := hends.exists_ok
  exact hrun

theorem checked_copy {memcpy : CopyCall Unit} (hptr : ptr < 2 ^ 32) (hpos : 1 ≤ len)
    (hlen : len < 2 ^ 32)
    (hcopy : ptr + len ≤ userspacetop →
      memcpy { s with badfaultfunc := true } = .ok () { s' with badfaultfunc := true }) :
    (do checkBlock ptr len; setBadfaultfunc true; memcpy; setBadfaultfunc false : CopyCall Unit) s =
      if ptr + len ≤ userspacetop then .ok () { s' with badfaultfunc := false } else .fail .efault s := by
  have hcheck := checkBlock_eq (s := s) hptr hpos hlen
  by_cases hfits : ptr + len ≤ userspacetop
  · rw [if_pos hfits] at hcheck ⊢
    rw [bind_of_ok hcheck]
    show (memcpy >>= fun _ => setBadfaultfunc false) { s with badfaultfunc := true } = _
    rw [bind_of_ok (hcopy hfits)]
    rfl
  · rw [if_neg hfits] at hcheck ⊢
    rw [bind_of_fail hcheck]

theorem copyin_eq (hptr : ptr < 2 ^ 32) (hpos : 1 ≤ len) (hlen : len < 2 ^ 32) :
    copyin ptr len s = if ptr + len ≤ userspacetop then .ok () { s.takenIn ptr len with badfaultfunc := false }
      else .fail .efault s := by
  have htop : userspacetop < 2 ^ 32 := by decide
  refine checked_copy hptr hpos hlen fun hfits => ?_
  have hend : ptr + len ≤ 2 ^ 32 := by omega
  exact memcpyIn_eq hend { s with badfaultfunc := true }

theorem copyout_eq (hptr : ptr < 2 ^ 32) (hpos : 1 ≤ len) (hlen : len < 2 ^ 32) :
    copyout ptr len s = if ptr + len ≤ userspacetop then .ok () { s.sentOut ptr len with badfaultfunc := false }
      else .fail .efault s := by
  have htop : userspacetop < 2 ^ 32 := by decide
  refine checked_copy hptr hpos hlen fun hfits => ?_
  have hend : ptr + len ≤ 2 ^ 32 := by omega
  exact memcpyOut_eq hend { s with badfaultfunc := true }

/-! ### Strings -/

/-- The first `n` bytes at `ptr` have been copied, and no user address behind them was accessed. -/
structure Copied (s : UserCopy) (ptr n : ℕ) (t : UserCopy) : Prop where
  user : t.user = s.user
  buffer : t.buffer = overlay s.buffer 0 n fun k => s.user (ptr + k)
  touched : ∀ a ∈ t.touched, a ∈ s.touched ∨ a < ptr + n

/-- The terminator of the string at `ptr` is byte `z`. -/
def Terminates (s : UserCopy) (ptr z : ℕ) : Prop := s.user (ptr + z) = 0 ∧ ∀ j < z, s.user (ptr + j) ≠ 0

theorem Terminates.unique {z' : ℕ} (h : s.Terminates ptr z) (h' : s.Terminates ptr z') : z = z' := by
  rcases Nat.lt_trichotomy z z' with hlt | heq | hlt
  · exact absurd h.1 (h'.2 z hlt)
  · exact heq
  · exact absurd h'.1 (h.2 z' hlt)

theorem Copied.byte (h : s.Copied ptr i t) :
    s.Copied ptr (i + 1) { t with
      buffer := overlay t.buffer i 1 fun _ => t.user (ptr + i)
      touched := t.touched ++ [ptr + i] ++ [ptr + i] } where
  user := h.user
  buffer := by
    have hbyte := overlay_succ s.buffer 0 i fun k => s.user (ptr + k)
    rw [Nat.zero_add] at hbyte
    rw [← hbyte]
    show overlay t.buffer i 1 (fun _ => t.user (ptr + i)) = _
    rw [h.buffer, h.user]
  touched a ha := by
    have hcases : a ∈ t.touched ∨ a = ptr + i := by simpa using ha
    rcases hcases with hold | rfl
    · exact (h.touched a hold).imp_right fun hlt => by omega
    · exact .inr (by omega)

theorem copystrLoop_ends (hend : ptr + (i + k) ≤ 2 ^ 32) (hcopied : s.Copied ptr i t)
    (hbefore : ∀ j < i, s.user (ptr + j) ≠ 0) :
    Ends (copystrLoop ptr k i) t
      (fun r t' => (∃ z, r = some (z + 1) ∧ z < i + k ∧ s.Terminates ptr z ∧ s.Copied ptr (z + 1) t') ∨
        (r = none ∧ (∀ j < i + k, s.user (ptr + j) ≠ 0) ∧ s.Copied ptr (i + k) t'))
      fun _ _ => False := by
  induction k generalizing i t with
  | zero => exact .inr ⟨rfl, hbefore, hcopied⟩
  | succ k ih =>
    have hmod : (ptr + i) % 2 ^ 32 = ptr + i := Nat.mod_eq_of_lt (by omega)
    have hnext : i + (k + 1) = i + 1 + k := by omega
    unfold copystrLoop
    simp only [ends_bind, loadUser, storeBuffer, ends_update, ends_read, hmod]
    by_cases hzero : t.user (ptr + i) = 0
    · rw [if_pos hzero, ends_pure]
      rw [hcopied.user] at hzero
      exact .inl ⟨i, rfl, by omega, ⟨hzero, hbefore⟩, hcopied.byte⟩
    · rw [if_neg hzero, hnext]
      rw [hcopied.user] at hzero
      refine ih (by omega) hcopied.byte fun j hj => ?_
      rcases Nat.lt_succ_iff_lt_or_eq.mp hj with hlt | rfl
      · exact hbefore j hlt
      · exact hzero

/-- The range is refused: it starts in the kernel, or its last address wraps around. -/
def Refused (ptr len : ℕ) : Prop := userspacetop ≤ ptr ∨ 2 ^ 32 ≤ ptr + len - 1

instance (ptr len : ℕ) : Decidable (Refused ptr len) := inferInstanceAs (Decidable (_ ∨ _))

theorem copyinstr_ends (hptr : ptr < 2 ^ 32) (hpos : 1 ≤ len) (hlen : len < 2 ^ 32) (s : UserCopy) :
    Ends (copyinstr ptr len) s
      (fun actual t => ¬ Refused ptr len ∧ ∃ z, actual = z + 1 ∧ z < min len (userspacetop - ptr) ∧
        s.Terminates ptr z ∧ s.Copied ptr (z + 1) t)
      fun e t => (Refused ptr len ∧ e = .efault ∧ t = s) ∨
        (¬ Refused ptr len ∧ (∀ z < min len (userspacetop - ptr), s.user (ptr + z) ≠ 0) ∧
          e = (if userspacetop - ptr < len then .efault else .enametoolong) ∧
          s.Copied ptr (min len (userspacetop - ptr)) t) := by
  have htop : userspacetop < 2 ^ 32 := by decide
  unfold copyinstr
  rw [copycheck_eq hptr hpos hlen, ends_bind]
  by_cases hrefused : Refused ptr len
  · unfold Refused at hrefused
    rw [if_pos hrefused, ends_fail]
    exact .inl ⟨hrefused, rfl, rfl⟩
  · have hpass : ¬ (userspacetop ≤ ptr ∨ 2 ^ 32 ≤ ptr + len - 1) := hrefused
    rw [if_neg hpass, ends_pure]
    have hmin : min len (min len (userspacetop - ptr)) = min len (userspacetop - ptr) := by omega
    have hrange : ptr + (0 + min len (userspacetop - ptr)) ≤ 2 ^ 32 := by omega
    have hstart : s.Copied ptr 0 { s with badfaultfunc := true } :=
      ⟨rfl, overlay_zero.symm, fun a ha => .inl ha⟩
    simp only [ends_bind, setBadfaultfunc, ends_update, ends_attempt, copystr]
    rw [hmin]
    have hloop := copystrLoop_ends hrange hstart fun i hi => absurd hi (Nat.not_lt_zero i)
    rw [Nat.zero_add] at hloop
    refine hloop.mono (fun r t h => ?_) fun _ _ hfalse => hfalse.elim
    rcases h with ⟨z, rfl, hlt, hterm, hcopied⟩ | ⟨rfl, hnone, hcopied⟩
    · simp only [ends_pure]
      exact ⟨hrefused, z, rfl, hlt, hterm, hcopied.user, hcopied.buffer, hcopied.touched⟩
    · have hkeep : s.Copied ptr (min len (userspacetop - ptr)) { t with badfaultfunc := false } :=
        ⟨hcopied.user, hcopied.buffer, hcopied.touched⟩
      have hiff : min len (userspacetop - ptr) < len ↔ userspacetop - ptr < len := by omega
      simp only [hiff]
      by_cases hcut : userspacetop - ptr < len
      · simp only [if_pos hcut, ends_fail]
        exact .inr ⟨hrefused, hnone, trivial, hkeep⟩
      · simp only [if_neg hcut, ends_fail]
        exact .inr ⟨hrefused, hnone, trivial, hkeep⟩

theorem copyinstr_of_refused (hptr : ptr < 2 ^ 32) (hpos : 1 ≤ len) (hlen : len < 2 ^ 32) (h : Refused ptr len) :
    copyinstr ptr len s = .fail .efault s := by
  have hends := copyinstr_ends hptr hpos hlen s
  cases hrun : copyinstr ptr len s with
  | ok actual t => exact absurd h (hends.of_ok hrun).1
  | fail e t =>
    rcases hends.of_fail hrun with ⟨-, rfl, rfl⟩ | ⟨hpass, -⟩
    · rfl
    · exact absurd h hpass
  | stop e => exact nomatch e

theorem copyinstr_of_terminates (hptr : ptr < 2 ^ 32) (hpos : 1 ≤ len) (hlen : len < 2 ^ 32)
    (h : ¬ Refused ptr len) (hz : z < min len (userspacetop - ptr)) (hterm : s.Terminates ptr z) :
    ∃ t, copyinstr ptr len s = .ok (z + 1) t ∧ s.Copied ptr (z + 1) t := by
  have hends := copyinstr_ends hptr hpos hlen s
  cases hrun : copyinstr ptr len s with
  | ok actual t =>
    obtain ⟨-, z', rfl, -, hterm', hcopied⟩ := hends.of_ok hrun
    obtain rfl := hterm.unique hterm'
    exact ⟨t, rfl, hcopied⟩
  | fail e t =>
    rcases hends.of_fail hrun with ⟨hrefused, -⟩ | ⟨-, hnone, -⟩
    · exact absurd hrefused h
    · exact absurd hterm.1 (hnone z hz)
  | stop e => exact nomatch e

theorem copyinstr_of_unterminated (hptr : ptr < 2 ^ 32) (hpos : 1 ≤ len) (hlen : len < 2 ^ 32)
    (h : ¬ Refused ptr len) (hnone : ∀ z < min len (userspacetop - ptr), s.user (ptr + z) ≠ 0) :
    ∃ t, copyinstr ptr len s = .fail (if userspacetop - ptr < len then .efault else .enametoolong) t := by
  have hends := copyinstr_ends hptr hpos hlen s
  cases hrun : copyinstr ptr len s with
  | ok actual t =>
    obtain ⟨-, z, -, hz, hterm, -⟩ := hends.of_ok hrun
    exact absurd hterm.1 (hnone z hz)
  | fail e t =>
    rcases hends.of_fail hrun with ⟨hrefused, -⟩ | ⟨-, -, rfl, -⟩
    · exact absurd hrefused h
    · exact ⟨t, rfl⟩
  | stop e => exact nomatch e

/-! ### User space -/

/-- However the call ends, every user address that it accessed lies in user space. -/
def StaysInUserSpace {α : Type} (m : CopyCall α) (s : UserCopy) : Prop :=
  ∀ t, (m s).state? = some t → ∀ a ∈ t.touched, a ∈ s.touched ∨ a < userspacetop

theorem mem_addresses_append (hfits : ptr + n ≤ userspacetop) (h : a ∈ s.touched ++ addresses ptr n) :
    a ∈ s.touched ∨ a < userspacetop := by
  rcases List.mem_append.mp h with hold | hnew
  · exact .inl hold
  · exact .inr (Nat.lt_of_lt_of_le (lt_of_mem_addresses hnew) hfits)

theorem staysInUserSpace_of_eq {m : CopyCall Unit}
    (hm : m s = if ptr + len ≤ userspacetop then .ok () s' else .fail .efault s)
    (htouched : s'.touched = s.touched ++ addresses ptr len) : StaysInUserSpace m s := by
  intro t ht a ha
  rw [hm] at ht
  by_cases hfits : ptr + len ≤ userspacetop
  · rw [if_pos hfits] at ht
    obtain rfl := Option.some.inj ht
    rw [htouched] at ha
    exact mem_addresses_append hfits ha
  · rw [if_neg hfits] at ht
    obtain rfl := Option.some.inj ht
    exact .inl ha

theorem copyinstr_staysInUserSpace (hptr : ptr < 2 ^ 32) (hpos : 1 ≤ len) (hlen : len < 2 ^ 32) :
    StaysInUserSpace (copyinstr ptr len) s := by
  intro t ht
  have hwithin : ∀ {n : ℕ} {t : UserCopy}, n ≤ min len (userspacetop - ptr) → ¬ Refused ptr len → s.Copied ptr n t →
      ∀ a ∈ t.touched, a ∈ s.touched ∨ a < userspacetop := by
    intro n t hn hpass hcopied a ha
    unfold Refused at hpass
    exact (hcopied.touched a ha).imp_right fun hlt => by omega
  refine Ends.of_state? (S := False) (P := fun t => ∀ a ∈ t.touched, a ∈ s.touched ∨ a < userspacetop) ?_ ht
  refine (copyinstr_ends hptr hpos hlen s).mono ?_ ?_
  · rintro actual t ⟨hpass, z, -, hz, -, hcopied⟩
    exact hwithin hz hpass hcopied
  · rintro e t (⟨-, -, rfl⟩ | ⟨hpass, -, -, hcopied⟩)
    · exact fun a ha => .inl ha
    · exact hwithin (Nat.le_refl _) hpass hcopied

/-- **Copies stay in user space.**  A block is copied exactly when it ends within user space.  A string is refused
when it starts in the kernel or its range wraps around; otherwise it is copied up to its terminator, and when none is
met within the limits the error says which limit it was.  No user address outside user space is accessed. -/
theorem user_copies_stay_in_user_space (s : UserCopy) (ptr len : ℕ) (hptr : ptr < 2 ^ 32) (hpos : 1 ≤ len)
    (hlen : len < 2 ^ 32) :
    (copyin ptr len s = if ptr + len ≤ userspacetop then .ok () { s.takenIn ptr len with badfaultfunc := false }
      else .fail .efault s) ∧
    (copyout ptr len s = if ptr + len ≤ userspacetop then .ok () { s.sentOut ptr len with badfaultfunc := false }
      else .fail .efault s) ∧
    (userspacetop ≤ ptr ∨ 2 ^ 32 ≤ ptr + len - 1 → copyinstr ptr len s = .fail .efault s) ∧
    (¬ (userspacetop ≤ ptr ∨ 2 ^ 32 ≤ ptr + len - 1) →
      (∀ z < min len (userspacetop - ptr), s.user (ptr + z) = 0 → (∀ j < z, s.user (ptr + j) ≠ 0) →
        ∃ t, copyinstr ptr len s = .ok (z + 1) t ∧
          t.buffer = overlay s.buffer 0 (z + 1) fun k => s.user (ptr + k)) ∧
      ((∀ z < min len (userspacetop - ptr), s.user (ptr + z) ≠ 0) →
        ∃ t, copyinstr ptr len s = .fail (if userspacetop - ptr < len then .efault else .enametoolong) t)) ∧
    StaysInUserSpace (copyin ptr len) s ∧ StaysInUserSpace (copyout ptr len) s ∧
    StaysInUserSpace (copyinstr ptr len) s := by
  have hin := copyin_eq (s := s) hptr hpos hlen
  have hout := copyout_eq (s := s) hptr hpos hlen
  refine ⟨hin, hout, copyinstr_of_refused hptr hpos hlen, fun hpass => ⟨?_, ?_⟩, staysInUserSpace_of_eq hin rfl,
    staysInUserSpace_of_eq hout rfl, copyinstr_staysInUserSpace hptr hpos hlen⟩
  · intro z hz hzero hbefore
    obtain ⟨t, hrun, hcopied⟩ := copyinstr_of_terminates hptr hpos hlen hpass hz ⟨hzero, hbefore⟩
    exact ⟨t, hrun, hcopied.buffer⟩
  · exact copyinstr_of_unterminated hptr hpos hlen hpass

/-- A string of one letter in the last two bytes of user space. -/
def lastString : UserCopy where
  user := fun a => if a = 0x7ffffffe then 104 else 0
  buffer := fun _ => 1
  badfaultfunc := false
  touched := []

/-- **The last string of user space** is copied, with its terminator, also when the caller would take more. -/
theorem copies_last_string :
    ∃ t, copyinstr 0x7ffffffe 16 lastString = .ok 2 t ∧
      t.buffer = overlay lastString.buffer 0 2 fun k => lastString.user (0x7ffffffe + k) := by
  have h := user_copies_stay_in_user_space lastString 0x7ffffffe 16 (by decide) (by decide) (by decide)
  refine (h.2.2.2.1 (by decide)).1 1 (by decide) (by decide) fun j hj => ?_
  rw [Nat.lt_one_iff.mp hj]
  decide

end UserCopy

end Os161Kernel
