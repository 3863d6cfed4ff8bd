import Os161Kernel.SfsDir

/-!
# Transfers between the kernel and a caller's buffers

`uiomove` walks the iovecs of a request and moves bytes between a kernel buffer and the buffers behind them.  Those are
kept here as one sequence of bytes, in the order of the iovecs; they do not overlap.  A user buffer may end in memory
that cannot be accessed, and a move that runs into it fails before the request is updated.

`advance` and `kernelSide` say what a move of `n` bytes comes to, however it is cut into pieces; `uiomove_ends` is
the specification of the walk in these terms.
-/

namespace Os161Kernel

open Calls Memory

-- Specifications are used through their rules; unfolding them would run the loops.
attribute [local irreducible] Ends

/-- `struct iovec`.  Its first `good` bytes can be accessed; of a kernel buffer that is all of them. -/
structure Iovec where
  len : ℕ
  good : ℕ

/-- `struct uio`.  The buffers are in `buf`, and the next byte to be moved is byte `moved` of them. -/
structure Uio where
  iov : List Iovec
  offset : ℕ
  resid : ℕ
  rw : UioRw
  buf : Bytes
  moved : ℕ

abbrev UioCall := Call VfsStop Errno Uio

namespace Uio

/-- The kernel's bytes after `n` bytes have been moved at `pos`. -/
def kernelSide (u : Uio) (ptr : Bytes) (pos n : ℕ) : Bytes :=
  match u.rw with
  | .read => ptr
  | .write => overlay ptr pos n fun k => u.buf (u.moved + k)

/-- The request after `n` bytes have been moved. -/
def advance (u : Uio) (ptr : Bytes) (pos n : ℕ) : Uio :=
  { u with
    buf := match u.rw with
      | .read => overlay u.buf u.moved n fun k => ptr (pos + k)
      | .write => u.buf
    moved := u.moved + n
    resid := u.resid - n
    offset := u.offset + n }

/-- `a - b` for two values of type `size_t`. -/
def sizeSub (a b : ℕ) : ℕ := if b ≤ a then a - b else 2 ^ 32 + a - b

/-- The loop of `uiomove`, on the iovecs from the current one on.  An iovec that is used up leaves more to move only
for the next one.  A piece that is longer than `uio_resid` makes it wrap around. -/
def uiomoveIov : List Iovec → Bytes → ℕ → ℕ → UioCall Bytes
  | [], ptr, _, n => do
    .update fun u => { u with iov := [] }
    let resid ← .read resid
    .require (n = 0 ∨ resid = 0) (.panic "uiomove: ran out of buffers\n")
    pure ptr
  | v :: rest, ptr, pos, n => do
    .update fun u => { u with iov := v :: rest }
    let u ← .read fun u => u
    if n = 0 ∨ u.resid = 0 then pure ptr
    else if v.len = 0 then uiomoveIov rest ptr pos n
    else if v.good < min v.len n then .fail .efault
    else do
      let size := min v.len n
      .update fun u => { u.advance ptr pos size with
        iov := ⟨v.len - size, v.good - size⟩ :: rest
        resid := sizeSub u.resid size }
      if n = size ∨ u.resid = size then pure (u.kernelSide ptr pos size)
      else uiomoveIov rest (u.kernelSide ptr pos size) (pos + size) (n - size)

/-- `uiomove(ptr + pos, n, uio)`; the result is the kernel buffer afterwards. -/
def uiomove (ptr : Bytes) (pos n : ℕ) : UioCall Bytes := do
  let iov ← .read iov
  uiomoveIov iov ptr pos n

/-- `uiomovezeros`, in pieces of 16 bytes. -/
def uiomovezeros (n : ℕ) : UioCall Unit := do
  let rw ← .read rw
  .require (rw = .read) (.kassert "uio->uio_rw == UIO_READ")
  .loopBelow (fun i _ => do
    let _ ← uiomove (fun _ => 0) 0 (min 16 (n - 16 * i))
    pure ()) ((n + 15) / 16) ()

/-! ### Moves in a row -/

variable {u w : Uio} {ptr : Bytes} {pos n a b : ℕ} {iov : List Iovec}

/-- The length of the rest of the buffers. -/
def space (u : Uio) : ℕ := (u.iov.map Iovec.len).sum

/-- The rest of the buffers has room for the rest of the request. -/
def Room (u : Uio) : Prop := u.resid ≤ u.space

/-- Every buffer can be accessed. -/
def Good (u : Uio) : Prop := ∀ v ∈ u.iov, v.len ≤ v.good

/-- The request has been advanced by `n` bytes. -/
structure Advanced (u : Uio) (ptr : Bytes) (pos n : ℕ) (w : Uio) : Prop where
  eq : ∃ iov, w = { u.advance ptr pos n with iov := iov }
  space : w.space + n = u.space
  good : u.Good → w.Good

theorem kernelSide_zero : u.kernelSide ptr pos 0 = ptr := by
  unfold kernelSide
  cases u.rw with
  | read => rfl
  | write => exact overlay_zero

theorem kernelSide_of_read (hrw : u.rw = .read) : u.kernelSide ptr pos n = ptr := by
  unfold kernelSide
  rw [hrw]

theorem kernelSide_of_write (hrw : u.rw = .write) :
    u.kernelSide ptr pos n = overlay ptr pos n fun k => u.buf (u.moved + k) := by
  unfold kernelSide
  rw [hrw]

theorem advance_zero : u.advance ptr pos 0 = u := by
  obtain ⟨iov, offset, resid, rw, buf, moved⟩ := u
  cases rw with
  | read => simp only [advance, overlay_zero, Nat.add_zero, Nat.sub_zero]
  | write => rfl

theorem kernelSide_kernelSide (u : Uio) (ptr : Bytes) (pos a b : ℕ) (iov : List Iovec) :
    { u.advance ptr pos a with iov := iov }.kernelSide (u.kernelSide ptr pos a) (pos + a) b =
      u.kernelSide ptr pos (a + b) := by
  obtain ⟨iov, offset, resid, rw, buf, moved⟩ := u
  cases rw with
  | read => rfl
  | write =>
    simp only [kernelSide, advance, Nat.add_assoc]
    exact overlay_overlay_append fun k => buf (moved + k)

theorem advance_advance :
    { u.advance ptr pos a with iov := iov }.advance (u.kernelSide ptr pos a) (pos + a) b =
      { u.advance ptr pos (a + b) with iov := iov } := by
  obtain ⟨iov, offset, resid, rw, buf, moved⟩ := u
  cases rw with
  | read =>
    simp only [kernelSide, advance, Nat.add_assoc, Nat.sub_sub]
    rw [overlay_overlay_append fun k => ptr (pos + k)]
  | write => simp only [advance, Nat.add_assoc, Nat.sub_sub]

theorem Advanced.refl : u.Advanced ptr pos 0 u := by
  refine ⟨⟨u.iov, ?_⟩, rfl, id⟩
  rw [advance_zero]

theorem Advanced.trans {x : Uio} (h : u.Advanced ptr pos a w) (h' : w.Advanced (u.kernelSide ptr pos a) (pos + a) b x) :
    u.Advanced ptr pos (a + b) x := by
  obtain ⟨iov, hw⟩ := h.eq
  obtain ⟨iov', hx⟩ := h'.eq
  have hspace := h.space
  have hspace' := h'.space
  refine ⟨⟨iov', ?_⟩, by omega, fun hg => h'.good (h.good hg)⟩
  rw [hx, hw, advance_advance]

theorem Advanced.rw_eq (h : u.Advanced ptr pos n w) : w.rw = u.rw := by
  obtain ⟨iov, rfl⟩ := h.eq
  rfl

theorem Advanced.resid_eq (h : u.Advanced ptr pos n w) : w.resid = u.resid - n := by
  obtain ⟨iov, rfl⟩ := h.eq
  rfl

theorem Advanced.offset_eq (h : u.Advanced ptr pos n w) : w.offset = u.offset + n := by
  obtain ⟨iov, rfl⟩ := h.eq
  rfl

theorem Advanced.moved_eq (h : u.Advanced ptr pos n w) : w.moved = u.moved + n := by
  obtain ⟨iov, rfl⟩ := h.eq
  rfl

theorem Advanced.room (h : u.Advanced ptr pos n w) (hn : n ≤ u.resid) (hroom : u.Room) : w.Room := by
  have hspace := h.space
  have hresid := h.resid_eq
  unfold Room at *
  omega

theorem Advanced.congr {ptr' : Bytes} {pos' : ℕ} (h : u.Advanced ptr pos n w)
    (heq : u.rw = .read → ∀ k < n, ptr (pos + k) = ptr' (pos' + k)) : u.Advanced ptr' pos' n w := by
  obtain ⟨iov, hw⟩ := h.eq
  refine ⟨⟨iov, hw.trans ?_⟩, h.space, h.good⟩
  unfold advance
  cases hrw : u.rw with
  | read =>
    have hbuf : overlay u.buf u.moved n (fun k => ptr (pos + k)) = overlay u.buf u.moved n fun k => ptr' (pos' + k) :=
      overlay_congr_src (heq hrw)
    simp only [hbuf]
  | write => rfl

/-! ### The walk -/

theorem uiomoveIov_ends (hn : n ≤ u.resid) (hroom : u.resid ≤ (iov.map Iovec.len).sum) :
    Ends (uiomoveIov iov ptr pos n) u
      (fun q w => q = u.kernelSide ptr pos n ∧ { u with iov := iov }.Advanced ptr pos n w)
      fun e w => e = .efault ∧ ¬ { u with iov := iov }.Good ∧ ∃ m < n, { u with iov := iov }.Advanced ptr pos m w := by
  induction iov generalizing u ptr pos n with
  | nil =>
    have hzero : u.resid = 0 := Nat.le_zero.mp hroom
    obtain rfl : n = 0 := by omega
    unfold uiomoveIov
    simp only [ends_bind, ends_update, ends_read, ends_require, ends_pure]
    exact ⟨.inl trivial, kernelSide_zero.symm, .refl⟩
  | cons v rest ih =>
    rw [List.map_cons, List.sum_cons] at hroom
    unfold uiomoveIov
    rw [ends_bind, ends_update, ends_bind, ends_read]
    by_cases hdone : n = 0
    · rw [if_pos (.inl hdone), ends_pure, hdone]
      exact ⟨kernelSide_zero.symm, .refl⟩
    · have hmore : ¬ (n = 0 ∨ u.resid = 0) := by omega
      rw [if_neg hmore]
      by_cases hempty : v.len = 0
      · rw [if_pos hempty]
        have hrest : u.resid ≤ (rest.map Iovec.len).sum := by omega
        have hskip : ∀ {m w}, { u with iov := rest }.Advanced ptr pos m w →
            { u with iov := v :: rest }.Advanced ptr pos m w := by
          intro m w hadv
          refine ⟨hadv.eq, hadv.space.trans ?_, fun hg => hadv.good fun v' hv' => hg v' (List.mem_cons_of_mem v hv')⟩
          simp only [space, List.map_cons, List.sum_cons, hempty, Nat.zero_add]
        apply (ih (u := { u with iov := v :: rest }) hn hrest).mono
        · rintro q w ⟨rfl, hadv⟩
          exact ⟨rfl, hskip hadv⟩
        · rintro e w ⟨rfl, hbad, m, hm, hadv⟩
          exact ⟨rfl, fun hg => hbad fun v' hv' => hg v' (List.mem_cons_of_mem v hv'), m, hm, hskip hadv⟩
      · rw [if_neg hempty]
        by_cases hfault : v.good < min v.len n
        · rw [if_pos hfault, ends_fail]
          refine ⟨rfl, fun hg => ?_, 0, by omega, .refl⟩
          have := hg v List.mem_cons_self
          omega
        · rw [if_neg hfault, ends_bind, ends_update]
          generalize hsize : min v.len n = size at hfault ⊢
          have hresid : sizeSub u.resid size = u.resid - size := if_pos (by omega)
          simp only [hresid]
          have hstep : { u with iov := v :: rest }.Advanced ptr pos size
              { u.advance ptr pos size with iov := ⟨v.len - size, v.good - size⟩ :: rest } := by
            refine ⟨⟨_, rfl⟩, ?_, fun hg v' hv' => ?_⟩
            · simp only [space, List.map_cons, List.sum_cons]
              omega
            · have hv := hg v List.mem_cons_self
              rcases List.mem_cons.mp hv' with rfl | hrest
              · exact Nat.sub_le_sub_right hv size
              · exact hg v' (List.mem_cons_of_mem v hrest)
          by_cases hlast : n = size
          · rw [if_pos (.inl hlast), ends_pure, hlast]
            exact ⟨rfl, hstep⟩
          · have hmore' : ¬ (n = size ∨ u.resid = size) := by omega
            have hrest : u.resid - size ≤ (rest.map Iovec.len).sum := by omega
            have hn' : n - size ≤ (u.advance ptr pos size).resid := Nat.sub_le_sub_right hn size
            have hsum : size + (n - size) = n := by omega
            rw [if_neg hmore']
            -- the current iovec is used up before the walk goes on
            have hused : v.len - size = 0 := by omega
            have hnext : ∀ {m w}, { u.advance ptr pos size with iov := rest }.Advanced (u.kernelSide ptr pos size)
                (pos + size) m w → { u with iov := v :: rest }.Advanced ptr pos (size + m) w := by
              intro m w hadv
              apply hstep.trans
              refine ⟨hadv.eq, hadv.space.trans ?_, fun hg => hadv.good fun v' hv' => hg v' (List.mem_cons_of_mem _ hv')⟩
              simp only [space, List.map_cons, List.sum_cons, hused, Nat.zero_add]
            apply (ih (u := { u.advance ptr pos size with iov := ⟨v.len - size, v.good - size⟩ :: rest }) hn'
              hrest).mono
            · rintro q w ⟨rfl, hadv⟩
              have hside := kernelSide_kernelSide u ptr pos size (n - size) (⟨v.len - size, v.good - size⟩ :: rest)
              have htrans := hnext hadv
              rw [hsum] at hside htrans
              exact ⟨hside, htrans⟩
            · rintro e w ⟨rfl, hbad, m, hm, hadv⟩
              exact ⟨rfl, fun hg => hbad fun v' hv' => hg v' (List.mem_cons_of_mem v hv'), size + m, by omega,
                hnext hadv⟩

theorem uiomove_ends (hn : n ≤ u.resid) (hroom : u.Room) (ptr : Bytes) (pos : ℕ) :
    Ends (uiomove ptr pos n) u (fun q w => q = u.kernelSide ptr pos n ∧ u.Advanced ptr pos n w)
      fun e w => e = .efault ∧ ¬ u.Good ∧ ∃ m < n, u.Advanced ptr pos m w := by
  unfold uiomove
  rw [ends_bind, ends_read]
  exact uiomoveIov_ends hn hroom

/-! ### Zeros -/

theorem uiomovezeros_ends (hrw : u.rw = .read) (hn : n ≤ u.resid) (hroom : u.Room) :
    Ends (uiomovezeros n) u (fun _ w => u.Advanced (fun _ => 0) 0 n w)
      fun e w => e = .efault ∧ ¬ u.Good ∧ ∃ m < n, u.Advanced (fun _ => 0) 0 m w := by
  have hpieces : min n (16 * ((n + 15) / 16)) = n := by omega
  unfold uiomovezeros
  rw [ends_bind, ends_read, ends_bind, ends_require]
  refine ⟨hrw, ?_⟩
  -- after `i` pieces the first `16 * i` bytes have been moved, or all of them
  apply (ends_loopBelow (P := fun i _ w => u.Advanced (fun _ => 0) 0 (min n (16 * i)) w) ?_ ?_).mono
  · intro _ w hw
    rw [hpieces] at hw
    exact hw
  · intro e w hw
    exact hw
  · rw [Nat.mul_zero, Nat.min_zero]
    exact .refl
  · intro i hi _ w hw
    have hside : u.kernelSide (fun _ => 0) 0 (min n (16 * i)) = fun _ => 0 := kernelSide_of_read hrw
    have hmore : ∀ m x, w.Advanced (fun _ => 0) 0 m x → u.Advanced (fun _ => 0) 0 (min n (16 * i) + m) x := by
      intro m x hx
      apply hw.trans
      rw [hside]
      exact hx.congr fun _ _ _ => rfl
    have hresid := hw.resid_eq
    rw [ends_bind]
    apply (uiomove_ends (u := w) (by omega) (hw.room (by omega) hroom) _ _).mono
    · rintro q x ⟨-, hx⟩
      rw [ends_pure]
      have hsum : min n (16 * i) + min 16 (n - 16 * i) = min n (16 * (i + 1)) := by omega
      rw [← hsum]
      exact hmore _ x hx
    · rintro e x ⟨rfl, hbad, m, hm, hx⟩
      exact ⟨rfl, fun hg => hbad (hw.good hg), min n (16 * i) + m, by omega, hmore m x hx⟩

/-! ### Moves that may stop -/

theorem uiomoveIov_nil : uiomoveIov [] ptr pos n u =
    if n = 0 ∨ u.resid = 0 then .ok ptr { u with iov := [] } else .stop (.panic "uiomove: ran out of buffers\n") := by
  unfold uiomoveIov
  simp only [bind_apply, Call.update, read_apply, Call.require]
  by_cases hdone : n = 0 ∨ u.resid = 0
  · simp only [if_pos hdone]
    rfl
  · simp only [if_neg hdone]
    rfl

theorem uiomoveIov_cons {v : Iovec} {rest : List Iovec} : uiomoveIov (v :: rest) ptr pos n u =
    if n = 0 ∨ u.resid = 0 then .ok ptr { u with iov := v :: rest }
    else if v.len = 0 then uiomoveIov rest ptr pos n { u with iov := v :: rest }
    else if v.good < min v.len n then .fail .efault { u with iov := v :: rest }
    else if n = min v.len n ∨ u.resid = min v.len n then .ok (u.kernelSide ptr pos (min v.len n))
      { u.advance ptr pos (min v.len n) with
        iov := ⟨v.len - min v.len n, v.good - min v.len n⟩ :: rest
        resid := sizeSub u.resid (min v.len n) }
    else uiomoveIov rest (u.kernelSide ptr pos (min v.len n)) (pos + min v.len n) (n - min v.len n)
      { u.advance ptr pos (min v.len n) with
        iov := ⟨v.len - min v.len n, v.good - min v.len n⟩ :: rest
        resid := sizeSub u.resid (min v.len n) } := by
  rw [uiomoveIov]
  simp only [bind_apply, Call.update, read_apply]
  split
  · rfl
  · split
    · rfl
    · split
      · rfl
      · simp only [bind_apply, Call.update]
        split <;> rfl

theorem uiomoveIov_or_stop : Ends (uiomoveIov iov ptr pos n) u
    (fun _ w => w.rw = u.rw ∧ u.moved ≤ w.moved ∧ (n ≠ 0 → u.resid ≠ 0 → u.moved < w.moved))
    (fun e w => e = .efault ∧ u.moved ≤ w.moved) True := by
  induction iov generalizing u ptr pos n with
  | nil =>
    unfold uiomoveIov
    simp only [ends_bind, ends_update, ends_read, ends_require_or_stop, ends_pure]
    exact fun hdone => ⟨trivial, Nat.le_refl _, fun hn hresid => (hdone.elim hn hresid).elim⟩
  | cons v rest ih =>
    unfold uiomoveIov
    rw [ends_bind, ends_update, ends_bind, ends_read, ends_ite, ends_pure]
    refine ⟨fun hdone => ⟨rfl, Nat.le_refl _, fun hn hresid => (hdone.elim hn hresid).elim⟩, fun hmore => ?_⟩
    by_cases hempty : v.len = 0
    · rw [if_pos hempty]
      exact ih (u := { u with iov := v :: rest })
    · have hlt : u.moved < u.moved + min v.len n := by omega
      rw [if_neg hempty, ends_ite, ends_fail, ends_bind, ends_update, ends_ite, ends_pure]
      refine ⟨fun _ => ⟨rfl, Nat.le_refl _⟩, fun _ => ⟨fun _ => ⟨rfl, Nat.le_of_lt hlt, fun _ _ => hlt⟩, fun _ => ?_⟩⟩
      apply ih.mono
      · rintro q w ⟨hrw, hle, -⟩
        have hw : u.moved < w.moved := Nat.lt_of_lt_of_le hlt hle
        exact ⟨hrw, Nat.le_of_lt hw, fun _ _ => hw⟩
      · rintro e w ⟨rfl, hle⟩
        exact ⟨rfl, Nat.le_trans (Nat.le_of_lt hlt) hle⟩

/-- **However a move ends**, nothing is taken back, and one that returns has moved something if there was something to
move. -/
theorem uiomove_or_stop (hn : n ≠ 0) (hresid : u.resid ≠ 0) : Ends (uiomove ptr pos n) u
    (fun _ w => w.rw = u.rw ∧ u.moved < w.moved) (fun e w => e = .efault ∧ u.moved ≤ w.moved) True := by
  unfold uiomove
  rw [ends_bind, ends_read]
  exact uiomoveIov_or_stop.mono (fun _ _ hw => ⟨hw.1, hw.2.2 hn hresid⟩) fun _ _ => id

/-! ### Requests for one byte -/

def readByte (offset : ℕ) : Uio := ⟨[⟨1, 1⟩], offset, 1, .read, fun _ => 0, 0⟩

def writeByte (offset : ℕ) (b : UInt8) : Uio := ⟨[⟨1, 1⟩], offset, 1, .write, fun _ => b, 0⟩

theorem readByte_good (offset : ℕ) : (readByte offset).Good := by
  intro iov hiov
  obtain rfl := List.mem_singleton.mp hiov
  exact Nat.le_refl 1

end Uio

end Os161Kernel
