import Os161Kernel.Uio

/-!
# What `uiomove` does with a request that is shorter than its buffers

The loop of `uiomove` takes from each iovec as much as it holds, up to the number of bytes asked for; `uio_resid` only
decides whether the loop goes on.  A caller whose buffers are longer than `uio_resid`, as those of `load_segment` are,
has it respected when no more than `uio_resid` bytes are asked for, or when some iovec ends exactly where the request
does.  In every other case the piece that crosses the end of the request is moved in full and `uio_resid` wraps around.
-/

namespace Os161Kernel

open Calls Memory

namespace Uio

variable {u w : Uio} {ptr q : Bytes} {pos n m : ℕ} {iov rest : List Iovec} {v : Iovec}

/-! ### The rest of the buffers -/

/-- The iovecs behind the first `m` bytes. -/
def dropBytes : ℕ → List Iovec → List Iovec
  | _, [] => []
  | m, v :: rest => if m < v.len then ⟨v.len - m, v.good - m⟩ :: rest else dropBytes (m - v.len) rest

/-- The iovecs that hold something. -/
def filled (iov : List Iovec) : List Iovec := iov.filter fun v => v.len ≠ 0

theorem filled_cons_empty (hempty : v.len = 0) : filled (v :: rest) = filled rest := by
  unfold filled
  rw [List.filter_cons_of_neg (by simp [hempty])]

theorem filled_dropBytes_zero (iov : List Iovec) : filled (dropBytes 0 iov) = filled iov := by
  induction iov with
  | nil => rfl
  | cons v rest ih =>
    unfold dropBytes
    by_cases hempty : v.len = 0
    · rw [if_neg (by omega), filled_cons_empty hempty, Nat.zero_sub]
      exact ih
    · rw [if_pos (by omega)]
      rfl

theorem dropBytes_of_le (h : v.len ≤ m) : dropBytes m (v :: rest) = dropBytes (m - v.len) rest := by
  rw [dropBytes, if_neg (Nat.not_lt.mpr h)]

theorem filled_piece (hle : m ≤ v.len) :
    filled (⟨v.len - m, v.good - m⟩ :: rest) = filled (dropBytes m (v :: rest)) := by
  by_cases hlt : m < v.len
  · rw [dropBytes, if_pos hlt]
  · have hm : m = v.len := Nat.le_antisymm hle (Nat.not_lt.mp hlt)
    subst hm
    rw [filled_cons_empty (Nat.sub_self _), dropBytes_of_le (Nat.le_refl _), Nat.sub_self]
    exact (filled_dropBytes_zero rest).symm

/-- **`m` bytes have been moved**, in order, between the kernel buffer, which is `q` afterwards, and the buffers of the
request, which is `w` afterwards: nothing else has changed, `uio_resid` and `uio_offset` have been advanced by `m`, and
the iovecs are those behind the first `m` bytes. -/
structure Transferred (u : Uio) (ptr : Bytes) (pos m : ℕ) (q : Bytes) (w : Uio) : Prop where
  kernel : q = u.kernelSide ptr pos m
  request : w = { u.advance ptr pos m with iov := w.iov }
  rest : filled w.iov = filled (dropBytes m u.iov)

theorem Transferred.moved_eq (h : u.Transferred ptr pos m q w) : w.moved = u.moved + m := by
  rw [h.request]
  rfl

theorem transferred_zero : u.Transferred ptr pos 0 ptr u where
  kernel := kernelSide_zero.symm
  request := by rw [advance_zero]
  rest := (filled_dropBytes_zero u.iov).symm

theorem transferred_piece (hle : m ≤ v.len) :
    { u with iov := v :: rest }.Transferred ptr pos m (u.kernelSide ptr pos m)
      { u.advance ptr pos m with iov := ⟨v.len - m, v.good - m⟩ :: rest } where
  kernel := rfl
  request := rfl
  rest := filled_piece hle

theorem Transferred.cons
    (h : { u.advance ptr pos v.len with iov := rest }.Transferred (u.kernelSide ptr pos v.len) (pos + v.len) m q w) :
    { u with iov := v :: rest }.Transferred ptr pos (v.len + m) q w where
  kernel := h.kernel.trans (kernelSide_kernelSide u ptr pos v.len m rest)
  request := by
    rw [h.request, advance_advance]
    rfl
  rest := by
    rw [h.rest, dropBytes_of_le (Nat.le_add_right _ _), Nat.add_sub_cancel_left]

/-! ### Requests that are respected -/

/-- Some iovec ends where the request does. -/
def EndsWithIovec (iov : List Iovec) (resid : ℕ) : Prop := ∃ k, ((iov.take k).map Iovec.len).sum = resid

theorem EndsWithIovec.cons_iff {resid : ℕ} (hresid : resid ≠ 0) :
    EndsWithIovec (v :: rest) resid ↔ v.len ≤ resid ∧ EndsWithIovec rest (resid - v.len) := by
  constructor
  · rintro ⟨k, hk⟩
    cases k with
    | zero => exact absurd hk.symm hresid
    | succ k =>
      rw [List.take_succ_cons, List.map_cons, List.sum_cons] at hk
      exact ⟨by omega, k, by omega⟩
  · rintro ⟨hle, k, hk⟩
    refine ⟨k + 1, ?_⟩
    rw [List.take_succ_cons, List.map_cons, List.sum_cons]
    omega

theorem uiomoveIov_transfers (hroom : u.resid ≤ (iov.map Iovec.len).sum) (hgood : ∀ v ∈ iov, v.len ≤ v.good)
    (hfits : n ≤ u.resid ∨ EndsWithIovec iov u.resid) :
    ∃ q w, uiomoveIov iov ptr pos n u = .ok q w ∧
      { u with iov := iov }.Transferred ptr pos (min n u.resid) q w := by
  induction iov generalizing u ptr pos n with
  | nil =>
    have hresid : u.resid = 0 := Nat.le_zero.mp hroom
    refine ⟨ptr, { u with iov := [] }, ?_, ?_⟩
    · rw [uiomoveIov_nil, if_pos (.inr hresid)]
    · rw [hresid, Nat.min_zero]
      exact transferred_zero
  | cons v rest ih =>
    rw [List.map_cons, List.sum_cons] at hroom
    have hgood' : ∀ v' ∈ rest, v'.len ≤ v'.good := fun v' hv' => hgood v' (List.mem_cons_of_mem v hv')
    rw [uiomoveIov_cons]
    by_cases hdone : n = 0 ∨ u.resid = 0
    · refine ⟨ptr, _, if_pos hdone, ?_⟩
      have hmin : min n u.resid = 0 := by omega
      rw [hmin]
      exact transferred_zero
    · rw [if_neg hdone, EndsWithIovec.cons_iff (by omega)] at *
      by_cases hempty : v.len = 0
      · -- an empty iovec is passed over
        rw [if_pos hempty]
        rw [hempty, Nat.sub_zero] at hfits
        have hroom' : u.resid ≤ (rest.map Iovec.len).sum := by omega
        have htail : ∃ q w, uiomoveIov rest ptr pos n { u with iov := v :: rest } = .ok q w ∧
            { u with iov := rest }.Transferred ptr pos (min n u.resid) q w :=
          ih (u := { u with iov := v :: rest }) hroom' hgood' (hfits.imp_right And.right)
        obtain ⟨q, w, hrun, htrans⟩ := htail
        refine ⟨q, w, hrun, htrans.kernel, htrans.request, ?_⟩
        rw [htrans.rest]
        show _ = filled (dropBytes _ (v :: rest))
        rw [dropBytes_of_le (by omega), hempty, Nat.sub_zero]
      · have hnofault : ¬ v.good < min v.len n := by
          have := hgood v List.mem_cons_self
          omega
        rw [if_neg hempty, if_neg hnofault]
        by_cases hlast : n ≤ v.len
        · -- the last piece
          have hle : n ≤ u.resid := by omega
          rw [Nat.min_eq_right hlast, if_pos (.inl rfl), Nat.min_eq_left hle]
          have hsub : sizeSub u.resid n = u.resid - n := if_pos hle
          rw [hsub]
          exact ⟨_, _, rfl, transferred_piece hlast⟩
        · have hle : v.len ≤ u.resid := by omega
          have hsub : sizeSub u.resid v.len = u.resid - v.len := if_pos hle
          have hmin : min v.len n = v.len := Nat.min_eq_left (by omega)
          rw [hmin, hsub]
          by_cases hend : u.resid = v.len
          · -- the request ends with this iovec
            rw [if_pos (.inr hend), Nat.min_eq_right (by omega), hend]
            have hpiece : { u with iov := v :: rest }.Transferred ptr pos v.len (u.kernelSide ptr pos v.len)
                { u.advance ptr pos v.len with iov := ⟨v.len - v.len, v.good - v.len⟩ :: rest } :=
              transferred_piece (Nat.le_refl v.len)
            rw [← hend] at hpiece ⊢
            exact ⟨_, _, rfl, hpiece⟩
          · rw [if_neg (by omega)]
            have hrest : n - v.len ≤ u.resid - v.len ∨ EndsWithIovec rest (u.resid - v.len) :=
              hfits.imp (fun h => Nat.sub_le_sub_right h _) And.right
            have htail : ∃ q w, uiomoveIov rest (u.kernelSide ptr pos v.len) (pos + v.len) (n - v.len)
                  { u.advance ptr pos v.len with iov := ⟨v.len - v.len, v.good - v.len⟩ :: rest } = .ok q w ∧
                { u.advance ptr pos v.len with iov := rest }.Transferred (u.kernelSide ptr pos v.len) (pos + v.len)
                  (min (n - v.len) (u.resid - v.len)) q w :=
              ih (u := { u.advance ptr pos v.len with iov := ⟨v.len - v.len, v.good - v.len⟩ :: rest })
                (Nat.sub_le_iff_le_add'.mpr hroom) hgood' hrest
            obtain ⟨q, w, hrun, htrans⟩ := htail
            have hsum : v.len + min (n - v.len) (u.resid - v.len) = min n u.resid := by omega
            refine ⟨q, w, hrun, ?_⟩
            rw [← hsum]
            exact Transferred.cons htrans

theorem uiomoveIov_exceeds (hn : u.resid < n) (hno : ¬ EndsWithIovec iov u.resid)
    (hrun : uiomoveIov iov ptr pos n u = .ok q w) : u.moved + u.resid < w.moved := by
  induction iov generalizing u ptr pos n with
  | nil =>
    have hresid : u.resid ≠ 0 := fun h => hno ⟨0, h.symm⟩
    rw [uiomoveIov_nil, if_neg (by omega)] at hrun
    exact nomatch hrun
  | cons v rest ih =>
    have hresid : u.resid ≠ 0 := fun h => hno ⟨0, h.symm⟩
    rw [EndsWithIovec.cons_iff hresid] at hno
    rw [uiomoveIov_cons, if_neg (by omega)] at hrun
    by_cases hempty : v.len = 0
    · rw [if_pos hempty] at hrun
      refine ih (u := { u with iov := v :: rest }) hn (fun hends => hno ⟨by omega, ?_⟩) hrun
      rw [hempty, Nat.sub_zero]
      exact hends
    · rw [if_neg hempty] at hrun
      split at hrun
      · exact nomatch hrun
      · by_cases hcross : u.resid < min v.len n
        · -- this piece crosses the end of the request
          split at hrun
          · obtain ⟨-, rfl⟩ := Reply.ok.inj hrun
            exact Nat.add_lt_add_left hcross u.moved
          · exact Nat.lt_of_lt_of_le (Nat.add_lt_add_left hcross u.moved) (uiomoveIov_or_stop.of_ok hrun).2.1
        · have hmin : min v.len n = v.len := Nat.min_eq_left (by omega)
          have hle : v.len ≤ u.resid := by omega
          have hne : u.resid ≠ v.len := by
            intro heq
            refine hno ⟨hle, 0, ?_⟩
            rw [heq, Nat.sub_self]
            rfl
          have hsub : sizeSub u.resid v.len = u.resid - v.len := if_pos hle
          rw [hmin, if_neg (by omega), hsub] at hrun
          have hless : u.resid - v.len < n - v.len := by omega
          have hmore := ih (u := { u.advance ptr pos v.len with iov := ⟨v.len - v.len, v.good - v.len⟩ :: rest }) hless
            (fun hends => hno ⟨hle, hends⟩) hrun
          have hmoved : u.moved + v.len + (u.resid - v.len) < w.moved := hmore
          omega

/-- **When `uiomove` moves what both sides allow.**  It moves the smaller of `n` and `uio_resid`, stops without a panic
and leaves the rest of the iovecs exactly when `n` is no more than `uio_resid`, or some iovec ends where the request
does. -/
theorem uiomove_transfers_iff (hroom : u.Room) (hgood : u.Good) :
    (∃ q w, uiomove ptr pos n u = .ok q w ∧ u.Transferred ptr pos (min n u.resid) q w) ↔
      n ≤ u.resid ∨ EndsWithIovec u.iov u.resid := by
  have hloop : uiomove ptr pos n u = uiomoveIov u.iov ptr pos n u := rfl
  rw [hloop]
  constructor
  · rintro ⟨q, w, hrun, htrans⟩
    by_contra hno
    have hexceeds := uiomoveIov_exceeds (Nat.not_le.mp fun h => hno (.inl h)) (fun h => hno (.inr h)) hrun
    have hmoved := htrans.moved_eq
    omega
  · exact uiomoveIov_transfers hroom hgood

/-- Two buffers of four bytes, an empty one between them, for a request of `resid` bytes. -/
def threeIovecs (resid : ℕ) : Uio := ⟨[⟨4, 4⟩, ⟨0, 0⟩, ⟨4, 4⟩], 0, resid, .read, fun _ => 0, 0⟩

theorem threeIovecs_good (resid : ℕ) : (threeIovecs resid).Good := by
  intro v hv
  have hcases : v = ⟨4, 4⟩ ∨ v = ⟨0, 0⟩ ∨ v = ⟨4, 4⟩ := by simpa [threeIovecs] using hv
  rcases hcases with rfl | rfl | rfl <;> exact Nat.le_refl _

/-- The first buffer is filled. -/
theorem uiomove_transfers_first_iovec :
    (threeIovecs 4).Room ∧ (threeIovecs 4).Good ∧
      ∃ q w, uiomove (fun _ => 7) 0 6 (threeIovecs 4) = .ok q w ∧ (threeIovecs 4).Transferred (fun _ => 7) 0 4 q w := by
  have hroom : (threeIovecs 4).Room := by
    show 4 ≤ 8
    decide
  exact ⟨hroom, threeIovecs_good 4, (uiomove_transfers_iff hroom (threeIovecs_good 4)).mpr (.inr ⟨1, rfl⟩)⟩

/-- **Six bytes are moved for a request of five**, and `uio_resid` says that four billion are left. -/
theorem uiomove_overruns_request :
    (threeIovecs 5).Room ∧ (threeIovecs 5).Good ∧ ∃ q w, uiomove (fun _ => 7) 0 6 (threeIovecs 5) = .ok q w ∧
      w.moved = 6 ∧ w.offset = 6 ∧ w.resid = 2 ^ 32 - 1 := by
  have hrun : (uiomove (fun _ => 7) 0 6 (threeIovecs 5)).returnedIn
      (fun _ w => decide (w.moved = 6 ∧ w.offset = 6 ∧ w.resid = 2 ^ 32 - 1)) = true := by
    decide +kernel
  obtain ⟨q, w, hrun, hw⟩ := Reply.ok_of_returnedIn hrun
  refine ⟨?_, threeIovecs_good 5, q, w, hrun, of_decide_eq_true hw⟩
  show 5 ≤ 8
  decide

end Uio

end Os161Kernel
