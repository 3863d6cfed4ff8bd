import Os161Kernel.FrameMoves
import Os161Kernel.Boot

/-!
# How many frames a request finds

`check_free_frame` is meant to count the frames on the list up to the number that is asked for.  Its loop compares the
link of the first node with `NULL` in every round and never goes on to the next node, so that a list of two frames
passes for one of any length.
-/

namespace Os161Kernel

open StateProg

section CheckFreeFrame

variable {s : Kernel} {npages : ℕ}

/-- **`check_free_frame` counts the frames** up to the number asked for exactly when there are that many, or when there
is at most one and the list ends there. -/
theorem check_free_frame_counts_iff (hn : 1 ≤ npages) :
    checkFreeFrame npages s = .ok (min npages s.frameList.length) s ↔
      npages ≤ s.frameList.length ∨ (s.frameList.length ≤ 1 ∧ s.frameListEnd = 0) := by
  match hl : s.frameList with
  | [] =>
    rw [checkFreeFrame_of_nil hl, List.length_nil, Nat.min_zero]
    by_cases hend : s.frameListEnd = 0
    · simp [hend]
    · rw [if_neg hend]
      split
      · simp [hend]
        omega
      · simp [hend]
        omega
  | [node] =>
    rw [checkFreeFrame_of_single hl, List.length_singleton]
    by_cases hend : s.frameListEnd = 0
    · simp [hend, Nat.min_eq_right hn]
    · simp [hend, Nat.max_eq_right hn, Nat.min_eq_right hn]
      omega
  | node :: node' :: rest =>
    rw [checkFreeFrame_of_two hl, Nat.max_eq_right hn]
    simp only [List.length_cons, Outcome.ok.injEq, and_true]
    omega

end CheckFreeFrame

/-- A machine with two frames on its list. -/
def twoFrames : Kernel := { Kernel.blank 0 0 noRam_le with frameList := [⟨5, 0x80004000⟩, ⟨6, 0x80004010⟩] }

theorem check_free_frame_counts_two : 1 ≤ 2 ∧ checkFreeFrame 2 twoFrames = .ok 2 twoFrames :=
  ⟨by decide, (check_free_frame_counts_iff (by decide)).mpr (.inl (by decide))⟩

/-- **Two frames are taken for three.** -/
theorem check_free_frame_overcounts :
    twoFrames.frameList.length = 2 ∧ twoFrames.frameListEnd = 0 ∧ checkFreeFrame 3 twoFrames = .ok 3 twoFrames :=
  ⟨rfl, rfl, checkFreeFrame_of_two rfl⟩

end Os161Kernel
