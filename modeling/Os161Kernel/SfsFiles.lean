import Os161Kernel.SfsLinks

/-!
# Truncating files

`vop_truncate` promises that the file is cut to the given length.  `TruncatedTo` says what that is for the blocks of the
file and the free map; `sfs_itrunc` keeps the promise except where its two loops disagree about the first block past the
end.
-/

namespace Os161Kernel

open Calls Memory Runs

-- Specifications are used through their rules; unfolding them would run the loops.
attribute [local irreducible] Ends

namespace Sfs

variable {s t : Sfs} {ino h b k n : ℕ} {E : Errno → Sfs → Prop}

/-- The file has its first `n` blocks and no others; what it has lost is free, and nothing else has become so except an
indirect block that maps nothing any more. -/
structure TruncatedTo (own n : ℕ) (s t : Sfs) : Prop where
  kept : ∀ k < n, t.fileBlock own k = s.fileBlock own k
  gone : ∀ k, n ≤ k → t.fileBlock own k = 0
  freed : ∀ b, t.freemap b = false ↔ s.freemap b = false ∨
    b ≠ 0 ∧ ((∃ k, n ≤ k ∧ s.fileBlock own k = b) ∨ b = s.ptr own .indirect ∧ ∀ k, 15 ≤ k → t.fileBlock own k = 0)

/-- The first block past the end is a direct one or not there; and an indirect block that the second loop does not look
at maps something. -/
def ClearEnd (s : Sfs) (own n : ℕ) : Prop :=
  (15 ≤ n → s.fileBlock own n = 0) ∧
    (142 ≤ n → s.ptr own .indirect ≠ 0 → ∃ k, 15 ≤ k ∧ s.fileBlock own k ≠ 0)

theorem discards_iff : Discards n k ↔ n ≤ k ∧ ¬ (k = n ∧ 15 ≤ n) := by
  unfold Discards
  omega

theorem Trimmed.no_entry_iff (htr : Trimmed ino n s t) :
    (∀ k, 15 ≤ k → t.fileBlock ino k = 0) ↔ ∀ k, 15 ≤ k → s.fileBlock ino k = 0 ∨ n < k := by
  refine forall₂_congr fun k hk => ?_
  have hd : Discards n k ↔ n < k := by
    unfold Discards
    omega
  rw [htr.block k, if_congr hd rfl rfl]
  by_cases hnk : n < k
  · simp [hnk]
  · simp [hnk]

theorem Trimmed.truncatedTo (htr : Trimmed ino n s t) (hfar : ∀ k, 143 ≤ k → s.fileBlock ino k = 0)
    (hclear : ClearEnd s ino n) : TruncatedTo ino n s t where
  kept k hk := by
    rw [htr.block k, if_neg fun hd => Nat.not_le.mpr hk hd.1]
  gone k hk := by
    rw [htr.block k]
    by_cases hd : Discards n k
    · rw [if_pos hd]
    · obtain ⟨rfl, hge⟩ : k = n ∧ 15 ≤ n := by
        by_contra hno
        exact hd (discards_iff.mpr ⟨hk, hno⟩)
      rw [if_neg hd, hclear.1 hge]
  freed b := by
    have hblocks : b ≠ 0 → ((∃ k, Discards n k ∧ s.fileBlock ino k = b) ↔ ∃ k, n ≤ k ∧ s.fileBlock ino k = b) := by
      intro hb
      refine ⟨fun ⟨k, hd, hkb⟩ => ⟨k, hd.1, hkb⟩, fun ⟨k, hk, hkb⟩ => ⟨k, discards_iff.mpr ⟨hk, fun hlast => ?_⟩, hkb⟩⟩
      obtain ⟨rfl, hge⟩ := hlast
      exact hb (hkb.symm.trans (hclear.1 hge))
    have hindirect : b ≠ 0 → (s.ptr ino .indirect = b ∧ Empties s ino n ↔
        b = s.ptr ino .indirect ∧ ∀ k, 15 ≤ k → t.fileBlock ino k = 0) := by
      intro hb
      rw [eq_comm, htr.no_entry_iff]
      refine and_congr_right fun hid => ⟨fun he => he.2, fun hall => ⟨?_, hall⟩⟩
      by_contra hlong
      obtain ⟨k, hk, hkb⟩ := hclear.2 (by omega) (hid ▸ hb)
      have hn := (hall k hk).resolve_left hkb
      exact hkb (hfar k (by omega))
    rw [htr.freed b]
    exact or_congr_right (and_congr_right fun hb => or_congr (hblocks hb) (hindirect hb))

theorem Trimmed.block_end (htr : Trimmed ino n s t) (hn : 15 ≤ n) : t.fileBlock ino n = s.fileBlock ino n := by
  rw [htr.block n, if_neg fun hd => Nat.lt_irrefl n (hd.2 hn)]

theorem TruncatedTo.clearEnd (htt : TruncatedTo ino n s t) (htr : Trimmed ino n s t) (ha : s.Acct) (hl : s.Live ino) :
    ClearEnd s ino n := by
  constructor
  · intro hn
    rw [← htr.block_end hn]
    exact htt.gone n (Nat.le_refl n)
  · intro hn hid
    by_contra hno
    have hempty : ∀ k, 15 ≤ k → s.fileBlock ino k = 0 := by
      intro k hk
      by_contra hkb
      exact hno ⟨k, hk, hkb⟩
    have hgone := htr.no_entry_iff.mpr fun k hk => .inl (hempty k hk)
    -- the promise makes the indirect block free, but truncation does not
    have hfree := (htt.freed (s.ptr ino .indirect)).mpr (.inr ⟨hid, .inr ⟨rfl, hgone⟩⟩)
    rcases (htr.freed _).mp hfree with hold | ⟨-, ⟨k, -, hkb⟩ | ⟨-, he⟩⟩
    · exact not_used_of_free hold (ha.ptr_used hl hid)
    · exact Ptr.block_ne_indirect k (ha.ptr_inj hl hl hid hkb).2
    · exact absurd he.1 (by omega)

theorem blocklen_natCast {len : ℕ} (hlen : len ≤ 73216) : blocklen (len : Int) = (len + 511) / 512 := by
  unfold blocklen
  rw [Int.tdiv_eq_ediv_of_nonneg (by omega)]
  omega

/-- **Truncation discards exactly the blocks past the new end** when the first of them is a direct block or not there,
and when an indirect block that is not looked at maps something; and only then. -/
theorem itrunc_exact_iff {len : ℕ} (ha : s.Acct) (hh : h ∈ s.vnodes) (hfile : (s.sv h).ino ≠ 1) (hlen : len ≤ 73216) :
    Ends (itrunc h len) s (fun _ t => TruncatedTo (s.sv h).ino ((len + 511) / 512) s t) (fun _ _ => False) ↔
      ClearEnd s (s.sv h).ino ((len + 511) / 512) := by
  obtain ⟨⟨⟩, t, hrun, htr, -⟩ := (itrunc_ends ha hh hfile len).exists_ok
  rw [blocklen_natCast hlen] at htr
  rw [ends_of_ok_iff hrun]
  exact ⟨fun htt => htt.clearEnd htr ha (live_of_mem hh), htr.truncatedTo fun k => fileBlock_of_ge ha.toTableOk hh⟩

theorem exists_mapped (k : ℕ)
    (hk : ((follow dirStep [.creat 0 (letter 97 (by decide)) false .plenty] (emptyVolume 32)).any fun s =>
      decide (1 ∈ s.vnodes ∧ (s.sv 1).ino ≠ 1) && (bmap 1 k true s).returned) = true) :
    ∃ s : Sfs, s.Acct ∧ 1 ∈ s.vnodes ∧ (s.sv 1).ino ≠ 1 ∧ s.fileBlock (s.sv 1).ino k ≠ 0 := by
  obtain ⟨s, hs, hp⟩ := exists_reaches_of_follow dirStep (· = emptyVolume 32) (emptyVolume 32) _ _ rfl hk
  obtain ⟨hfile, hret⟩ := Bool.and_eq_true_iff.mp hp
  obtain ⟨hmem, hne⟩ := of_decide_eq_true hfile
  obtain ⟨b, t, hok⟩ := Reply.ok_of_returned hret
  have hstart : (emptyVolume 32).Consistent := consistent_emptyVolume (by decide) (by decide)
  have hc : s.Consistent := hs.invariant (fun _ heq => heq ▸ hstart) fun _ _ _ hc hstep => hc.dirStep hstep
  obtain ⟨hg, hb, hnz, -⟩ := (bmap_alloc_ends hc.toAcct hmem k).of_ok hok
  have hino : (t.sv 1).ino = (s.sv 1).ino := hg.same.ino 1
  refine ⟨t, hg.acct, hg.mem hmem, hino ▸ hne, ?_⟩
  rw [hino, hb]
  exact hnz

/-- A file loses its second block. -/
theorem itrunc_exact_direct : ∃ s t : Sfs, s.Acct ∧ 1 ∈ s.vnodes ∧ (s.sv 1).ino ≠ 1 ∧
    s.fileBlock (s.sv 1).ino 1 ≠ 0 ∧ itrunc 1 (512 : ℕ) s = .ok () t ∧ TruncatedTo (s.sv 1).ino 1 s t := by
  obtain ⟨s, ha, hmem, hne, hblock⟩ := exists_mapped 1 (by decide +kernel)
  have hclear : ClearEnd s (s.sv 1).ino ((512 + 511) / 512) := ⟨by omega, by omega⟩
  obtain ⟨⟨⟩, t, hrun, htt⟩ := ((itrunc_exact_iff ha hmem hne (by decide)).mpr hclear).exists_ok
  exact ⟨s, t, ha, hmem, hne, hblock, hrun, htt⟩

/-- A file whose only block is its sixteenth is cut to fifteen blocks and keeps the sixteenth. -/
theorem itrunc_keeps_block_past_end : ∃ s t : Sfs, s.Acct ∧ 1 ∈ s.vnodes ∧ (s.sv 1).ino ≠ 1 ∧
    itrunc 1 (7680 : ℕ) s = .ok () t ∧ t.fileBlock (s.sv 1).ino 15 ≠ 0 ∧ ¬ TruncatedTo (s.sv 1).ino 15 s t := by
  obtain ⟨s, ha, hmem, hne, hblock⟩ := exists_mapped 15 (by decide +kernel)
  obtain ⟨⟨⟩, t, hrun, htr, -⟩ := (itrunc_ends ha hmem hne (7680 : ℕ)).exists_ok
  rw [blocklen_natCast (by decide)] at htr
  have hkept : t.fileBlock (s.sv 1).ino 15 ≠ 0 := by
    rw [htr.block_end (by decide)]
    exact hblock
  exact ⟨s, t, ha, hmem, hne, hrun, hkept, fun htt => hkept (htt.gone 15 (Nat.le_refl 15))⟩

end Sfs

end Os161Kernel
