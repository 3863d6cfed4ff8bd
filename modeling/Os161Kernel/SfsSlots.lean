import Os161Kernel.SfsVnodes
import Mathlib.Data.Finset.Card
import Mathlib.Data.List.GetD

/-!
# Directory slots

What writing one slot does to a directory: to the slots in use, the names, the pairs of a name and an inode, and the
number of slots that hold an inode.
-/

namespace Os161Kernel

open Memory

/-! ### Directory entries -/

namespace Direntry

variable {sd sd' : Bytes} {n : ℕ} {name : List UInt8}

theorem ino_congr (h : ∀ k < 64, sd k = sd' k) : ino sd = ino sd' :=
  load32_congr fun k hk => h (0 + k) (by omega)

theorem name_congr (h : ∀ k < 64, sd k = sd' k) : Direntry.name sd = Direntry.name sd' := by
  unfold Direntry.name
  congr 1
  apply List.map_congr_left
  intro k hk
  have := List.mem_range.mp hk
  exact h (4 + k) (by omega)

theorem ino_make : ino (make n name) = n % 2 ^ 32 := by
  unfold ino make
  rw [load32_overlay_outside (.inl (by omega)), load32_store32]

theorem ino_make_zero : ino (make 0 []) = 0 := ino_make

theorem make_at {k : ℕ} : make n name (4 + k) = name.getD k 0 := by
  unfold make
  by_cases hk : k < name.length
  · exact overlay_at hk
  · rw [overlay_outside (.inr (by omega)), store32, overlay_outside (.inr (by omega)), List.getD_eq_default _ _ (by omega)]

theorem name_make (hlen : name.length ≤ 59) (hnul : 0 ∉ name) : Direntry.name (make n name) = name := by
  have hbytes : (List.range 59).map (fun k => make n name (4 + k)) = name ++ List.replicate (59 - name.length) 0 := by
    apply List.ext_getElem
    · simp
      omega
    · intro k hk _
      rw [List.getElem_map, List.getElem_range, make_at]
      by_cases hlt : k < name.length
      · rw [List.getElem_append_left hlt, List.getD_eq_getElem _ _ hlt]
      · rw [List.getElem_append_right (by omega), List.getElem_replicate, List.getD_eq_default _ _ (by omega)]
  unfold Direntry.name
  rw [hbytes, List.takeWhile_append_of_pos]
  · cases 59 - name.length with
    | zero => simp
    | succ m => simp [List.replicate_succ]
  · intro c hc
    have hne : c ≠ 0 := fun heq => hnul (heq ▸ hc)
    simpa using hne

end Direntry

namespace SfsFile

variable {f : SfsFile} {i j n : ℕ} {sd : Bytes}

/-! ### Writing a slot -/

/-- The directory with one slot written. -/
def withSlot (f : SfsFile) (i : ℕ) (sd : Bytes) : SfsFile :=
  { f with size := max f.size (64 * (i + 1)), bytes := overlay f.bytes (64 * i) 64 sd }

theorem slotIno_withSlot_self : (f.withSlot i sd).slotIno i = Direntry.ino sd :=
  Direntry.ino_congr fun _ hk => overlay_at hk

theorem slotName_withSlot_self : (f.withSlot i sd).slotName i = Direntry.name sd :=
  Direntry.name_congr fun _ hk => overlay_at hk

theorem slotIno_withSlot_of_ne (hne : j ≠ i) : (f.withSlot i sd).slotIno j = f.slotIno j :=
  Direntry.ino_congr fun _ _ => overlay_outside (by omega)

theorem slotName_withSlot_of_ne (hne : j ≠ i) : (f.withSlot i sd).slotName j = f.slotName j :=
  Direntry.name_congr fun _ _ => overlay_outside (by omega)

theorem nentries_withSlot (hsize : f.size % 64 = 0) : (f.withSlot i sd).nentries = max f.nentries (i + 1) := by
  show max f.size (64 * (i + 1)) / 64 = max (f.size / 64) (i + 1)
  omega

theorem usedSlot_withSlot_self (hsize : f.size % 64 = 0) : (f.withSlot i sd).UsedSlot i ↔ Direntry.ino sd ≠ 0 := by
  unfold UsedSlot
  rw [nentries_withSlot hsize, slotIno_withSlot_self]
  exact and_iff_right (by omega)

theorem usedSlot_withSlot_of_ne (hsize : f.size % 64 = 0) (hi : i ≤ f.nentries) (hne : j ≠ i) :
    (f.withSlot i sd).UsedSlot j ↔ f.UsedSlot j := by
  unfold UsedSlot
  rw [nentries_withSlot hsize, slotIno_withSlot_of_ne hne]
  exact and_congr_left fun _ => by omega

/-! ### The contents of a directory -/

/-- No two slots in use hold the same name, and none holds the root. -/
structure NamesOk (f : SfsFile) : Prop where
  unique : ∀ i j, f.UsedSlot i → f.UsedSlot j → f.slotName i = f.slotName j → i = j
  noRoot : ∀ i, f.UsedSlot i → f.slotIno i ≠ 1

/-- The names of the directory, each with its inode. -/
def pairs (f : SfsFile) : Set (List UInt8 × ℕ) :=
  { q | ∃ i, f.UsedSlot i ∧ f.slotName i = q.1 ∧ f.slotIno i = q.2 }

/-- The slots in use that hold an inode. -/
def slotsOf (f : SfsFile) (n : ℕ) : Finset ℕ :=
  (Finset.range f.nentries).filter fun i => f.UsedSlot i ∧ f.slotIno i = n

/-- The number of slots in use that hold an inode. -/
def slotCount (f : SfsFile) (n : ℕ) : ℕ := (f.slotsOf n).card

theorem mem_slotsOf : i ∈ f.slotsOf n ↔ f.UsedSlot i ∧ f.slotIno i = n := by
  unfold slotsOf
  rw [Finset.mem_filter, Finset.mem_range]
  exact and_iff_right_of_imp fun h => h.1.1

theorem slotCount_eq_zero : f.slotCount n = 0 ↔ ¬ f.Holds n := by
  unfold slotCount Holds
  rw [Finset.card_eq_zero, Finset.eq_empty_iff_forall_notMem]
  simp only [mem_slotsOf, not_exists]

theorem slotCount_le (f : SfsFile) (n : ℕ) : f.slotCount n ≤ f.nentries := by
  unfold slotCount slotsOf
  apply (Finset.card_filter_le _ _).trans
  rw [Finset.card_range]

section Link

variable {name : List UInt8} (hsize : f.size % 64 = 0) (hi : i ≤ f.nentries) (hfree : ¬ f.UsedSlot i)
  (hino : Direntry.ino sd = n) (hn : n ≠ 0)

include hsize hi hfree hino hn

/-! ### A name is added in a free slot -/

theorem usedSlot_link : (f.withSlot i sd).UsedSlot j ↔ j = i ∨ f.UsedSlot j := by
  by_cases hji : j = i
  · subst hji
    rw [usedSlot_withSlot_self hsize, hino]
    tauto
  · rw [usedSlot_withSlot_of_ne hsize hi hji]
    tauto

theorem holds_link {m : ℕ} : (f.withSlot i sd).Holds m ↔ m = n ∨ f.Holds m := by
  constructor
  · rintro ⟨j, hj, rfl⟩
    by_cases hji : j = i
    · rw [hji, slotIno_withSlot_self, hino]
      exact .inl rfl
    · rw [slotIno_withSlot_of_ne hji]
      exact .inr ⟨j, (usedSlot_withSlot_of_ne hsize hi hji).mp hj, rfl⟩
  · rintro (rfl | ⟨j, hj, rfl⟩)
    · exact ⟨i, (usedSlot_link hsize hi hfree hino hn).mpr (.inl rfl), slotIno_withSlot_self.trans hino⟩
    · have hji : j ≠ i := fun heq => hfree (heq ▸ hj)
      exact ⟨j, (usedSlot_link hsize hi hfree hino hn).mpr (.inr hj), slotIno_withSlot_of_ne hji⟩

theorem slotCount_link_self : (f.withSlot i sd).slotCount n = f.slotCount n + 1 := by
  have hslots : (f.withSlot i sd).slotsOf n = insert i (f.slotsOf n) := by
    ext j
    rw [Finset.mem_insert, mem_slotsOf, mem_slotsOf, usedSlot_link hsize hi hfree hino hn]
    by_cases hji : j = i
    · subst hji
      simp [slotIno_withSlot_self, hino]
    · rw [slotIno_withSlot_of_ne hji]
      tauto
  have hnot : i ∉ f.slotsOf n := fun hmem => hfree (mem_slotsOf.mp hmem).1
  unfold slotCount
  rw [hslots, Finset.card_insert_of_notMem hnot]

theorem slotCount_link_of_ne {m : ℕ} (hm : m ≠ n) : (f.withSlot i sd).slotCount m = f.slotCount m := by
  unfold slotCount
  congr 1
  ext j
  rw [mem_slotsOf, mem_slotsOf, usedSlot_link hsize hi hfree hino hn]
  by_cases hji : j = i
  · subst hji
    rw [slotIno_withSlot_self, hino]
    exact ⟨fun h => absurd h.2.symm hm, fun h => absurd h.1 hfree⟩
  · rw [slotIno_withSlot_of_ne hji]
    tauto

theorem pairs_link (hname : Direntry.name sd = name) : (f.withSlot i sd).pairs = insert (name, n) f.pairs := by
  ext ⟨a, m⟩
  show (∃ j, _ ∧ _ = a ∧ _ = m) ↔ (a, m) = (name, n) ∨ ∃ j, f.UsedSlot j ∧ f.slotName j = a ∧ f.slotIno j = m
  constructor
  · rintro ⟨j, hj, rfl, rfl⟩
    by_cases hji : j = i
    · rw [hji, slotIno_withSlot_self, slotName_withSlot_self, hino, hname]
      exact .inl rfl
    · rw [slotIno_withSlot_of_ne hji, slotName_withSlot_of_ne hji]
      exact .inr ⟨j, (usedSlot_withSlot_of_ne hsize hi hji).mp hj, rfl, rfl⟩
  · rintro (heq | ⟨j, hj, rfl, rfl⟩)
    · obtain ⟨rfl, rfl⟩ := Prod.mk.inj heq
      exact ⟨i, (usedSlot_link hsize hi hfree hino hn).mpr (.inl rfl), slotName_withSlot_self.trans hname,
        slotIno_withSlot_self.trans hino⟩
    · have hji : j ≠ i := fun heq => hfree (heq ▸ hj)
      exact ⟨j, (usedSlot_link hsize hi hfree hino hn).mpr (.inr hj), slotName_withSlot_of_ne hji,
        slotIno_withSlot_of_ne hji⟩

/-- **A new name keeps the names apart.** -/
theorem NamesOk.link (hok : f.NamesOk) (hname : Direntry.name sd = name) (hroot : n ≠ 1)
    (hnew : ∀ j, f.UsedSlot j → f.slotName j ≠ name) : (f.withSlot i sd).NamesOk where
  unique j j' hj hj' heq := by
    rw [usedSlot_link hsize hi hfree hino hn] at hj hj'
    by_cases hji : j = i
    · by_cases hji' : j' = i
      · rw [hji, hji']
      · rw [hji, slotName_withSlot_self, hname, slotName_withSlot_of_ne hji'] at heq
        exact absurd heq.symm (hnew j' (hj'.resolve_left hji'))
    · by_cases hji' : j' = i
      · rw [hji', slotName_withSlot_self, hname, slotName_withSlot_of_ne hji] at heq
        exact absurd heq (hnew j (hj.resolve_left hji))
      · rw [slotName_withSlot_of_ne hji, slotName_withSlot_of_ne hji'] at heq
        exact hok.unique j j' (hj.resolve_left hji) (hj'.resolve_left hji') heq
  noRoot j hj := by
    rw [usedSlot_link hsize hi hfree hino hn] at hj
    by_cases hji : j = i
    · rw [hji, slotIno_withSlot_self, hino]
      exact hroot
    · rw [slotIno_withSlot_of_ne hji]
      exact hok.noRoot j (hj.resolve_left hji)

end Link

section Unlink

variable (hsize : f.size % 64 = 0) (hused : f.UsedSlot i) (hino : Direntry.ino sd = 0)

include hsize hused hino

/-! ### A slot is cleared -/

theorem usedSlot_unlink : (f.withSlot i sd).UsedSlot j ↔ j ≠ i ∧ f.UsedSlot j := by
  by_cases hji : j = i
  · subst hji
    rw [usedSlot_withSlot_self hsize, hino]
    tauto
  · rw [usedSlot_withSlot_of_ne hsize (Nat.le_of_lt hused.1) hji]
    tauto

theorem holds_of_unlink {m : ℕ} (h : (f.withSlot i sd).Holds m) : f.Holds m := by
  obtain ⟨j, hj, rfl⟩ := h
  obtain ⟨hji, hj'⟩ := (usedSlot_unlink hsize hused hino).mp hj
  exact ⟨j, hj', (slotIno_withSlot_of_ne hji).symm⟩

theorem holds_unlink {m : ℕ} (h : f.Holds m) : (f.withSlot i sd).Holds m ∨ m = f.slotIno i := by
  obtain ⟨j, hj, rfl⟩ := h
  by_cases hji : j = i
  · exact .inr (hji ▸ rfl)
  · exact .inl ⟨j, (usedSlot_unlink hsize hused hino).mpr ⟨hji, hj⟩, slotIno_withSlot_of_ne hji⟩

theorem slotsOf_unlink (m : ℕ) : (f.withSlot i sd).slotsOf m = (f.slotsOf m).erase i := by
  ext j
  rw [Finset.mem_erase, mem_slotsOf, mem_slotsOf, usedSlot_unlink hsize hused hino]
  by_cases hji : j = i
  · simp [hji]
  · rw [slotIno_withSlot_of_ne hji]
    tauto

theorem slotCount_unlink_self : (f.withSlot i sd).slotCount (f.slotIno i) + 1 = f.slotCount (f.slotIno i) := by
  have hmem : i ∈ f.slotsOf (f.slotIno i) := mem_slotsOf.mpr ⟨hused, rfl⟩
  unfold slotCount
  rw [slotsOf_unlink hsize hused hino]
  exact Finset.card_erase_add_one hmem

theorem slotCount_unlink_of_ne {m : ℕ} (hm : m ≠ f.slotIno i) : (f.withSlot i sd).slotCount m = f.slotCount m := by
  unfold slotCount
  rw [slotsOf_unlink hsize hused hino, Finset.erase_eq_of_notMem]
  intro hmem
  exact hm (mem_slotsOf.mp hmem).2.symm

theorem pairs_unlink (hok : f.NamesOk) : (f.withSlot i sd).pairs = f.pairs \ {(f.slotName i, f.slotIno i)} := by
  ext ⟨a, m⟩
  show (∃ j, _ ∧ _ = a ∧ _ = m) ↔ (∃ j, f.UsedSlot j ∧ f.slotName j = a ∧ f.slotIno j = m) ∧ _
  rw [Set.mem_singleton_iff]
  constructor
  · rintro ⟨j, hj, rfl, rfl⟩
    obtain ⟨hji, hj'⟩ := (usedSlot_unlink hsize hused hino).mp hj
    rw [slotIno_withSlot_of_ne hji, slotName_withSlot_of_ne hji]
    refine ⟨⟨j, hj', rfl, rfl⟩, fun heq => ?_⟩
    exact hji (hok.unique j i hj' hused (Prod.mk.inj heq).1)
  · rintro ⟨⟨j, hj, rfl, rfl⟩, hne⟩
    have hji : j ≠ i := by
      rintro rfl
      exact hne rfl
    exact ⟨j, (usedSlot_unlink hsize hused hino).mpr ⟨hji, hj⟩, slotName_withSlot_of_ne hji, slotIno_withSlot_of_ne hji⟩

theorem NamesOk.unlink (hok : f.NamesOk) : (f.withSlot i sd).NamesOk where
  unique j j' hj hj' heq := by
    obtain ⟨hji, hj⟩ := (usedSlot_unlink hsize hused hino).mp hj
    obtain ⟨hji', hj'⟩ := (usedSlot_unlink hsize hused hino).mp hj'
    rw [slotName_withSlot_of_ne hji, slotName_withSlot_of_ne hji'] at heq
    exact hok.unique j j' hj hj' heq
  noRoot j hj := by
    obtain ⟨hji, hj⟩ := (usedSlot_unlink hsize hused hino).mp hj
    rw [slotIno_withSlot_of_ne hji]
    exact hok.noRoot j hj

end Unlink

end SfsFile

end Os161Kernel
