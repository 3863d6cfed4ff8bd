import Os161Kernel.SfsContents

/-!
# Files as byte arrays

What a file is for: a list of bytes.  A write splices bytes in, after zeros if it begins beyond the end; a read returns
a part.  A file that has been created and since then only been read and written is such an array, because what lies in
its blocks beyond the end is 0.
-/

namespace Os161Kernel

open Calls Memory Runs

-- Specifications are used through their rules; unfolding them would run the loops.
attribute [local irreducible] Ends

/-! ### Arrays -/

/-- The first `n` values of a function. -/
def table {α : Type} (f : ℕ → α) (n : ℕ) : List α := (List.range n).map f

/-- The bytes `d` replace those at `o`; an array that ends before `o` is extended by zeros. -/
def splice (l : List UInt8) (o : ℕ) (d : List UInt8) : List UInt8 :=
  (l ++ List.replicate (o - l.length) 0).take o ++ d ++ l.drop (o + d.length)

section Arrays

variable {f g : ℕ → UInt8} {size o n i : ℕ}

theorem length_table : (table f n).length = n := by
  unfold table
  rw [List.length_map, List.length_range]

theorem table_congr (h : ∀ i < n, f i = g i) : table f n = table g n :=
  List.map_congr_left fun i hi => h i (List.mem_range.mp hi)

theorem table_add (f : ℕ → UInt8) (n m : ℕ) : table f (n + m) = table f n ++ table (fun i => f (n + i)) m := by
  unfold table
  rw [List.range_add, List.map_append, List.map_map]
  rfl

theorem take_table : (table f size).take o = table f (min o size) := by
  by_cases h : o ≤ size
  · obtain ⟨k, rfl⟩ := Nat.exists_eq_add_of_le h
    rw [table_add, List.take_left' length_table, Nat.min_eq_left h]
  · rw [List.take_of_length_le (by rw [length_table]; omega), Nat.min_eq_right (by omega)]

theorem drop_table : (table f size).drop o = table (fun i => f (o + i)) (size - o) := by
  by_cases h : o ≤ size
  · obtain ⟨k, rfl⟩ := Nat.exists_eq_add_of_le h
    rw [table_add, List.drop_left' length_table, Nat.add_sub_cancel_left]
  · rw [List.drop_eq_nil_of_le (by rw [length_table]; omega), Nat.sub_eq_zero_of_le (by omega)]
    rfl

theorem table_append_zeros (hzero : ∀ p, size ≤ p → f p = 0) :
    table f size ++ List.replicate n 0 = table f (size + n) := by
  have hzeros : table (fun i => f (size + i)) n = List.replicate n 0 := by
    unfold table
    rw [List.map_congr_left (g := fun _ => 0) fun i _ => hzero _ (Nat.le_add_right size i), List.map_const',
      List.length_range]
  rw [table_add, hzeros]

theorem splice_table (hzero : ∀ p, size ≤ p → f p = 0) :
    splice (table f size) o (table g n) = table (overlay f o n g) (max size (o + n)) := by
  have hfirst : min o (size + (o - size)) = o := by omega
  have hlen : max size (o + n) = o + (n + (size - (o + n))) := by omega
  have hbefore : table (overlay f o n g) o = table f o := table_congr fun i hi => overlay_outside (.inl hi)
  have hinside : table (fun i => overlay f o n g (o + i)) n = table g n := table_congr fun i hi => overlay_at hi
  have hbehind : table (fun i => overlay f o n g (o + (n + i))) (size - (o + n)) =
      table (fun i => f (o + n + i)) (size - (o + n)) := table_congr fun i _ => by
    rw [← Nat.add_assoc]
    exact overlay_outside (.inr (Nat.le_add_right _ i))
  unfold splice
  rw [length_table, length_table, table_append_zeros hzero, take_table, hfirst, drop_table, hlen, table_add,
    table_add, hbefore, hinside, hbehind, List.append_assoc]

end Arrays

/-- The bytes that a request writes. -/
def Uio.data (u : Uio) : List UInt8 := table (fun k => u.buf (u.moved + k)) u.resid

namespace Sfs

variable {s t : Sfs} {u : Uio} {h v own p a m : ℕ} {cname : CString} {memory : SfsMemory}

/-- The array that a file is. -/
def contents (s : Sfs) (own : ℕ) : List UInt8 := table (s.fileByte own) (s.file own).size

theorem contents_congr {ino : ℕ} (hfile : t.file ino = s.file ino) : t.contents ino = s.contents ino := by
  have hbytes : t.fileByte ino = s.fileByte ino := congrArg SfsFile.bytes hfile
  unfold contents
  rw [hfile, hbytes]

/-- The bytes beyond the end are 0, and the end is where a file can end. -/
structure Clean (s : Sfs) (own : ℕ) : Prop where
  zero : ∀ p, (s.file own).size ≤ p → s.fileByte own p = 0
  small : (s.file own).size ≤ 73216

theorem Clean.congr (hc : s.Clean own) (hsize : (t.file own).size = (s.file own).size)
    (hbytes : t.fileByte own = s.fileByte own) : t.Clean own := by
  refine ⟨fun p hp => ?_, ?_⟩
  · rw [hbytes]
    rw [hsize] at hp
    exact hc.zero p hp
  · rw [hsize]
    exact hc.small

theorem Clean.of_file (hc : s.Clean own) (hfile : t.file own = s.file own) : t.Clean own :=
  hc.congr (congrArg SfsFile.size hfile) (congrArg SfsFile.bytes hfile)

/-! ### A new file -/

theorem creat_clean {excl : Bool} (hc : s.Consistent) (hd : s.IsRoot h) (hnew : ∀ n, (cname.val, n) ∉ s.pairs) :
    Ends (creat h cname excl memory) s
      (fun w t => t.Acct ∧ t.nblocks = s.nblocks ∧ t.IsFile w ∧ t.Clean (t.sv w).ino) fun _ _ => True := by
  apply (creat_kept hc hd.1 hd.2).mono _ fun _ _ _ => trivial
  rintro w t ⟨hk, ⟨⟨n, hn⟩, -⟩ | ⟨-, hw, hne, m, hfile⟩⟩
  · exact absurd hn (hnew n)
  · refine ⟨hk.consistent.toAcct, hk.nblocks, ⟨hw, hne⟩, fun p _ => congrFun (congrArg SfsFile.bytes hfile) p, ?_⟩
    rw [hfile]
    exact Nat.zero_le _

/-! ### Reads and writes -/

theorem Written.clean {r : Request Sfs} (hw : Written s u own a m r) (hrw : u.rw = .write) (ham : a ≤ m)
    (hfits : u.offset + m ≤ 73216) (hclean : s.Clean own) : r.dev.Clean own := by
  have hplace : place u.offset = u.offset := Nat.mod_eq_of_lt (by omega)
  have hsize : (r.dev.file own).size = grownSize (s.file own).size u.offset m := congrArg SfsFile.size hw.dev.file
  have hsmall := hclean.small
  refine ⟨fun p hp => ?_, ?_⟩
  · rw [hsize] at hp
    unfold grownSize at hp
    rw [hw.byte hrw (by rw [hplace]; split at hp <;> omega)]
    exact hclean.zero p (by split at hp <;> omega)
  · rw [hsize]
    unfold grownSize
    split <;> omega

/-- The operation leaves the file of `h` clean: it does not truncate it, and it writes only where a file can have
bytes. -/
def FileOp.Tidy (h : ℕ) : FileOp → Prop
  | .io g u => g = h → u.rw = .write → u.offset + u.resid ≤ 73216
  | .truncate g _ => g ≠ h

theorem FileOp.clean {op : FileOp} (ha : s.Acct) (hsmall : s.nblocks ≤ 2 ^ 23) (hop : op.Legal s) (hh : h ∈ s.vnodes)
    (htidy : op.Tidy h) (hclean : s.Clean (s.sv h).ino) :
    Ends op.call s (fun _ t => t.Clean (s.sv h).ino) fun _ t => t.Clean (s.sv h).ino := by
  have heffect := FileOp.effect ha hsmall hop
  by_cases heq : op.vnode = h
  · cases op with
    | io g u =>
      obtain rfl : g = h := heq
      have hready : Ready g (s.sv g).ino ⟨s, u⟩ := ⟨ha, hh, rfl, hop.1.2, hsmall, hop.2⟩
      unfold FileOp.call fileIo
      rw [ends_bind, ends_onLarger]
      cases hrw : u.rw with
      | read =>
        apply (io_read_ends hready hrw).mono
        · rintro _ r ⟨hr, -⟩
          rw [ends_pure]
          exact hclean.of_file hr.file
        · rintro e r ⟨-, m, -, -, hr, -⟩
          exact hclean.of_file hr.file
      | write =>
        have hfits := htidy rfl hrw
        apply (io_write_ends hready hrw).mono
        · rintro _ r ⟨hw, -⟩
          rw [ends_pure]
          exact hw.clean hrw (Nat.le_refl _) hfits hclean
        · rintro e r ⟨a, m, ham, hm, -, hw, -⟩
          exact hw.clean hrw ham (by omega) hclean
    | truncate g len => exact absurd heq htidy
  · have hne : (s.sv h).ino ≠ (s.sv op.vnode).ino := fun hino =>
      heq (ha.unique h hh op.vnode hop.isFile.1 hino).symm
    apply heffect.mono
    · intro _ t he
      exact hclean.of_file (he.other _ hne (live_of_mem hh))
    · intro _ t he
      exact hclean.of_file (he.other _ hne (live_of_mem hh))

theorem clean_after_ops (ha : s.Acct) (hsmall : s.nblocks ≤ 2 ^ 23) (hfile : s.IsFile h) (ops : List FileOp)
    (hrun : follow fileStep ops s = some t) (htidy : ∀ op ∈ ops, op.Tidy h) (hclean : s.Clean (s.sv h).ino) :
    t.Acct ∧ t.nblocks ≤ 2 ^ 23 ∧ t.IsFile h ∧ t.Clean (t.sv h).ino := by
  induction ops generalizing s with
  | nil =>
    obtain rfl := Option.some.inj hrun
    exact ⟨ha, hsmall, hfile, hclean⟩
  | cons op ops ih =>
    obtain ⟨w, hstep, hrest⟩ := Option.bind_eq_some_iff.mp hrun
    have heff := FileOp.effect_of_step ha hsmall hstep
    have hino : (w.sv h).ino = (s.sv h).ino := heff.table.ino h
    obtain ⟨hop, hstate⟩ := fileStep_eq_some hstep
    have hclean' := (FileOp.clean ha hsmall hop hfile.1 (htidy op List.mem_cons_self) hclean).of_state? hstate
    exact ih heff.acct (heff.table.nblocks ▸ hsmall) ⟨heff.table.vnodes ▸ hfile.1, hino ▸ hfile.2⟩ hrest
      (fun op' hop' => htidy op' (List.mem_cons_of_mem op hop')) (hino ▸ hclean')

/-! ### The array -/

/-- Every call of `sfs_io` on `h` within the limits does to the file what it does to the array, and leaves the other
files alone.  A write fails only for lack of space, a read does not fail.  A write of nothing changes no file, and none
becomes longer. -/
structure ServesArray (t : Sfs) (h : ℕ) : Prop where
  write : ∀ u : Uio, u.rw = .write → u.Room → u.Good → u.offset + u.resid ≤ 73216 → 0 < u.resid →
    Ends (fileIo h u) t
      (fun r t' => t'.contents (t.sv h).ino = splice (t.contents (t.sv h).ino) u.offset u.data ∧
        (t'.file (t.sv h).ino).size = max (t.file (t.sv h).ino).size (u.offset + u.resid) ∧ r.2.uio.resid = 0 ∧
        ∀ ino, ino ≠ (t.sv h).ino → t.Live ino → t'.contents ino = t.contents ino)
      fun e _ => e = .enospc
  writeNone : ∀ u : Uio, u.rw = .write → u.Room → u.resid = 0 →
    Ends (fileIo h u) t (fun _ t' => ∀ ino, t.Live ino → t'.contents ino = t.contents ino)
      fun _ t' => ∀ ino, t.Live ino → t'.contents ino = t.contents ino
  read : ∀ u : Uio, u.rw = .read → u.Room → u.Good → u.offset + u.resid ≤ 73216 →
    Ends (fileIo h u) t
      (fun r t' => ∃ n, table (fun k => r.2.uio.buf (u.moved + k)) n =
          ((t.contents (t.sv h).ino).drop u.offset).take u.resid ∧
        r.2.uio.resid = u.resid - n ∧ r.2.uio.offset = u.offset + n ∧
        ∀ ino, t.Live ino → t'.contents ino = t.contents ino)
      fun _ _ => False

theorem Written.contents {r : Request Sfs} (hw : Written s u own 0 0 r) {ino : ℕ} (hl : s.Live ino) :
    r.dev.contents ino = s.contents ino := by
  by_cases hino : ino = own
  · subst hino
    refine contents_congr (hw.dev.file.trans ?_)
    rw [Uio.kernelSide_zero]
    simp [grownSize, file]
  · exact contents_congr (hw.dev.other ino hino hl)

theorem Clean.servesArray (hclean : t.Clean (t.sv h).ino) (ha : t.Acct) (hsmall : t.nblocks ≤ 2 ^ 23)
    (hfile : t.IsFile h) : ServesArray t h where
  write u hrw hroom hgood hfits hpos := by
    have hready : Ready h (t.sv h).ino ⟨t, u⟩ := ⟨ha, hfile.1, rfl, hfile.2, hsmall, hroom⟩
    have hplace : place u.offset = u.offset := Nat.mod_eq_of_lt (by omega)
    unfold fileIo
    rw [ends_onLarger]
    apply (io_write_ends hready hrw).mono
    · rintro _ r ⟨hw, -⟩
      have hsize : (r.dev.file (t.sv h).ino).size = max (t.file (t.sv h).ino).size (u.offset + u.resid) := by
        have hgrown := congrArg SfsFile.size hw.dev.file
        have hmax := hclean.small
        rw [hgrown]
        show grownSize _ _ _ = _
        unfold grownSize
        split <;> omega
      have hbytes : r.dev.fileByte (t.sv h).ino = u.kernelSide (t.fileByte (t.sv h).ino) u.offset u.resid := by
        rw [← hplace]
        exact congrArg SfsFile.bytes hw.dev.file
      refine ⟨?_, hsize, ?_, fun ino hne hl => contents_congr (hw.dev.other ino hne hl)⟩
      · unfold contents Uio.data
        rw [splice_table hclean.zero, hsize, hbytes, Uio.kernelSide_of_write hrw]
      · rw [hw.uio.resid_eq, Nat.sub_self]
    · rintro e r ⟨a, m, -, -, hlt, -, hexcuse⟩
      rcases hexcuse with ⟨he, -⟩ | ⟨-, hbad⟩ | ⟨-, hbig⟩
      · exact he
      · exact absurd hgood hbad
      · have := hlt hpos.ne'
        rw [hplace] at hbig
        omega
  writeNone u hrw hroom hnone := by
    have hready : Ready h (t.sv h).ino ⟨t, u⟩ := ⟨ha, hfile.1, rfl, hfile.2, hsmall, hroom⟩
    unfold fileIo
    rw [ends_onLarger]
    apply (io_write_ends hready hrw).mono
    · rintro _ r ⟨hw, -⟩ ino hl
      rw [hnone] at hw
      exact hw.contents hl
    · rintro e r ⟨a, m, ham, hm, -, hw, -⟩ ino hl
      obtain rfl : m = 0 := by omega
      obtain rfl : a = 0 := by omega
      exact hw.contents hl
  read u hrw hroom hgood hfits := by
    have hready : Ready h (t.sv h).ino ⟨t, u⟩ := ⟨ha, hfile.1, rfl, hfile.2, hsmall, hroom⟩
    have hplace : place u.offset = u.offset := Nat.mod_eq_of_lt (by omega)
    unfold fileIo
    rw [ends_onLarger]
    apply (io_read_ends hready hrw).mono
    · rintro _ r ⟨hr, huio, -⟩
      refine ⟨readLen u (t.file (t.sv h).ino).size, ?_, huio.resid_eq, huio.offset_eq, fun ino hl => ?_⟩
      · rw [hplace] at huio
        obtain ⟨iov, hw⟩ := huio.eq
        unfold contents
        rw [drop_table, take_table]
        apply table_congr
        intro k hk
        rw [hw]
        simp only [Uio.advance, hrw]
        exact overlay_at hk
      · by_cases hino : ino = (t.sv h).ino
        · exact contents_congr (hino ▸ hr.file)
        · exact contents_congr (hr.other ino hino hl)
    · rintro e r ⟨hlt, m, hm, hlen, -, -, hexcuse⟩
      have hmax := hclean.small
      rcases hexcuse with ⟨-, hwrite⟩ | ⟨-, hbad⟩ | ⟨-, hbig⟩
      · cases hwrite.symm.trans hrw
      · exact absurd hgood hbad
      · rw [hplace] at hbig
        unfold readLen at hm hlen
        omega

/-- **SFS files are byte arrays.**  A file that has been created under a new name, and since then been read and written
but not truncated, serves every further call as its array. -/
theorem file_is_byte_array {d : ℕ} {excl : Bool} {s₀ : Sfs} {ops : List FileOp} (hc : s.Consistent)
    (hsmall : s.nblocks ≤ 2 ^ 23) (hd : s.IsRoot d) (hnew : ∀ n, (cname.val, n) ∉ s.pairs)
    (hcreat : creat d cname excl memory s = .ok h s₀) (hrun : follow fileStep ops s₀ = some t)
    (htidy : ∀ op ∈ ops, op.Tidy h) : ServesArray t h := by
  obtain ⟨hacct, hnblocks, hfile, hclean⟩ := (creat_clean hc hd hnew).of_ok hcreat
  obtain ⟨hacct', hsmall', hfile', hclean'⟩ :=
    clean_after_ops hacct (hnblocks ▸ hsmall) hfile ops hrun htidy hclean
  exact hclean'.servesArray hacct' hsmall' hfile'

/-- A new file in an empty volume, after a write beyond its end. -/
theorem new_file_is_byte_array :
    ∃ s₀ t, creat 0 (letter 97 (by decide)) false .plenty (emptyVolume 32) = .ok 1 s₀ ∧
      follow fileStep [.io 1 (.writeByte 600 7)] s₀ = some t ∧ ServesArray t 1 := by
  have hrun : (creat 0 (letter 97 (by decide)) false .plenty (emptyVolume 32)).returnedIn
      (fun h s₀ => h == 1 && (follow fileStep [.io 1 (.writeByte 600 7)] s₀).isSome) = true := by
    decide +kernel
  obtain ⟨h, s₀, hcreat, hp⟩ := Reply.ok_of_returnedIn hrun
  obtain ⟨hone, hsome⟩ := Bool.and_eq_true_iff.mp hp
  obtain rfl := eq_of_beq hone
  obtain ⟨t, hrun⟩ := Option.isSome_iff_exists.mp hsome
  have hcons : (emptyVolume 32).Consistent := consistent_emptyVolume (by decide) (by decide)
  have hnew : ∀ n, ((letter 97 (by decide)).val, n) ∉ (emptyVolume 32).pairs := by
    rintro n ⟨i, hused, -⟩
    have hnone : ((emptyVolume 32).file 1).nentries = 0 := by decide +kernel
    exact Nat.not_lt_zero i (hnone ▸ hused.1)
  refine ⟨s₀, t, hcreat, hrun, file_is_byte_array hcons (by decide) (by decide) hnew hcreat hrun ?_⟩
  intro op hop
  obtain rfl := List.mem_singleton.mp hop
  exact fun _ _ => by decide

/-- Writing nothing at 10 to a new file does not make it longer. -/
theorem empty_write_does_not_extend :
    ∃ s₀ t, creat 0 (letter 97 (by decide)) false .plenty (emptyVolume 32) = .ok 1 s₀ ∧
      (s₀.file (s₀.sv 1).ino).size = 0 ∧
      s₀.fileStep (.io 1 ⟨[], 10, 0, .write, fun _ => 0, 0⟩) = some t ∧ (t.file (s₀.sv 1).ino).size = 0 := by
  have hrun : (creat 0 (letter 97 (by decide)) false .plenty (emptyVolume 32)).returnedIn
      (fun h s₀ => h == 1 && ((s₀.file (s₀.sv 1).ino).size == 0 &&
        (s₀.fileStep (.io 1 ⟨[], 10, 0, .write, fun _ => 0, 0⟩)).any fun t =>
          (t.file (s₀.sv 1).ino).size == 0)) = true := by
    decide +kernel
  obtain ⟨h, s₀, hcreat, hp⟩ := Reply.ok_of_returnedIn hrun
  obtain ⟨hone, hrest⟩ := Bool.and_eq_true_iff.mp hp
  obtain ⟨hsize, hwrite⟩ := Bool.and_eq_true_iff.mp hrest
  obtain rfl := eq_of_beq hone
  obtain ⟨t, hstep, hsize'⟩ := (Option.any_eq_true _ _).mp hwrite
  exact ⟨s₀, t, hcreat, eq_of_beq hsize, hstep, eq_of_beq hsize'⟩

end Sfs

end Os161Kernel
