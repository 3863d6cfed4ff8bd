import Mathlib.Data.List.GetD
import Mathlib.Data.List.ReduceOption
import Os161Kernel.SemfsTables
import Os161Kernel.Uio

/-!
# Listing the semaphore directory

`semfs_getdirentry` takes `uio_offset` for an index into the directory and leaves its update to `uiomove`, which adds
the number of bytes that it moved.  The cursor thus jumps from an entry by the length of its name.  It does not look
whether the slot that it lands on is empty.
-/

namespace Os161Kernel

open Calls Runs Slots Memory

-- Specifications are used through their rules.
attribute [local irreducible] Ends

namespace Semfs

variable {s : Semfs} {u w : Uio} {d : SemfsDirentry} {o : ℕ} {ask : ℕ → Uio}

/-! ### The code -/

/-- The characters of a name. -/
def nameBytes (name : Name) : List UInt8 := name.map fun x => UInt8.ofNat x.toNat

/-- `semfs_getdirentry`. -/
def getdirentry (s : Semfs) : UioCall Unit := do
  let offset ← .read Uio.offset
  let pos := offset % 2 ^ 32
  if s.dents.length ≤ pos then pure ()
  else
    match slotAt s.dents pos with
    | none => .stop .nullDeref
    | some dent => do
      let _ ← Uio.uiomove (fun k => (nameBytes dent.name).getD k 0) 0 dent.name.length
      pure ()

/-! ### A caller that lists the directory -/

/-- A request at offset `o` that has room for any name. -/
structure Asks (s : Semfs) (o : ℕ) (u : Uio) : Prop where
  offset : u.offset = o
  read : u.rw = .read
  good : u.Good
  room : u.Room
  fits : ∀ i d, slotAt s.dents i = some d → d.name.length ≤ u.resid

/-- What a call has put into the buffers of the request. -/
def received (u w : Uio) : List UInt8 := (List.range (w.moved - u.moved)).map fun k => w.buf (u.moved + k)

/-- **A listing** from offset `o` on, with the request `ask o` at each offset `o`: the call is repeated until it
transfers nothing. -/
inductive Lists (s : Semfs) (ask : ℕ → Uio) : ℕ → List (List UInt8) → Prop
  | done {o : ℕ} {w : Uio} (hcall : getdirentry s (ask o) = .ok () w) (hnone : received (ask o) w = []) :
    Lists s ask o []
  | more {o : ℕ} {w : Uio} {rest : List (List UInt8)} (hcall : getdirentry s (ask o) = .ok () w)
    (hsome : received (ask o) w ≠ []) (hrest : Lists s ask w.offset rest) :
    Lists s ask o (received (ask o) w :: rest)

/-- The names of the entries. -/
def liveNames (t : List (Option SemfsDirentry)) : List (List UInt8) := t.reduceOption.map fun d => nameBytes d.name

/-- The directory and any of its names are in memory together, and addresses have 32 bits. -/
def InMemory (s : Semfs) : Prop := ∀ i d, slotAt s.dents i = some d → s.dents.length + d.name.length < 2 ^ 32

/-! ### A call -/

theorem received_self (u : Uio) : received u u = [] := by
  unfold received
  rw [Nat.sub_self]
  rfl

theorem length_nameBytes (name : Name) : (nameBytes name).length = name.length := List.length_map _

theorem getdirentry_of_end (hpos : s.dents.length ≤ u.offset % 2 ^ 32) : getdirentry s u = .ok () u := by
  unfold getdirentry
  rw [bind_of_ok (read_apply _ _), if_pos hpos]
  rfl

theorem getdirentry_of_empty (hpos : u.offset % 2 ^ 32 < s.dents.length)
    (hslot : slotAt s.dents (u.offset % 2 ^ 32) = none) : getdirentry s u = .stop .nullDeref := by
  unfold getdirentry
  rw [bind_of_ok (read_apply _ _), if_neg (Nat.not_le.mpr hpos), hslot]
  rfl

theorem received_of_advanced {name : Name} (hread : u.rw = .read)
    (h : u.Advanced (fun k => (nameBytes name).getD k 0) 0 name.length w) : received u w = nameBytes name := by
  have hmoved := h.moved_eq
  obtain ⟨iov, rfl⟩ := h.eq
  apply List.ext_getElem
  · unfold received
    rw [List.length_map, List.length_range, length_nameBytes]
    omega
  · intro k hk hk'
    have hlt : k < name.length := by
      rw [length_nameBytes] at hk'
      exact hk'
    simp only [received, List.getElem_map, List.getElem_range, Uio.advance, hread, Nat.zero_add]
    rw [overlay_at hlt, List.getD_eq_getElem _ _ hk']

theorem getdirentry_of_entry (hask : Asks s o u) (hslot : slotAt s.dents (o % 2 ^ 32) = some d) :
    ∃ w, getdirentry s u = .ok () w ∧ received u w = nameBytes d.name ∧ w.offset = o + d.name.length := by
  have hends : Ends (getdirentry s) u
      (fun _ w => received u w = nameBytes d.name ∧ w.offset = o + d.name.length) fun _ _ => False := by
    unfold getdirentry
    rw [ends_bind, ends_read, hask.offset, if_neg (Nat.not_le.mpr (lt_of_slotAt hslot)), hslot]
    simp only [ends_bind, ends_pure]
    apply (Uio.uiomove_ends (hask.fits _ d hslot) hask.room _ 0).mono
    · rintro _ w ⟨-, hadv⟩
      exact ⟨received_of_advanced hask.read hadv, hask.offset ▸ hadv.offset_eq⟩
    · rintro _ w ⟨-, hbad, -⟩
      exact hbad hask.good
  obtain ⟨⟨⟩, w, hcall, hw⟩ := hends.exists_ok
  exact ⟨w, hcall, hw⟩

/-! ### Directories that are listed -/

/-- **Every entry takes up as many slots as its name has characters**: it is followed by empty slots for all but the
first one, up to the end of the table, and then by the next entry. -/
inductive Spaced : List (Option SemfsDirentry) → Prop
  | nil : Spaced []
  | cons {d : SemfsDirentry} {rest : List (Option SemfsDirentry)} (hname : d.name ≠ [])
    (hgap : ∀ x ∈ rest.take (d.name.length - 1), x = none) (hrest : Spaced (rest.drop (d.name.length - 1))) :
    Spaced (some d :: rest)

theorem liveNames_cons (d : SemfsDirentry) (rest : List (Option SemfsDirentry)) :
    liveNames (some d :: rest) = nameBytes d.name :: liveNames rest := by
  unfold liveNames
  rw [List.reduceOption_cons_of_some, List.map_cons]

theorem liveNames_append (t t' : List (Option SemfsDirentry)) : liveNames (t ++ t') = liveNames t ++ liveNames t' := by
  unfold liveNames
  rw [List.reduceOption_append, List.map_append]

theorem liveNames_take_drop (k : ℕ) (t : List (Option SemfsDirentry)) :
    liveNames t = liveNames (t.take k) ++ liveNames (t.drop k) := by
  rw [← liveNames_append, List.take_append_drop]

theorem liveNames_eq_nil_iff (t : List (Option SemfsDirentry)) : liveNames t = [] ↔ ∀ x ∈ t, x = none := by
  unfold liveNames List.reduceOption
  rw [List.map_eq_nil_iff, List.filterMap_eq_nil_iff]
  rfl

variable {t rest : List (Option SemfsDirentry)}

theorem drop_eq_of_drop (h : t.drop o = some d :: rest) (hname : d.name ≠ []) :
    t.drop (o + d.name.length) = rest.drop (d.name.length - 1) := by
  have hlen : d.name.length = d.name.length - 1 + 1 := by
    have := List.length_pos_iff.mpr hname
    omega
  rw [← List.drop_drop, h, hlen, List.drop_succ_cons]
  rfl

theorem slotAt_of_drop {x : Option SemfsDirentry} (h : t.drop o = x :: rest) :
    o < t.length ∧ slotAt t o = x := by
  have hlt : o < t.length := by
    by_contra hge
    rw [List.drop_eq_nil_of_le (Nat.not_lt.mp hge)] at h
    exact nomatch h
  refine ⟨hlt, ?_⟩
  have hget : t[o]? = some x := by
    rw [← List.head?_drop, h]
    rfl
  unfold slotAt
  rw [hget]
  rfl

theorem Spaced.lists (h : Spaced t) (hmem : s.InMemory) (hask : ∀ o, Asks s o (ask o))
    (ht : s.dents.drop o = t) (ho : o < 2 ^ 32) : Lists s ask o (liveNames t) := by
  have hmod : o % 2 ^ 32 = o := Nat.mod_eq_of_lt ho
  induction h generalizing o with
  | nil =>
    refine .done (w := ask o) (getdirentry_of_end ?_) (received_self _)
    rw [(hask o).offset, hmod]
    exact List.drop_eq_nil_iff.mp ht
  | @cons d rest hname hgap hrest ih =>
    obtain ⟨hlt, hslot⟩ := slotAt_of_drop ht
    have hnext := hmem o d hslot
    rw [← hmod] at hslot
    obtain ⟨w, hcall, hreceived, hoffset⟩ := getdirentry_of_entry (hask o) hslot
    have hgapNames := (liveNames_eq_nil_iff _).mpr hgap
    rw [liveNames_cons, liveNames_take_drop (d.name.length - 1) rest, hgapNames, List.nil_append, ← hreceived]
    refine .more hcall ?_ ?_
    · rw [hreceived]
      exact fun hnil => hname (List.map_eq_nil_iff.mp hnil)
    · rw [hoffset]
      have hsmall : o + d.name.length < 2 ^ 32 := by omega
      exact ih (drop_eq_of_drop ht hname) hsmall (Nat.mod_eq_of_lt hsmall)

theorem Lists.spaced {names : List (List UInt8)} (h : Lists s ask o names) (hmem : s.InMemory)
    (hask : ∀ o, Asks s o (ask o)) (ho : o < 2 ^ 32) :
    names.length ≤ (liveNames (s.dents.drop o)).length ∧
      (names.length = (liveNames (s.dents.drop o)).length → Spaced (s.dents.drop o)) := by
  induction h with
  | @done o w hcall hnone =>
    refine ⟨Nat.zero_le _, fun hall => ?_⟩
    have hmod : o % 2 ^ 32 = o := Nat.mod_eq_of_lt ho
    cases htable : s.dents.drop o with
    | nil => exact .nil
    | cons x rest =>
      obtain ⟨hlt, hslot⟩ := slotAt_of_drop htable
      rw [htable] at hall
      cases x with
      | none =>
        -- the call would have stopped
        rw [← (hask o).offset] at hlt hslot hmod
        rw [← hmod] at hlt hslot
        exact nomatch (getdirentry_of_empty hlt hslot).symm.trans hcall
      | some d =>
        rw [liveNames_cons] at hall
        exact nomatch hall
  | @more o w names' hcall hsome hrest ih =>
    have hmod : o % 2 ^ 32 = o := Nat.mod_eq_of_lt ho
    cases htable : s.dents.drop o with
    | nil =>
      have hend : s.dents.length ≤ (ask o).offset % 2 ^ 32 := by
        rw [(hask o).offset, hmod]
        exact List.drop_eq_nil_iff.mp htable
      obtain ⟨-, rfl⟩ := Reply.ok.inj ((getdirentry_of_end hend).symm.trans hcall)
      exact absurd (received_self _) hsome
    | cons x rest =>
      obtain ⟨hlt, hslot⟩ := slotAt_of_drop htable
      cases x with
      | none =>
        rw [← (hask o).offset] at hlt hslot hmod
        rw [← hmod] at hlt hslot
        exact nomatch (getdirentry_of_empty hlt hslot).symm.trans hcall
      | some d =>
        have hnext := hmem o d hslot
        rw [← hmod] at hslot
        obtain ⟨w', hcall', hreceived, hoffset⟩ := getdirentry_of_entry (hask o) hslot
        obtain ⟨-, rfl⟩ := Reply.ok.inj (hcall'.symm.trans hcall)
        have hname : d.name ≠ [] := by
          rintro hempty
          rw [hreceived, hempty] at hsome
          exact hsome rfl
        rw [hoffset, drop_eq_of_drop htable hname] at ih
        obtain ⟨hle, hspaced⟩ := ih (by omega)
        have hsplit := congrArg List.length (liveNames_take_drop (d.name.length - 1) rest)
        rw [List.length_append] at hsplit
        rw [liveNames_cons, List.length_cons, List.length_cons]
        refine ⟨by omega, fun hall => .cons hname ?_ (hspaced (by omega))⟩
        exact (liveNames_eq_nil_iff _).mp (List.length_eq_zero_iff.mp (by omega))

/-- **When listing the directory enumerates it.**  The names that the calls return are those of the entries, each once,
and no call meets an empty slot, exactly when every entry takes up as many slots as its name has characters. -/
theorem listing_enumerates_iff (hmem : s.InMemory) (hask : ∀ o, Asks s o (ask o)) :
    (∃ names, Lists s ask 0 names ∧ names.Perm (liveNames s.dents)) ↔ Spaced s.dents := by
  constructor
  · rintro ⟨names, hlists, hperm⟩
    obtain ⟨-, hspaced⟩ := hlists.spaced hmem hask (by decide)
    rw [List.drop_zero] at hspaced
    exact hspaced hperm.length_eq
  · intro hspaced
    exact ⟨liveNames s.dents, hspaced.lists hmem hask (List.drop_zero) (by decide), List.Perm.refl _⟩

/-! ### Two directories -/

/-- A request for a name of up to 16 characters. -/
def nameRequest (o : ℕ) : Uio := ⟨[⟨16, 16⟩], o, 16, .read, fun _ => 0, 0⟩

theorem mem_of_slotAt {i : ℕ} (h : slotAt t i = some d) : some d ∈ t := by
  unfold slotAt at h
  exact List.mem_of_getElem? (Option.join_eq_some_iff.mp h)

theorem asks_nameRequest (hlen : s.dents.length ≤ 16) (hnames : ∀ d, some d ∈ s.dents → d.name.length ≤ 16) :
    s.InMemory ∧ ∀ o, Asks s o (nameRequest o) := by
  have hfits : ∀ i d, slotAt s.dents i = some d → d.name.length ≤ 16 := fun i d h => hnames d (mem_of_slotAt h)
  refine ⟨fun i d h => ?_, fun o => ⟨rfl, rfl, ?_, Nat.le_refl 16, hfits⟩⟩
  · have := hfits i d h
    omega
  · intro v hv
    obtain rfl := List.mem_singleton.mp hv
    exact Nat.le_refl 16

/-- Names of one character are listed. -/
theorem listing_enumerates_single_letters :
    ∃ s, Reaches (StepOf step) (· = create) s ∧ liveNames s.dents = [[97], [98]] ∧
      ∃ names, Lists s nameRequest 0 names ∧ names.Perm (liveNames s.dents) := by
  have hrun : ∃ s, follow step [.creat ['a'] false plenty, .creat ['b'] false plenty] create = some s ∧
      s.dents = [some ⟨['a'], 0⟩, some ⟨['b'], 1⟩] := ⟨_, rfl, rfl⟩
  obtain ⟨s, hs, hdents⟩ := hrun
  have hsmall : s.InMemory ∧ ∀ o, Asks s o (nameRequest o) := by
    apply asks_nameRequest
    · rw [hdents]
      decide
    · rw [hdents]
      simp
  have hspaced : Spaced s.dents := by
    rw [hdents]
    exact .cons (by decide) (by decide) (.cons (by decide) (by decide) .nil)
  refine ⟨s, Reaches.of_follow _ (.start rfl) hs, ?_, (listing_enumerates_iff hsmall.1 hsmall.2).mpr hspaced⟩
  rw [hdents]
  rfl

/-- **An entry is skipped, and an empty slot is met.**  Of two names of two characters the second is not listed; after
the first of two semaphores has been removed, the first call already stops the machine. -/
theorem listing_skips_entry :
    (∃ s, Reaches (StepOf step) (· = create) s ∧ liveNames s.dents = [[97, 98], [99, 100]] ∧
      Lists s nameRequest 0 [[97, 98]] ∧ ¬ ∃ names, Lists s nameRequest 0 names ∧ names.Perm (liveNames s.dents)) ∧
    ∃ s, Reaches (StepOf step) (· = create) s ∧ liveNames s.dents = [[98]] ∧
      getdirentry s (nameRequest 0) = .stop .nullDeref := by
  constructor
  · have hrun : ∃ s, follow step [.creat ['a', 'b'] false plenty, .creat ['c', 'd'] false plenty] create = some s ∧
        s.dents = [some ⟨['a', 'b'], 0⟩, some ⟨['c', 'd'], 1⟩] := ⟨_, rfl, rfl⟩
    obtain ⟨s, hs, hdents⟩ := hrun
    have hsmall : s.InMemory ∧ ∀ o, Asks s o (nameRequest o) := by
      apply asks_nameRequest
      · rw [hdents]
        decide
      · rw [hdents]
        simp
    refine ⟨s, Reaches.of_follow _ (.start rfl) hs, ?_, ?_, ?_⟩
    · rw [hdents]
      rfl
    · have hslot : slotAt s.dents (0 % 2 ^ 32) = some ⟨['a', 'b'], 0⟩ := by
        rw [hdents]
        rfl
      obtain ⟨w, hcall, hreceived, hoffset⟩ := getdirentry_of_entry (hsmall.2 0) hslot
      have hname : received (nameRequest 0) w = [97, 98] := hreceived
      rw [← hname]
      refine .more hcall ?_ ?_
      · rw [hname]
        exact nofun
      · rw [hoffset]
        refine .done (getdirentry_of_end ?_) (received_self _)
        rw [hdents]
        decide
    · rintro ⟨names, hlists, hperm⟩
      obtain ⟨-, hspaced⟩ := hlists.spaced hsmall.1 hsmall.2 (by decide)
      rw [List.drop_zero] at hspaced
      have hno := hspaced hperm.length_eq
      rw [hdents] at hno
      cases hno with
      | cons hname hgap hrest => exact nomatch hgap _ List.mem_cons_self
  · have hrun : ∃ s, follow step [.creat ['a'] false plenty, .creat ['b'] false plenty, .remove ['a']] create = some s ∧
        s.dents = [none, some ⟨['b'], 1⟩] := ⟨_, rfl, rfl⟩
    obtain ⟨s, hs, hdents⟩ := hrun
    refine ⟨s, Reaches.of_follow _ (.start rfl) hs, ?_, getdirentry_of_empty ?_ ?_⟩
    · rw [hdents]
      rfl
    · rw [hdents]
      decide
    · rw [hdents]
      rfl

end Semfs

end Os161Kernel
