import Os161Kernel.Lib.Search
import Os161Kernel.Vfs

/-!
# The table of known devices

`vfslist.c` keeps the devices in an array, and a device goes by up to three names: its own, that of its raw device if it
is mountable, and the volume name of the file system on it.  A name enters the table when a device is added, where it is
checked against all the names there, and when a file system is mounted, where it is not.

* `DeviceTable.Unambiguous`: no name belongs to two devices.  Then at most one device answers to a name, and
  `vfs_getroot` gives the same result in any order of the array.
* `device_names_unambiguous`: so it is in every run in which each mounted volume name is new.
-/

namespace Os161Kernel

open Calls Runs Search

/-- `kd_fs`. -/
inductive KdFs where
  | null
  | swap
  | mounted (fs : ℕ)
deriving DecidableEq

/-- `struct knowndev`. -/
structure TableDev where
  name : Name
  rawname : Option Name
  device : Option ℕ
  vnode : ℕ
  fs : KdFs
deriving DecidableEq

/-- `knowndevs`; `dev_create_vnode` hands out the vnodes from `fresh` on. -/
structure DeviceTable where
  knowndevs : List TableDev
  fresh : ℕ

abbrev TableCall := Call VfsStop Errno DeviceTable

namespace DeviceTable

/-- `vfs_bootstrap` before it adds devices. -/
def empty : DeviceTable := ⟨[], 0⟩

/-- `mkrawname`. -/
def mkrawname (name : Name) : Name := name ++ ['r', 'a', 'w']

/-- `samestring3`; a null pointer is the same as nothing. -/
def samestring3 (a b c d : Option Name) : Bool := a.isSome && (a == b || a == c || a == d)

section

variable (fs : ℕ → Filesystem)

/-- The volume name of the file system on a device. -/
def volname : KdFs → Option Name
  | .mounted i => (fs i).volname
  | .null | .swap => none

/-- `badnames`. -/
def badnames (devs : List TableDev) (n1 n2 n3 : Option Name) : Bool :=
  devs.any fun kd =>
    samestring3 (volname fs kd.fs) n1 n2 n3 || samestring3 kd.rawname n1 n2 n3 || samestring3 (some kd.name) n1 n2 n3

/-- `vfs_doadd`; without `memory` an allocation before the test of the names fails, without `space` the array cannot
grow. -/
def doadd (dname : Name) (mountable : Bool) (dev : Option ℕ) (kfs : KdFs) (memory space : Bool) : TableCall Unit := do
  let rawname := if mountable then some (mkrawname dname) else none
  if memory = false then .fail .enomem
  else do
    let s ← .read fun s => s
    if badnames fs s.knowndevs (some dname) rawname (volname fs kfs) then .fail .eexist
    else if space = false then .fail .enomem
    else .update fun s => ⟨s.knowndevs ++ [⟨dname, rawname, dev, s.fresh, kfs⟩], s.fresh + 1⟩

/-- `vfs_adddev`. -/
def adddev (devname : Name) (dev : ℕ) (mountable memory space : Bool) : TableCall Unit :=
  doadd fs devname mountable (some dev) .null memory space

/-- `vfs_addfs`. -/
def addfs (devname : Name) (i : ℕ) (memory space : Bool) : TableCall Unit :=
  doadd fs devname false none (.mounted i) memory space

end

/-- `findmount`: the index of the device. -/
def findmount (devname : Name) : TableCall ℕ := do
  match ← .read fun s => s.knowndevs.findIdx? fun kd => kd.rawname.isSome && kd.name == devname with
  | none => .fail .enodev
  | some i => pure i

/-- `kd_fs` of a device. -/
def getFs (i : ℕ) : TableCall KdFs := .read fun s => (s.knowndevs[i]?.map TableDev.fs).getD .null

def setFs (i : ℕ) (kfs : KdFs) : TableCall Unit :=
  .update fun s => { s with knowndevs := s.knowndevs.modify i fun kd => { kd with fs := kfs } }

/-- The assertion of `vfs_mount`, `vfs_swapon` and `vfs_unmount`. -/
def checkDevice (i : ℕ) : TableCall Unit := do
  let device ← .read fun s => s.knowndevs[i]?.bind TableDev.device
  .require (device ≠ none) (.kassert "kd->kd_device != NULL")

/-- `vfs_mount`; `mountfunc` is what the mount function answers. -/
def mount (devname : Name) (mountfunc : Except Errno ℕ) : TableCall Unit := do
  let i ← findmount devname
  let kfs ← getFs i
  if kfs ≠ .null then .fail .ebusy
  else do
    checkDevice i
    match mountfunc with
    | .error e => .fail e
    | .ok f => setFs i (.mounted f)

/-- `vfs_swapon`; a colon at the end of the name is tolerated. -/
def swapon (devname : Name) (memory : Bool) : TableCall Unit := do
  if devname.getLast? = some ':' ∧ memory = false then .fail .enomem
  else do
    let i ← findmount (if devname.getLast? = some ':' then devname.dropLast else devname)
    let kfs ← getFs i
    if kfs ≠ .null then .fail .ebusy
    else do
      checkDevice i
      setFs i .swap

/-- `vfs_unmount`; `sync` and `unmount` are what the file system answers. -/
def unmount (devname : Name) (sync unmountfs : Option Errno) : TableCall Unit := do
  let i ← findmount devname
  match ← getFs i with
  | .null | .swap => .fail .einval
  | .mounted _ => do
    checkDevice i
    match sync, unmountfs with
    | some e, _ => .fail e
    | none, some e => .fail e
    | none, none => setFs i .null

/-- `vfs_swapoff`. -/
def swapoff (devname : Name) : TableCall Unit := do
  let i ← findmount devname
  let kfs ← getFs i
  if kfs ≠ .swap then .fail .einval else setFs i .null

/-- How `vfs_getroot` ends. -/
inductive RootAnswer where
  | vnode (x : ℕ)
  | error (e : Errno)
  | kassert (condition : String)
deriving DecidableEq

section

variable (fs : ℕ → Filesystem)

/-- The part of the loop of `vfs_getroot` about the device itself. -/
def deviceAnswer (devname : Name) (kd : TableDev) : Option RootAnswer :=
  if kd.name = devname then
    if kd.fs ≠ .null then some (.kassert "kd->kd_fs==NULL")
    else if kd.rawname ≠ none then some (.kassert "kd->kd_rawname==NULL")
    else if kd.device = none then some (.kassert "kd->kd_device != NULL")
    else some (.vnode kd.vnode)
  else if kd.rawname = some devname then
    if kd.device = none then some (.kassert "kd->kd_device != NULL") else some (.vnode kd.vnode)
  else none

/-- One round of the loop of `vfs_getroot`: the device answers to the name, or the loop goes on. -/
def answer (devname : Name) (kd : TableDev) : Option RootAnswer :=
  match kd.fs with
  | .mounted i =>
    if kd.name = devname ∨ (fs i).volname = some devname then some (.vnode (fs i).root)
    else deviceAnswer devname kd
  | .null | .swap =>
    if kd.rawname ≠ none ∧ kd.name = devname then some (.error .enxio) else deviceAnswer devname kd

/-- `vfs_getroot`. -/
def getroot (devs : List TableDev) (devname : Name) : RootAnswer :=
  (devs.findSome? (answer fs devname)).getD (.error .enodev)

/-! ### Names -/

/-- The names of a device. -/
def names (kd : TableDev) : List Name := kd.name :: kd.rawname.toList ++ (volname fs kd.fs).toList

/-- No name belongs to two devices. -/
def Unambiguous (s : DeviceTable) : Prop :=
  s.knowndevs.Pairwise fun kd kd' => ∀ n ∈ names fs kd, n ∉ names fs kd'

instance (s : DeviceTable) : Decidable (s.Unambiguous fs) := inferInstanceAs (Decidable (List.Pairwise _ _))

end

variable {fs : ℕ → Filesystem} {s t : DeviceTable} {kd : TableDev} {n devname : Name}

theorem mem_names : n ∈ names fs kd ↔ n = kd.name ∨ kd.rawname = some n ∨ volname fs kd.fs = some n := by
  simp [names]

theorem mem_names_of_answer {r : RootAnswer} (h : answer fs devname kd = some r) : devname ∈ names fs kd := by
  have hdev : deviceAnswer devname kd = some r → devname ∈ names fs kd := by
    intro hr
    rw [mem_names]
    unfold deviceAnswer at hr
    by_cases hname : kd.name = devname
    · exact .inl hname.symm
    · rw [if_neg hname] at hr
      by_cases hraw : kd.rawname = some devname
      · exact .inr (.inl hraw)
      · rw [if_neg hraw] at hr
        exact nomatch hr
  unfold answer at h
  cases hfs : kd.fs with
  | mounted i =>
    simp only [hfs] at h
    by_cases hc : kd.name = devname ∨ (fs i).volname = some devname
    · rw [mem_names, hfs]
      exact hc.imp Eq.symm .inr
    · rw [if_neg hc] at h
      exact hdev h
  | null =>
    simp only [hfs] at h
    by_cases hc : kd.rawname ≠ none ∧ kd.name = devname
    · exact mem_names.mpr (.inl hc.2.symm)
    · rw [if_neg hc] at h
      exact hdev h
  | swap =>
    simp only [hfs] at h
    by_cases hc : kd.rawname ≠ none ∧ kd.name = devname
    · exact mem_names.mpr (.inl hc.2.symm)
    · rw [if_neg hc] at h
      exact hdev h

variable {devs : List TableDev} {i : ℕ} {kfs : KdFs} {memory : Bool}

theorem Unambiguous.getroot_perm (hs : s.Unambiguous fs) (hp : devs.Perm s.knowndevs)
    (devname : Name) : getroot fs devs devname = getroot fs s.knowndevs devname := by
  have hone : s.knowndevs.Pairwise fun kd kd' => answer fs devname kd = none ∨ answer fs devname kd' = none := by
    refine List.Pairwise.imp (fun {kd kd'} hdisj => ?_) hs
    cases hr : answer fs devname kd with
    | none => exact .inl rfl
    | some r =>
      cases hr' : answer fs devname kd' with
      | none => exact .inr rfl
      | some r' => exact absurd (mem_names_of_answer hr') (hdisj devname (mem_names_of_answer hr))
  unfold getroot
  rw [findSome?_perm hp.symm hone]

/-! ### Names enter and leave the table -/

theorem samestring3_eq_false {a b c d : Option Name} (h : samestring3 a b c d = false) {n : Name} (ha : a = some n) :
    b ≠ some n ∧ c ≠ some n ∧ d ≠ some n := by
  subst ha
  simp only [samestring3, Option.isSome_some, Bool.true_and, Bool.or_eq_false_iff, beq_eq_false_iff_ne] at h
  exact ⟨h.1.1.symm, h.1.2.symm, h.2.symm⟩

theorem not_mem_names_of_badnames {kd' : TableDev} (hmem : kd' ∈ devs)
    (hbad : badnames fs devs (some kd.name) kd.rawname (volname fs kd.fs) = false) (hn : n ∈ names fs kd') :
    n ∉ names fs kd := by
  have hround := List.any_eq_false.mp hbad kd' hmem
  simp only [Bool.not_eq_true, Bool.or_eq_false_iff] at hround
  obtain ⟨⟨hvol, hraw⟩, hname⟩ := hround
  have hthree : some kd.name ≠ some n ∧ kd.rawname ≠ some n ∧ volname fs kd.fs ≠ some n := by
    rcases mem_names.mp hn with heq | heq | heq
    · exact samestring3_eq_false hname (congrArg some heq.symm)
    · exact samestring3_eq_false hraw heq
    · exact samestring3_eq_false hvol heq
  rw [mem_names]
  rintro (heq | heq | heq)
  · exact hthree.1 (congrArg some heq.symm)
  · exact hthree.2.1 heq
  · exact hthree.2.2 heq

theorem unambiguous_iff : s.Unambiguous fs ↔
    ∀ (i j : ℕ) (kd kd' : TableDev), s.knowndevs[i]? = some kd → s.knowndevs[j]? = some kd' → i ≠ j →
      ∀ n ∈ names fs kd, n ∉ names fs kd' := by
  rw [Unambiguous, List.pairwise_iff_getElem]
  constructor
  · intro h i j kd kd' hi hj hne n hn hn'
    obtain ⟨hi', rfl⟩ := List.getElem?_eq_some_iff.mp hi
    obtain ⟨hj', rfl⟩ := List.getElem?_eq_some_iff.mp hj
    rcases Nat.lt_or_gt_of_ne hne with hlt | hgt
    · exact h i j hi' hj' hlt n hn hn'
    · exact h j i hj' hi' hgt n hn' hn
  · intro h i j hi hj hlt n hn
    exact h i j _ _ (List.getElem?_eq_getElem hi) (List.getElem?_eq_getElem hj) (Nat.ne_of_lt hlt) n hn

theorem Unambiguous.append {m : ℕ} (hs : s.Unambiguous fs)
    (hnew : ∀ kd' ∈ s.knowndevs, ∀ n ∈ names fs kd', n ∉ names fs kd) :
    Unambiguous fs ⟨s.knowndevs ++ [kd], m⟩ := by
  refine List.pairwise_append.mpr ⟨hs, List.pairwise_singleton .., fun kd' hmem x hx => ?_⟩
  rw [List.mem_singleton.mp hx]
  exact hnew kd' hmem

/-- The table with another file system on device `i`. -/
def withFs (s : DeviceTable) (i : ℕ) (kfs : KdFs) : DeviceTable :=
  { s with knowndevs := s.knowndevs.modify i fun kd => { kd with fs := kfs } }

theorem getElem?_withFs {j : ℕ} (h : (s.withFs i kfs).knowndevs[j]? = some kd) :
    (j = i ∧ ∃ kd', s.knowndevs[i]? = some kd' ∧ kd = { kd' with fs := kfs }) ∨ (j ≠ i ∧ s.knowndevs[j]? = some kd) := by
  unfold withFs at h
  by_cases hj : j = i
  · subst hj
    rw [List.getElem?_modify_eq, Option.map_eq_map, Option.map_eq_some_iff] at h
    obtain ⟨kd', hkd', rfl⟩ := h
    exact .inl ⟨rfl, kd', hkd', rfl⟩
  · have hsame := List.getElem?_modify_ne (fun kd : TableDev => { kd with fs := kfs }) s.knowndevs (Ne.symm hj)
    exact .inr ⟨hj, hsame.symm.trans h⟩

theorem Unambiguous.withFs (hs : s.Unambiguous fs)
    (hnew : ∀ n, volname fs kfs = some n → ∀ j kd, j ≠ i → s.knowndevs[j]? = some kd → n ∉ names fs kd) :
    (s.withFs i kfs).Unambiguous fs := by
  have hone : ∀ (j : ℕ) (kd kd' : TableDev), j ≠ i → s.knowndevs[j]? = some kd → s.knowndevs[i]? = some kd' →
      ∀ n ∈ names fs { kd' with fs := kfs }, n ∉ names fs kd := by
    intro j kd kd' hne hj hi n hn
    rcases mem_names.mp hn with heq | heq | heq
    · exact unambiguous_iff.mp hs i j kd' kd hi hj hne.symm n (mem_names.mpr (.inl heq))
    · exact unambiguous_iff.mp hs i j kd' kd hi hj hne.symm n (mem_names.mpr (.inr (.inl heq)))
    · exact hnew n heq j kd hne hj
  rw [unambiguous_iff]
  intro a b kd kd' ha hb hne n hn hn'
  rcases getElem?_withFs ha with ⟨hai, kd₁, h₁, rfl⟩ | ⟨hai, ha'⟩
  · rcases getElem?_withFs hb with ⟨hbi, -⟩ | ⟨hbi, hb'⟩
    · exact hne (hai.trans hbi.symm)
    · exact hone b kd' kd₁ hbi hb' h₁ n hn hn'
  · rcases getElem?_withFs hb with ⟨-, kd₂, h₂, rfl⟩ | ⟨-, hb'⟩
    · exact hone a kd kd₂ hai ha' h₂ n hn' hn
    · exact unambiguous_iff.mp hs a b kd kd' ha' hb' hne n hn hn'

/-! ### Runs -/

inductive Op where
  | adddev (devname : Name) (dev : ℕ) (mountable memory space : Bool)
  | addfs (devname : Name) (i : ℕ) (memory space : Bool)
  | mount (devname : Name) (mountfunc : Except Errno ℕ)
  | swapon (devname : Name) (memory : Bool)
  | swapoff (devname : Name)
  | unmount (devname : Name) (sync unmountfs : Option Errno)

def Op.call (fs : ℕ → Filesystem) : Op → TableCall Unit
  | .adddev devname dev mountable memory space => DeviceTable.adddev fs devname dev mountable memory space
  | .addfs devname i memory space => DeviceTable.addfs fs devname i memory space
  | .mount devname mountfunc => DeviceTable.mount devname mountfunc
  | .swapon devname memory => DeviceTable.swapon devname memory
  | .swapoff devname => DeviceTable.swapoff devname
  | .unmount devname sync unmountfs => DeviceTable.unmount devname sync unmountfs

/-- A call that comes back, with or without an error. -/
def step (fs : ℕ → Filesystem) (s : DeviceTable) (op : Op) : Option DeviceTable := (op.call fs s).state?

/-- The volume name of the file system is no name of another device. -/
def NewName (fs : ℕ → Filesystem) (s : DeviceTable) (devname : Name) (f : ℕ) : Prop :=
  ∀ n, (fs f).volname = some n → ∀ kd ∈ s.knowndevs, kd.name ≠ devname → n ∉ names fs kd

/-- A mount that succeeds brings in a new name. -/
def MountsNewName (fs : ℕ → Filesystem) (s : DeviceTable) : Op → Prop
  | .mount devname (.ok f) => ∀ t, mount devname (.ok f) s = .ok () t → NewName fs s devname f
  | _ => True

/-- The names are unambiguous, and a mountable device has a device. -/
structure Inv (fs : ℕ → Filesystem) (s : DeviceTable) : Prop where
  unambiguous : s.Unambiguous fs
  mountable : ∀ kd ∈ s.knowndevs, kd.rawname ≠ none → kd.device ≠ none

theorem inv_empty : Inv fs empty := ⟨.nil, fun _ h => nomatch h⟩

theorem Inv.withFs (hs : Inv fs s)
    (hnew : ∀ n, volname fs kfs = some n → ∀ j kd, j ≠ i → s.knowndevs[j]? = some kd → n ∉ names fs kd) :
    Inv fs (s.withFs i kfs) := by
  refine ⟨hs.unambiguous.withFs hnew, fun kd hmem hraw => ?_⟩
  obtain ⟨j, hj⟩ := List.mem_iff_getElem?.mp hmem
  rcases getElem?_withFs hj with ⟨-, kd', hkd', rfl⟩ | ⟨-, hj'⟩
  · exact hs.mountable kd' (List.mem_of_getElem? hkd') hraw
  · exact hs.mountable kd (List.mem_of_getElem? hj') hraw

theorem findmount_ends :
    Ends (findmount devname) s
      (fun i t => t = s ∧ ∃ kd, s.knowndevs[i]? = some kd ∧ kd.rawname ≠ none ∧ kd.name = devname)
      fun _ t => t = s := by
  unfold findmount
  rw [ends_bind, ends_read]
  cases hfind : s.knowndevs.findIdx? fun kd => kd.rawname.isSome && kd.name == devname with
  | none => exact ends_fail.mpr rfl
  | some i =>
    obtain ⟨hi, hp, -⟩ := List.findIdx?_eq_some_iff_getElem.mp hfind
    simp only [Bool.and_eq_true, Option.isSome_iff_ne_none, beq_iff_eq] at hp
    exact ends_pure.mpr ⟨rfl, _, List.getElem?_eq_getElem hi, hp.1, hp.2⟩

theorem ends_checkDevice_setFs {Q : Unit → DeviceTable → Prop} {E : Errno → DeviceTable → Prop}
    (hs : Inv fs s) (hi : s.knowndevs[i]? = some kd) (hraw : kd.rawname ≠ none) (hQ : Q () (s.withFs i kfs)) :
    Ends (do
      checkDevice i
      setFs i kfs) s Q E := by
  have hdev : kd.device ≠ none := hs.mountable kd (List.mem_of_getElem? hi) hraw
  unfold checkDevice setFs
  simp only [ends_bind, ends_read, ends_require, ends_update, hi, Option.bind_some]
  exact ⟨hdev, hQ⟩

theorem doadd_ends {dname : Name} {mountable space : Bool} {dev : Option ℕ} (hs : Inv fs s)
    (hdev : mountable = true → dev ≠ none) :
    Ends (doadd fs dname mountable dev kfs memory space) s (fun _ t => Inv fs t) fun _ t => t = s := by
  unfold doadd
  rw [ends_ite]
  refine ⟨fun _ => ends_fail.mpr rfl, fun _ => ?_⟩
  rw [ends_bind, ends_read, ends_ite]
  refine ⟨fun _ => ends_fail.mpr rfl, fun hbad => ?_⟩
  rw [ends_ite]
  refine ⟨fun _ => ends_fail.mpr rfl, fun _ => ?_⟩
  rw [ends_update]
  refine ⟨?_, fun kd hmem hraw => ?_⟩
  · apply hs.unambiguous.append
    intro kd' hmem n hn
    exact not_mem_names_of_badnames hmem (Bool.eq_false_iff.mpr hbad) hn
  · rcases List.mem_append.mp hmem with hold | hnew
    · exact hs.mountable kd hold hraw
    · rw [List.mem_singleton.mp hnew] at hraw ⊢
      apply hdev
      by_contra hm
      exact hraw (if_neg hm)

theorem mount_ends {mountfunc : Except Errno ℕ} (hs : Inv fs s) :
    Ends (mount devname mountfunc) s (fun _ t => (∀ f, mountfunc = .ok f → NewName fs s devname f) → Inv fs t)
      fun _ t => t = s := by
  unfold mount getFs
  rw [ends_bind]
  apply findmount_ends.mono _ fun _ _ => id
  rintro i t ⟨rfl, kd, hi, hraw, hname⟩
  rw [ends_bind, ends_read, ends_ite]
  refine ⟨fun _ => ends_fail.mpr rfl, fun _ => ?_⟩
  cases mountfunc with
  | error e =>
    have hdev : kd.device ≠ none := hs.mountable kd (List.mem_of_getElem? hi) hraw
    unfold checkDevice
    simp only [ends_bind, ends_read, ends_require, ends_fail, hi, Option.bind_some]
    exact ⟨hdev, trivial⟩
  | ok f =>
    refine ends_checkDevice_setFs hs hi hraw fun hop => hs.withFs fun n hn j kd' hne hj => ?_
    -- another device has another name, since `devname` is a name of device `i`
    refine hop f rfl n hn kd' (List.mem_of_getElem? hj) fun heq => ?_
    have hown : devname ∈ names fs kd := mem_names.mpr (.inl hname.symm)
    exact unambiguous_iff.mp hs.unambiguous i j kd kd' hi hj hne.symm devname hown (mem_names.mpr (.inl heq.symm))

theorem swapon_ends (hs : Inv fs s) :
    Ends (swapon devname memory) s (fun _ t => Inv fs t) fun _ t => t = s := by
  unfold swapon getFs
  rw [ends_ite]
  refine ⟨fun _ => ends_fail.mpr rfl, fun _ => ?_⟩
  rw [ends_bind]
  apply findmount_ends.mono _ fun _ _ => id
  rintro i t ⟨rfl, kd, hi, hraw, -⟩
  rw [ends_bind, ends_read, ends_ite]
  refine ⟨fun _ => ends_fail.mpr rfl, fun _ => ?_⟩
  exact ends_checkDevice_setFs hs hi hraw (hs.withFs fun n hn => nomatch hn)

theorem unmount_ends {sync unmountfs : Option Errno} (hs : Inv fs s) :
    Ends (unmount devname sync unmountfs) s (fun _ t => Inv fs t) fun _ t => t = s := by
  unfold unmount getFs
  rw [ends_bind]
  apply findmount_ends.mono _ fun _ _ => id
  rintro i t ⟨rfl, kd, hi, hraw, -⟩
  rw [ends_bind, ends_read, hi]
  have hdev : kd.device ≠ none := hs.mountable kd (List.mem_of_getElem? hi) hraw
  cases hfs : kd.fs with
  | null => simp [hfs]
  | swap => simp [hfs]
  | mounted f =>
    cases sync with
    | some e => simp [hfs, checkDevice, hi, hdev]
    | none =>
      cases unmountfs with
      | some e => simp [hfs, checkDevice, hi, hdev]
      | none =>
        simp only [Option.map_some, Option.getD_some, hfs]
        exact ends_checkDevice_setFs hs hi hraw (hs.withFs fun n hn => nomatch hn)

theorem swapoff_ends (hs : Inv fs s) : Ends (swapoff devname) s (fun _ t => Inv fs t) fun _ t => t = s := by
  unfold swapoff getFs setFs
  rw [ends_bind]
  apply findmount_ends.mono _ fun _ _ => id
  rintro i t ⟨rfl, -⟩
  rw [ends_bind, ends_read, ends_ite]
  refine ⟨fun _ => ends_fail.mpr rfl, fun _ => ?_⟩
  rw [ends_update]
  exact hs.withFs fun n hn => nomatch hn

variable {op : Op}

theorem call_ends (hs : Inv fs s) (hop : MountsNewName fs s op) :
    Ends (op.call fs) s (fun _ t => Inv fs t) fun _ t => t = s := by
  cases op with
  | adddev devname dev mountable memory space => exact doadd_ends hs fun _ => nofun
  | addfs devname i memory space => exact doadd_ends hs nofun
  | mount devname mountfunc =>
    show Ends (mount devname mountfunc) s _ _
    cases hrun : mount devname mountfunc s with
    | ok u t =>
      refine (ends_of_ok_iff hrun).mpr ((mount_ends hs).of_ok hrun fun f hf => ?_)
      subst hf
      exact hop t hrun
    | fail e t => exact (ends_of_fail_iff hrun).mpr ((mount_ends hs).of_fail hrun)
    | stop e => exact absurd hrun (mount_ends hs).not_stop
  | swapon devname memory => exact swapon_ends hs
  | swapoff devname => exact swapoff_ends hs
  | unmount devname sync unmountfs => exact unmount_ends hs

theorem Inv.step (hs : Inv fs s) (hop : MountsNewName fs s op) (h : s.step fs op = some t) : Inv fs t := by
  refine Ends.of_state? ((call_ends hs hop).mono (fun _ _ => id) ?_) h
  rintro - t rfl
  exact hs

/-- **Names of devices are unambiguous** in every run whose successful mounts bring in new volume names: no name belongs to two
devices, and `vfs_getroot` does not depend on the order of the array. -/
theorem device_names_unambiguous (fs : ℕ → Filesystem) {s : DeviceTable}
    (hs : Reaches (Guarded (StepOf (step fs)) (MountsNewName fs)) (· = empty) s) :
    s.Unambiguous fs ∧
    ∀ devs : List TableDev, devs.Perm s.knowndevs → ∀ devname, getroot fs devs devname = getroot fs s.knowndevs devname := by
  have hi : Inv fs s := hs.invariant (fun _ heq => heq ▸ inv_empty) fun _ _ _ hi h => hi.step h.1 h.2
  exact ⟨hi.unambiguous, fun devs hp devname => hi.unambiguous.getroot_perm hp devname⟩

/-- The file systems of the runs below: number 1 has the volume name `d1`, the others have none. -/
def twoVolumes : ℕ → Filesystem := fun i => ⟨10 + i, if i = 1 then some ['d', '1'] else none⟩

/-- Two disks are added and a file system without a volume name is mounted on the first. -/
theorem device_names_unambiguous_two_disks :
    ∃ s, Reaches (Guarded (StepOf (step twoVolumes)) (MountsNewName twoVolumes)) (· = empty) s ∧
      getroot twoVolumes s.knowndevs.reverse ['d', '0'] = .vnode 10 := by
  have h₀ : Reaches (Guarded (StepOf (step twoVolumes)) (MountsNewName twoVolumes)) (· = empty) empty := .start rfl
  have h₁ := h₀.next (i := Op.adddev ['d', '0'] 0 true true true) ⟨by exact trivial, by exact rfl⟩
  have h₂ := h₁.next (i := Op.adddev ['d', '1'] 1 true true true) ⟨by exact trivial, by exact rfl⟩
  have h₃ := h₂.next (i := Op.mount ['d', '0'] (.ok 0)) ⟨fun _ _ _ hn => (nomatch hn), by exact rfl⟩
  refine ⟨_, h₃, ?_⟩
  rw [(device_names_unambiguous twoVolumes h₃).2 _ (List.reverse_perm _)]
  rfl

/-- **A volume may have the name of another disk.**  Then the order of the array decides. -/
theorem device_names_ambiguous :
    ∃ s, Reaches (StepOf (step twoVolumes)) (· = empty) s ∧ ¬ s.Unambiguous twoVolumes ∧
      getroot twoVolumes s.knowndevs ['d', '1'] = .vnode 11 ∧
      getroot twoVolumes s.knowndevs.reverse ['d', '1'] = .error .enxio := by
  have hrun : (follow (step twoVolumes)
      [.adddev ['d', '0'] 0 true true true, .adddev ['d', '1'] 1 true true true, .mount ['d', '0'] (.ok 1)]
      empty).any (fun s => decide (¬ s.Unambiguous twoVolumes) &&
        decide (getroot twoVolumes s.knowndevs ['d', '1'] = .vnode 11) &&
        decide (getroot twoVolumes s.knowndevs.reverse ['d', '1'] = .error .enxio)) = true := by decide +kernel
  obtain ⟨s, hs, hp⟩ := exists_reaches_of_follow (step twoVolumes) (· = empty) empty _ _ rfl hrun
  simp only [Bool.and_eq_true, decide_eq_true_eq] at hp
  exact ⟨s, hs, hp.1.1, hp.1.2, hp.2⟩

end DeviceTable

end Os161Kernel
