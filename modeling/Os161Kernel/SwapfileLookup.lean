import Os161Kernel.Vfs

/-!
# Which file is the swap file

`swapfile_init` creates the file in the current directory of the kernel at boot, the root of `emu0:`.  Later opens
find it only from there: a process that was started after a `cd` elsewhere opens another file, or none.
-/

namespace Os161Kernel

open Calls Runs Function

namespace Vfs

variable {v v' : Vfs} {d f p x : ℕ} {path name : Name}

/-- The vnodes form a tree as far as plain files go, and current directories are directories. -/
structure Named (v : Vfs) : Prop where
  one_name : ∀ d n d' n' x, v.entry d n = some x → v.entry d' n' = some x → (v.ops x).isDir = false → d = d' ∧ n = n'
  lt : ∀ d n x, v.entry d n = some x → x < v.vnodes
  unused : ∀ x, v.vnodes ≤ x → (v.ops x).isDir = false
  mounted : ∀ x, (v.ops x).isDir = true → v.vnFs x ≠ none
  cwd_dir : ∀ p d, v.cwd p = some d → (v.ops d).isDir = true

/-! ### Lookups change nothing -/

/-- The call leaves the state as it is, however it ends. -/
def Reads {α : Type} (m : VfsCall α) (v : Vfs) : Prop := Ends m v (fun _ t => t = v) fun _ t => t = v

theorem getcurdir_reads (p : ℕ) (v : Vfs) : Reads (getcurdir p) v := by
  unfold Reads getcurdir
  simp only [ends_bind, ends_read]
  cases v.cwd p with
  | none => simp
  | some dir => simp

theorem getroot_reads (name : Name) (v : Vfs) : Reads (getroot name) v := by
  unfold Reads getroot
  simp only [ends_bind, ends_read]
  cases v.getrootFrom name v.knowndevs with
  | error e => simp
  | ok x => simp

theorem vopLookup_reads (d : ℕ) (path : Name) (v : Vfs) : Reads (vopLookup d path) v := by
  unfold Reads vopLookup
  simp only [ends_bind, ends_read]
  cases v.ops d with
  | emufsFile => simp
  | sfsFile => simp
  | device => simp [ends_ite]
  | sfsDir =>
    simp only [ends_bind, ends_read]
    cases v.entry d path with
    | none => simp
    | some x => simp
  | emufsDir =>
    simp only [ends_ite, ends_bind, ends_read, ends_fail]
    refine ⟨fun _ => trivial, fun _ => ?_⟩
    cases v.hostWalk d _ with
    | error e => simp
    | ok x => simp

theorem vopLookparent_reads (d : ℕ) (path : Name) (v : Vfs) : Reads (vopLookparent d path) v := by
  unfold Reads vopLookparent
  simp only [ends_bind, ends_read]
  cases v.ops d with
  | emufsFile => simp
  | sfsFile => simp
  | device => simp
  | sfsDir => simp [ends_ite]
  | emufsDir =>
    simp only [ends_ite, ends_fail]
    refine ⟨fun _ => trivial, fun _ => ?_⟩
    cases (path.reverse.span fun c => c ≠ '/').2 with
    | nil => simp
    | cons c parent =>
      simp only [ends_bind, ends_pure]
      exact vopLookup_reads d parent.reverse v

theorem getdevice_reads (h : v.Named) (p : ℕ) (path : Name) : Reads (getdevice p path) v := by
  have hcur : Ends (getcurdir p) v (fun d t => t = v ∧ v.cwd p = some d) fun _ t => t = v := by
    unfold getcurdir
    simp only [ends_bind, ends_read]
    cases hcwd : v.cwd p with
    | none => simp
    | some dir => simp
  unfold Reads getdevice
  split
  · simp
  · next c sub _ =>
    simp only [ends_ite, ends_bind, ends_read]
    refine ⟨fun _ => ?_, fun _ => hcur.mono (fun dir t ht => ?_) fun _ _ ht => ht⟩
    · cases v.bootfs with
      | none => simp
      | some dir => simp
    · obtain ⟨rfl, hcwd⟩ := ht
      cases hfs : t.vnFs dir with
      | none => exact absurd hfs (h.mounted dir (h.cwd_dir p dir hcwd))
      | some i => simp
  · next device sub _ _ =>
    simp only [ends_bind, ends_pure]
    exact getroot_reads device v
  · simp only [ends_bind, ends_pure]
    exact getcurdir_reads p v

theorem lookup_reads (h : v.Named) (p : ℕ) (path : Name) : Reads (lookup p path) v := by
  unfold Reads lookup
  simp only [ends_bind]
  refine (getdevice_reads h p path).mono (fun a t ht => ?_) fun _ _ ht => ht
  subst ht
  rw [ends_ite]
  exact ⟨fun _ => rfl, fun _ => vopLookup_reads a.1 a.2 t⟩

theorem lookparent_reads (h : v.Named) (p : ℕ) (path : Name) : Reads (lookparent p path) v := by
  unfold Reads lookparent
  simp only [ends_bind]
  refine (getdevice_reads h p path).mono (fun a t ht => ?_) fun _ _ ht => ht
  subst ht
  rw [ends_ite]
  exact ⟨fun _ => rfl, fun _ => vopLookparent_reads a.1 a.2 t⟩

/-! ### What a call leaves of the names -/

/-- From `v` to `v'` names are only added, and vnodes stay what they are. -/
structure Extends (v v' : Vfs) : Prop where
  named : v'.Named
  entry : ∀ d n x, v.entry d n = some x → v'.entry d n = some x
  isDir : ∀ x < v.vnodes, (v'.ops x).isDir = (v.ops x).isDir
  vnodes : v.vnodes ≤ v'.vnodes

theorem Named.extends_refl (h : v.Named) : Extends v v := ⟨h, fun _ _ _ => id, fun _ _ => rfl, Nat.le_refl _⟩

theorem Extends.trans {u : Vfs} (h : Extends v v') (h' : Extends v' u) : Extends v u where
  named := h'.named
  entry d n x hx := h'.entry d n x (h.entry d n x hx)
  isDir x hx := (h'.isDir x (Nat.lt_of_lt_of_le hx h.vnodes)).trans (h.isDir x hx)
  vnodes := Nat.le_trans h.vnodes h'.vnodes

theorem Named.create (h : v.Named) (hdir : (v.ops d).isDir = true) (hnew : v.entry d name = none) :
    Extends v { v with
      ops := update v.ops v.vnodes (v.ops d).fileOps
      vnFs := update v.vnFs v.vnodes (v.vnFs d)
      entry := update v.entry d (update (v.entry d) name (some v.vnodes))
      vnodes := v.vnodes + 1 } := by
  have hfile : ∀ o : VnodeOps, o.fileOps.isDir = false := by
    intro o
    cases o <;> rfl
  -- an entry of the new table is the new one or an old one
  have hentry : ∀ d' n' x, update v.entry d (update (v.entry d) name (some v.vnodes)) d' n' = some x →
      (d' = d ∧ n' = name ∧ x = v.vnodes) ∨ (v.entry d' n' = some x ∧ x < v.vnodes) := by
    intro d' n' x hx
    by_cases hd : d' = d
    · subst hd
      rw [update_self] at hx
      by_cases hn : n' = name
      · subst hn
        rw [update_self] at hx
        exact .inl ⟨rfl, rfl, (Option.some.inj hx).symm⟩
      · rw [update_of_ne hn] at hx
        exact .inr ⟨hx, h.lt _ _ _ hx⟩
    · rw [update_of_ne hd] at hx
      exact .inr ⟨hx, h.lt _ _ _ hx⟩
  have hops : ∀ x, x ≠ v.vnodes → update v.ops v.vnodes (v.ops d).fileOps x = v.ops x := fun x hx =>
    update_of_ne hx ..
  refine ⟨⟨?_, ?_, ?_, ?_, ?_⟩, ?_, ?_, Nat.le_succ _⟩
  · intro d₁ n₁ d₂ n₂ x h₁ h₂ hx
    rcases hentry d₁ n₁ x h₁ with ⟨rfl, rfl, rfl⟩ | ⟨h₁', hlt₁⟩
    · rcases hentry d₂ n₂ _ h₂ with ⟨rfl, rfl, -⟩ | ⟨-, hlt₂⟩
      · exact ⟨rfl, rfl⟩
      · omega
    · rcases hentry d₂ n₂ x h₂ with ⟨-, -, rfl⟩ | ⟨h₂', -⟩
      · omega
      · apply h.one_name d₁ n₁ d₂ n₂ x h₁' h₂'
        have hne : x ≠ v.vnodes := by omega
        rw [← hops x hne]
        exact hx
  · intro d' n' x hx
    show x < v.vnodes + 1
    rcases hentry d' n' x hx with ⟨-, -, rfl⟩ | ⟨-, hlt⟩ <;> omega
  · intro x hx
    show (update v.ops v.vnodes (v.ops d).fileOps x).isDir = false
    have hle : v.vnodes + 1 ≤ x := hx
    have hne : x ≠ v.vnodes := by omega
    rw [hops x hne]
    exact h.unused x (by omega)
  · intro x hx
    show update v.vnFs v.vnodes (v.vnFs d) x ≠ none
    by_cases hne : x = v.vnodes
    · rw [hne, update_self]
      exact h.mounted d hdir
    · rw [update_of_ne hne]
      apply h.mounted
      rw [← hops x hne]
      exact hx
  · intro p d' hcwd
    have hd' := h.cwd_dir p d' hcwd
    have hne : d' ≠ v.vnodes := by
      rintro rfl
      rw [h.unused _ (Nat.le_refl _)] at hd'
      exact Bool.noConfusion hd'
    show (update v.ops v.vnodes (v.ops d).fileOps d').isDir = true
    rw [hops d' hne]
    exact hd'
  · intro d' n' x hx
    show update v.entry d _ d' n' = some x
    by_cases hd : d' = d
    · subst hd
      rw [update_self, update_of_ne, hx]
      rintro rfl
      rw [hx] at hnew
      exact nomatch hnew
    · rw [update_of_ne hd, hx]
  · intro x hx
    show (update v.ops v.vnodes (v.ops d).fileOps x).isDir = _
    rw [hops x (by omega)]

theorem vopCreat_extends (h : v.Named) (d : ℕ) (name : Name) (excl : Bool) (error : Option Errno) :
    Ends (vopCreat d name excl error) v
      (fun x t => Extends v t ∧ t.cwd = v.cwd ∧ (v.ops d).isDir = true ∧ t.entry d name = some x) fun _ t => t = v := by
  unfold vopCreat
  simp only [ends_bind, ends_read, ends_ite, ends_fail]
  refine ⟨fun hdir => ?_, fun _ => trivial⟩
  cases hentry : v.entry d name with
  | some x =>
    simp only [ends_ite, ends_fail, ends_pure]
    exact ⟨fun _ => trivial, fun _ => ⟨h.extends_refl, trivial, hdir, hentry⟩⟩
  | none =>
    cases error with
    | some e => simp
    | none =>
      simp only [ends_bind, ends_read, ends_update, ends_pure]
      refine ⟨h.create hdir hentry, trivial, hdir, ?_⟩
      rw [update_self, update_self]

theorem vopEachopen_reads (x : ℕ) (canwrite : Bool) (v : Vfs) :
    Ends (vopEachopen x canwrite) v (fun _ t => t = v ∧ (canwrite = true → (v.ops x).isDir = false))
      fun _ t => t = v := by
  unfold vopEachopen
  simp only [ends_bind, ends_read, ends_ite, ends_fail, ends_pure, true_and]
  refine ⟨fun _ => trivial, fun hno hw => ?_⟩
  rw [hw, Bool.and_true] at hno
  exact eq_false_of_ne_true hno

theorem openVnode_extends (h : v.Named) (p : ℕ) (path : Name) (creat excl : Bool) (error : Option Errno) :
    Ends (openVnode p path creat excl error) v (fun _ t => Extends v t ∧ t.cwd = v.cwd)
      fun _ t => Extends v t ∧ t.cwd = v.cwd := by
  have hread : ∀ t, t = v → Extends v t ∧ t.cwd = v.cwd := by
    intro t ht
    rw [ht]
    exact ⟨h.extends_refl, rfl⟩
  unfold openVnode
  cases creat with
  | true =>
    rw [if_pos rfl, ends_bind]
    apply (lookparent_reads h p path).mono _ fun _ t ht => hread t ht
    intro a t ht
    rw [ht]
    exact (vopCreat_extends h a.1 a.2 excl error).mono (fun _ t' ht' => ⟨ht'.1, ht'.2.1⟩) fun _ t' => hread t'
  | false =>
    rw [if_neg Bool.false_ne_true]
    exact (lookup_reads h p path).mono (fun _ t => hread t) fun _ t => hread t

theorem openFile_extends (h : v.Named) (p : ℕ) (path : Name) (creat excl canwrite : Bool) (error : Option Errno) :
    Ends (openFile p path creat excl canwrite error) v (fun _ t => Extends v t ∧ t.cwd = v.cwd)
      fun _ t => Extends v t ∧ t.cwd = v.cwd := by
  unfold openFile
  simp only [ends_bind, ends_pure]
  apply (openVnode_extends h p path creat excl error).mono _ fun _ _ => id
  intro x t ht
  exact (vopEachopen_reads x canwrite t).mono (fun _ t' ht' => ht'.1 ▸ ht) fun _ t' ht' => ht' ▸ ht

/-! ### Runs -/

/-- What the kernel does with names after boot. -/
inductive Op where
  | chdir (p : ℕ) (path : Name)
  | setbootfs (p : ℕ) (fsname : Name)
  | procCreateRunprogram (p : ℕ)
  | openFile (p : ℕ) (path : Name) (creat excl canwrite : Bool) (error : Option Errno)

/-- One call, which may fail. -/
def step (v : Vfs) : Op → Option Vfs
  | .chdir p path => (Vfs.chdir p path v).state?
  | .setbootfs p fsname => (Vfs.setbootfs p fsname v).state?
  | .procCreateRunprogram p => (Vfs.procCreateRunprogram p v).state?
  | .openFile p path creat excl canwrite error => (Vfs.openFile p path creat excl canwrite error v).state?

/-- Before boot: nobody has a current directory. -/
structure PowerOn (v : Vfs) : Prop where
  named : v.Named
  cwd : ∀ p, v.cwd p = none

/-- The kernel booted in directory `d`, where `swapfile_init` opened or created the file `f`. -/
def Booted (d f : ℕ) (v : Vfs) : Prop :=
  ∃ v₀ error, PowerOn v₀ ∧ boot error v₀ = .ok f v ∧ v.cwd 0 = some d

/-- The invariant: `f` is the plain file with the name of the swap file in directory `d`. -/
structure SwapIn (d f : ℕ) (v : Vfs) : Prop where
  named : v.Named
  dir : (v.ops d).isDir = true
  entry : v.entry d swapfileName = some f
  file : (v.ops f).isDir = false

theorem SwapIn.mono (h : SwapIn d f v) (hx : Extends v v') : SwapIn d f v' := by
  have hd : d < v.vnodes := by
    by_contra hge
    have hno := h.named.unused d (Nat.not_lt.mp hge)
    rw [h.dir] at hno
    exact Bool.noConfusion hno
  refine ⟨hx.named, ?_, hx.entry d _ f h.entry, ?_⟩
  · rw [hx.isDir d hd]
    exact h.dir
  · rw [hx.isDir f (h.named.lt d _ f h.entry)]
    exact h.file

theorem Named.setCwd {q : Option ℕ} {n : ℕ} (h : v.Named) (hq : ∀ x, q = some x → (v.ops x).isDir = true) :
    Extends v { v with cwd := update v.cwd p q, procs := n } := by
  refine ⟨⟨h.one_name, h.lt, h.unused, h.mounted, fun r x hx => ?_⟩, fun _ _ _ => id, fun _ _ => rfl, Nat.le_refl _⟩
  have hcwd : update v.cwd p q r = some x := hx
  by_cases hr : r = p
  · rw [hr, update_self] at hcwd
    exact hq x hcwd
  · rw [update_of_ne hr] at hcwd
    exact h.cwd_dir r x hcwd

theorem Named.setBootfs {q : Option ℕ} (h : v.Named) : Extends v { v with bootfs := q } :=
  ⟨⟨h.one_name, h.lt, h.unused, h.mounted, h.cwd_dir⟩, fun _ _ _ => id, fun _ _ => rfl, Nat.le_refl _⟩

theorem chdir_extends (h : v.Named) (p : ℕ) (path : Name) :
    Ends (chdir p path) v (fun _ t => Extends v t) fun _ t => Extends v t := by
  unfold chdir setcurdir
  simp only [ends_bind, ends_read, ends_ite, ends_update, ends_fail]
  apply (lookup_reads h p path).mono
  · intro x t ht
    rw [ht]
    refine ⟨fun hdir => ?_, fun _ => h.extends_refl⟩
    exact h.setCwd (n := v.procs) fun y hy => Option.some.inj hy ▸ hdir
  · intro _ t ht
    rw [ht]
    exact h.extends_refl

theorem setbootfs_extends (h : v.Named) (p : ℕ) (fsname : Name) :
    Ends (setbootfs p fsname) v (fun _ t => Extends v t) fun _ t => Extends v t := by
  unfold setbootfs
  rw [ends_ite]
  refine ⟨fun _ => h.extends_refl, fun _ => ?_⟩
  simp only [ends_bind, ends_update]
  apply (chdir_extends h p _).mono _ fun _ _ => id
  intro _ t ht
  apply (getcurdir_reads p t).mono
  · intro x u hu
    rw [hu]
    exact ht.trans ht.named.setBootfs
  · intro _ u hu
    rw [hu]
    exact ht

theorem Named.step {op : Op} (h : v.Named) (hstep : v.step op = some v') : Extends v v' := by
  cases op with
  | chdir p path => exact (chdir_extends h p path).of_state? hstep
  | setbootfs p fsname => exact (setbootfs_extends h p fsname).of_state? hstep
  | procCreateRunprogram p =>
    rw [← Option.some.inj hstep]
    exact h.setCwd fun x hx => h.cwd_dir p x hx
  | openFile p path creat excl canwrite error =>
    have hends := openFile_extends h p path creat excl canwrite error
    exact (hends.mono (fun _ _ ht => ht.1) fun _ _ ht => ht.1).of_state? hstep

/-! ### The name of the swap file -/

theorem getdevice_swapfile (p : ℕ) :
    getdevice p swapfileName = getcurdir p >>= fun dir => pure (dir, swapfileName) := rfl

theorem vopLookup_swapfile (hdir : (v.ops d).isDir = true) : vopLookup d swapfileName v =
    match v.entry d swapfileName with
    | none => .fail .enoent v
    | some x => .ok x v := by
  have hwalk : v.hostWalk d ((swapfileName.splitOn '/').filter fun name => name ≠ []) =
      match v.entry d swapfileName with
      | none => .error .enoent
      | some x => .ok x := by
    have hsplit : ((swapfileName.splitOn '/').filter fun name => name ≠ []) = [swapfileName] := by decide
    rw [hsplit, hostWalk, if_pos hdir]
    cases v.entry d swapfileName with
    | none => rfl
    | some x => rfl
  unfold vopLookup
  simp only [bind_apply, read_apply]
  cases hops : v.ops d with
  | emufsFile => simp [hops, VnodeOps.isDir] at hdir
  | sfsFile => simp [hops, VnodeOps.isDir] at hdir
  | device => simp [hops, VnodeOps.isDir] at hdir
  | sfsDir =>
    simp only [bind_apply, read_apply]
    cases v.entry d swapfileName with
    | none => rfl
    | some x => rfl
  | emufsDir =>
    have hlen : ¬ swapfileName.length + 1 > 16384 := by decide
    simp only [if_neg hlen, bind_apply, read_apply, hwalk]
    cases v.entry d swapfileName with
    | none => rfl
    | some x => rfl

theorem vopLookparent_swapfile (hdir : (v.ops d).isDir = true) :
    vopLookparent d swapfileName v = .ok (d, swapfileName) v := by
  have hlast : swapfileName.reverse.span (fun c => c ≠ '/') = (swapfileName.reverse, []) := by decide
  have hlen : ¬ swapfileName.length + 1 > 256 := by decide
  have hrev : ¬ swapfileName.reverse.length + 1 > 256 := by decide
  unfold vopLookparent
  simp only [bind_apply, read_apply]
  cases hops : v.ops d with
  | emufsFile => simp [hops, VnodeOps.isDir] at hdir
  | sfsFile => simp [hops, VnodeOps.isDir] at hdir
  | device => simp [hops, VnodeOps.isDir] at hdir
  | sfsDir => simp only [if_neg hlen, pure_apply]
  | emufsDir => simp only [hlast, if_neg hrev, pure_apply]

theorem vopEachopen_apply (x : ℕ) : vopEachopen x true v =
    if (v.ops x).isDir = true then .fail .eisdir v else .ok () v := by
  unfold vopEachopen
  simp only [bind_apply, read_apply, Bool.and_true]
  split <;> rfl

theorem openSwapfile_ok_iff (h : v.Named) : openSwapfile p v = .ok f v' ↔
    v' = v ∧ ∃ d, v.cwd p = some d ∧ v.entry d swapfileName = some f ∧ (v.ops f).isDir = false := by
  unfold openSwapfile openFile openVnode lookup
  rw [if_neg Bool.false_ne_true, getdevice_swapfile]
  unfold getcurdir
  simp only [bind_apply, Call.attempt, read_apply]
  cases hcwd : v.cwd p with
  | none => simp [Call.stop]
  | some d =>
    have hname : swapfileName ≠ [] := by decide
    simp only [pure_apply, if_neg hname, vopLookup_swapfile (h.cwd_dir p d hcwd)]
    cases hentry : v.entry d swapfileName with
    | none => simp [hentry, Call.stop]
    | some x =>
      simp only [vopEachopen_apply]
      by_cases hx : (v.ops x).isDir = true
      · simp only [if_pos hx, Call.stop]
        refine ⟨fun hr => (by cases hr), ?_⟩
        rintro ⟨-, d', hd', hf, hfile⟩
        rw [← Option.some.inj hd', hentry, Option.some.injEq] at hf
        rw [hf, hfile] at hx
        exact Bool.noConfusion hx
      · simp only [if_neg hx, pure_apply, Reply.ok.injEq]
        constructor
        · rintro ⟨rfl, rfl⟩
          exact ⟨rfl, d, rfl, hentry, eq_false_of_ne_true hx⟩
        · rintro ⟨rfl, d', hd', hf, -⟩
          rw [← Option.some.inj hd', hentry, Option.some.injEq] at hf
          exact ⟨hf, rfl⟩

theorem Booted.swapIn (h : Booted d f v) : SwapIn d f v := by
  obtain ⟨v₀, error, hpower, hboot, hcwd⟩ := h
  unfold boot swapfileInit at hboot
  obtain ⟨r, t, hfirst, hinit⟩ := bind_ok_iff.mp hboot
  -- whether or not `vfs_setbootfs` succeeded, the names are in order
  have ht : t.Named := by
    have hends := setbootfs_extends hpower.named 0 ['e', 'm', 'u', '0']
    rcases attempt_ok_iff.mp hfirst with ⟨a, -, hok⟩ | ⟨x, -, hfail⟩
    · exact (hends.of_ok hok).named
    · exact (hends.of_fail hfail).named
  obtain ⟨r', t', hattempt, hlast⟩ := bind_ok_iff.mp hinit
  rcases attempt_ok_iff.mp hattempt with ⟨a, rfl, hopen⟩ | ⟨x, rfl, -⟩
  · simp only [pure_apply, Reply.ok.injEq] at hlast
    obtain ⟨rfl, rfl⟩ := hlast
    unfold openFile at hopen
    obtain ⟨x, u, hvnode, hrest⟩ := bind_ok_iff.mp hopen
    obtain ⟨_, u', heach, hpure⟩ := bind_ok_iff.mp hrest
    simp only [pure_apply, Reply.ok.injEq] at hpure
    obtain ⟨rfl, rfl⟩ := hpure
    obtain ⟨rfl, hfile⟩ := (vopEachopen_reads x true u).of_ok heach
    -- the file was looked up or made in the current directory
    unfold openVnode lookparent at hvnode
    rw [if_pos rfl, getdevice_swapfile] at hvnode
    unfold getcurdir at hvnode
    cases hdir : t.cwd 0 with
    | none => simp [bind_apply, hdir] at hvnode
    | some d' =>
      have hisDir := ht.cwd_dir 0 d' hdir
      have hname : swapfileName ≠ [] := by decide
      simp only [bind_apply, read_apply, hdir, pure_apply, if_neg hname,
        vopLookparent_swapfile hisDir] at hvnode
      obtain ⟨hext, hsame, -, hentry⟩ := (vopCreat_extends ht d' swapfileName false error).of_ok hvnode
      have hdd : d' = d := by
        rw [hsame, hdir] at hcwd
        exact Option.some.inj hcwd
      subst hdd
      exact ⟨hext.named, hext.named.cwd_dir 0 d' hcwd, hentry, hfile rfl⟩
  · exact nomatch hlast

/-! ### A boot -/

/-- An emufs whose root has one directory, `bin`. -/
def hostTree : Vfs where
  knowndevs := [⟨['e', 'm', 'u', '0'], none, some 0, 2⟩]
  fs _ := ⟨0, none⟩
  ops x := if x < 2 then .emufsDir else .emufsFile
  vnFs _ := some 0
  entry d name := if d = 0 ∧ name = ['b', 'i', 'n'] then some 1 else none
  vnodes := 2
  bootfs := none
  cwd _ := none
  procs := 1

theorem hostTree_powerOn : PowerOn hostTree := by
  have hentry : ∀ d n x, hostTree.entry d n = some x → x = 1 := by
    intro d n x h
    simp only [hostTree, Option.ite_none_right_eq_some, Option.some.injEq] at h
    exact h.2.symm
  have hops : ∀ x, (hostTree.ops x).isDir = true ↔ x < 2 := by
    intro x
    show (if x < 2 then VnodeOps.emufsDir else VnodeOps.emufsFile).isDir = true ↔ x < 2
    by_cases h : x < 2
    · rw [if_pos h]
      exact iff_of_true rfl h
    · rw [if_neg h]
      exact iff_of_false Bool.false_ne_true h
  refine ⟨⟨?_, ?_, ?_, ?_, ?_⟩, fun _ => rfl⟩
  · intro d n d' n' x hx _ hfile
    rw [hentry d n x hx] at hfile
    exact absurd ((hops 1).mpr (by omega)) (Bool.eq_false_iff.mp hfile)
  · intro d n x hx
    rw [hentry d n x hx]
    decide
  · intro x hx
    exact Bool.eq_false_iff.mpr fun hdir => absurd ((hops x).mp hdir) (Nat.not_lt.mpr hx)
  · exact fun _ _ => Option.some_ne_none 0
  · exact fun _ _ h => nomatch h

theorem hostTree_runs {ops : List Op} {v : Vfs}
    (h : (boot none hostTree).state?.bind (follow step ops) = some v) : Reaches (StepOf step) (Booted 0 2) v := by
  have hboot : ∃ t, boot none hostTree = .ok 2 t ∧ t.cwd 0 = some 0 := ⟨_, rfl, rfl⟩
  obtain ⟨t, hok, hcwd⟩ := hboot
  rw [hok] at h
  exact Reaches.of_follow ops (.start ⟨hostTree, none, hostTree_powerOn, hok, hcwd⟩) h

end Vfs

/-- **A process finds the swap file exactly from the boot directory.**  After boot in directory `d`, whatever names are
looked up and created, directories changed and processes started, the opens of `swapOut` and `swapIn` in process `p`
give the file of `swapfile_init` if and only if the current directory of `p` is `d`. -/
theorem swapfile_is_boot_file_iff {d f : ℕ} {v : Vfs} (h : Reaches (StepOf Vfs.step) (Vfs.Booted d f) v) (p : ℕ) :
    Vfs.openSwapfile p v = .ok f v ↔ v.cwd p = some d := by
  have hin : Vfs.SwapIn d f v := by
    apply h.invariant (P := Vfs.SwapIn d f)
    · intro v hboot
      exact hboot.swapIn
    · intro v op v' hv hstep
      exact hv.mono (hv.named.step hstep)
  rw [Vfs.openSwapfile_ok_iff hin.named]
  constructor
  · rintro ⟨-, d', hcwd, hentry, hfile⟩
    rw [hcwd, (hin.named.one_name d' _ d _ f hentry hin.entry hfile).1]
  · intro hcwd
    exact ⟨rfl, d, hcwd, hin.entry, hin.file⟩

/-- A program started at the prompt right after boot. -/
theorem swapfile_is_boot_file_at_root : ∃ v, Reaches (StepOf Vfs.step) (Vfs.Booted 0 2) v ∧ v.cwd 1 = some 0 ∧
    Vfs.openSwapfile 1 v = .ok 2 v := by
  have hrun : ∃ v, (Vfs.boot none Vfs.hostTree).state?.bind (follow Vfs.step [.procCreateRunprogram 0]) = some v ∧
      v.cwd 1 = some 0 := ⟨_, rfl, rfl⟩
  obtain ⟨v, hv, hcwd⟩ := hrun
  exact ⟨v, Vfs.hostTree_runs hv, hcwd, (swapfile_is_boot_file_iff (Vfs.hostTree_runs hv) 1).mpr hcwd⟩

/-- **After a `cd` the swap file is lost.**  A program started from `bin` panics at its first swap; once it has made a
file `swapfile` there, it swaps to that file. -/
theorem swapfile_lost_after_chdir : ∃ v v', Reaches (StepOf Vfs.step) (Vfs.Booted 0 2) v ∧
    Vfs.openSwapfile 1 v = .stop (.panic "ERROR in SWAPFILE opening operation\n") ∧
    v.step (.openFile 1 Vfs.swapfileName true false true none) = some v' ∧ Vfs.openSwapfile 1 v' = .ok 3 v' := by
  have hrun : ∃ v v', (Vfs.boot none Vfs.hostTree).state?.bind
      (follow Vfs.step [.chdir 0 ['b', 'i', 'n'], .procCreateRunprogram 0]) = some v ∧
      Vfs.openSwapfile 1 v = .stop (.panic "ERROR in SWAPFILE opening operation\n") ∧
      v.step (.openFile 1 Vfs.swapfileName true false true none) = some v' ∧ Vfs.openSwapfile 1 v' = .ok 3 v' :=
    ⟨_, _, rfl, rfl, rfl, rfl⟩
  obtain ⟨v, v', hv, hrest⟩ := hrun
  exact ⟨v, v', Vfs.hostTree_runs hv, hrest⟩

end Os161Kernel
