import Os161Kernel.FrameOps
import Os161Kernel.Boot
import Os161Kernel.Lib.Runs

/-!
# Frame accounting

Every frame below `PAGETABLE_ENTRY` is valid in the page table and on no list, or free and on `frame_list`
exactly once.  In the middle of an operation a released frame may be in neither place, so the invariant
`Accounted F s` also counts the frames `F` on their way.  Each move of the allocator keeps it, whatever calls
it is nested in, and so does every allocator call (`Accounted.moves`).

The frames of the page table itself are never on the list.  This needs more than counting: no call may
release a frame that is not its own.  It follows from `HeapInvariant`, along runs of a kernel client that frees
what it was given.
-/

namespace Os161Kernel

open StateProg Search Memory Runs Function Kernel

/-- Every frame is valid, or on the list or on its way exactly once. -/
def Accounted (F : List ℕ) (s : Kernel) : Prop :=
  ∀ f, (s.freeFrames ++ F).count f = if f < s.pagetableEntry ∧ ¬ s.Valid f then 1 else 0

namespace Accounted

variable {F F' : List ℕ} {s s' : Kernel}

theorem congr (h : Accounted F s) (hlist : s'.frameList = s.frameList)
    (hent : s'.pagetableEntry = s.pagetableEntry) (hvalid : ∀ f, s'.Valid f ↔ s.Valid f) :
    Accounted F s' := by
  intro f
  unfold freeFrames
  rw [hlist, hent, ← freeFrames, h f]
  simp only [hvalid]

theorem of_sameOwners (hs : SameOwners s s') (h : Accounted F s) : Accounted F s' :=
  h.congr (by rw [hs]) (by rw [hs]) fun f => by rw [hs]; rfl

theorem pop {node : FrameListStruct} {rest : List FrameListStruct} (h : Accounted F s)
    (hl : s.frameList = node :: rest) (hlt : node.frameNumber < s.pagetableEntry)
    (hv : ¬ s.Valid node.frameNumber) : Accounted F (s.popFrame node.frameNumber) := by
  intro f
  have hold := h f
  have hlist : s.freeFrames = node.frameNumber :: (s.popFrame node.frameNumber).freeFrames := by
    simp only [freeFrames, popFrame, hl, List.map_cons, List.tail_cons]
  rw [hlist, List.cons_append] at hold
  by_cases hf : f = node.frameNumber
  · have hvalid : (s.popFrame node.frameNumber).Valid f := by
      show (update s.mainPG node.frameNumber _ f).valid = true
      rw [hf, update_self]
    rw [hf, List.count_cons_self, if_pos ⟨hlt, hv⟩] at hold
    rw [if_neg fun hc => hc.2 hvalid, hf]
    exact Nat.succ.inj hold
  · have hvalid : (s.popFrame node.frameNumber).Valid f ↔ s.Valid f := by
      show (update s.mainPG node.frameNumber _ f).valid = true ↔ _
      rw [update_of_ne hf]
      rfl
    rw [List.count_cons_of_ne fun heq => hf heq.symm] at hold
    rw [hold]
    simp only [hvalid]
    rfl

theorem release {g : ℕ} (h : Accounted F s) (hlt : g < s.pagetableEntry) (hv : s.Valid g) :
    Accounted (g :: F) (s.release g) := by
  intro f
  have hsame := s.release_same g
  have hlist : (s.release g).freeFrames = s.freeFrames := by
    unfold freeFrames
    rw [hsame]
  rw [hlist, show (s.release g).pagetableEntry = s.pagetableEntry by rw [hsame],
    (List.perm_middle (a := g)).count_eq]
  have hold := h f
  by_cases hf : f = g
  · rw [hf] at hold ⊢
    rw [List.count_cons_self, if_pos ⟨hlt, s.not_valid_release g⟩, hold, if_neg fun hc => hc.2 hv]
  · rw [List.count_cons_of_ne fun heq => hf heq.symm, hold]
    simp only [release_valid_iff hf]

theorem move (h : Accounted F s) (hm : Move (F, s) (F', s')) : Accounted F' s' := by
  cases hm with
  | pop hl hlt hv => exact h.pop hl hlt hv
  | release hlt hv => exact h.release hlt hv
  | push hp =>
    intro f
    have hold := h f
    rw [(List.perm_middle).count_eq, ← List.cons_append] at hold
    rw [(hp.perm.append_right F').count_eq, hold, hp.same]
    rfl
  | heap hs =>
    refine h.congr ?_ ?_ fun f => ?_
    · rw [hs]
    · rw [hs]
    · rw [hs]
      rfl

theorem run (h : Accounted F s) (hrun : Relation.ReflTransGen Move (F, s) (F', s')) : Accounted F' s' := by
  have key : ∀ x, Relation.ReflTransGen Move (F, s) x → Accounted x.1 x.2 := by
    intro x hx
    induction hx with
    | refl => exact h
    | tail _ hm ih => exact ih.move hm
  exact key (F', s') hrun

theorem moves (h : Accounted F s) (hm : Moves s s') : Accounted F s' := h.run (hm F)

theorem split (h : Accounted [] s) {f : ℕ} (hf : f < s.pagetableEntry) :
    (s.Valid f ∧ f ∉ s.freeFrames) ∨ (¬ s.Valid f ∧ s.freeFrames.count f = 1) := by
  have hcount := h f
  rw [List.append_nil] at hcount
  by_cases hv : s.Valid f
  · rw [if_neg fun hc => hc.2 hv] at hcount
    exact .inl ⟨hv, List.count_eq_zero.mp hcount⟩
  · rw [if_pos ⟨hf, hv⟩] at hcount
    exact .inr ⟨hv, hcount⟩

theorem of_mem (h : Accounted [] s) {f : ℕ} (hf : f ∈ s.freeFrames) :
    f < s.pagetableEntry ∧ ¬ s.Valid f := by
  have hcount := h f
  rw [List.append_nil] at hcount
  by_contra hno
  rw [if_neg hno] at hcount
  exact List.count_eq_zero.mp hcount hf

end Accounted

/-! ### Rows with an owner -/

/-- A row that carries a pid is valid. -/
def OwnedValid (s : Kernel) : Prop := ∀ f, (s.mainPG f).pid ≠ 0 → s.Valid f

namespace OwnedValid

variable {F F' : List ℕ} {s s' : Kernel}

theorem of_same (h : OwnedValid s) (hrows : s'.mainPG = s.mainPG) : OwnedValid s' := by
  intro f
  unfold Valid
  rw [hrows]
  exact h f

theorem of_update {e : InvertedPT} {g : ℕ} (h : OwnedValid s) (hrows : s'.mainPG = update s.mainPG g e)
    (he : e.pid ≠ 0 → e.valid = true) : OwnedValid s' := by
  intro f
  unfold Valid
  rw [hrows]
  by_cases hf : f = g
  · rw [hf, update_self]
    exact he
  · rw [update_of_ne hf]
    exact h f

theorem move (h : OwnedValid s) (hm : Move (F, s) (F', s')) : OwnedValid s' := by
  cases hm with
  | pop => exact h.of_update rfl fun _ => rfl
  | release => exact h.of_update (release_mainPG _ _) fun hne => absurd rfl hne
  | push hpush => exact h.of_same (by rw [hpush.same])
  | heap hheap => exact h.of_same (by rw [hheap])

theorem run (h : OwnedValid s) (hrun : Relation.ReflTransGen Move (F, s) (F', s')) : OwnedValid s' := by
  have key : ∀ x, Relation.ReflTransGen Move (F, s) x → OwnedValid x.2 := by
    intro x hx
    induction hx with
    | refl => exact h
    | tail _ hm ih => exact ih.move hm
  exact key (F', s') hrun

theorem moves (h : OwnedValid s) (hm : Moves s s') : OwnedValid s' := h.run (hm [])

theorem addPT {i v : ℕ} {pid : UInt8} {dirty : Bool} {u : Unit} (h : OwnedValid s)
    (hrun : Os161Kernel.addPT i v pid dirty s = .ok u s') : OwnedValid s' := by
  obtain ⟨-, -, rfl⟩ := addPT_ok hrun
  exact h.of_update rfl fun _ => rfl

end OwnedValid

/-! ### Frames that stay in use -/

/-- What is fixed once the VM has started. -/
structure SameSetup (s s' : Kernel) : Prop where
  started : s'.vmStarted = s.vmStarted
  location : s'.mainPGLocation = s.mainPGLocation
  entries : s'.pagetableEntry = s.pagetableEntry
  lastpaddr : s'.lastpaddr = s.lastpaddr

instance : Std.Refl SameSetup := ⟨fun _ => ⟨rfl, rfl, rfl, rfl⟩⟩

instance : IsTrans Kernel SameSetup where
  trans _ _ _ hst htu := ⟨htu.started.trans hst.started, htu.location.trans hst.location,
    htu.entries.trans hst.entries, htu.lastpaddr.trans hst.lastpaddr⟩

theorem AllocOnly.sameSetup {s s' : Kernel} (h : AllocOnly s s') : SameSetup s s' := by
  constructor <;> rw [h]

theorem SameOwners.sameSetup {s s' : Kernel} (h : SameOwners s s') : SameSetup s s' := by
  constructor <;> rw [h]

theorem HeapOnly.sameSetup {s s' : Kernel} (h : HeapOnly s s') : SameSetup s s' := by
  constructor <;> rw [h]

/-- Outside `D`, the frames in use outside the heap stay so and keep their rows. -/
structure Leaves (D : Set ℕ) (s s' : Kernel) : Prop where
  setup : SameSetup s s'
  calm : ∀ f, f ∉ D → s.Calm f → s'.Calm f
  row : ∀ f, f ∉ D → s.Calm f → s'.mainPG f = s.mainPG f

namespace Leaves

variable {D D' : Set ℕ} {s t u : Kernel}

theorem trans (hst : Leaves D s t) (htu : Leaves D' t u) : Leaves (D ∪ D') s u where
  setup := IsTrans.trans _ _ _ hst.setup htu.setup
  calm f hf hc := htu.calm f (fun h => hf (.inr h)) (hst.calm f (fun h => hf (.inl h)) hc)
  row f hf hc := by
    have hD : f ∉ D := fun h => hf (.inl h)
    rw [htu.row f (fun h => hf (.inr h)) (hst.calm f hD hc), hst.row f hD hc]

theorem of_quiet (h : QuietBut D s t) : Leaves D s t := ⟨h.same.sameSetup, h.stays, h.row⟩

theorem of_freed (s : Kernel) (f : ℕ) : Leaves {f} s (s.freed f) :=
  ⟨(s.freed_allocOnly f).sameSetup, fun _ hg => (freed_calm_iff hg).mpr, fun _ hg _ => freed_mainPG hg⟩

theorem of_freed_quiet {f : ℕ} (h : Quiet (s.freed f) t) : Leaves {f} s t := by
  have htrans := (of_freed s f).trans (of_quiet h)
  rwa [Set.union_empty] at htrans

theorem of_mapped {f : ℕ} {e : InvertedPT} (h : QuietBut {f} s t) (hs : s.vmStarted = true) (hc : t.Calm f)
    (he : e.valid = true) : Leaves {f} s (t.setRow f e) := by
  have hs' : t.vmStarted = true := h.vmStarted.trans hs
  have hvalid : t.Valid f := ((busy_iff hs').mp hc.busy).2
  have hsetup := h.same.sameSetup
  refine ⟨⟨hsetup.started, hsetup.location, hsetup.entries, hsetup.lastpaddr⟩, fun g hg hcg => ?_,
    fun g hg hcg => ?_⟩
  · exact (setRow_calm_iff hs' hvalid he).mpr (h.stays g hg hcg)
  · rw [← h.row g hg hcg]
    exact update_of_ne hg ..

theorem of_sameOwners (h : SameOwners s t) : Leaves ∅ s t :=
  ⟨h.sameSetup, fun _ _ => h.calm_iff.mpr, fun _ _ _ => by rw [h]⟩

theorem livePage {f : ℕ} (h : Leaves D s t) (hf : f ∉ D) (hlive : s.heapView.LivePage (kvaddr f)) :
    t.heapView.LivePage (kvaddr f) := by
  obtain ⟨hheld, hcalm⟩ := livePage_iff.mp hlive
  have hcalm' := h.calm f hf hcalm
  refine livePage_iff.mpr ⟨?_, hcalm'⟩
  cases hs : s.vmStarted with
  | true =>
    have hs' : t.vmStarted = true := h.setup.started.trans hs
    obtain ⟨hlt, hvalid⟩ := (busy_iff hs').mp hcalm'.busy
    refine (held_iff hs').mpr ⟨hlt, hvalid, ?_⟩
    rw [h.row f hf hcalm]
    exact ((held_iff hs).mp hheld).2.2
  | false =>
    have hs' : t.vmStarted = false := h.setup.started.trans hs
    exact (held_iff_early hs').mpr ((busy_iff_early hs').mp hcalm'.busy)

end Leaves

/-! ### A client of the allocator -/

/-- The kernel with what it was handed and has not freed since: blocks by `kmalloc`, pages by
`alloc_kpages`. -/
structure Client where
  blocks : List ℕ
  pages : List ℕ
  kernel : Kernel

/-- What a client does, each call with its own depth of the circle.  `setDirty` edits the dirty bit of a user page's
row; `other` is anything that leaves the page table, the frame list and the heap alone. -/
inductive ClientOp where
  | kmalloc (d sz : ℕ)
  | kfree (d ptr : ℕ)
  | allocKpages (d : ℕ)
  | freeKpages (d f : ℕ)
  | allocPages (d vaddr : ℕ) (dirty : Bool)
  | swapOut (d f : ℕ)
  | swapIn (d index : ℕ)
  | setDirty (f : ℕ) (dirty : Bool)
  | other

namespace Client

/-- Frame `f` was handed out and not freed since, by `alloc_kpages` or for a user page. -/
def MayFree (c : Client) (f : ℕ) : Prop :=
  kvaddr f ∈ c.pages ∨ (f < c.kernel.pagetableEntry ∧ c.kernel.User f)

/-- A call that returned, made with an address the client may use. -/
inductive Step : Client → ClientOp → Client → Prop
  | kmalloc {B P : List ℕ} {s s' : Kernel} {d sz a : ℕ} (h : kmalloc d sz s = .ok a s') :
      Step ⟨B, P, s⟩ (.kmalloc d sz) ⟨if a = 0 then B else a :: B, P, s'⟩
  | kfree {B P : List ℕ} {s s' : Kernel} {d ptr : ℕ} (hptr : ptr = 0 ∨ ptr ∈ B)
      (h : kfree d ptr s = .ok () s') : Step ⟨B, P, s⟩ (.kfree d ptr) ⟨B.erase ptr, P, s'⟩
  | allocKpages {B P : List ℕ} {s s' : Kernel} {d a : ℕ} (h : allocKpages d 1 s = .ok a s') :
      Step ⟨B, P, s⟩ (.allocKpages d) ⟨B, if a = 0 then P else a :: P, s'⟩
  | freeKpages {B P : List ℕ} {s s' : Kernel} {d f : ℕ} (hf : MayFree ⟨B, P, s⟩ f)
      (h : freeKpages d (kvaddr f) s = .ok () s') :
      Step ⟨B, P, s⟩ (.freeKpages d f) ⟨B, P.erase (kvaddr f), s'⟩
  | allocPages {B P : List ℕ} {s s' : Kernel} {d vaddr : ℕ} {dirty : Bool}
      (h : allocPages d vaddr dirty s = .ok () s') :
      Step ⟨B, P, s⟩ (.allocPages d vaddr dirty) ⟨B, P, s'⟩
  | swapOut {B P : List ℕ} {s s' : Kernel} {d f r : ℕ} (hf : MayFree ⟨B, P, s⟩ f)
      (h : swapOut d (kvaddr f) s = .ok r s') :
      Step ⟨B, P, s⟩ (.swapOut d f) ⟨B, if r = 0 then P.erase (kvaddr f) else P, s'⟩
  | swapIn {B P : List ℕ} {s s' : Kernel} {d index r : ℕ} (h : swapIn d index s = .ok r s') :
      Step ⟨B, P, s⟩ (.swapIn d index) ⟨B, P, s'⟩
  | setDirty {B P : List ℕ} {s : Kernel} {f : ℕ} {dirty : Bool} (hlt : f < s.pagetableEntry)
      (hu : s.User f) :
      Step ⟨B, P, s⟩ (.setDirty f dirty) ⟨B, P, s.setRow f { s.mainPG f with dirty := dirty }⟩
  | other {B P : List ℕ} {s s' : Kernel} (h : SameOwners s s') : Step ⟨B, P, s⟩ .other ⟨B, P, s'⟩

/-- The invariant of a client's runs on a machine with `ram` bytes of memory, with the frames `F` on their
way. -/
structure Inv (ram : ℕ) (F : List ℕ) (c : Client) : Prop where
  heap : HeapInv (c.blocks ++ c.pages) [] c.kernel
  pages : ∀ f, kvaddr f ∈ c.pages → c.kernel.heapView.LivePage (kvaddr f)
  account : Accounted F c.kernel
  table : ∀ f, tableLocation ram ≤ f * pageSize → f < c.kernel.pagetableEntry →
    c.kernel.Calm f ∧ (c.kernel.mainPG f).pid = 0 ∧ kvaddr f ∉ c.blocks ++ c.pages

variable {ram : ℕ} {F F' : List ℕ}

/-- Frame `f` is set aside for good: in use outside the heap, no client's, and once there is a page table no user's. -/
structure Reserved (c : Client) (f : ℕ) : Prop where
  calm : c.kernel.Calm f
  pid : c.kernel.vmStarted = true → (c.kernel.mainPG f).pid = 0
  not_mem : kvaddr f ∉ c.blocks ++ c.pages

/-- The invariant holds afterwards, and what was set aside still is, with its row. -/
structure Carried (ram : ℕ) (F' : List ℕ) (c c' : Client) : Prop where
  inv : c'.Inv ram F'
  setup : SameSetup c.kernel c'.kernel
  reserved : ∀ f, c.Reserved f → c'.Reserved f
  row : ∀ f, c.Reserved f → c'.kernel.mainPG f = c.kernel.mainPG f

variable {c c' : Client} {f a v r : ℕ} {pid : UInt8} {dirty : Bool} {op : ClientOp}

theorem Carried.trans {F₁ F₂ : List ℕ} {t : Client} (h : Carried ram F₁ c t) (h' : Carried ram F₂ t c') :
    Carried ram F₂ c c' where
  inv := h'.inv
  setup := IsTrans.trans _ _ _ h.setup h'.setup
  reserved f hf := h'.reserved f (h.reserved f hf)
  row f hf := (h'.row f (h.reserved f hf)).trans (h.row f hf)

theorem Carried.refl (h : c.Inv ram F) : Carried ram F c c :=
  ⟨h, Std.Refl.refl _, fun _ => id, fun _ _ => rfl⟩

theorem Inv.table_reserved (h : c.Inv ram F) (hf : tableLocation ram ≤ f * pageSize)
    (hlt : f < c.kernel.pagetableEntry) : c.Reserved f :=
  ⟨(h.table f hf hlt).1, fun _ => (h.table f hf hlt).2.1, (h.table f hf hlt).2.2⟩

/-- **What a step has to show.**  A frame that is disturbed was not in use, or is the client's, or a user's; an
address that the client comes to own is no frame that stays in use outside the heap. -/
theorem Inv.next (h : c.Inv ram F) (c' : Client) {D : Set ℕ} (hl : Leaves D c.kernel c'.kernel)
    (hD : ∀ f ∈ D, ¬ c.kernel.Calm f ∨ kvaddr f ∈ c.blocks ++ c.pages ∨
      c.kernel.vmStarted = true ∧ c.kernel.User f)
    (hheap : HeapInv (c'.blocks ++ c'.pages) [] c'.kernel) (haccount : Accounted F' c'.kernel)
    (hown : ∀ f, f ∉ D → kvaddr f ∈ c'.blocks ++ c'.pages →
      kvaddr f ∈ c.blocks ++ c.pages ∨ ¬ c'.kernel.Calm f)
    (hpages : ∀ f, kvaddr f ∈ c'.pages → kvaddr f ∈ c.pages ∧ f ∉ D ∨
      c'.kernel.heapView.LivePage (kvaddr f)) : Carried ram F' c c' := by
  have hspared : ∀ f, c.Reserved f → f ∉ D := by
    intro f hf hmem
    rcases hD f hmem with hnot | hmine | ⟨hs, huser⟩
    · exact hnot hf.calm
    · exact hf.not_mem hmine
    · exact huser.2 (hf.pid hs)
  have hrow : ∀ f, c.Reserved f → c'.kernel.mainPG f = c.kernel.mainPG f := fun f hf =>
    hl.row f (hspared f hf) hf.calm
  have hreserved : ∀ f, c.Reserved f → c'.Reserved f := by
    intro f hf
    have hcalm' := hl.calm f (hspared f hf) hf.calm
    refine ⟨hcalm', fun hs => by rw [hrow f hf]; exact hf.pid (hl.setup.started ▸ hs), fun hmem => ?_⟩
    rcases hown f (hspared f hf) hmem with hold | hnot
    · exact hf.not_mem hold
    · exact hnot hcalm'
  refine ⟨⟨hheap, fun f hf => ?_, haccount, fun f hf hlt => ?_⟩, hl.setup, hreserved, hrow⟩
  · rcases hpages f hf with ⟨hold, hfD⟩ | hlive
    · exact hl.livePage hfD (h.pages f hold)
    · exact hlive
  · have hf' := h.table_reserved hf (hl.setup.entries ▸ hlt)
    exact ⟨(hreserved f hf').calm, by rw [hrow f hf']; exact (h.table f hf (hl.setup.entries ▸ hlt)).2.1,
      (hreserved f hf').not_mem⟩

/-! ### The operations keep the invariant -/

variable {B P : List ℕ} {s s' : Kernel} {d : ℕ}

theorem Inv.kmalloc {sz : ℕ} (h : Inv ram F ⟨B, P, s⟩)
    (hsz : s.vmStarted = false → 2048 ≤ sz → (sz + pageSize - 1) % 2 ^ 32 / pageSize ≠ 0)
    (hrun : Os161Kernel.kmalloc d sz s = .ok a s') : 
    Carried ram F ⟨B, P, s⟩ ⟨if a = 0 then B else a :: B, P, s'⟩ := by
  obtain ⟨X, hnew, hquiet, -, hcases⟩ := kmallocBody_sound (allocator_sound d) (allocator_keeps d) h.heap hsz hrun
  have haccount := h.account.moves (kmalloc_moves d sz _ _ _ hrun)
  have hD : ∀ f ∈ X, ¬ s.Calm f ∨ kvaddr f ∈ B ++ P ∨ s.vmStarted = true ∧ s.User f := fun f hf => .inl (hnew f hf)
  have hpages : ∀ f, kvaddr f ∈ P → kvaddr f ∈ P ∧ f ∉ X ∨ s'.heapView.LivePage (kvaddr f) := fun f hf =>
    .inl ⟨hf, fun hX => hnew f hX (livePage_iff.mp (h.pages f hf)).2⟩
  rcases hcases with ⟨ha, hinv⟩ | ⟨hinv, hkind⟩
  · rw [if_pos ha]
    exact h.next ⟨B, P, s'⟩ (.of_quiet hquiet) hD hinv haccount (fun _ _ => .inl) hpages
  · have hne : a ≠ 0 := by
      obtain ⟨f, o, heq, -, -⟩ := hinv.ok.live_frame (List.mem_append_right _ List.mem_cons_self)
      have := kvaddr_ne_zero f
      omega
    rw [if_neg hne]
    refine h.next ⟨a :: B, P, s'⟩ (.of_quiet hquiet) hD hinv haccount (fun f hf hmem => ?_) hpages
    rcases List.mem_cons.mp hmem with heq | hmem
    · right
      intro hc
      rcases hkind with ⟨-, -, ⟨p, hp, o, ho, hptr, -, -⟩, -⟩ | ⟨-, g, hg, hag⟩
      · obtain ⟨hpage, -⟩ := kvaddr_add_inj (show 0 < pageSize by decide) ho (heq.trans hptr)
        exact hc.page (hpage ▸ List.mem_map_of_mem hp)
      · exact hf (kvaddr_inj (heq.trans hag) ▸ hg)
    · exact .inl hmem

theorem Inv.kfree {ptr : ℕ} (h : Inv ram F ⟨B, P, s⟩) (hptr : ptr = 0 ∨ ptr ∈ B)
    (hrun : Os161Kernel.kfree d ptr s = .ok () s') : Carried ram F ⟨B, P, s⟩ ⟨B.erase ptr, P, s'⟩ := by
  have haccount := h.account.moves (kfree_moves d ptr _ _ _ hrun)
  have hsub : ∀ f, kvaddr f ∈ B.erase ptr ++ P → kvaddr f ∈ B ++ P := fun f hf =>
    (List.mem_append.mp hf).elim (fun hb => List.mem_append_left _ (List.mem_of_mem_erase hb))
      (List.mem_append_right _)
  rcases hptr with rfl | hmem
  · -- `kfree(NULL)`
    obtain ⟨-, rfl⟩ := pure_ok_iff.mp hrun
    have hzero : 0 ∉ B := by
      intro hmem
      obtain ⟨f, o, heq, -, -⟩ :=
        h.heap.ok.live_frame (List.mem_append_right _ (List.mem_append_left P hmem))
      have := kvaddr_ne_zero f
      omega
    rw [List.erase_of_not_mem hzero]
    exact .refl h
  · have hperm : (B ++ P).Perm (ptr :: (B.erase ptr ++ P)) := by
      rw [← List.cons_append]
      exact (List.perm_cons_erase hmem).append_right P
    obtain ⟨hinv, -, hcases⟩ := kfreeBody_sound (allocator_sound d) (allocator_keeps d) (h.heap.perm hperm) hrun
    rcases hcases with ⟨-, hquiet⟩ | ⟨f, rfl, hlive, hquiet⟩
    · refine h.next ⟨B.erase ptr, P, s'⟩ (.of_quiet hquiet) (fun f hf => absurd hf (Set.notMem_empty f))
        hinv haccount (fun f _ hf => .inl (hsub f hf)) fun f hf => .inl ⟨hf, Set.notMem_empty f⟩
    · refine h.next ⟨B.erase (kvaddr f), P, s'⟩ (.of_freed_quiet hquiet) (fun g hg => ?_) hinv haccount
        (fun g _ hg => .inl (hsub g hg)) fun g hg => .inl ⟨hg, fun hgf => ?_⟩
      · rw [Set.mem_singleton_iff.mp hg]
        exact .inr (.inl (List.mem_append_left P hmem))
      · -- no address is both a block and a page of the client
        have hnodup := (h.heap.perm hperm).not_mem_of_cons
        rw [Set.mem_singleton_iff.mp hgf] at hg
        exact hnodup (List.mem_append_right _ hg)

theorem Inv.allocKpages (h : Inv ram F ⟨B, P, s⟩)
    (hrun : Os161Kernel.allocKpages d 1 s = .ok a s') :
    Carried ram F ⟨B, P, s⟩ ⟨B, if a = 0 then P else a :: P, s'⟩ := by
  have haccount := h.account.moves (allocKpages_moves d 1 _ _ _ hrun)
  cases (allocator_sound d).alloc h.heap (fun _ => Nat.one_ne_zero) hrun with
  | none ha inv quiet =>
    rw [if_pos ha]
    exact h.next ⟨B, P, s'⟩ (.of_quiet quiet) (fun f hf => absurd hf (Set.notMem_empty f)) inv haccount
      (fun _ _ => .inl) fun f hf => .inl ⟨hf, Set.notMem_empty f⟩
  | frame f X ha hf one new quiet inv live zero =>
    subst ha
    rw [if_neg (kvaddr_ne_zero f)]
    have hperm : (kvaddr f :: (B ++ P)).Perm (B ++ kvaddr f :: P) := List.perm_middle.symm
    refine h.next ⟨B, kvaddr f :: P, s'⟩ (.of_quiet quiet) (fun g hg => .inl (new g hg))
      (inv.perm hperm) haccount (fun g hg hmem => ?_) fun g hg => ?_
    · rcases List.mem_cons.mp (hperm.mem_iff.mpr hmem) with heq | hmem
      · exact absurd (kvaddr_inj heq ▸ hf) hg
      · exact .inl hmem
    · rcases List.mem_cons.mp hg with heq | hg
      · exact .inr (kvaddr_inj heq ▸ live)
      · exact .inl ⟨hg, fun hX => new g hX (livePage_iff.mp (h.pages g hg)).2⟩

theorem Inv.mayFree (h : Inv ram F ⟨B, P, s⟩) (hs : s.vmStarted = true) (hf : MayFree ⟨B, P, s⟩ f) :
    s.Calm f ∧ HeapInv (B ++ P.erase (kvaddr f)) [] s ∧ kvaddr f ∉ B ++ P.erase (kvaddr f) := by
  rcases hf with hmem | ⟨hlt, huser⟩
  · have hperm : (B ++ P).Perm (kvaddr f :: (B ++ P.erase (kvaddr f))) :=
      ((List.perm_cons_erase hmem).append_left B).trans List.perm_middle
    have hinv := h.heap.perm hperm
    exact ⟨(livePage_iff.mp (h.pages f hmem)).2, hinv.forget, hinv.not_mem_of_cons⟩
  · obtain ⟨hcalm, hL⟩ := h.heap.user_calm hs hlt huser
    have herase : P.erase (kvaddr f) = P :=
      List.erase_of_not_mem fun hmem => hL (List.mem_append_right B hmem)
    rw [herase]
    exact ⟨hcalm, h.heap, hL⟩

theorem Inv.freeKpages (h : Inv ram F ⟨B, P, s⟩) (hs : s.vmStarted = true)
    (hf : MayFree ⟨B, P, s⟩ f) (hrun : Os161Kernel.freeKpages d (kvaddr f) s = .ok () s') :
    Carried ram F ⟨B, P, s⟩ ⟨B, P.erase (kvaddr f), s'⟩ := by
  obtain ⟨hcalm, hinv, hL⟩ := h.mayFree hs hf
  obtain ⟨hinv', hquiet⟩ := (allocator_sound d).free hinv hL hcalm hrun
  have haccount := h.account.moves (freeKpages_moves d _ _ _ _ hrun)
  refine h.next ⟨B, P.erase (kvaddr f), s'⟩ (.of_freed_quiet hquiet) (fun g hg => ?_) hinv' haccount
    (fun g _ hg => .inl ?_) fun g hg => .inl ⟨List.mem_of_mem_erase hg, fun hgf => ?_⟩
  · rw [Set.mem_singleton_iff.mp hg]
    rcases hf with hmem | ⟨-, huser⟩
    · exact .inr (.inl (List.mem_append_right B hmem))
    · exact .inr (.inr ⟨hs, huser⟩)
  · exact (List.mem_append.mp hg).elim (List.mem_append_left _)
      fun hp => List.mem_append_right _ (List.mem_of_mem_erase hp)
  · rw [Set.mem_singleton_iff.mp hgf] at hg
    exact hL (List.mem_append_right _ hg)

theorem Inv.of_sameOwners (h : Inv ram F ⟨B, P, s⟩) (hs : SameOwners s s') : Carried ram F ⟨B, P, s⟩ ⟨B, P, s'⟩ :=
  h.next ⟨B, P, s'⟩ (.of_sameOwners hs) (fun f hf => absurd hf (Set.notMem_empty f)) (hs.heapInv h.heap)
    (.of_sameOwners hs h.account) (fun _ _ => .inl) fun f hf => .inl ⟨hf, Set.notMem_empty f⟩

theorem Inv.mapFrame {t : Kernel} (h : Inv ram F ⟨B, P, s⟩)
    (hs : s.vmStarted = true) (halloc : Os161Kernel.allocKpages d 1 s = .ok a t) (ha : a ≠ 0)
    (hpt : addPT (frameIndex a) v pid dirty t = .ok () s') : Carried ram F ⟨B, P, s⟩ ⟨B, P, s'⟩ := by
  obtain ⟨f, -, -, -, hnew, hquiet, hcalm, -, hinv, rfl⟩ := mapFrame_sound h.heap hs halloc ha hpt
  have hs' : t.vmStarted = true := hquiet.vmStarted.trans hs
  have haccount : Accounted F (t.setRow f { t.mainPG f with
      pageNumber := pageOf v, valid := true, pid := pid, dirty := dirty }) :=
    (h.account.moves (allocKpages_moves d 1 _ _ _ halloc)).congr rfl rfl fun g =>
      setRow_valid_iff ((busy_iff hs').mp hcalm.busy).2 rfl
  refine h.next ⟨B, P, _⟩ (.of_mapped hquiet hs hcalm rfl) (fun g hg => ?_) hinv haccount
    (fun _ _ => .inl) fun g hg => .inl ⟨hg, fun hgf => ?_⟩
  · exact .inl (Set.mem_singleton_iff.mp hg ▸ hnew)
  · rw [Set.mem_singleton_iff.mp hgf] at hg
    exact hnew (livePage_iff.mp (h.pages f hg)).2

theorem Inv.allocPages (h : Inv ram F ⟨B, P, s⟩)
    (hrun : Os161Kernel.allocPages d v dirty s = .ok () s') : Carried ram F ⟨B, P, s⟩ ⟨B, P, s'⟩ := by
  obtain ⟨hs, a, t, halloc, ha, hpt⟩ := allocPages_ok hrun
  exact h.mapFrame hs halloc ha hpt

theorem Inv.swapOut (h : Inv ram F ⟨B, P, s⟩) (hs : s.vmStarted = true)
    (hf : MayFree ⟨B, P, s⟩ f) (hrun : Os161Kernel.swapOut d (kvaddr f) s = .ok r s') :
    Carried ram F ⟨B, P, s⟩ ⟨B, if r = 0 then P.erase (kvaddr f) else P, s'⟩ := by
  obtain ⟨index, -, -, ⟨rfl, -, rfl⟩ | ⟨rfl, -, hfree⟩⟩ := swapOut_ok hrun
  · exact h.of_sameOwners (s.calls_sameOwners 2)
  · have hstored := h.of_sameOwners (s.stored_sameOwners index (frameIndex (kvaddr f)))
    exact hstored.trans (hstored.inv.freeKpages hs hf hfree)

theorem Inv.swapIn {index : ℕ} (h : Inv ram F ⟨B, P, s⟩) (hs : s.vmStarted = true)
    (hrun : Os161Kernel.swapIn d index s = .ok r s') : Carried ram F ⟨B, P, s⟩ ⟨B, P, s'⟩ := by
  obtain ⟨a, t, t₁, t₂, halloc, ha, hpt, htlb, hcases⟩ := swapIn_ok hrun
  have hmapped := h.mapFrame hs halloc ha hpt
  have hcached := hmapped.trans (hmapped.inv.of_sameOwners (addTLB_within _ _ _ _ _ htlb).sameOwners)
  rcases hcases with ⟨-, -, rfl⟩ | ⟨-, -, rfl⟩
  · exact hcached.trans (hcached.inv.of_sameOwners (t₂.calls_sameOwners 2))
  · exact hcached.trans (hcached.inv.of_sameOwners (t₂.fetched_sameOwners index (frameIndex a)))

theorem Inv.setDirty (h : Inv ram F ⟨B, P, s⟩) (hs : s.vmStarted = true)
    (hlt : f < s.pagetableEntry) (hu : s.User f) :
    Carried ram F ⟨B, P, s⟩ ⟨B, P, s.setRow f { s.mainPG f with dirty := dirty }⟩ := by
  obtain ⟨hcalm, hL⟩ := h.heap.user_calm hs hlt hu
  have hleaves : Leaves {f} s (s.setRow f { s.mainPG f with dirty := dirty }) :=
    .of_mapped ((QuietBut.refl s).weaken (Set.empty_subset _)) hs hcalm hu.1
  refine h.next ⟨B, P, _⟩ hleaves (fun g hg => ?_) (h.heap.setRow hs hcalm hL hu.1)
    (h.account.congr rfl rfl fun g => setRow_valid_iff hu.1 hu.1) (fun _ _ => .inl)
    fun g hg => .inl ⟨hg, fun hgf => ?_⟩
  · exact .inr (.inr ⟨hs, Set.mem_singleton_iff.mp hg ▸ hu⟩)
  · rw [Set.mem_singleton_iff.mp hgf] at hg
    exact hL (List.mem_append_right B hg)

theorem Inv.addPT (h : Inv ram F ⟨B, P, s⟩) (hs : s.vmStarted = true)
    (hf : kvaddr f ∈ P) (hrun : Os161Kernel.addPT (frameIndex (kvaddr f)) v pid dirty s = .ok () s') :
    Carried ram F ⟨B, P, s⟩ ⟨B, P.erase (kvaddr f), s'⟩ := by
  obtain ⟨hcalm, hinv, hL⟩ := h.mayFree hs (.inl hf)
  obtain ⟨hlt, hvalid⟩ := (busy_iff hs).mp hcalm.busy
  have hindex : frameIndex (kvaddr f) = f :=
    frameIndex_kvaddr_self (Nat.le_of_lt (Nat.lt_of_lt_of_le hlt s.pagetableEntry_le))
  rw [hindex] at hrun
  obtain ⟨-, -, rfl⟩ := addPT_ok hrun
  refine h.next ⟨B, P.erase (kvaddr f), _⟩
    (.of_mapped ((QuietBut.refl s).weaken (Set.empty_subset _)) hs hcalm rfl) (fun g hg => ?_)
    (hinv.setRow hs hcalm hL rfl) (h.account.congr rfl rfl fun g => setRow_valid_iff hvalid rfl)
    (fun g _ hg => .inl ?_) fun g hg => .inl ⟨List.mem_of_mem_erase hg, fun hgf => ?_⟩
  · rw [Set.mem_singleton_iff.mp hg]
    exact .inr (.inl (List.mem_append_right B hf))
  · exact (List.mem_append.mp hg).elim (List.mem_append_left _)
      fun hp => List.mem_append_right _ (List.mem_of_mem_erase hp)
  · rw [Set.mem_singleton_iff.mp hgf] at hg
    exact hL (List.mem_append_right _ hg)

theorem Inv.step (h : c.Inv ram F) (hs : c.kernel.vmStarted = true)
    (hstep : Step c op c') : Carried ram F c c' := by
  cases hstep with
  | kmalloc hrun => exact h.kmalloc (fun hv => absurd (hs.symm.trans hv) (by decide)) hrun
  | kfree hptr hrun => exact h.kfree hptr hrun
  | allocKpages hrun => exact h.allocKpages hrun
  | freeKpages hf hrun => exact h.freeKpages hs hf hrun
  | allocPages hrun => exact h.allocPages hrun
  | swapOut hf hrun => exact h.swapOut hs hf hrun
  | swapIn hrun => exact h.swapIn hs hrun
  | setDirty hlt hu => exact h.setDirty hs hlt hu
  | other hsame => exact h.of_sameOwners hsame

theorem addPT_setup {i : ℕ} : Within SameSetup (addPT i v pid dirty) := by
  intro s u s' h
  obtain ⟨-, -, rfl⟩ := addPT_ok h
  exact ⟨rfl, rfl, rfl, rfl⟩

theorem Step.setup (hstep : Step c op c') :
    SameSetup c.kernel c'.kernel := by
  cases hstep with
  | kmalloc hrun => exact (kmalloc_moves _ _ _ _ _ hrun).allocOnly.sameSetup
  | kfree _ hrun => exact (kfree_moves _ _ _ _ _ hrun).allocOnly.sameSetup
  | allocKpages hrun => exact (allocKpages_moves _ _ _ _ _ hrun).allocOnly.sameSetup
  | freeKpages _ hrun => exact (freeKpages_moves _ _ _ _ _ hrun).allocOnly.sameSetup
  | allocPages hrun =>
    obtain ⟨-, a, t, halloc, -, hpt⟩ := allocPages_ok hrun
    exact IsTrans.trans _ t _ (allocKpages_moves _ _ _ _ _ halloc).allocOnly.sameSetup
      (addPT_setup _ _ _ hpt)
  | @swapOut _ _ s _ _ f _ _ hrun =>
    obtain ⟨index, -, -, ⟨-, -, rfl⟩ | ⟨-, -, hfree⟩⟩ := swapOut_ok hrun
    · exact (s.calls_sameOwners 2).sameSetup
    · exact IsTrans.trans _ _ _ (s.stored_sameOwners index _).sameSetup
        (freeKpages_moves _ _ _ _ _ hfree).allocOnly.sameSetup
  | swapIn hrun =>
    obtain ⟨a, t, t₁, t₂, halloc, -, hpt, htlb, hcases⟩ := swapIn_ok hrun
    have hmapped : SameSetup _ t₂ :=
      IsTrans.trans _ t₁ _ (IsTrans.trans _ t _ (allocKpages_moves _ _ _ _ _ halloc).allocOnly.sameSetup
        (addPT_setup _ _ _ hpt)) (addTLB_within _ _ _ _ _ htlb).sameOwners.sameSetup
    rcases hcases with ⟨-, -, rfl⟩ | ⟨-, -, rfl⟩
    · exact IsTrans.trans _ t₂ _ hmapped (t₂.calls_sameOwners 2).sameSetup
    · exact IsTrans.trans _ t₂ _ hmapped (t₂.fetched_sameOwners _ _).sameSetup
  | setDirty => exact ⟨rfl, rfl, rfl, rfl⟩
  | other hsame => exact hsame.sameSetup

theorem Step.ownedValid (h : OwnedValid c.kernel) (hstep : Step c op c') :
    OwnedValid c'.kernel := by
  cases hstep with
  | kmalloc hrun => exact h.moves (kmalloc_moves _ _ _ _ _ hrun)
  | kfree _ hrun => exact h.moves (kfree_moves _ _ _ _ _ hrun)
  | allocKpages hrun => exact h.moves (allocKpages_moves _ _ _ _ _ hrun)
  | freeKpages _ hrun => exact h.moves (freeKpages_moves _ _ _ _ _ hrun)
  | allocPages hrun =>
    obtain ⟨-, a, t, halloc, -, hpt⟩ := allocPages_ok hrun
    exact (h.moves (allocKpages_moves _ _ _ _ _ halloc)).addPT hpt
  | swapOut _ hrun =>
    obtain ⟨index, -, -, ⟨-, -, rfl⟩ | ⟨-, -, hfree⟩⟩ := swapOut_ok hrun
    · exact h.of_same rfl
    · have hmoves := freeKpages_moves _ _ _ _ _ hfree
      refine OwnedValid.moves ?_ hmoves
      exact h.of_same rfl
  | swapIn hrun =>
    obtain ⟨a, t, t₁, t₂, halloc, -, hpt, htlb, hcases⟩ := swapIn_ok hrun
    have hmapped : OwnedValid t₂ :=
      ((h.moves (allocKpages_moves _ _ _ _ _ halloc)).addPT hpt).of_same (by rw [addTLB_within _ _ _ _ _ htlb])
    rcases hcases with ⟨-, -, rfl⟩ | ⟨-, -, rfl⟩
    · exact hmapped.of_same rfl
    · exact hmapped.of_same rfl
  | setDirty _ hu => exact h.of_update rfl fun _ => hu.1
  | other hsame => exact h.of_same (by rw [hsame])

end Client

/-! ### Boot -/

/-- Calls that the kernel makes before `vm_bootstrap`.  A request for so many bytes that rounding up to pages
overflows is left out. -/
def ClientOp.Early : ClientOp → Prop
  | .kmalloc _ sz => sz + pageSize ≤ 2 ^ 32
  | .kfree _ _ => True
  | .allocKpages _ => True
  | _ => False

theorem PowerOn.heapInv {s : Kernel} (h : PowerOn s) : HeapInv [] [] s := by
  have hall : s.heapView.all = [] := h.allbase
  have hroot : ∀ w f, (s.heapView.roots w).page ≠ some f := by
    intro w f
    show (s.kheaproots w).page ≠ some f
    rw [h.kheaproots w]
    exact nofun
  have hnodes : s.heapView.nodes = [] := by
    show s.frameList.map _ = []
    rw [h.frameList]
    rfl
  refine ⟨fun _ => ⟨h.firstpaddr, h.firstpaddr_le⟩, ?_⟩
  constructor
  case held_lt =>
    intro f hf
    have hlt := (held_iff_early h.vmStarted).mp hf
    have hle := h.firstpaddr_le
    have hlast := s.lastpaddr_le
    unfold pageSize at hlt
    omega
  case nodup => rw [hall]; exact List.nodup_nil
  case page_inj => rw [hall]; exact nofun
  case page_held => rw [hall]; exact nofun
  case good => rw [hall]; exact nofun
  case root_held => exact fun f ⟨w, _, hw⟩ => absurd hw (hroot w f)
  case root_inj => exact fun w _ _ _ f hw => absurd hw (hroot w f)
  case marked => rw [hall]; exact nofun
  case reserved_nodup => exact List.nodup_nil
  case reserved => exact nofun
  case sized =>
    intro t p hp
    have hp' : p ∈ s.sizebases t := hp
    rw [h.sizebases t] at hp'
    exact absurd hp' List.not_mem_nil
  case sized_nodup =>
    intro t
    show (s.sizebases t).Nodup
    rw [h.sizebases t]
    exact List.nodup_nil
  case listed => rw [hall]; exact nofun
  case nodes_live => rw [hnodes]; exact nofun
  case live => exact nofun
  case live_nodup => rw [hnodes]; exact List.nodup_nil

/-- The tables as they are when the frame list is filled. -/
def Kernel.bootTables (s : Kernel) : Kernel := { s.initTables with
  ioCount := s.ioCount + 1
  sfList := fun i => ⟨0, 0, i, false⟩
  vmStarted := true }

theorem vmBootstrap_ok {d : ℕ} {s s' : Kernel} {u : Unit} (h : vmBootstrap d s = .ok u s') :
    Prog.forBelow (fun i => addToFrameList d (s.firstpaddr / pageSize + i) .addBOTTOM)
      (tableFrame s.lastpaddr - s.firstpaddr / pageSize) s.bootTables = .ok u s' := by
  unfold vmBootstrap swapfileInit at h
  simp only [bind_ok_iff, read_ok_iff, update_ok_iff, panicIf, require_ok_iff] at h
  obtain ⟨_, _, ⟨rfl, rfl⟩, _, _, ⟨rfl, rfl⟩, _, _, rfl, _, _, ⟨_, _, hcall, _, _, ⟨-, rfl⟩, rfl⟩, _, _, rfl,
    hloop⟩ := h
  obtain ⟨-, rfl⟩ := vfsCall_ok hcall
  exact hloop

theorem tableFrame_mul {ram : ℕ} (h : ram % pageSize = 0) :
    tableFrame ram * pageSize = tableLocation ram ∧ tableFrame ram ≤ ram / pageSize := by
  unfold tableFrame tableLocation
  unfold pageSize at *
  omega

namespace Client

variable {ram : ℕ} {F : List ℕ} {B P : List ℕ} {s s' : Kernel} {d : ℕ}

/-- `vm_bootstrap` leaves every frame between first-free and the page table on its way to the list. -/
theorem Inv.bootTables (h : Inv ram [] ⟨B, P, s⟩) (hs : s.vmStarted = false)
    (hent : s.pagetableEntry = 0) (hram : s.lastpaddr = ram) (halign : ram % pageSize = 0)
    (hfit : s.firstpaddr ≤ tableLocation ram) :
    Inv ram (List.range' (s.firstpaddr / pageSize) (tableFrame ram - s.firstpaddr / pageSize))
      ⟨B, P, s.bootTables⟩ := by
  obtain ⟨htable, hle⟩ := tableFrame_mul halign
  set first := s.firstpaddr / pageSize with hfirst
  have hmul : first * pageSize = s.firstpaddr :=
    Nat.div_mul_cancel (Nat.dvd_of_mod_eq_zero (h.heap.early hs).1)
  have hlef : first ≤ tableFrame ram := by
    rw [← hmul, ← htable] at hfit
    exact Nat.le_of_mul_le_mul_right hfit (by decide)
  have hentries : s.bootTables.pagetableEntry = ram / pageSize := by
    show s.lastpaddr / pageSize = _
    rw [hram]
  have hvalid : ∀ f, s.bootTables.Valid f ↔ f < first ∨ tableFrame ram ≤ f := by
    intro f
    show decide (f < s.firstpaddr / pageSize ∨ tableFrame s.lastpaddr ≤ f) = true ↔ _
    rw [decide_eq_true_iff, hram]
  have hearly : ∀ f, s.Held f ↔ f < first := by
    intro f
    rw [held_iff_early hs, ← hmul]
    exact Nat.mul_lt_mul_right (by decide)
  have hheld : ∀ f, s.bootTables.Held f ↔ f < ram / pageSize ∧ (f < first ∨ tableFrame ram ≤ f) := by
    intro f
    rw [held_iff (s := s.bootTables) rfl, hentries, hvalid]
    exact ⟨fun hh => ⟨hh.1, hh.2.1⟩, fun hh => ⟨hh.1, hh.2, rfl⟩⟩
  have hgrow : ∀ f, s.Held f → s.bootTables.Held f := by
    intro f hf
    have hlt := (hearly f).mp hf
    exact (hheld f).mpr ⟨by omega, .inl hlt⟩
  refine ⟨⟨fun hv => (nomatch hv), h.heap.ok.grow hgrow fun f hf => ?_⟩, fun f hf => ?_, fun f => ?_,
    fun f hf hlt => ?_⟩
  · have hlt := ((hheld f).mp hf).1
    have hbound := s.bootTables.pagetableEntry_le
    omega
  · obtain ⟨g, hfg, hg, hpage, hroot⟩ := h.pages f hf
    exact ⟨g, hfg, hgrow g hg, hpage, hroot⟩
  · -- the list is empty, so the account is that of the range
    have hnil : s.bootTables.freeFrames = [] := by
      show s.freeFrames = []
      refine List.eq_nil_iff_forall_not_mem.mpr fun g hg => ?_
      exact absurd (h.account.of_mem hg).1 (by rw [hent]; exact Nat.not_lt_zero g)
    rw [hnil, List.nil_append, hentries]
    have hmem : f ∈ List.range' first (tableFrame ram - first) ↔
        f < ram / pageSize ∧ ¬ s.bootTables.Valid f := by
      rw [List.mem_range'_1, hvalid]
      omega
    by_cases hf : f ∈ List.range' first (tableFrame ram - first)
    · rw [if_pos (hmem.mp hf), List.count_eq_one_of_mem List.nodup_range' hf]
    · rw [if_neg fun hc => hf (hmem.mpr hc), List.count_eq_zero.mpr hf]
  · -- the frames of the table are above everything the kernel holds so far
    have hge : tableFrame ram ≤ f := by
      rw [← htable] at hf
      exact Nat.le_of_mul_le_mul_right hf (by decide)
    have hnot : ¬ s.Held f := by
      rw [hearly]
      omega
    refine ⟨⟨?_, fun hp => ?_, fun hr => hnot (h.heap.ok.root_held f hr).1⟩, rfl, fun hL => ?_⟩
    · exact (busy_iff (s := s.bootTables) rfl).mpr ⟨hlt, (hvalid f).mpr (.inr hge)⟩
    · obtain ⟨p, hp, hpf⟩ := List.mem_map.mp hp
      exact hnot (hpf ▸ h.heap.ok.page_held p hp)
    · exact h.heap.ok.not_live_of_not_held hnot (List.mem_append_right _ hL)

theorem Inv.append {f : ℕ} (h : Inv ram (f :: F) ⟨B, P, s⟩)
    (hrun : addToFrameList d f .addBOTTOM s = .ok () s') : Carried ram F ⟨B, P, s⟩ ⟨B, P, s'⟩ := by
  obtain ⟨hinv, hquiet⟩ := addBottom_sound (allocator_sound d) (allocator_keeps d) h.heap hrun
  have haccount := h.account.run (addBottom_lands (allocator_moves d) hrun F)
  exact h.next ⟨B, P, s'⟩ (.of_quiet hquiet) (fun f hf => absurd hf (Set.notMem_empty f)) hinv haccount
    (fun _ _ => .inl) fun f hf => .inl ⟨hf, Set.notMem_empty f⟩

/-- **`vm_bootstrap` establishes the invariant**, with no frame on its way. -/
theorem Inv.vmBootstrap (h : Inv ram [] ⟨B, P, s⟩) (hs : s.vmStarted = false)
    (hent : s.pagetableEntry = 0) (hram : s.lastpaddr = ram) (halign : ram % pageSize = 0)
    (hfit : s.firstpaddr ≤ tableLocation ram) (hrun : Os161Kernel.vmBootstrap d s = .ok () s') :
    Inv ram [] ⟨B, P, s'⟩ ∧ s'.vmStarted = true ∧ s'.mainPGLocation = tableLocation ram ∧
      s'.pagetableEntry = ram / pageSize := by
  have hloop := vmBootstrap_ok hrun
  rw [hram] at hloop
  set first := s.firstpaddr / pageSize with hfirst
  set n := tableFrame ram - first with hn
  -- round `i` appends frame `first + i`
  have key : Inv ram (List.range' (first + n) (n - n)) ⟨B, P, s'⟩ ∧ SameSetup s.bootTables s' := by
    refine forBelow_induct
      (P := fun i t => Inv ram (List.range' (first + i) (n - i)) ⟨B, P, t⟩ ∧ SameSetup s.bootTables t)
      ?_ ⟨h.bootTables hs hent hram halign hfit, Std.Refl.refl _⟩ hloop
    rintro i hi t u t' ⟨hinv, hsetup⟩ hstep
    obtain ⟨k, hk⟩ : ∃ k, n - i = k + 1 := ⟨n - i - 1, by omega⟩
    rw [hk, List.range'_succ] at hinv
    refine ⟨?_, ?_⟩
    · rw [show n - (i + 1) = k by omega, ← Nat.add_assoc]
      exact (hinv.append hstep).inv
    · have hquiet := (addBottom_sound (allocator_sound d) (allocator_keeps d) hinv.heap hstep).2
      exact IsTrans.trans _ t _ hsetup hquiet.same.sameSetup
  rw [Nat.sub_self, List.range'_zero] at key
  refine ⟨key.1, key.2.started, key.2.location.trans ?_, key.2.entries.trans ?_⟩
  · show tableLocation s.lastpaddr = _
    rw [hram]
  · show s.lastpaddr / pageSize = _
    rw [hram]

/-- A client right after `vm_bootstrap`, on a machine with `ram` bytes of memory of which `first` and more were
free then, both page-aligned, with room for the page table above. -/
def Booted (ram first : ℕ) (c' : Client) : Prop :=
  ∃ s₀ c d, PowerOn s₀ ∧ Reaches (Guarded Step fun _ op => op.Early) (· = ⟨[], [], s₀⟩) c ∧
    c.kernel.lastpaddr = ram ∧ c.kernel.firstpaddr = first ∧ first ≤ tableLocation ram ∧
    Os161Kernel.vmBootstrap d c.kernel = .ok () c'.kernel ∧ c'.blocks = c.blocks ∧ c'.pages = c.pages

theorem booted_of_kmalloc {ram first d sz a d' : ℕ} {s₀ s₁ s₂ : Kernel} (hpower : PowerOn s₀)
    (hmalloc : Os161Kernel.kmalloc d sz s₀ = .ok a s₁) (hsz : sz + pageSize ≤ 2 ^ 32)
    (hram : s₁.lastpaddr = ram) (hfirst : s₁.firstpaddr = first) (hfit : first ≤ tableLocation ram)
    (hboot : Os161Kernel.vmBootstrap d' s₁ = .ok () s₂) :
    Booted ram first ⟨if a = 0 then [] else [a], [], s₂⟩ :=
  ⟨s₀, ⟨if a = 0 then [] else [a], [], s₁⟩, d', hpower,
    .next (i := .kmalloc d sz) (.start rfl) ⟨hsz, .kmalloc hmalloc⟩, hram, hfirst, hfit, hboot, rfl, rfl⟩

theorem early_inv (ram : ℕ) {s₀ : Kernel} {c : Client} (hpower : PowerOn s₀)
    (h : Reaches (Guarded Step fun _ op => op.Early) (· = ⟨[], [], s₀⟩) c) :
    c.Inv ram [] ∧ c.kernel.vmStarted = false ∧ c.kernel.pagetableEntry = 0 ∧
      c.kernel.lastpaddr = s₀.lastpaddr := by
  have hkey : c.Inv ram [] ∧ SameSetup s₀ c.kernel := by
    refine h.invariant (P := fun c => c.Inv ram [] ∧ SameSetup s₀ c.kernel) ?_ ?_
    · rintro c rfl
      refine ⟨⟨hpower.heapInv, nofun, fun f => ?_, fun f _ hlt => ?_⟩, Std.Refl.refl _⟩
      · rw [hpower.pagetableEntry, if_neg fun hc => Nat.not_lt_zero f hc.1]
        unfold freeFrames
        rw [hpower.frameList]
        rfl
      · have hlt' : f < s₀.pagetableEntry := hlt
        rw [hpower.pagetableEntry] at hlt'
        exact absurd hlt' (Nat.not_lt_zero f)
    · rintro c op c' ⟨hinv, hsetup⟩ ⟨hearly, hstep⟩
      refine ⟨?_, IsTrans.trans _ _ _ hsetup hstep.setup⟩
      cases hstep with
      | @kmalloc B P s s' d sz a hrun =>
        refine (hinv.kmalloc (fun _ hbig => ?_) hrun).inv
        have hsz : sz + pageSize ≤ 2 ^ 32 := hearly
        unfold pageSize at *
        omega
      | kfree hptr hrun => exact (hinv.kfree hptr hrun).inv
      | allocKpages hrun => exact (hinv.allocKpages hrun).inv
      | freeKpages | allocPages | swapOut | swapIn | setDirty | other => exact hearly.elim
  obtain ⟨hinv, hsetup⟩ := hkey
  exact ⟨hinv, hsetup.started.trans hpower.vmStarted, hsetup.entries.trans hpower.pagetableEntry,
    hsetup.lastpaddr⟩

theorem reaches_inv {ram first : ℕ} {c : Client} (h : Reaches Step (Booted ram first) c) :
    c.Inv ram [] ∧ c.kernel.vmStarted = true ∧ c.kernel.mainPGLocation = tableLocation ram ∧
      c.kernel.pagetableEntry = ram / pageSize ∧ ram % pageSize = 0 := by
  refine h.invariant (P := fun c => c.Inv ram [] ∧ c.kernel.vmStarted = true ∧
    c.kernel.mainPGLocation = tableLocation ram ∧ c.kernel.pagetableEntry = ram / pageSize ∧
    ram % pageSize = 0) ?_ ?_
  · rintro ⟨B', P', s'⟩ ⟨s₀, ⟨B, P, s⟩, d, hpower, hearly, hram, hfirst, hfit, hboot, rfl, rfl⟩
    obtain ⟨hinv, hs, hent, hlast⟩ := early_inv ram hpower hearly
    have halign : ram % pageSize = 0 := by
      rw [← hram, hlast]
      exact hpower.lastpaddr
    obtain ⟨hinv', hs', hloc', hent'⟩ := hinv.vmBootstrap hs hent hram halign (hfirst ▸ hfit) hboot
    exact ⟨hinv', hs', hloc', hent', halign⟩
  · rintro c op c' ⟨hinv, hs, hloc, hent, halign⟩ hstep
    have hsetup := hstep.setup
    exact ⟨(hinv.step hs hstep).inv, hsetup.started.trans hs, hsetup.location.trans hloc,
      hsetup.entries.trans hent, halign⟩

/-- After `vm_bootstrap` and in every state of a client's runs, a row that carries a pid is valid. -/
theorem reaches_ownedValid {ram first : ℕ} {c : Client} (h : Reaches Step (Booted ram first) c) :
    OwnedValid c.kernel := by
  refine h.invariant (P := fun c => OwnedValid c.kernel) ?_ fun c op c' hc hstep => hstep.ownedValid hc
  rintro ⟨B', P', s'⟩ ⟨s₀, ⟨B, P, s⟩, d, -, -, -, -, -, hboot, -, -⟩
  have htables : OwnedValid s.bootTables := fun f hne => absurd rfl hne
  refine forBelow_induct (P := fun _ t => OwnedValid t) (fun i _ t u t' ht hstep => ?_) htables
    (vmBootstrap_ok hboot)
  exact ht.run (addBottom_lands (allocator_moves d) hstep [])

end Client

theorem allocKpages_below {d n a : ℕ} {s s' : Kernel} (hs : s.vmStarted = true)
    (h : allocKpages d n s = .ok a s') {f : ℕ} (hf : s.mainPGLocation ≤ f * pageSize) : a ≠ kvaddr f := by
  cases d with
  | zero => exact nomatch h
  | succ d =>
    rcases allocKpagesBody_ok h with ⟨-, ha, -, -⟩ | ⟨-, hn, -, addr, t, htake, -, ha⟩ | ⟨hv, -⟩
    · exact ha ▸ (kvaddr_ne_zero f).symm
    · obtain ⟨m, rfl⟩ : ∃ m, n = m + 1 := ⟨n - 1, by omega⟩
      obtain ⟨g, hg, hlt⟩ := takeFrames_first htake
      intro heq
      have hkv : a = kvaddr g := by
        rw [ha, hg]
        unfold kvaddr
        rfl
      rw [← kvaddr_inj (hkv.symm.trans heq), ← hg] at hf
      omega
    · exact absurd (hs.symm.trans hv) (by decide)

/-- **Frame accounting.**  In every state that a client reaches after `vm_bootstrap`, each frame is valid and off
the list, or not valid and on it exactly once; no frame of the page table is on the list, and no call of
`alloc_kpages` on such a machine returns one. -/
theorem frames_accounted {ram first : ℕ} {c : Client}
    (h : Reaches Client.Step (Client.Booted ram first) c) :
    (∀ f < c.kernel.pagetableEntry,
      (c.kernel.Valid f ∧ f ∉ c.kernel.freeFrames) ∨
      (¬ c.kernel.Valid f ∧ c.kernel.freeFrames.count f = 1)) ∧
    (∀ f ∈ c.kernel.freeFrames, f * pageSize < tableLocation ram) ∧
    c.kernel.mainPGLocation = tableLocation ram ∧
    (∀ (s s' : Kernel) (d n a f : ℕ), s.vmStarted = true → s.mainPGLocation = tableLocation ram →
      allocKpages d n s = .ok a s' → tableLocation ram ≤ f * pageSize → a ≠ kvaddr f) := by
  obtain ⟨hinv, hs, hloc, -⟩ := Client.reaches_inv h
  refine ⟨fun f hf => hinv.account.split hf, fun f hf => ?_, hloc, fun t t' d n a f ht hloc' hrun hf => ?_⟩
  · obtain ⟨hlt, hnot⟩ := hinv.account.of_mem hf
    by_contra hge
    have hcalm := (hinv.table f (Nat.not_lt.mp hge) hlt).1
    exact hnot ((busy_iff hs).mp hcalm.busy).2
  · exact allocKpages_below ht hrun (hloc' ▸ hf)

/-- Sixteen frames, the first taken by the kernel image. -/
def smallMachine : Kernel := blank 4096 65536 smallRam_le

theorem smallMachine_powerOn : PowerOn smallMachine :=
  ⟨rfl, rfl, rfl, rfl, rfl, fun _ => rfl, fun _ => rfl, rfl, rfl, by decide⟩

/-- One block before boot, `vm_bootstrap`, then one frame. -/
theorem frames_accounted_small_machine : ∃ c : Client,
    Reaches Client.Step (Client.Booted 65536 12288) c ∧
    ∀ f < c.kernel.pagetableEntry,
      (c.kernel.Valid f ∧ f ∉ c.kernel.freeFrames) ∨
      (¬ c.kernel.Valid f ∧ c.kernel.freeFrames.count f = 1) := by
  have hrun : ∃ a s₁, kmalloc 5 8 smallMachine = .ok a s₁ ∧ s₁.lastpaddr = 65536 ∧ s₁.firstpaddr = 12288 ∧
      ∃ u s₂, vmBootstrap 5 s₁ = .ok u s₂ ∧ ∃ b s₃, allocKpages 5 1 s₂ = .ok b s₃ ∧ True := by decide +kernel
  obtain ⟨a, s₁, hmalloc, hlast, hfirst, _, s₂, hboot, b, s₃, halloc, -⟩ := hrun
  have hbooted := Client.booted_of_kmalloc smallMachine_powerOn hmalloc (by decide) hlast hfirst (by decide) hboot
  have hreach := Reaches.next (.start hbooted) (Client.Step.allocKpages halloc)
  exact ⟨_, hreach, (frames_accounted hreach).1⟩

/-- The small machine with process `n` of pid `n`, and process 1 running. -/
def smallMachineProcs : Kernel :=
  { smallMachine with procs := fun n => ⟨n.toUInt8, none, ⟨0, fun _ => 0⟩⟩, curproc := 1 }

theorem smallMachineProcs_powerOn : PowerOn smallMachineProcs :=
  ⟨rfl, rfl, rfl, rfl, rfl, fun _ => rfl, fun _ => rfl, rfl, rfl, by decide⟩

end Os161Kernel
