import Os161Kernel.PagingRuns

/-!
# The frames of the page table

The table lies in memory that the allocator never hands out.  Its frames are entered in the table themselves, as valid
frames of the kernel with page number 0, and stay so in every run (`reaches_table`).  `pageSearch` looks at the page
number only, so it finds page 0 at all times (`pageSearch_page_zero`).
-/

namespace Os161Kernel

open StateProg Search Memory Runs Function Client

/-- The frames of the table keep their page numbers. -/
structure SparesTable (ram : ℕ) (s s' : Kernel) : Prop where
  entries : s'.pagetableEntry = s.pagetableEntry
  number : ∀ f, tableLocation ram ≤ f * pageSize → f < s.pagetableEntry →
    (s'.mainPG f).pageNumber = (s.mainPG f).pageNumber

namespace SparesTable

variable {ram d : ℕ} {F B P : List ℕ} {s t s' : Kernel}

theorem refl (ram : ℕ) (s : Kernel) : SparesTable ram s s := ⟨rfl, fun _ _ _ => rfl⟩

theorem trans (h : SparesTable ram s t) (h' : SparesTable ram t s') : SparesTable ram s s' where
  entries := h'.entries.trans h.entries
  number f hf hlt := (h'.number f hf (h.entries ▸ hlt)).trans (h.number f hf hlt)

theorem of_carried {F' : List ℕ} {c c' : Client} (h : c.Inv ram F) (hc : Carried ram F' c c') :
    SparesTable ram c.kernel c'.kernel := by
  refine ⟨hc.setup.entries, fun f hf hlt => ?_⟩
  rw [hc.row f (h.table_reserved hf hlt)]

theorem of_loading (h : Loading s s') : SparesTable ram s s' := ⟨h.entries, fun f _ _ => h.pageNumber_eq f⟩

theorem of_sameOwners (h : SameOwners s s') : SparesTable ram s s' := by
  constructor <;> rw [h]
  exact fun _ _ _ => rfl

theorem move (hp : Paged ram ⟨B, P, s⟩) (hpid : s.curPid ≠ 0) (h : PagingMove d s s') :
    SparesTable ram s s' := by
  have hfree : ∀ {w}, w < s.pagetableEntry → (s.mainPG w).pid = s.curPid → MayFree ⟨B, P, s⟩ w :=
    fun hlt hw => (hp.userFrame hlt (hw ▸ hpid)).2.1
  cases h with
  | edit hl => exact .of_loading hl
  | region f => exact .of_sameOwners rfl
  | map halloc ha hpt => exact of_carried hp.inv (hp.inv.mapFrame hp.started halloc ha hpt)
  | drop hlt hw hrun => exact of_carried hp.inv (hp.inv.freeKpages hp.started (hfree hlt hw) hrun)
  | swapOut hlt hw hrun => exact of_carried hp.inv (hp.inv.swapOut hp.started (hfree hlt hw) hrun)
  | swapIn hrun => exact of_carried hp.inv (hp.inv.swapIn hp.started hrun)

end SparesTable

/-! ### Whole loads and faults -/

/-- The invariant along moves, and the frames of the table. -/
def KeepsTable (ram : ℕ) (s s' : Kernel) : Prop :=
  KeepsPaged ram s s' ∧ (s.curPid ≠ 0 → ∀ B P, Paged ram ⟨B, P, s⟩ → SparesTable ram s s')

instance (ram : ℕ) : Std.Refl (KeepsTable ram) := ⟨fun s => ⟨Std.Refl.refl s, fun _ _ _ _ => .refl ram s⟩⟩

instance (ram : ℕ) : IsTrans Kernel (KeepsTable ram) where
  trans s t u hst htu := by
    refine ⟨IsTrans.trans _ _ _ hst.1 htu.1, fun hpid B P hp => ?_⟩
    obtain ⟨hcur, ht⟩ := hst.1 hpid B P hp
    exact (hst.2 hpid B P hp).trans (htu.2 (hcur ▸ hpid) B P ht)

theorem PagingMoves.keepsTable {ram d : ℕ} {s s' : Kernel} (h : PagingMoves d s s') : KeepsTable ram s s' :=
  h.within fun _ _ hmove => ⟨hmove.keepsPaged, fun hpid _ _ hp => .move hp hpid hmove⟩

theorem SparesTable.pagingStep {ram : ℕ} {c c' : Client} {op : PagingOp} (h : c.Paged ram)
    (hstep : PagingStep c op c') : SparesTable ram c.kernel c'.kernel := by
  cases hstep with
  | call _ hcall => exact .of_carried h.inv (h.inv.step h.started hcall)
  | edit hsame => exact .of_sameOwners hsame
  | load hpid hrun => exact (loadElf_paging (vmFault_paging _ _) 0 0 _ _ _ hrun).keepsTable.2 hpid _ _ h
  | fault hpid hrun => exact (vmFault_paging _ _ _ _ _ _ _ hrun).keepsTable.2 hpid _ _ h

/-! ### Runs -/

theorem Move.pageNumber_zero {x y : List ℕ × Kernel} (h : Move x y) (hx : ∀ f, (x.2.mainPG f).pageNumber = 0) :
    ∀ f, (y.2.mainPG f).pageNumber = 0 := by
  have hupdate : ∀ (row : ℕ → InvertedPT) g e, (∀ f, (row f).pageNumber = 0) → e.pageNumber = 0 →
      ∀ f, (update row g e f).pageNumber = 0 := by
    intro row g e hrow he f
    by_cases hf : f = g
    · rw [hf, update_self]
      exact he
    · rw [update_of_ne hf]
      exact hrow f
  cases h with
  | pop => exact hupdate _ _ _ hx rfl
  | release => exact hupdate _ _ _ hx rfl
  | push hpushed =>
    rw [hpushed.same]
    exact hx
  | heap hsame =>
    rw [hsame]
    exact hx

theorem Client.Booted.pageNumber_eq {ram first : ℕ} {c : Client} (h : Booted ram first c) (f : ℕ) :
    (c.kernel.mainPG f).pageNumber = 0 := by
  obtain ⟨s₀, b, d, -, -, -, -, -, hboot, -, -⟩ := h
  refine forBelow_induct (P := fun _ t => ∀ f, (t.mainPG f).pageNumber = 0)
    (fun i _ t u t' ht hstep => ?_) (fun _ => rfl) (vmBootstrap_ok hboot) f
  have hlands := addBottom_lands (allocator_moves d) hstep []
  have hkey : ∀ x, Relation.ReflTransGen Move ([b.kernel.firstpaddr / pageSize + i], t) x →
      ∀ f, (x.2.mainPG f).pageNumber = 0 := by
    intro x hx
    induction hx with
    | refl => exact ht
    | tail _ hm ih => exact hm.pageNumber_zero ih
  exact hkey _ hlands

/-- **In every run** the last frame is one of the table, with page number 0. -/
theorem reaches_table {ram first : ℕ} {c : Client} (h : Reaches PagingStep (Booted ram first) c)
    (hpos : 0 < c.kernel.pagetableEntry) : ∃ f < c.kernel.pagetableEntry,
      tableLocation ram ≤ f * pageSize ∧ (c.kernel.mainPG f).pageNumber = 0 := by
  have hkey : c.Paged ram ∧ c.kernel.pagetableEntry = ram / pageSize ∧ ram % pageSize = 0 ∧
      ∀ f, tableLocation ram ≤ f * pageSize → f < ram / pageSize → (c.kernel.mainPG f).pageNumber = 0 := by
    refine h.invariant (P := fun c => c.Paged ram ∧ c.kernel.pagetableEntry = ram / pageSize ∧ ram % pageSize = 0 ∧
      ∀ f, tableLocation ram ≤ f * pageSize → f < ram / pageSize → (c.kernel.mainPG f).pageNumber = 0) ?_ ?_
    · intro c hb
      obtain ⟨-, -, -, hentries, halign⟩ := reaches_inv (.start hb)
      exact ⟨hb.paged, hentries, halign, fun f _ _ => hb.pageNumber_eq f⟩
    · rintro c op c' ⟨hp, hentries, halign, hnumber⟩ hstep
      have hspares := SparesTable.pagingStep hp hstep
      exact ⟨hp.pagingStep hstep, hspares.entries.trans hentries, halign, fun f hf hlt =>
        (hspares.number f hf (hentries ▸ hlt)).trans (hnumber f hf hlt)⟩
  obtain ⟨-, hentries, halign, hnumber⟩ := hkey
  rw [hentries] at hpos ⊢
  have hlast := tableLocation_le_last halign (Nat.sub_add_cancel hpos).symm
  exact ⟨ram / pageSize - 1, Nat.sub_lt hpos Nat.one_pos, hlast, hnumber _ hlast (Nat.sub_lt hpos Nat.one_pos)⟩

theorem pageSearch_page_zero {ram first a : ℕ} {c : Client} (h : Reaches PagingStep (Booted ram first) c)
    (hpos : 0 < c.kernel.pagetableEntry) (ha : pageOf a = 0) : (c.kernel.pageSearch a).isSome = true := by
  obtain ⟨f, hlt, hf, hnumber⟩ := reaches_table h hpos
  have hp := reaches_paged h
  obtain ⟨hcalm, -, -⟩ := hp.inv.table f hf hlt
  obtain ⟨-, hvalid⟩ := (Kernel.busy_iff hp.started).mp hcalm.busy
  exact pageSearch_isSome_iff.mpr ⟨f, hlt, hvalid, hnumber.trans ha.symm⟩

end Os161Kernel
