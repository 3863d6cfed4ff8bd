import Os161Kernel.Lib.DoubleLinks
import Os161Kernel.Lib.Queues
import Os161Kernel.Lib.StateProg
import Mathlib.Data.Finset.Card
import Mathlib.Order.Interval.Finset.Nat

/-!
# Thread lists: `threadlist.c`

A thread list has two nodes of its own as bookends, and between them the nodes of its threads.  The operations only
follow and change pointers; the number of threads is kept beside them.  What the lists are for is a family of sequences
in which no thread appears twice.
-/

namespace Os161Kernel

open DoubleLinks Queues StateProg Function

/-- `struct thread *`, not `NULL`. -/
abbrev ThreadPtr := { p : UInt32 // p ≠ 0 }

/-- `struct threadlistnode *`, not `NULL`: the node in a thread or one of the two in a list. -/
inductive TlNode (ι : Type) where
  | thread (t : ThreadPtr)
  | head (tl : ι)
  | tail (tl : ι)
deriving DecidableEq

/-- The nodes in memory and the `tl_count` of every list. -/
structure Threadlists (ι : Type) where
  links : Links (TlNode ι)
  self : TlNode ι → Option ThreadPtr
  count : ι → UInt32

inductive TlStop where
  | nullPointer
  | outOfFuel

abbrev TlProg (ι : Type) := Prog TlStop (Threadlists ι)

namespace Threadlists

variable {ι : Type}

/-! ### The code -/

/-- `threadlist_init` on every list and `threadlistnode_init` on the node of every thread. -/
def init : Threadlists ι where
  links := ⟨fun | .tail tl => some (.head tl) | _ => none, fun | .head tl => some (.tail tl) | _ => none⟩
  self := fun | .thread t => some t | _ => none
  count := fun _ => 0

section Code

variable [DecidableEq ι]

/-- Follow a pointer. -/
def follow (p : Option (TlNode ι)) : TlProg ι (TlNode ι) :=
  match p with
  | some tln => pure tln
  | none => .stop .nullPointer

def tlnPrev (tln : TlNode ι) : TlProg ι (Option (TlNode ι)) := .read fun s => s.links.prev tln

def tlnNext (tln : TlNode ι) : TlProg ι (Option (TlNode ι)) := .read fun s => s.links.next tln

def setPrev (tln : TlNode ι) (p : Option (TlNode ι)) : TlProg ι Unit :=
  .update fun s => { s with links := s.links.setPrev tln p }

def setNext (tln : TlNode ι) (p : Option (TlNode ι)) : TlProg ι Unit :=
  .update fun s => { s with links := s.links.setNext tln p }

def setCount (tl : ι) (f : UInt32 → UInt32) : TlProg ι Unit :=
  .update fun s => { s with count := update s.count tl (f (s.count tl)) }

/-- The last two assignments of both insertions: the neighbours of the new node point to it. -/
def pointBack (addee : TlNode ι) : TlProg ι Unit := do
  let p ← tlnPrev addee
  let prev ← follow p
  setNext prev (some addee)
  let n ← tlnNext addee
  let next ← follow n
  setPrev next (some addee)

/-- `threadlist_insertafternode(onlist, t)`. -/
def insertafternode (onlist : TlNode ι) (t : ThreadPtr) : TlProg ι Unit := do
  setPrev (.thread t) (some onlist)
  let n ← tlnNext onlist
  setNext (.thread t) n
  pointBack (.thread t)

/-- `threadlist_insertbeforenode(t, onlist)`. -/
def insertbeforenode (t : ThreadPtr) (onlist : TlNode ι) : TlProg ι Unit := do
  let p ← tlnPrev onlist
  setPrev (.thread t) p
  setNext (.thread t) (some onlist)
  pointBack (.thread t)

/-- `threadlist_removenode(tln)`. -/
def removenode (tln : TlNode ι) : TlProg ι Unit := do
  let p ← tlnPrev tln
  let prev ← follow p
  let n ← tlnNext tln
  setNext prev n
  let n ← tlnNext tln
  let next ← follow n
  let p ← tlnPrev tln
  setPrev next p
  setPrev tln none
  setNext tln none

/-- `threadlist_addhead(tl, t)`. -/
def addhead (tl : ι) (t : ThreadPtr) : TlProg ι Unit := do
  insertafternode (.head tl) t
  setCount tl (· + 1)

/-- `threadlist_addtail(tl, t)`. -/
def addtail (tl : ι) (t : ThreadPtr) : TlProg ι Unit := do
  insertbeforenode t (.tail tl)
  setCount tl (· + 1)

/-- `threadlist_remhead(tl)`. -/
def remhead (tl : ι) : TlProg ι (Option ThreadPtr) := do
  let p ← tlnNext (.head tl)
  let tln ← follow p
  let n ← tlnNext tln
  if n = none then pure none
  else do
    removenode tln
    setCount tl (· - 1)
    .read fun s => s.self tln

/-- `threadlist_remtail(tl)`. -/
def remtail (tl : ι) : TlProg ι (Option ThreadPtr) := do
  let p ← tlnPrev (.tail tl)
  let tln ← follow p
  let n ← tlnPrev tln
  if n = none then pure none
  else do
    removenode tln
    setCount tl (· - 1)
    .read fun s => s.self tln

/-- `threadlist_insertafter(tl, onlist, addee)`. -/
def insertafter (tl : ι) (onlist addee : ThreadPtr) : TlProg ι Unit := do
  insertafternode (.thread onlist) addee
  setCount tl (· + 1)

/-- `threadlist_insertbefore(tl, addee, onlist)`. -/
def insertbefore (tl : ι) (addee onlist : ThreadPtr) : TlProg ι Unit := do
  insertbeforenode addee (.thread onlist)
  setCount tl (· + 1)

/-- `threadlist_remove(tl, t)`. -/
def remove (tl : ι) (t : ThreadPtr) : TlProg ι Unit := do
  removenode (.thread t)
  setCount tl (· - 1)

/-- The threads that a walk visits from a node on, for `THREADLIST_FORALL` and `THREADLIST_FORALL_REV`. -/
def walk (field : TlNode ι → TlProg ι (Option (TlNode ι))) : ℕ → TlNode ι → TlProg ι (List ThreadPtr)
  | 0, _ => .stop .outOfFuel
  | fuel + 1, tln => do
    let p ← field tln
    let n ← follow p
    let itervar ← .read fun s => s.self n
    match itervar with
    | none => pure []
    | some t => do
      let rest ← walk field fuel (.thread t)
      pure (t :: rest)

/-- `THREADLIST_FORALL(itervar, tl)`. -/
def threadlistForall (fuel : ℕ) (tl : ι) : TlProg ι (List ThreadPtr) := walk tlnNext fuel (.head tl)

/-- `THREADLIST_FORALL_REV(itervar, tl)`. -/
def threadlistForallRev (fuel : ℕ) (tl : ι) : TlProg ι (List ThreadPtr) := walk tlnPrev fuel (.tail tl)

end Code

/-! ### The sequences -/

/-- The nodes of a list with the threads `ts`. -/
def nodes (tl : ι) (ts : List ThreadPtr) : List (TlNode ι) := .head tl :: (ts.map .thread ++ [.tail tl])

/-- The node after which the threads that follow `l` come. -/
def lastNode (tl : ι) (l : List ThreadPtr) : TlNode ι := l.getLast?.elim (.head tl) .thread

/-- The node before which the threads that precede `r` come. -/
def firstNode (tl : ι) (r : List ThreadPtr) : TlNode ι := r.head?.elim (.tail tl) .thread

@[simp] theorem lastNode_nil (tl : ι) : lastNode tl [] = .head tl := rfl

@[simp] theorem lastNode_concat (tl : ι) (l : List ThreadPtr) (u : ThreadPtr) :
    lastNode tl (l ++ [u]) = .thread u := by
  rw [lastNode, List.getLast?_concat]
  rfl

@[simp] theorem firstNode_nil (tl : ι) : firstNode tl [] = .tail tl := rfl

@[simp] theorem firstNode_cons (tl : ι) (v : ThreadPtr) (r : List ThreadPtr) : firstNode tl (v :: r) = .thread v := rfl

/-- **The nodes in memory stand for the sequences `q`.** -/
structure Represents (s : Threadlists ι) (q : ι → List ThreadPtr) : Prop where
  apart : Apart q
  linked : ∀ tl, Linked s.links (nodes tl (q tl))
  headPrev : ∀ tl, s.links.prev (.head tl) = none
  tailNext : ∀ tl, s.links.next (.tail tl) = none
  self : s.self = (init : Threadlists ι).self
  count : ∀ tl, (s.count tl).toNat = (q tl).length
  free : ∀ t, (∀ tl, t ∉ q tl) → s.links.prev (.thread t) = none ∧ s.links.next (.thread t) = none

variable {s : Threadlists ι} {q : ι → List ThreadPtr} {tl : ι} {t : ThreadPtr} {l r : List ThreadPtr}
  {a b x : TlNode ι}

theorem represents_init : Represents (init : Threadlists ι) fun _ => [] where
  apart := ⟨fun _ => List.nodup_nil, fun _ _ _ h => nomatch h⟩
  linked _ := .cons_cons ⟨rfl, rfl⟩ (.singleton _)
  headPrev _ := rfl
  tailNext _ := rfl
  self := rfl
  count _ := rfl
  free _ _ := ⟨rfl, rfl⟩

variable {ts : List ThreadPtr} {fuel : ℕ} {u v : ThreadPtr}

theorem mem_nodes {n : TlNode ι} :
    n ∈ nodes tl ts ↔ n = .head tl ∨ n = .tail tl ∨ ∃ t ∈ ts, n = .thread t := by
  unfold nodes
  rw [List.mem_cons, List.mem_append, List.mem_map, List.mem_singleton]
  simp only [eq_comm (b := n)]
  exact or_congr_right or_comm

theorem nodup_nodes (h : ts.Nodup) : (nodes tl ts).Nodup := by
  have hmap : (ts.map (TlNode.thread (ι := ι))).Nodup := h.map fun _ _ => TlNode.thread.inj
  have htail : TlNode.tail tl ∉ ts.map TlNode.thread := by simp
  simp [nodes, List.nodup_append_comm, hmap, htail]

theorem nodes_append (tl : ι) (l r : List ThreadPtr) :
    ∃ ms ns, nodes tl (l ++ r) = ms ++ lastNode tl l :: firstNode tl r :: ns ∧
      ∀ t, nodes tl (l ++ t :: r) = ms ++ lastNode tl l :: .thread t :: firstNode tl r :: ns := by
  have hfirst : ∃ ns, r.map TlNode.thread ++ [.tail tl] = firstNode tl r :: ns := by
    cases r with
    | nil => exact ⟨[], rfl⟩
    | cons v r => exact ⟨r.map .thread ++ [.tail tl], rfl⟩
  have hlast : ∃ ms, TlNode.head tl :: l.map .thread = ms ++ [lastNode tl l] := by
    rcases l.eq_nil_or_concat' with rfl | ⟨l, u, rfl⟩
    · exact ⟨[], rfl⟩
    · exact ⟨.head tl :: l.map .thread, by simp⟩
  obtain ⟨ns, hns⟩ := hfirst
  obtain ⟨ms, hms⟩ := hlast
  refine ⟨ms, ns, ?_, fun t => ?_⟩
  · have hnodes : nodes tl (l ++ r) = (.head tl :: l.map .thread) ++ (r.map .thread ++ [.tail tl]) := by
      simp [nodes]
    rw [hnodes, hns, hms, List.append_assoc, List.singleton_append]
  · have hnodes : nodes tl (l ++ t :: r) =
        (.head tl :: l.map .thread) ++ .thread t :: (r.map .thread ++ [.tail tl]) := by
      simp [nodes]
    rw [hnodes, hns, hms, List.append_assoc, List.singleton_append]

/-! ### Neighbours -/

theorem Represents.neighbours (h : Represents s q) (hq : q tl = l ++ r) :
    s.links.next (lastNode tl l) = some (firstNode tl r) ∧ s.links.prev (firstNode tl r) = some (lastNode tl l) := by
  obtain ⟨ms, ns, hnodes, -⟩ := nodes_append tl l r
  have hlinked := h.linked tl
  rw [hq, hnodes] at hlinked
  exact (linked_append_cons_cons.mp hlinked).2.1

theorem Represents.neighbours_of_mem (h : Represents s q) (hq : q tl = l ++ t :: r) :
    s.links.prev (.thread t) = some (lastNode tl l) ∧ s.links.next (.thread t) = some (firstNode tl r) := by
  have hbefore := h.neighbours (l := l) (r := t :: r) hq
  have hafter := h.neighbours (l := l ++ [t]) (r := r) (by rw [hq]; simp)
  rw [lastNode_concat] at hafter
  exact ⟨hbefore.2, hafter.1⟩

theorem lastNode_mem (hu : ∀ u ∈ l, u ∈ q tl) : lastNode tl l ∈ nodes tl (q tl) := by
  rcases l.eq_nil_or_concat' with rfl | ⟨l, u, rfl⟩
  · exact mem_nodes.mpr (.inl rfl)
  · exact mem_nodes.mpr (.inr (.inr ⟨u, hu u (by simp), by simp⟩))

theorem firstNode_mem (hv : ∀ v ∈ r, v ∈ q tl) : firstNode tl r ∈ nodes tl (q tl) := by
  cases r with
  | nil => exact mem_nodes.mpr (.inr (.inl rfl))
  | cons v r => exact mem_nodes.mpr (.inr (.inr ⟨v, hv v (by simp), rfl⟩))

theorem lastNode_ne_tail (k : ι) : lastNode tl l ≠ .tail k := by
  unfold lastNode
  cases l.getLast? <;> simp

theorem firstNode_ne_head (k : ι) : firstNode tl r ≠ .head k := by
  unfold firstNode
  cases r.head? <;> simp

theorem lastNode_ne_thread (ht : t ∉ l) : lastNode tl l ≠ .thread t := by
  rcases l.eq_nil_or_concat' with rfl | ⟨l, u, rfl⟩
  · exact nofun
  · intro heq
    rw [lastNode_concat] at heq
    exact ht (by simp [TlNode.thread.inj heq])

theorem Represents.nodes_apart {k : ι} {n : TlNode ι} (h : Represents s q) (hk : k ≠ tl) (hn : n ∈ nodes tl (q tl)) :
    n ∉ nodes k (q k) := by
  intro hn'
  rcases mem_nodes.mp hn with rfl | rfl | ⟨t, ht, rfl⟩
  · have heq : tl = k := by simpa [mem_nodes] using hn'
    exact hk heq.symm
  · have heq : tl = k := by simpa [mem_nodes] using hn'
    exact hk heq.symm
  · have ht' : t ∈ q k := by simpa [mem_nodes] using hn'
    exact hk (h.apart.disjoint k tl t ht' ht)

/-! ### Walks -/

theorem follow_some (n : TlNode ι) : follow (some n) s = .ok n s := rfl

theorem walk_run {field : TlNode ι → TlProg ι (Option (TlNode ι))} {g : TlNode ι → Option (TlNode ι)}
    (hfield : ∀ n, field n s = .ok (g n) s) (hself : s.self = (init : Threadlists ι).self)
    (hend : (init : Threadlists ι).self b = none)
    (hchain : (a :: (ts.map .thread ++ [b])).IsChain fun m n => g m = some n) (hfuel : ts.length < fuel) :
    walk field fuel a s = .ok ts s := by
  induction ts generalizing a fuel with
  | nil =>
    obtain ⟨fuel, rfl⟩ : ∃ k, fuel = k + 1 := Nat.exists_eq_succ_of_ne_zero (by omega)
    obtain ⟨hnext, -⟩ := List.isChain_cons_cons.mp hchain
    rw [walk, bind_of_ok (hfield a), hnext, bind_of_ok (follow_some b),
      bind_of_ok (read_apply _ _), hself, hend]
    rfl
  | cons t ts ih =>
    obtain ⟨fuel, rfl⟩ : ∃ k, fuel = k + 1 := Nat.exists_eq_succ_of_ne_zero (by omega)
    obtain ⟨hnext, hrest⟩ := List.isChain_cons_cons.mp hchain
    have hthread : (init : Threadlists ι).self (.thread t) = some t := rfl
    rw [walk, bind_of_ok (hfield a), hnext, bind_of_ok (follow_some _),
      bind_of_ok (read_apply _ _), hself, hthread]
    exact bind_of_ok (ih hrest (by simpa using hfuel))

theorem Represents.threadlistForall_run (h : Represents s q) (hfuel : (q tl).length < fuel) :
    threadlistForall fuel tl s = .ok (q tl) s :=
  walk_run (g := s.links.next) (fun _ => read_apply _ _) h.self rfl ((h.linked tl).imp fun _ _ => And.left) hfuel

theorem Represents.threadlistForallRev_run (h : Represents s q) (hfuel : (q tl).length < fuel) :
    threadlistForallRev fuel tl s = .ok (q tl).reverse s := by
  have hnodes : (nodes tl (q tl)).reverse = .tail tl :: ((q tl).reverse.map .thread ++ [.head tl]) := by
    simp [nodes]
  have hlinked := (h.linked tl).reverse
  rw [hnodes] at hlinked
  exact walk_run (g := s.links.prev) (fun _ => read_apply _ _) h.self rfl (hlinked.imp fun _ _ => And.left)
    (by simpa using hfuel)

/-! ### Changes -/

theorem length_lt_of_nodup (h : ts.Nodup) : ts.length < 2 ^ 32 := by
  have hinj : Injective fun t : ThreadPtr => t.1.toNat :=
    fun t t' htt => Subtype.ext (UInt32.toNat_inj.mp htt)
  have hsub : (ts.map fun t => t.1.toNat).toFinset ⊆ Finset.Ico 1 (2 ^ 32) := by
    intro n hn
    obtain ⟨t, -, rfl⟩ := List.mem_map.mp (List.mem_toFinset.mp hn)
    have hpos : t.1.toNat ≠ 0 := fun h0 => t.2 (UInt32.toNat_inj.mp h0)
    exact Finset.mem_Ico.mpr ⟨by omega, t.1.toNat_lt⟩
  have hcard := Finset.card_le_card hsub
  rw [List.toFinset_card_of_nodup (h.map hinj), List.length_map, Nat.card_Ico] at hcard
  omega

theorem Represents.split_of_mem (h : Represents s q) (ht : t ∈ q tl) : ∃ l r, q tl = l ++ t :: r ∧ t ∉ l := by
  obtain ⟨l, r, hq⟩ := List.append_of_mem ht
  have hnodup := h.apart.nodup tl
  rw [hq, List.nodup_append] at hnodup
  exact ⟨l, r, hq, fun hin => hnodup.2.2 t hin t List.mem_cons_self rfl⟩

variable [DecidableEq ι]

theorem Represents.change {s' : Threadlists ι} {q' : ι → List ThreadPtr} (h : Represents s q)
    (hus : ∀ u ∈ l, u ∈ q tl) (hvs : ∀ v ∈ r, v ∈ q tl) (ht : ∀ k, t ∈ q k → k = tl)
    (htouch : Touches s.links s'.links (lastNode tl l) (.thread t) (firstNode tl r))
    (hq' : q' = update q tl ts) (hapart : Apart q')
    (hmem : ∀ u, u ≠ t → u ∈ q tl → u ∈ ts)
    (hlinked : Linked s'.links (nodes tl ts)) (hself : s'.self = s.self)
    (hcount : ∃ f, s'.count = update s.count tl f ∧ f.toNat = ts.length)
    (hfree : t ∉ ts → s'.links.prev (.thread t) = none ∧ s'.links.next (.thread t) = none) : Represents s' q' := by
  subst hq'
  obtain ⟨f, hcount, hf⟩ := hcount
  refine ⟨hapart, fun k => ?_, fun k => ?_, fun k => ?_, hself.trans h.self, fun k => ?_, fun u hu => ?_⟩
  · by_cases hk : k = tl
    · subst hk
      rw [update_self]
      exact hlinked
    · rw [update_of_ne hk]
      refine htouch.other (h.linked k) (h.nodes_apart hk (lastNode_mem hus)) ?_ (h.nodes_apart hk (firstNode_mem hvs))
      intro hin
      exact hk (ht k (by simpa [mem_nodes] using hin))
  · exact (htouch.prev _ (firstNode_ne_head k).symm (by simp)).trans (h.headPrev k)
  · exact (htouch.next _ (lastNode_ne_tail k).symm (by simp)).trans (h.tailNext k)
  · by_cases hk : k = tl
    · subst hk
      rw [hcount, update_self, update_self, hf]
    · rw [hcount, update_of_ne hk, update_of_ne hk]
      exact h.count k
  · by_cases hut : u = t
    · subst hut
      have hno := hu tl
      rw [update_self] at hno
      exact hfree hno
    · have hno : ∀ k, u ∉ q k := by
        intro k hin
        by_cases hk : k = tl
        · subst hk
          exact hu k (by rw [update_self]; exact hmem u hut hin)
        · exact hu k (by rw [update_of_ne hk]; exact hin)
      have hnode : ∀ n ∈ nodes tl (q tl), TlNode.thread u ≠ n := by
        rintro n hn rfl
        exact hno tl (by simpa [mem_nodes] using hn)
      have hne : TlNode.thread (ι := ι) u ≠ .thread t := fun heq => hut (TlNode.thread.inj heq)
      rw [htouch.prev _ (hnode _ (firstNode_mem hvs)) hne, htouch.next _ (hnode _ (lastNode_mem hus)) hne]
      exact h.free u hno

theorem Represents.insert (h : Represents s q) (hno : ∀ k, t ∉ q k) (hq : q tl = l ++ r) :
    Represents { s with
      links := s.links.splice (lastNode tl l) (.thread t) (firstNode tl r)
      count := update s.count tl (s.count tl + 1) } (update q tl (l ++ t :: r)) := by
  have hperm : (l ++ t :: r).Perm (t :: q tl) := hq ▸ List.perm_middle
  have hapart := (placed_put hno hperm).apart h.apart
  have hnodup := hapart.nodup tl
  rw [update_self] at hnodup
  obtain ⟨ms, ns, hnodes, hnodes'⟩ := nodes_append tl l r
  refine h.change (l := l) (r := r) (t := t) (fun u hu => ?_) (fun v hv => ?_)
    (fun k hk => absurd hk (hno k)) touches_splice rfl hapart (fun u _ hu => ?_) ?_ rfl ⟨_, rfl, ?_⟩ fun hin => ?_
  · rw [hq]
    exact List.mem_append_left _ hu
  · rw [hq]
    exact List.mem_append_right _ hv
  · exact hperm.mem_iff.mpr (List.mem_cons_of_mem _ hu)
  · have hlinked := h.linked tl
    rw [hq, hnodes] at hlinked
    have hdistinct : (nodes tl (l ++ t :: r)).Nodup := nodup_nodes hnodup
    rw [hnodes'] at hdistinct ⊢
    exact hlinked.splice hdistinct
  · have hlength := length_lt_of_nodup hnodup
    rw [hperm.length_eq, List.length_cons, ← h.count tl] at hlength
    rw [hperm.length_eq, List.length_cons, ← h.count tl, UInt32.toNat_add]
    exact Nat.mod_eq_of_lt hlength
  · exact absurd (List.mem_append_right l List.mem_cons_self) hin

theorem Represents.delete (h : Represents s q) (hq : q tl = l ++ t :: r) :
    Represents { s with
      links := s.links.unsplice (lastNode tl l) (.thread t) (firstNode tl r)
      count := update s.count tl (s.count tl - 1) } (update q tl (l ++ r)) := by
  have hnodup := h.apart.nodup tl
  rw [hq] at hnodup
  have hperm : (q tl).Perm (t :: (l ++ r)) := hq ▸ List.perm_middle
  have hrest := List.nodup_cons.mp (List.perm_middle.nodup_iff.mp hnodup)
  have hin : t ∈ q tl := hperm.mem_iff.mpr List.mem_cons_self
  have hapart := (h.apart.take hin hrest.2 fun x => ?_).apart h.apart
  · obtain ⟨ms, ns, hnodes, hnodes'⟩ := nodes_append tl l r
    refine h.change (l := l) (r := r) (t := t) (fun u hu => ?_) (fun v hv => ?_)
      (fun k hk => h.apart.disjoint k tl t hk hin) touches_unsplice rfl hapart (fun u hne hu => ?_) ?_ rfl
      ⟨_, rfl, ?_⟩ fun _ => ⟨?_, ?_⟩
    · rw [hq]
      exact List.mem_append_left _ hu
    · rw [hq]
      exact List.mem_append_right _ (List.mem_cons_of_mem _ hv)
    · exact (List.mem_cons.mp (hperm.mem_iff.mp hu)).resolve_left hne
    · have hlinked := h.linked tl
      have hdistinct : (nodes tl (q tl)).Nodup := nodup_nodes (h.apart.nodup tl)
      rw [hq, hnodes'] at hlinked hdistinct
      rw [hnodes]
      exact hlinked.unsplice hdistinct
    · have hcount : (s.count tl).toNat = (l ++ r).length + 1 := (h.count tl).trans hperm.length_eq
      have hone : 1 ≤ s.count tl := by
        show 1 ≤ (s.count tl).toNat
        omega
      rw [UInt32.toNat_sub_of_le _ _ hone, hcount]
      rfl
    · exact update_self ..
    · exact update_self ..
  · rw [hperm.mem_iff, List.mem_cons]
    constructor
    · intro hx
      exact ⟨fun hxt => hrest.1 (hxt ▸ hx), .inr hx⟩
    · rintro ⟨hne, hx⟩
      exact hx.resolve_left hne

/-! ### The operations on the nodes -/

theorem pointBack_run (hx : a ≠ x) :
    pointBack x { s with links := (s.links.setPrev x (some a)).setNext x (some b) } =
      .ok () { s with links := s.links.splice a x b } := by
  unfold pointBack tlnPrev tlnNext setNext setPrev
  have hprev : ((s.links.setPrev x (some a)).setNext x (some b)).prev x = some a := update_self ..
  have hnext : (((s.links.setPrev x (some a)).setNext x (some b)).setNext a (some x)).next x = some b :=
    (update_of_ne (Ne.symm hx) _ _).trans (update_self ..)
  rw [bind_of_ok (read_apply _ _), hprev, bind_of_ok (follow_some a),
    bind_of_ok (Prog.update_apply _ _), bind_of_ok (read_apply _ _), hnext,
    bind_of_ok (follow_some b)]
  rfl

theorem insertafternode_run (ha : a ≠ .thread t) (hab : s.links.next a = some b) :
    insertafternode a t s = .ok () { s with links := s.links.splice a (.thread t) b } := by
  have hnext : (s.links.setPrev (.thread t) (some a)).next a = some b := hab
  unfold insertafternode setPrev tlnNext setNext
  rw [bind_of_ok (Prog.update_apply _ _), bind_of_ok (read_apply _ _), hnext,
    bind_of_ok (Prog.update_apply _ _)]
  exact pointBack_run ha

theorem insertbeforenode_run (ha : a ≠ .thread t) (hab : s.links.prev b = some a) :
    insertbeforenode t b s = .ok () { s with links := s.links.splice a (.thread t) b } := by
  unfold insertbeforenode setPrev tlnPrev setNext
  rw [bind_of_ok (read_apply _ _), hab, bind_of_ok (Prog.update_apply _ _),
    bind_of_ok (Prog.update_apply _ _)]
  exact pointBack_run ha

theorem removenode_run (ha : a ≠ x) (hp : s.links.prev x = some a) (hn : s.links.next x = some b) :
    removenode x s = .ok () { s with links := s.links.unsplice a x b } := by
  have hnext : (s.links.setNext a (some b)).next x = some b := (update_of_ne (Ne.symm ha) _ _).trans hn
  have hprev : (s.links.setNext a (some b)).prev x = some a := hp
  unfold removenode tlnPrev tlnNext setNext setPrev
  rw [bind_of_ok (read_apply _ _), hp, bind_of_ok (follow_some a),
    bind_of_ok (read_apply _ _), hn, bind_of_ok (Prog.update_apply _ _),
    bind_of_ok (read_apply _ _), hnext, bind_of_ok (follow_some b),
    bind_of_ok (read_apply _ _), hprev, bind_of_ok (Prog.update_apply _ _),
    bind_of_ok (Prog.update_apply _ _)]
  rfl

theorem Represents.inserted {m : TlProg ι Unit} (h : Represents s q) (hno : ∀ k, t ∉ q k) (hq : q tl = l ++ r)
    (hm : lastNode tl l ≠ .thread t →
      m s = .ok () { s with links := s.links.splice (lastNode tl l) (.thread t) (firstNode tl r) }) :
    ∃ s', (do m; setCount tl (· + 1)) s = .ok () s' ∧ Represents s' (update q tl (l ++ t :: r)) := by
  have hne : lastNode tl l ≠ .thread t := lastNode_ne_thread fun hin => hno tl (by rw [hq]; simp [hin])
  refine ⟨_, ?_, h.insert hno hq⟩
  rw [bind_of_ok (hm hne)]
  rfl

theorem Represents.removenode (h : Represents s q) (hq : q tl = l ++ t :: r) :
    ∃ s', (do Threadlists.removenode (.thread t); setCount tl (· - 1)) s = .ok () s' ∧ s'.self = s.self ∧
      Represents s' (update q tl (l ++ r)) := by
  have hnodup := h.apart.nodup tl
  rw [hq, List.nodup_append] at hnodup
  have hne : lastNode tl l ≠ .thread t := lastNode_ne_thread fun hin => hnodup.2.2 t hin t List.mem_cons_self rfl
  obtain ⟨hprev, hnext⟩ := h.neighbours_of_mem hq
  refine ⟨_, ?_, ?_, h.delete hq⟩
  · rw [bind_of_ok (removenode_run hne hprev hnext)]
    rfl
  · rfl

/-! ### Runs -/

/-- The public operations. -/
inductive Op (ι : Type) where
  | addhead (tl : ι) (t : ThreadPtr)
  | addtail (tl : ι) (t : ThreadPtr)
  | insertafter (tl : ι) (onlist addee : ThreadPtr)
  | insertbefore (tl : ι) (addee onlist : ThreadPtr)
  | remhead (tl : ι)
  | remtail (tl : ι)
  | remove (tl : ι) (t : ThreadPtr)

/-- The call; an operation that returns nothing returns `NULL` here. -/
def Op.call : Op ι → TlProg ι (Option ThreadPtr)
  | .addhead tl t => do Threadlists.addhead tl t; pure none
  | .addtail tl t => do Threadlists.addtail tl t; pure none
  | .insertafter tl onlist addee => do Threadlists.insertafter tl onlist addee; pure none
  | .insertbefore tl addee onlist => do Threadlists.insertbefore tl addee onlist; pure none
  | .remhead tl => Threadlists.remhead tl
  | .remtail tl => Threadlists.remtail tl
  | .remove tl t => do Threadlists.remove tl t; pure none

/-- What a caller has to see to: a thread that is added is on no list, the others are on this one. -/
def Op.Permitted (q : ι → List ThreadPtr) : Op ι → Prop
  | .addhead _ t | .addtail _ t => ∀ k, t ∉ q k
  | .insertafter tl onlist addee | .insertbefore tl addee onlist => (∀ k, addee ∉ q k) ∧ onlist ∈ q tl
  | .remhead _ | .remtail _ => True
  | .remove tl t => t ∈ q tl

/-- The sequence with `addee` after `onlist`. -/
def insertAfter (onlist addee : ThreadPtr) : List ThreadPtr → List ThreadPtr
  | [] => []
  | t :: ts => if t = onlist then t :: addee :: ts else t :: insertAfter onlist addee ts

/-- The sequence with `addee` before `onlist`. -/
def insertBefore (addee onlist : ThreadPtr) : List ThreadPtr → List ThreadPtr
  | [] => []
  | t :: ts => if t = onlist then addee :: t :: ts else t :: insertBefore addee onlist ts

/-- **The meaning of an operation** for the sequences. -/
def Op.next (q : ι → List ThreadPtr) : Op ι → ι → List ThreadPtr
  | .addhead tl t => update q tl (t :: q tl)
  | .addtail tl t => update q tl (q tl ++ [t])
  | .insertafter tl onlist addee => update q tl (insertAfter onlist addee (q tl))
  | .insertbefore tl addee onlist => update q tl (insertBefore addee onlist (q tl))
  | .remhead tl => update q tl (q tl).tail
  | .remtail tl => update q tl (q tl).dropLast
  | .remove tl t => update q tl ((q tl).erase t)

/-- What an operation returns: `NULL` from an empty list, and from an operation that returns nothing. -/
def Op.result (q : ι → List ThreadPtr) : Op ι → Option ThreadPtr
  | .remhead tl => (q tl).head?
  | .remtail tl => (q tl).getLast?
  | _ => none

theorem insertAfter_append (hu : u ∉ l) :
    insertAfter u v (l ++ u :: r) = l ++ u :: v :: r := by
  induction l with
  | nil => simp [insertAfter]
  | cons w l ih =>
    rw [List.mem_cons, not_or] at hu
    simp [insertAfter, Ne.symm hu.1, ih hu.2]

theorem insertBefore_append (hu : u ∉ l) :
    insertBefore v u (l ++ u :: r) = l ++ v :: u :: r := by
  induction l with
  | nil => simp [insertBefore]
  | cons w l ih =>
    rw [List.mem_cons, not_or] at hu
    simp [insertBefore, Ne.symm hu.1, ih hu.2]

theorem Represents.remhead (h : Represents s q) (tl : ι) :
    ∃ s', Threadlists.remhead tl s = .ok (q tl).head? s' ∧ Represents s' (update q tl (q tl).tail) := by
  have hfirst : s.links.next (.head tl) = some (firstNode tl (q tl)) := (h.neighbours (l := []) rfl).1
  unfold Threadlists.remhead tlnNext
  rw [bind_of_ok (read_apply _ _), hfirst, bind_of_ok (follow_some _),
    bind_of_ok (read_apply _ _)]
  cases hq : q tl with
  | nil =>
    refine ⟨s, ?_, ?_⟩
    · rw [firstNode_nil, if_pos (h.tailNext tl)]
      rfl
    · rw [List.tail_nil, ← hq, update_eq_self]
      exact h
  | cons t ts =>
    obtain ⟨s', hrun, hself, hs'⟩ := h.removenode (l := []) hq
    have hnext : s.links.next (.thread t) ≠ none := by
      rw [(h.neighbours_of_mem (l := []) hq).2]
      exact nofun
    refine ⟨s', ?_, hs'⟩
    rw [firstNode_cons, if_neg hnext, ← Prog.bind_assoc, bind_of_ok hrun, read_apply, hself, h.self]
    rfl

theorem Represents.remtail (h : Represents s q) (tl : ι) :
    ∃ s', Threadlists.remtail tl s = .ok (q tl).getLast? s' ∧ Represents s' (update q tl (q tl).dropLast) := by
  have hlast : s.links.prev (.tail tl) = some (lastNode tl (q tl)) :=
    (h.neighbours (r := []) (List.append_nil _).symm).2
  unfold Threadlists.remtail tlnPrev
  rw [bind_of_ok (read_apply _ _), hlast, bind_of_ok (follow_some _),
    bind_of_ok (read_apply _ _)]
  rcases (q tl).eq_nil_or_concat' with hq | ⟨ts, t, hq⟩
  · refine ⟨s, ?_, ?_⟩
    · rw [hq, lastNode_nil, if_pos (h.headPrev tl)]
      rfl
    · rw [hq, List.dropLast_nil, ← hq, update_eq_self]
      exact h
  · obtain ⟨s', hrun, hself, hs'⟩ := h.removenode hq
    have hprev : s.links.prev (.thread t) ≠ none := by
      rw [(h.neighbours_of_mem hq).1]
      exact nofun
    refine ⟨s', ?_, ?_⟩
    · rw [hq, lastNode_concat, if_neg hprev, ← Prog.bind_assoc, bind_of_ok hrun, read_apply, hself, h.self,
        List.getLast?_concat]
      rfl
    · rw [hq, List.dropLast_concat]
      rw [List.append_nil] at hs'
      exact hs'

theorem Op.call_represents (h : Represents s q) (op : Op ι) (hop : op.Permitted q) :
    ∃ s', op.call s = .ok (op.result q) s' ∧ Represents s' (op.next q) := by
  cases op with
  | addhead tl t =>
    obtain ⟨s', hrun, hs'⟩ := h.inserted (l := []) hop rfl fun hne => insertafternode_run hne (h.neighbours rfl).1
    exact ⟨s', bind_of_ok hrun, hs'⟩
  | addtail tl t =>
    have hq : q tl = q tl ++ [] := (List.append_nil _).symm
    obtain ⟨s', hrun, hs'⟩ := h.inserted hop hq fun hne => insertbeforenode_run hne (h.neighbours hq).2
    exact ⟨s', bind_of_ok hrun, hs'⟩
  | insertafter tl onlist addee =>
    obtain ⟨l, r, hq, hon⟩ := h.split_of_mem hop.2
    have hq' : q tl = (l ++ [onlist]) ++ r := by simp [hq]
    obtain ⟨s', hrun, hs'⟩ := h.inserted hop.1 hq' fun hne => insertafternode_run hne (h.neighbours hq').1
    rw [lastNode_concat] at hrun
    refine ⟨s', bind_of_ok hrun, ?_⟩
    rw [Op.next, hq, insertAfter_append hon]
    simpa using hs'
  | insertbefore tl addee onlist =>
    obtain ⟨l, r, hq, hon⟩ := h.split_of_mem hop.2
    obtain ⟨s', hrun, hs'⟩ := h.inserted hop.1 hq fun hne => insertbeforenode_run hne (h.neighbours hq).2
    refine ⟨s', bind_of_ok hrun, ?_⟩
    rw [Op.next, hq, insertBefore_append hon]
    exact hs'
  | remhead tl => exact h.remhead tl
  | remtail tl => exact h.remtail tl
  | remove tl t =>
    obtain ⟨l, r, hq, hon⟩ := h.split_of_mem hop
    obtain ⟨s', hrun, -, hs'⟩ := h.removenode hq
    refine ⟨s', bind_of_ok hrun, ?_⟩
    rw [Op.next, hq, List.erase_append_right _ hon, List.erase_cons_head]
    exact hs'

/-- One operation after the other; the results are collected. -/
def runOps : List (Op ι) → TlProg ι (List (Option ThreadPtr))
  | [] => pure []
  | op :: ops => do
    let r ← op.call
    let rs ← runOps ops
    pure (r :: rs)

/-- Each operation is permitted when its turn comes. -/
def AllPermitted (q : ι → List ThreadPtr) : List (Op ι) → Prop
  | [] => True
  | op :: ops => op.Permitted q ∧ AllPermitted (op.next q) ops

/-- The results that the sequences give. -/
def results (q : ι → List ThreadPtr) : List (Op ι) → List (Option ThreadPtr)
  | [] => []
  | op :: ops => op.result q :: results (op.next q) ops

theorem runOps_represents {ops : List (Op ι)} (h : Represents s q) (hops : AllPermitted q ops) :
    ∃ s', runOps ops s = .ok (results q ops) s' ∧ Represents s' (ops.foldl Op.next q) := by
  induction ops generalizing s q with
  | nil => exact ⟨s, rfl, h⟩
  | cons op ops ih =>
    obtain ⟨s₁, hrun, hs₁⟩ := Op.call_represents h op hops.1
    obtain ⟨s₂, hrest, hs₂⟩ := ih hs₁ hops.2
    refine ⟨s₂, ?_, hs₂⟩
    rw [runOps, bind_of_ok hrun, bind_of_ok hrest]
    rfl

/-- **The thread lists are doubly linked sequences.**  A sequence of permitted operations on any lists returns what it
returns on the sequences.  Afterwards the walks from both ends find the same threads in opposite orders, the counts are
the lengths, `remhead` and `remtail` return `NULL` exactly from an empty list, and the node of a thread on no list
points nowhere. -/
theorem threadlists_are_sequences (ops : List (Op ι)) (hops : AllPermitted (fun _ => []) ops) :
    ∃ s, runOps ops init = .ok (results (fun _ => []) ops) s ∧
      ∀ q, q = ops.foldl Op.next (fun _ => []) →
        (∀ tl fuel, (q tl).length < fuel →
          threadlistForall fuel tl s = .ok (q tl) s ∧ threadlistForallRev fuel tl s = .ok (q tl).reverse s) ∧
        (∀ tl, (s.count tl).toNat = (q tl).length) ∧
        (∀ tl, (∃ r s', remhead tl s = .ok r s' ∧ (r = none ↔ q tl = [])) ∧
          ∃ r s', remtail tl s = .ok r s' ∧ (r = none ↔ q tl = [])) ∧
        ∀ t, (∀ tl, t ∉ q tl) → s.links.prev (.thread t) = none ∧ s.links.next (.thread t) = none := by
  obtain ⟨s, hrun, hs⟩ := runOps_represents represents_init hops
  refine ⟨s, hrun, ?_⟩
  rintro q rfl
  refine ⟨fun tl fuel hfuel => ⟨hs.threadlistForall_run hfuel, hs.threadlistForallRev_run hfuel⟩, hs.count,
    fun tl => ⟨?_, ?_⟩, hs.free⟩
  · obtain ⟨s', hrem, -⟩ := hs.remhead tl
    exact ⟨_, s', hrem, List.head?_eq_none_iff⟩
  · obtain ⟨s', hrem, -⟩ := hs.remtail tl
    exact ⟨_, s', hrem, List.getLast?_eq_none_iff⟩

/-- Two lists; the thread at address 2 goes from one to the other. -/
theorem threadlists_are_sequences_two_lists :
    ∃ s, runOps [.addhead false ⟨1, by decide⟩, .insertafter false ⟨1, by decide⟩ ⟨2, by decide⟩, .remtail false,
        .addtail true ⟨2, by decide⟩, .remhead true, .remhead true] init =
      .ok [none, none, some ⟨2, by decide⟩, none, some ⟨2, by decide⟩, none] s ∧
      threadlistForall 2 false s = .ok [⟨1, by decide⟩] s ∧ s.links.next (.thread ⟨2, by decide⟩) = none := by
  obtain ⟨s, hrun, hend⟩ := threadlists_are_sequences
    [.addhead false ⟨1, by decide⟩, .insertafter false ⟨1, by decide⟩ ⟨2, by decide⟩, .remtail false,
      .addtail true ⟨2, by decide⟩, .remhead true, .remhead true]
    (by simp [AllPermitted, Op.Permitted, Op.next, insertAfter])
  obtain ⟨hwalk, -, -, hfree⟩ := hend _ rfl
  refine ⟨s, hrun, (hwalk false 2 (by decide)).1, (hfree _ (by decide)).2⟩

end Threadlists

end Os161Kernel
