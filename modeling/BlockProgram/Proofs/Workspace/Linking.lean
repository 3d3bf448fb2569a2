import BlockProgram.Workspace.Graph
import Mathlib.Algebra.BigOperators.Group.Finset.Basic
import Mathlib.Algebra.Order.BigOperators.Group.Finset
import Mathlib.Data.List.Perm.Subperm

/-! # Linking a graph

Linking follows references from the top blocks on.  `LinksAll` and `LinksTops` are its rules: a node
that is met for the first time is given the parent its reference comes from, and then its own
references are followed; a node that is met again ends it all.  The rules know no bound, so that
linking comes to an end is something to prove.

What carries the proofs is a balance (`Walking`): the references that have been followed and those
still pending are, one for one, those of the top blocks and of the nodes met so far.  At the end
nothing is pending and every node met was met by one reference, so every node is referred to once
(`Walking.referenceCount_eq`); at a fault there is one reference more than nodes
(`Walking.one_lt_referenceCount`).
-/
namespace BlockProgram.Graph

open List

/-! ### References -/

/-- The nodes a node refers to; none for a number that is no node. -/
def referencesOf (g : Graph) (i : Nat) : List Nat := (g.nodes[i]?.map Node.references).getD []

variable {g : Graph} {i : Nat}

theorem referencesOf_eq {node : Node} (h : g.nodes[i]? = some node) : g.referencesOf i = node.references := by
  unfold referencesOf
  rw [h]
  rfl

theorem count_filterMap_id (tops : List (Option Nat)) (i : Nat) :
    (tops.filterMap id).count i = tops.count (some i) := by
  rw [count_eq_countP, countP_filterMap]
  exact congrArg (countP · tops) (funext fun t => by cases t <;> simp)

theorem mem_top_of_sublist {tops : List Nat} (h : tops.Sublist (g.top.filterMap id)) : ∀ i ∈ tops, some i ∈ g.top :=
  fun i hi => by simpa using h.subset hi

/-- Every number in use is that of a node. -/
structure Closed (g : Graph) : Prop where
  top : ∀ t ∈ g.top, ∀ i ∈ t, i < g.nodes.length
  reference : ∀ n ∈ g.nodes, ∀ j ∈ n.references, j < g.nodes.length

instance (g : Graph) : Decidable g.Closed :=
  decidable_of_iff ((∀ t ∈ g.top, ∀ i ∈ t, i < g.nodes.length) ∧ ∀ n ∈ g.nodes, ∀ j ∈ n.references, j < g.nodes.length)
    ⟨fun h => ⟨h.1, h.2⟩, fun h => ⟨h.top, h.reference⟩⟩

theorem Closed.lt_of_mem_referencesOf (hg : g.Closed) {j : Nat} (hj : j ∈ g.referencesOf i) : j < g.nodes.length := by
  cases hnode : g.nodes[i]? with
  | none => simp [referencesOf, hnode] at hj
  | some node =>
    rw [referencesOf_eq hnode] at hj
    exact hg.reference node (mem_of_getElem? hnode) j hj

/-- The nodes that the top blocks lead to. -/
inductive Reachable (g : Graph) : Nat → Prop
  | top {i : Nat} (h : some i ∈ g.top) : Reachable g i
  | reference {i j : Nat} (h : Reachable g i) (hj : j ∈ g.referencesOf i) : Reachable g j

open Classical in
/-- How many references to a node there are: top blocks, sockets, shadows and successors, in all
that the top blocks lead to. -/
noncomputable def referenceCount (g : Graph) (i : Nat) : Nat :=
  g.top.count (some i) +
    ∑ p ∈ (Finset.range g.nodes.length).filter g.Reachable, (g.referencesOf p).count i

theorem Reachable.lt_length (hg : g.Closed) (h : g.Reachable i) : i < g.nodes.length := by
  cases h with
  | top htop => exact hg.top _ htop i rfl
  | reference _ hj => exact hg.lt_of_mem_referencesOf hj

/-! ### The rules of linking -/

/-- Linking references, each with the node it comes from. A node that has been met is a fault and
ends everything; any other is given its parent, and its own references are linked before those that
follow. -/
inductive LinksAll (g : Graph) : List (Option Nat × Nat) → Links → Links × Option LinkFault → Prop
  | nil {links : Links} : LinksAll g [] links (links, none)
  | shared {p : Option Nat} {i : Nat} {node : Node} {rest : List (Option Nat × Nat)} {links : Links}
      (hnode : g.nodes[i]? = some node) (hmet : met links i = true) :
      LinksAll g ((p, i) :: rest) links (links, some (.shared node.data.id node.data.type))
  | fault {p : Option Nat} {i : Nat} {node : Node} {rest : List (Option Nat × Nat)} {links links' : Links}
      {f : LinkFault} (hnode : g.nodes[i]? = some node) (hmet : met links i = false)
      (hbelow : LinksAll g (node.references.map (some i, ·)) ((i, p) :: links) (links', some f)) :
      LinksAll g ((p, i) :: rest) links (links', some f)
  | next {p : Option Nat} {i : Nat} {node : Node} {rest : List (Option Nat × Nat)} {links links' : Links}
      {out : Links × Option LinkFault} (hnode : g.nodes[i]? = some node) (hmet : met links i = false)
      (hbelow : LinksAll g (node.references.map (some i, ·)) ((i, p) :: links) (links', none))
      (hrest : LinksAll g rest links' out) :
      LinksAll g ((p, i) :: rest) links out

inductive LinksTops (g : Graph) :
    Nat → List (Option Nat) → Links → Links × Option LinkFault → Prop
  | nil {k : Nat} {links : Links} : LinksTops g k [] links (links, none)
  | null {k : Nat} {rest : List (Option Nat)} {links : Links} :
      LinksTops g k (none :: rest) links (links, some (.nullTop k))
  | fault {k i : Nat} {rest : List (Option Nat)} {links links' : Links} {f : LinkFault}
      (hfirst : LinksAll g [(none, i)] links (links', some f)) :
      LinksTops g k (some i :: rest) links (links', some f)
  | next {k i : Nat} {rest : List (Option Nat)} {links links' : Links} {out : Links × Option LinkFault}
      (hfirst : LinksAll g [(none, i)] links (links', none)) (hrest : LinksTops g (k + 1) rest links' out) :
      LinksTops g k (some i :: rest) links out

variable {links : Links}

/-- Linking some references and then others: the others are linked unless there is a fault. -/
theorem LinksAll.of_append {first rest : List (Option Nat × Nat)}
    {out : Links × Option LinkFault} (h : LinksAll g (first ++ rest) links out) :
    (∃ links', LinksAll g first links (links', none) ∧ LinksAll g rest links' out) ∨
      ∃ links' f, out = (links', some f) ∧ LinksAll g first links (links', some f) := by
  induction first generalizing links with
  | nil => exact .inl ⟨_, .nil, h⟩
  | cons x first ih =>
    cases h with
    | shared hnode hmet => exact .inr ⟨_, _, rfl, .shared hnode hmet⟩
    | fault hnode hmet hbelow => exact .inr ⟨_, _, rfl, .fault hnode hmet hbelow⟩
    | next hnode hmet hbelow hrest =>
      rcases ih hrest with ⟨links', hfirst, hout⟩ | ⟨links', f, rfl, hfirst⟩
      · exact .inl ⟨links', .next hnode hmet hbelow hfirst, hout⟩
      · exact .inr ⟨links', f, rfl, .next hnode hmet hbelow hfirst⟩

/-! ### Links -/

def keys (links : Links) : List Nat := links.map (·.1)

@[simp] theorem keys_cons (i : Nat) (p : Option Nat) (links : Links) : keys ((i, p) :: links) = i :: keys links := rfl

theorem met_iff : met links i = true ↔ i ∈ keys links := by
  simp [met, keys]

theorem met_eq_false_iff : met links i = false ↔ i ∉ keys links := by
  rw [← met_iff, Bool.not_eq_true]

/-- Links as linking makes them: every node is met once, after its parent. -/
inductive Grown : Links → Prop
  | nil : Grown []
  | cons {i : Nat} {p : Option Nat} {links : Links} (h : Grown links) (hnew : i ∉ keys links)
      (hparent : ∀ q, p = some q → q ∈ keys links) : Grown ((i, p) :: links)

theorem Grown.nodup (h : Grown links) : (keys links).Nodup := by
  induction h with
  | nil => exact nodup_nil
  | cons _ hnew _ ih => exact nodup_cons.mpr ⟨hnew, ih⟩

/-- No more nodes are met than there are. -/
theorem Grown.length_le (h : Grown links) {n : Nat} (hlt : ∀ i ∈ keys links, i < n) : links.length ≤ n := by
  have hsubset : keys links ⊆ List.range n := fun i hi => mem_range.mpr (hlt i hi)
  simpa [keys] using (h.nodup.subperm hsubset).length_le

theorem parent?_cons (i j : Nat) (p : Option Nat) (links : Links) :
    parent? ((j, p) :: links) i = if j = i then p else parent? links i := by
  by_cases h : j = i <;> simp [parent?, h]

theorem Grown.parent?_eq (h : Grown links) {p : Option Nat} (hmem : (i, p) ∈ links) : parent? links i = p := by
  induction h with
  | nil => cases hmem
  | @cons j q links _ hnew _ ih =>
    rw [parent?_cons]
    rcases mem_cons.mp hmem with heq | hmem
    · obtain ⟨rfl, rfl⟩ := Prod.mk.inj heq
      exact if_pos rfl
    · have hne : j ≠ i := fun hji => hnew (hji ▸ mem_map.mpr ⟨_, hmem, rfl⟩)
      rw [if_neg hne, ih hmem]

theorem mem_of_parent? {q : Nat} (h : parent? links i = some q) : (i, some q) ∈ links := by
  induction links with
  | nil => cases h
  | cons l links ih =>
    rw [parent?_cons] at h
    split at h
    · next hji => exact hji ▸ h ▸ mem_cons_self
    · exact mem_cons_of_mem _ (ih h)

/-! ### The balance of a walk -/

def followed (links : Links) : List (Option Nat × Nat) := links.map fun l => (l.2, l.1)

/-- The references of some top blocks and of some nodes, each with where it comes from. -/
def allReferences (g : Graph) (tops met : List Nat) : List (Option Nat × Nat) :=
  tops.map (none, ·) ++ met.flatMap fun i => (g.referencesOf i).map (some i, ·)

/-- On the way: what has been followed and what is pending are the references of the top blocks
`tops` and of the nodes met. -/
structure Walking (g : Graph) (tops : List Nat) (pending : List (Option Nat × Nat)) (links : Links) :
    Prop where
  balance : (followed links ++ pending).Perm (g.allReferences tops (keys links))
  grown : Grown links

theorem mem_allReferences {tops met : List Nat} {p : Option Nat} : (p, i) ∈ g.allReferences tops met ↔
      (p = none ∧ i ∈ tops) ∨ ∃ q ∈ met, p = some q ∧ i ∈ g.referencesOf q := by
  simp only [allReferences, mem_append, mem_map, mem_flatMap, Prod.mk.injEq]
  grind

theorem mem_followed {p : Option Nat} : (p, i) ∈ followed links ↔ (i, p) ∈ links := by
  simp [followed]

namespace Walking

variable {g : Graph} {tops : List Nat} {pending : List (Option Nat × Nat)} {links : Links}

theorem start (g : Graph) : g.Walking [] [] [] := ⟨.refl _, .nil⟩

variable {p : Option Nat} {i : Nat}

theorem source (h : g.Walking tops pending links) (hmem : (i, p) ∈ links ∨ (p, i) ∈ pending) :
    (p = none ∧ i ∈ tops) ∨ ∃ q ∈ keys links, p = some q ∧ i ∈ g.referencesOf q := by
  rw [← mem_allReferences, ← h.balance.mem_iff, mem_append, mem_followed]
  exact hmem

theorem addTop (h : g.Walking tops [] links) (i : Nat) : g.Walking (tops ++ [i]) [(none, i)] links := by
  refine ⟨perm_iff_count.mpr fun x => ?_, h.grown⟩
  have hcount := h.balance.count_eq x
  simp only [allReferences, map_append, map_cons, map_nil, count_append, count_nil] at hcount ⊢
  omega

/-- One more node met: its own references are pending now. -/
theorem enter (h : g.Walking tops ((p, i) :: pending) links) (hnew : i ∉ keys links) :
    g.Walking tops ((g.referencesOf i).map (some i, ·) ++ pending) ((i, p) :: links) := by
  refine ⟨perm_iff_count.mpr fun x => ?_, .cons h.grown hnew fun q hq => ?_⟩
  · have hcount := h.balance.count_eq x
    simp only [followed, allReferences, keys_cons, map_cons, flatMap_cons, count_append, count_cons] at hcount ⊢
    omega
  · rcases h.source (.inr mem_cons_self) with ⟨hnone, -⟩ | ⟨q', hq', hsome, -⟩
    · rw [hnone] at hq
      cases hq
    · obtain rfl : q' = q := Option.some.inj (hsome.symm.trans hq)
      exact hq'

theorem lt_length (h : g.Walking tops pending links) (hg : g.Closed) (htops : ∀ i ∈ tops, some i ∈ g.top)
    (hmem : (i, p) ∈ links ∨ (p, i) ∈ pending) : i < g.nodes.length := by
  rcases h.source hmem with ⟨-, hi⟩ | ⟨q, -, -, hi⟩
  · exact hg.top _ (htops i hi) i rfl
  · exact hg.lt_of_mem_referencesOf hi

theorem keys_lt_length (h : g.Walking tops pending links) (hg : g.Closed)
    (htops : ∀ i ∈ tops, some i ∈ g.top) : ∀ i ∈ keys links, i < g.nodes.length := by
  intro i hi
  obtain ⟨⟨_, p⟩, hmem, rfl⟩ := mem_map.mp hi
  exact h.lt_length hg htops (.inl hmem)

theorem reachable (h : g.Walking tops pending links) (htops : ∀ i ∈ tops, some i ∈ g.top) :
    ∀ i ∈ keys links, g.Reachable i := by
  -- parents come later in the list, so the tail is treated first
  suffices ∀ links', Grown links' → links' ⊆ links → ∀ i ∈ keys links', g.Reachable i from
    this links h.grown (List.Subset.refl _)
  intro links' hgrown'
  induction hgrown' with
  | nil => exact fun _ _ hi => absurd hi not_mem_nil
  | @cons j p links' _ _ hparent ih =>
    intro hsubset i hi
    have hbelow := ih fun l hl => hsubset (mem_cons_of_mem _ hl)
    rcases mem_cons.mp hi with rfl | hi
    · rcases h.source (.inl (hsubset mem_cons_self)) with ⟨-, htop⟩ | ⟨q, -, hq, href⟩
      · exact .top (htops i htop)
      · exact .reference (hbelow q (hparent q hq)) href
    · exact hbelow i hi

/-- How often a node occurs among the references followed and pending. -/
theorem count_eq (h : g.Walking tops pending links) (i : Nat) : (keys links).count i + (pending.map (·.2)).count i =
      tops.count i + ∑ p ∈ (keys links).toFinset, (g.referencesOf p).count i := by
  have htargets := (h.balance.map (·.2)).count_eq i
  have hfollowed : (followed links).map (·.2) = keys links := by simp [followed, keys]
  have hall : (g.allReferences tops (keys links)).map (·.2) = tops ++ (keys links).flatMap g.referencesOf := by
    simp [allReferences, map_flatMap, Function.comp_def]
  rw [map_append, hfollowed, hall, count_append, count_append, count_flatMap] at htargets
  rw [htargets, sum_toFinset _ h.grown.nodup]
  rfl

/-- At a fault there is a second reference to the node. -/
theorem one_lt_referenceCount (h : g.Walking tops ((p, i) :: pending) links)
    (hg : g.Closed) (htops : tops.Sublist (g.top.filterMap id)) (hmet : i ∈ keys links) : 1 < g.referenceCount i := by
  classical
  have hsubset : (keys links).toFinset ⊆ (Finset.range g.nodes.length).filter g.Reachable := by
    intro j hj
    have hj := h.reachable (mem_top_of_sublist htops) j (mem_toFinset.mp hj)
    exact Finset.mem_filter.mpr ⟨Finset.mem_range.mpr (hj.lt_length hg), hj⟩
  have hsum := Finset.sum_le_sum_of_subset (f := fun p => (g.referencesOf p).count i) hsubset
  have htop : tops.count i ≤ g.top.count (some i) :=
    (htops.count_le i).trans (count_filterMap_id g.top i).le
  have hcount := h.count_eq i
  rw [map_cons, count_cons_self] at hcount
  have hone : 0 < (keys links).count i := count_pos_iff.mpr hmet
  unfold referenceCount
  omega

/-- At the end every node met is referred to once, and these are all that can be reached. -/
theorem mem_keys_iff (h : g.Walking (g.top.filterMap id) [] links) : i ∈ keys links ↔ g.Reachable i := by
  have hmem : ∀ {p j}, (p, j) ∈ g.allReferences (g.top.filterMap id) (keys links) → j ∈ keys links := by
    intro p j hj
    rw [← h.balance.mem_iff, append_nil, mem_followed] at hj
    exact mem_map.mpr ⟨_, hj, rfl⟩
  refine ⟨h.reachable (mem_top_of_sublist (.refl _)) i, fun hi => ?_⟩
  induction hi with
  | top htop => exact hmem (mem_allReferences.mpr (.inl ⟨rfl, by simpa using htop⟩))
  | reference _ hj ih => exact hmem (mem_allReferences.mpr (.inr ⟨_, ih, rfl, hj⟩))

theorem referenceCount_eq (h : g.Walking (g.top.filterMap id) [] links) (hg : g.Closed)
    (hi : g.Reachable i) : g.referenceCount i = 1 := by
  classical
  have hkeys : (keys links).toFinset = (Finset.range g.nodes.length).filter g.Reachable := by
    ext j
    rw [mem_toFinset, h.mem_keys_iff, Finset.mem_filter, Finset.mem_range]
    exact ⟨fun hj => ⟨hj.lt_length hg, hj⟩, fun hj => hj.2⟩
  have hcount := h.count_eq i
  rw [count_filterMap_id, hkeys, count_eq_one_of_mem h.grown.nodup (h.mem_keys_iff.mpr hi)] at hcount
  exact hcount.symm

/-- At the end the parent of a node is what refers to it. -/
theorem parent?_eq (h : g.Walking (g.top.filterMap id) [] links)
    (href : (p, i) ∈ g.allReferences (g.top.filterMap id) (keys links)) : parent? links i = p := by
  rw [← h.balance.mem_iff, append_nil, mem_followed] at href
  exact h.grown.parent?_eq href

end Walking

/-! ### How linking ends -/

/-- How linking references ends: with nothing pending, or at a reference to a node that has been
met. -/
inductive Ended (g : Graph) (tops : List Nat) : Links × Option LinkFault → Prop
  | finished {links : Links} (h : g.Walking tops [] links) : Ended g tops (links, none)
  | stopped {p : Option Nat} {i : Nat} {pending : List (Option Nat × Nat)} {links : Links} {f : LinkFault}
      (h : g.Walking tops ((p, i) :: pending) links) (hmet : i ∈ keys links) :
      Ended g tops (links, some f)

/-- **A walk ends by itself**: it follows the rules, and its bound is never reached. -/
theorem walk_spec (hg : g.Closed) {tops : List Nat} (htops : ∀ i ∈ tops, some i ∈ g.top)
    (fuel : Nat) {pending : List (Option Nat × Nat)}
    (h : g.Walking tops pending links) (hfuel : g.nodes.length < fuel + links.length) :
    LinksAll g pending links (g.walk fuel pending links) ∧ Ended g tops (g.walk fuel pending links) := by
  induction fuel generalizing pending links with
  | zero => exact absurd (h.grown.length_le (h.keys_lt_length hg htops)) (by omega)
  | succ fuel ih =>
    match pending, h with
    | [], h => exact ⟨.nil, .finished h⟩
    | (p, i) :: pending, h =>
      have hlt : i < g.nodes.length := h.lt_length hg htops (.inr mem_cons_self)
      have hnode := List.getElem?_eq_getElem hlt
      unfold walk
      simp only [hnode]
      cases hmet : met links i with
      | true => exact ⟨.shared hnode hmet, .stopped h (met_iff.mp hmet)⟩
      | false =>
        have henter := h.enter (met_eq_false_iff.mp hmet)
        rw [referencesOf_eq hnode] at henter
        obtain ⟨hrules, hended⟩ := ih henter (by rw [length_cons]; omega)
        refine ⟨?_, hended⟩
        rcases hrules.of_append with ⟨links', hbelow, hrest⟩ | ⟨links', f, hout, hbelow⟩
        · exact .next hnode hmet hbelow hrest
        · rw [if_neg Bool.false_ne_true, hout]
          exact .fault hnode hmet hbelow

/-- How linking ends: with all top blocks linked, at a missing one, or at a node that has been
met. -/
inductive TopsEnded (g : Graph) : Links × Option LinkFault → Prop
  | finished {links : Links} (hnull : none ∉ g.top) (h : g.Walking (g.top.filterMap id) [] links) :
      TopsEnded g (links, none)
  | null {tops : List Nat} {links : Links} {f : LinkFault} (hnull : none ∈ g.top)
      (htops : tops.Sublist (g.top.filterMap id)) (h : g.Walking tops [] links) :
      TopsEnded g (links, some f)
  | stopped {tops : List Nat} {p : Option Nat} {i : Nat} {pending : List (Option Nat × Nat)} {links : Links}
      {f : LinkFault} (htops : tops.Sublist (g.top.filterMap id))
      (h : g.Walking tops ((p, i) :: pending) links) (hmet : i ∈ keys links) :
      TopsEnded g (links, some f)

theorem linkTops_spec (hg : g.Closed) {done rest : List (Option Nat)} {k : Nat}
    (htop : g.top = done ++ rest) (hnull : none ∉ done) (h : g.Walking (done.filterMap id) [] links) :
    LinksTops g k rest links (g.linkTops k links rest) ∧ TopsEnded g (g.linkTops k links rest) := by
  induction rest generalizing done k links with
  | nil =>
    rw [append_nil] at htop
    subst htop
    exact ⟨.nil, .finished hnull h⟩
  | cons t rest ih =>
    have hsublist : ∀ ts, ts <+: t :: rest → ((done ++ ts).filterMap id).Sublist (g.top.filterMap id) := by
      intro ts hts
      rw [htop]
      exact (hts.sublist.append_left done).filterMap id
    match t with
    | none =>
      have hdone := hsublist [] nil_prefix
      rw [append_nil] at hdone
      exact ⟨.null, .null (by simp [htop]) hdone h⟩
    | some i =>
      have hdone : ((done ++ [some i]).filterMap id).Sublist (g.top.filterMap id) :=
        hsublist [some i] (prefix_append [some i] rest)
      have hstart := h.addTop i
      have heq : done.filterMap id ++ [i] = (done ++ [some i]).filterMap id := by simp
      rw [heq] at hstart
      obtain ⟨hrules, hended⟩ := walk_spec hg (mem_top_of_sublist hdone) (g.nodes.length + 1) hstart (by omega)
      unfold linkTops
      generalize g.walk (g.nodes.length + 1) [(none, i)] links = out at hrules hended
      cases hended with
      | finished hwalking =>
        obtain ⟨hrest, hend⟩ := ih (k := k + 1) (by simp [htop]) (by simpa using hnull) hwalking
        exact ⟨.next hrules hrest, hend⟩
      | stopped hwalking hmet => exact ⟨.fault hrules, .stopped hdone hwalking hmet⟩

/-- **Linking ends**, as its rules say and in one of three ways. -/
theorem link_spec (hg : g.Closed) : LinksTops g 0 g.top [] g.link ∧ TopsEnded g g.link :=
  linkTops_spec hg (nil_append _).symm not_mem_nil (.start g)

/-- **Linking succeeds exactly on forests.** -/
theorem link_eq_none_iff (hg : g.Closed) :
    g.link.2 = none ↔ none ∉ g.top ∧ ∀ i, g.Reachable i → g.referenceCount i = 1 := by
  have hended := (link_spec hg).2
  generalize g.link = out at hended
  cases hended with
  | finished hnull h => exact ⟨fun _ => ⟨hnull, fun i hi => h.referenceCount_eq hg hi⟩, fun _ => rfl⟩
  | null hnull _ _ => exact ⟨nofun, fun h => absurd hnull h.1⟩
  | @stopped _ _ i _ _ _ htops h hmet =>
    refine ⟨nofun, fun hforest => ?_⟩
    have hone := hforest.2 i (h.reachable (mem_top_of_sublist htops) i hmet)
    have htwo := h.one_lt_referenceCount hg htops hmet
    omega

theorem walking_of_link_eq_none (hg : g.Closed) (h : g.link.2 = none) : g.Walking (g.top.filterMap id) [] g.link.1 := by
  have hended := (link_spec hg).2
  generalize g.link = out at hended h
  cases hended with
  | finished _ hwalking => exact hwalking
  | null | stopped => cases h

end BlockProgram.Graph
