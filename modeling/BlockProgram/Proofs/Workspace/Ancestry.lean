import BlockProgram.Proofs.Workspace.Linking
import Mathlib.Algebra.BigOperators.Fin
import Mathlib.Logic.Relation

/-! # The way up a linked graph

Every node is met after its parent, so the parents that linking has set lead to a top block after
finitely many steps, also when linking fails halfway (`Grown.rank_lt`).  Whatever follows parents
comes to an end therefore: finding the enclosing node (`Climbs`), listing all of them (`Encloses`)
and checking the graph (`Checks`).  These are rules without a bound, and the functions of the graph
keep to them.

After a success the parents are what refers to the nodes, and then the enclosing node and the output
link are what they are meant to be (`Navigable`).
-/
namespace BlockProgram.Graph

open List

variable {g : Graph} {links : Links}

/-! ### Parents lead up -/

/-- How many nodes had been met when a node was met, itself included; zero for a node that was
not. -/
def rank (links : Links) (i : Nat) : Nat := (links.dropWhile (·.1 ≠ i)).length

theorem rank_cons (j : Nat) (p : Option Nat) (links : Links) (i : Nat) :
    rank ((j, p) :: links) i = if j = i then links.length + 1 else rank links i := by
  by_cases h : j = i <;> simp [rank, h]

theorem rank_le (links : Links) (i : Nat) : rank links i ≤ links.length :=
  (dropWhile_sublist _).length_le

variable {i q : Nat}

theorem Grown.parent?_mem (h : Grown links) (hq : parent? links i = some q) : q ∈ keys links := by
  induction h with
  | nil => cases hq
  | cons _ _ hparent ih =>
    rw [parent?_cons] at hq
    split at hq
    · exact mem_cons_of_mem _ (hparent q hq)
    · exact mem_cons_of_mem _ (ih hq)

theorem Grown.rank_lt (h : Grown links) (hq : parent? links i = some q) : rank links q < rank links i := by
  induction h with
  | nil => cases hq
  | @cons j p links hgrown hnew hparent ih =>
    have hne : ∀ k ∈ keys links, j ≠ k := fun k hk hjk => hnew (hjk ▸ hk)
    rw [parent?_cons] at hq
    rw [rank_cons, rank_cons]
    split at hq
    · next hji =>
      rw [if_neg (hne q (hparent q hq)), if_pos hji]
      exact Nat.lt_succ_of_le (rank_le links q)
    · next hji =>
      rw [if_neg (hne q (hgrown.parent?_mem hq)), if_neg hji]
      exact ih hq

/-- **Parents form no cycle.** -/
theorem Grown.acyclic (h : Grown links) (i : Nat) : ¬ Relation.TransGen (fun a b => parent? links a = some b) i i := by
  have hrank : ∀ {a b}, Relation.TransGen (fun a b => parent? links a = some b) a b → rank links b < rank links a := by
    intro a b hab
    induction hab with
    | single hb => exact h.rank_lt hb
    | tail _ hc ih => exact (h.rank_lt hc).trans ih
  exact fun hcycle => lt_irrefl _ (hrank hcycle)

/-! ### Rules without a bound -/

/-- The way up from a node, along its parents: to the first one of which the node below is not the
successor, or to the top. -/
inductive Climbs (g : Graph) (links : Links) : Nat → Option Nat → Prop
  | top {i : Nat} (hparent : parent? links i = none) : Climbs g links i none
  | enclosing {i p : Nat} {node : Node} (hparent : parent? links i = some p)
      (hnode : g.nodes[p]? = some node) (hnext : node.next ≠ some i) : Climbs g links i (some p)
  | next {i p : Nat} {node : Node} {out : Option Nat} (hparent : parent? links i = some p)
      (hnode : g.nodes[p]? = some node) (hnext : node.next = some i) (hup : Climbs g links p out) :
      Climbs g links i out

/-- All blocks that enclose a node, nearest first. -/
inductive Encloses (g : Graph) (links : Links) : Nat → List BlockData → Prop
  | nil {i : Nat} (hup : Climbs g links i none) : Encloses g links i []
  | cons {i p : Nat} {node : Node} {above : List BlockData} (hup : Climbs g links i (some p))
      (hnode : g.nodes[p]? = some node) (habove : Encloses g links p above) :
      Encloses g links i (node.data :: above)

/-- Checking the nodes of some references: a node that has been seen is a problem and is not
entered. -/
inductive Checks (g : Graph) (links : Links) (declared : List String) :
    List (Option Nat) → List Nat → List Problem → Prop
  | nil {seen : List Nat} : Checks g links declared [] seen []
  | null {rest : List (Option Nat)} {seen : List Nat} {found : List Problem}
      (hrest : Checks g links declared rest seen found) :
      Checks g links declared (none :: rest) seen (.nullBlock :: found)
  | again {i : Nat} {node : Node} {rest : List (Option Nat)} {seen : List Nat} {found : List Problem}
      (hnode : g.nodes[i]? = some node) (hseen : i ∈ seen) (hrest : Checks g links declared rest seen found) :
      Checks g links declared (some i :: rest) seen (.blockShared node.data.id node.data.type :: found)
  | enter {i : Nat} {node : Node} {rest : List (Option Nat)} {seen : List Nat} {found : List Problem}
      {above : List BlockData} (hnode : g.nodes[i]? = some node) (hseen : i ∉ seen)
      (habove : Encloses g links i above)
      (hrest : Checks g links declared (node.children.map some ++ rest) (i :: seen) found) :
      Checks g links declared (some i :: rest) seen
        (node.data.problems declared (paramScope above) ++ found)

theorem Climbs.unique {a b : Option Nat} (ha : Climbs g links i a) (hb : Climbs g links i b) : a = b := by
  induction ha with
  | top | enclosing => cases hb <;> simp_all
  | next hparent _ _ _ ih =>
    cases hb with
    | top | enclosing => simp_all
    | next hparent' _ _ hup' =>
      obtain rfl := Option.some.inj (hparent.symm.trans hparent')
      exact ih hup'

/-- Links as linking leaves them behind: grown, and among the nodes of the graph. -/
structure Sound (g : Graph) (links : Links) : Prop where
  grown : Grown links
  lt_length : ∀ i ∈ keys links, i < g.nodes.length

theorem sound_link (hg : g.Closed) : g.Sound g.link.1 := by
  have hended := (link_spec hg).2
  have hsound : ∀ {tops pending links}, tops.Sublist (g.top.filterMap id) →
      g.Walking tops pending links → g.Sound links :=
    fun htops h => ⟨h.grown, h.keys_lt_length hg (mem_top_of_sublist htops)⟩
  generalize g.link = out at hended
  cases hended with
  | finished _ h => exact hsound (.refl _) h
  | null _ htops h | stopped htops h => exact hsound htops h

variable {p fuel : Nat}

namespace Sound

theorem rank_le_length (h : g.Sound links) (i : Nat) : rank links i ≤ g.nodes.length :=
  (rank_le links i).trans (h.grown.length_le h.lt_length)

theorem exists_parent_node (h : g.Sound links) (hp : parent? links i = some p) : ∃ node, g.nodes[p]? = some node :=
  ⟨_, List.getElem?_eq_getElem (h.lt_length p (h.grown.parent?_mem hp))⟩

theorem exists_node_of_climbs (h : g.Sound links) (hup : Climbs g links i (some p)) :
    rank links p < rank links i ∧ ∃ node, g.nodes[p]? = some node := by
  generalize hout : some p = out at hup
  induction hup with
  | top => cases hout
  | enclosing hparent hnode =>
    cases hout
    exact ⟨h.grown.rank_lt hparent, _, hnode⟩
  | next hparent _ _ _ ih => exact (ih hout).imp_left fun hrank => hrank.trans (h.grown.rank_lt hparent)

/-- The search for the enclosing node never reaches its bound. -/
theorem climbs (h : g.Sound links) (hfuel : rank links i ≤ fuel) : Climbs g links i (g.surround? links fuel i) := by
  induction fuel generalizing i with
  | zero =>
    refine .top ?_
    cases hp : parent? links i with
    | none => rfl
    | some p => exact absurd (h.grown.rank_lt hp) (by omega)
  | succ fuel ih =>
    unfold surround?
    cases hp : parent? links i with
    | none => exact .top hp
    | some p =>
      obtain ⟨node, hnode⟩ := h.exists_parent_node hp
      have hrank := h.grown.rank_lt hp
      simp only [hnode]
      split
      · next hnext => exact .next hp hnode hnext (ih (by omega))
      · next hnext => exact .enclosing hp hnode hnext

theorem encloses (h : g.Sound links) (hfuel : rank links i ≤ fuel) : Encloses g links i (g.enclosing links fuel i) := by
  induction fuel generalizing i with
  | zero =>
    have hup : Climbs g links i (g.surround? links 0 i) := h.climbs hfuel
    exact .nil hup
  | succ fuel ih =>
    have hup : Climbs g links i _ := h.climbs (h.rank_le_length i)
    unfold enclosing
    cases hout : g.surround? links g.nodes.length i with
    | none => exact .nil (hout ▸ hup)
    | some p =>
      rw [hout] at hup
      obtain ⟨hrank, node, hnode⟩ := h.exists_node_of_climbs hup
      simp only [hnode]
      exact .cons hup hnode (ih (by omega))

end Sound

/-! ### Checking a graph -/

/-- The nodes below a node that count; none for a number that is no node. -/
def childrenOf (g : Graph) (i : Nat) : List Nat := (g.nodes[i]?.map Node.children).getD []

/-- How many references there are below the nodes that have not been seen. -/
def unseen (g : Graph) (seen : List Nat) : Nat :=
  ∑ i ∈ (Finset.range g.nodes.length).filter (· ∉ seen), (g.childrenOf i).length

variable {seen : List Nat}

theorem unseen_cons {node : Node} (hnode : g.nodes[i]? = some node)
    (hseen : i ∉ seen) : g.unseen seen = node.children.length + g.unseen (i :: seen) := by
  have hlt : i < g.nodes.length := (List.getElem?_eq_some_iff.mp hnode).1
  have hsplit : (Finset.range g.nodes.length).filter (· ∉ seen) =
      insert i ((Finset.range g.nodes.length).filter (· ∉ i :: seen)) := by
    ext j
    by_cases hj : j = i
    · simp [hj, hlt, hseen]
    · simp [hj]
  have hchildren : g.childrenOf i = node.children := by
    unfold childrenOf
    rw [hnode]
    rfl
  unfold unseen
  rw [hsplit, Finset.sum_insert (by simp), hchildren]

theorem children_sublist (n : Node) : n.children <+ n.references := by
  have hplug (p : Plug) : p.target?.toList <+ p.plugged.toList ++ p.shadow.toList := by
    obtain ⟨name, kind, plugged, shadow⟩ := p
    cases plugged <;> cases shadow <;> simp [Plug.target?]
  unfold Node.children Node.references
  rw [filterMap_eq_flatMap_toList]
  refine Sublist.append ?_ (.refl _)
  induction n.plugs with
  | nil => exact .refl _
  | cons p plugs ih => exact (hplug p).append ih

theorem foldl_references (nodes : List Node) (k : Nat) : nodes.foldl (fun k n => k + n.references.length) k =
      k + (nodes.map fun n => n.references.length).sum := by
  induction nodes generalizing k with
  | nil => rfl
  | cons n nodes ih =>
    rw [foldl_cons, ih, map_cons, sum_cons]
    omega

theorem unseen_nil_le (g : Graph) : g.unseen [] ≤ (g.nodes.map fun n => n.references.length).sum := by
  have hfilter : (Finset.range g.nodes.length).filter (· ∉ ([] : List Nat)) = Finset.range g.nodes.length := by simp
  unfold unseen
  rw [hfilter, Finset.sum_range, ← Fin.sum_univ_fun_getElem]
  refine Finset.sum_le_sum fun i _ => ?_
  unfold childrenOf
  rw [List.getElem?_eq_getElem i.isLt]
  exact (children_sublist _).length_le

/-- A check never reaches its bound. -/
theorem Sound.checks (h : g.Sound links) (declared : List String) {pending : List (Option Nat)}
    (hlt : ∀ i, some i ∈ pending → i < g.nodes.length) (hg : g.Closed) (hfuel : pending.length + g.unseen seen < fuel) :
    Checks g links declared pending seen (g.blockProblems links declared fuel pending seen) := by
  induction fuel generalizing pending seen with
  | zero => omega
  | succ fuel ih =>
    match pending with
    | [] => exact .nil
    | none :: rest =>
      rw [length_cons] at hfuel
      exact .null (ih (fun i hi => hlt i (mem_cons_of_mem _ hi)) (by omega))
    | some i :: rest =>
      have hrest : ∀ j, some j ∈ rest → j < g.nodes.length :=
        fun j hj => hlt j (mem_cons_of_mem _ hj)
      have hnode := List.getElem?_eq_getElem (hlt i mem_cons_self)
      rw [length_cons] at hfuel
      unfold blockProblems
      simp only [hnode]
      by_cases hseen : i ∈ seen
      · rw [if_pos (contains_iff_mem.mpr hseen)]
        exact .again hnode hseen (ih hrest (by omega))
      · rw [if_neg fun hcontains => hseen (contains_iff_mem.mp hcontains)]
        have hunseen := unseen_cons hnode hseen
        refine .enter hnode hseen (h.encloses (h.rank_le_length i)) (ih (fun j hj => ?_) ?_)
        · rcases mem_append.mp hj with hj | hj
          · exact hg.reference _ (mem_of_getElem? hnode) j ((children_sublist _).subset (by simpa using hj))
          · exact hrest j hj
        · rw [length_append, length_map]
          omega

theorem Sound.checks_problems (h : g.Sound links) (hg : g.Closed) :
    ∃ found, Checks g links (checkVariables 0 [] g.vars).2 g.top [] found ∧
      g.problems links = (checkVariables 0 [] g.vars).1 ++ found := by
  refine ⟨_, h.checks _ (fun i hi => hg.top _ hi i rfl) hg ?_, rfl⟩
  have := g.unseen_nil_le
  rw [foldl_references]
  omega

/-! ### After a success -/

def Precedes (g : Graph) (i j : Nat) : Prop := ∃ node, g.nodes[i]? = some node ∧ node.next = some j

/-- The second node is in a socket of the first, plugged in or as a shadow. -/
def Holds (g : Graph) (p i : Nat) : Prop :=
  ∃ node, g.nodes[p]? = some node ∧ ∃ s ∈ node.plugs, s.plugged = some i ∨ s.shadow = some i

/-- What the links of a forest say. -/
structure Navigable (g : Graph) (links : Links) : Prop where
  parent_top : ∀ i, some i ∈ g.top → parent? links i = none
  /-- The parent of any other block is the one node that refers to it. -/
  parent_iff : ∀ i p, g.Reachable i →
    (parent? links i = some p ↔ g.Reachable p ∧ i ∈ g.referencesOf p)
  /-- The enclosing node is the owner of the socket with the chain that the block is in. -/
  surround_iff : ∀ i p, g.Reachable i → (g.surround? links g.nodes.length i = some p ↔
    g.Reachable p ∧ ∃ first, g.Holds p first ∧ Relation.ReflTransGen g.Precedes first i)
  /-- Nothing encloses the chain of a top block. -/
  surround_top : ∀ t i, some t ∈ g.top → Relation.ReflTransGen g.Precedes t i →
    g.surround? links g.nodes.length i = none
  /-- A block has an output link if it is the target of a value socket of its parent. -/
  output_iff : ∀ i, g.Reachable i → (g.hasOutputLink links i = true ↔
    ∃ p node, parent? links i = some p ∧ g.nodes[p]? = some node ∧
      ∃ s ∈ node.plugs, s.kind = .value ∧ s.target? = some i)

theorem mem_referencesOf_iff : i ∈ g.referencesOf p ↔ g.Holds p i ∨ g.Precedes p i := by
  unfold referencesOf Holds Precedes
  cases hnode : g.nodes[p]? with
  | none => simp
  | some node => simp [Node.references]

theorem Reachable.chain {j : Nat} (hi : g.Reachable i) (hchain : Relation.ReflTransGen g.Precedes i j) :
    g.Reachable j := by
  induction hchain with
  | refl => exact hi
  | tail _ hnext ih => exact .reference ih (mem_referencesOf_iff.mpr (.inr hnext))

namespace Walking

variable (h : g.Walking (g.top.filterMap id) [] links)
include h

theorem parent?_of_top (hi : some i ∈ g.top) : parent? links i = none :=
  h.parent?_eq (mem_allReferences.mpr (.inl ⟨rfl, by simpa using hi⟩))

theorem parent?_iff : parent? links i = some p ↔ g.Reachable p ∧ i ∈ g.referencesOf p := by
  constructor
  · intro hparent
    rcases h.source (.inl (mem_of_parent? hparent)) with ⟨hnone, -⟩ | ⟨q, hq, hsome, hi⟩
    · cases hnone
    · obtain rfl := Option.some.inj hsome
      exact ⟨h.mem_keys_iff.mp hq, hi⟩
  · rintro ⟨hp, hi⟩
    exact h.parent?_eq (mem_allReferences.mpr (.inr ⟨p, h.mem_keys_iff.mpr hp, rfl, hi⟩))

/-- No node is both in a socket and the successor. -/
theorem not_precedes (hp : g.Reachable p) (hholds : g.Holds p i) : ¬ g.Precedes p i := by
  rintro ⟨node, hnode, hnext⟩
  obtain ⟨node', hnode', s, hs, hi⟩ := hholds
  obtain rfl : node = node' := Option.some.inj (hnode.symm.trans hnode')
  have hnodup : (g.allReferences (g.top.filterMap id) (keys links)).Nodup := by
    rw [← h.balance.nodup_iff, append_nil]
    refine List.Nodup.of_map (·.2) ?_
    simpa [followed, keys, Function.comp_def] using h.grown.nodup
  have hnode_nodup := (nodup_flatMap.mp (nodup_append.mp hnodup).2.1).1 p (h.mem_keys_iff.mpr hp)
  have hreferences : (g.referencesOf p).Nodup := List.Nodup.of_map _ hnode_nodup
  rw [referencesOf_eq hnode] at hreferences
  refine (nodup_append.mp hreferences).2.2 i ?_ i ?_ rfl
  · refine mem_flatMap.mpr ⟨s, hs, ?_⟩
    rcases hi with hi | hi <;> simp [hi]
  · simp [hnext]

/-- Where a chain in a socket comes from, seen from its last block. -/
theorem exists_chain_iff : (g.Reachable p ∧ ∃ first, g.Holds p first ∧ Relation.ReflTransGen g.Precedes first i) ↔
    (parent? links i = some p ∧ g.Holds p i) ∨ ∃ q, parent? links i = some q ∧ g.Precedes q i ∧
          g.Reachable p ∧ ∃ first, g.Holds p first ∧ Relation.ReflTransGen g.Precedes first q := by
  constructor
  · rintro ⟨hp, first, hfirst, hchain⟩
    have hreachable : g.Reachable first := .reference hp (mem_referencesOf_iff.mpr (.inl hfirst))
    rcases hchain.cases_tail with rfl | ⟨q, hq, hnext⟩
    · exact .inl ⟨h.parent?_iff.mpr ⟨hp, mem_referencesOf_iff.mpr (.inl hfirst)⟩, hfirst⟩
    · have hqreachable := hreachable.chain hq
      exact .inr ⟨q, h.parent?_iff.mpr ⟨hqreachable, mem_referencesOf_iff.mpr (.inr hnext)⟩, hnext, hp,
        first, hfirst, hq⟩
  · rintro (⟨hparent, hholds⟩ | ⟨q, -, hnext, hp, first, hfirst, hchain⟩)
    · exact ⟨(h.parent?_iff.mp hparent).1, i, hholds, .refl⟩
    · exact ⟨hp, first, hfirst, hchain.tail hnext⟩

/-- The way up ends at the owner of the socket. -/
theorem climbs_iff {out : Option Nat} (hup : Climbs g links i out) (p : Nat) : out = some p ↔
      g.Reachable p ∧ ∃ first, g.Holds p first ∧ Relation.ReflTransGen g.Precedes first i := by
  rw [h.exists_chain_iff]
  induction hup with
  | top hparent => simp [hparent]
  | @enclosing i q node hparent hnode hnext =>
    have hnot : ¬ g.Precedes q i := by
      rintro ⟨node', hnode', hnext'⟩
      obtain rfl := Option.some.inj (hnode.symm.trans hnode')
      exact hnext hnext'
    have hholds : g.Holds q i :=
      (mem_referencesOf_iff.mp (h.parent?_iff.mp hparent).2).resolve_right hnot
    rw [hparent]
    constructor
    · rintro ⟨⟩
      exact .inl ⟨rfl, hholds⟩
    · rintro (⟨hq, -⟩ | ⟨q', hq', hnext', -⟩)
      · exact hq
      · obtain rfl := Option.some.inj hq'
        exact absurd hnext' hnot
  | @next i q node out hparent hnode hnext _ ih =>
    have hprecedes : g.Precedes q i := ⟨node, hnode, hnext⟩
    have hnot : ¬ g.Holds q i := fun hholds =>
      h.not_precedes (h.parent?_iff.mp hparent).1 hholds hprecedes
    rw [ih, ← h.exists_chain_iff, hparent]
    constructor
    · exact fun hq => .inr ⟨q, rfl, hprecedes, hq⟩
    · rintro (⟨hq, hholds⟩ | ⟨q', hq', -, hchain⟩)
      · obtain rfl := Option.some.inj hq
        exact absurd hholds hnot
      · obtain rfl := Option.some.inj hq'
        exact hchain

theorem climbs_top {t : Nat} (ht : some t ∈ g.top) (hchain : Relation.ReflTransGen g.Precedes t i) :
    Climbs g links i none := by
  induction hchain with
  | refl => exact .top (h.parent?_of_top ht)
  | @tail a b hta hab ih =>
    obtain ⟨node, hnode, hnext⟩ := hab
    have hreachable := (Reachable.top ht).chain hta
    have hparent : parent? links b = some a :=
      h.parent?_iff.mpr ⟨hreachable, mem_referencesOf_iff.mpr (.inr ⟨node, hnode, hnext⟩)⟩
    exact .next hparent hnode hnext ih

theorem hasOutputLink_iff : g.hasOutputLink links i = true ↔
    ∃ p node, parent? links i = some p ∧ g.nodes[p]? = some node ∧
      ∃ s ∈ node.plugs, s.kind = .value ∧ s.target? = some i := by
  unfold hasOutputLink
  cases hparent : parent? links i with
  | none => simp
  | some p =>
    cases hnode : g.nodes[p]? with
    | none => simp [hnode]
    | some node =>
      have hnext : (∃ s ∈ node.plugs, s.kind = .value ∧ s.target? = some i) → node.next ≠ some i := by
        rintro ⟨⟨name, kind, plugged, shadow⟩, hs, -, htarget⟩ hnext
        refine h.not_precedes (h.parent?_iff.mp hparent).1 ⟨node, hnode, _, hs, ?_⟩ ⟨node, hnode, hnext⟩
        cases plugged with
        | none => exact .inr htarget
        | some j => exact .inl htarget
      simp only [hnode, Bool.and_eq_true, decide_eq_true_eq, any_eq_true]
      constructor
      · rintro ⟨-, hs⟩
        exact ⟨p, node, rfl, hnode, hs⟩
      · rintro ⟨_, _, ⟨⟩, hnode', hs⟩
        obtain rfl := Option.some.inj (hnode.symm.trans hnode')
        exact ⟨hnext hs, hs⟩

/-- **The links of a forest are navigable.** -/
theorem navigable (hsound : g.Sound links) : g.Navigable links where
  parent_top _ hi := h.parent?_of_top hi
  parent_iff _ _ _ := h.parent?_iff
  surround_iff i p _ := h.climbs_iff (hsound.climbs (hsound.rank_le_length i)) p
  surround_top _ i ht hchain :=
    (hsound.climbs (hsound.rank_le_length i)).unique (h.climbs_top ht hchain)
  output_iff _ _ := h.hasOutputLink_iff

end Walking

/-- **Linking accepts exactly the forests.** It ends, as its rules say. It succeeds if and only if
no top block is missing and every block that can be reached is referred to once; then parents,
enclosing blocks and output links are those of the forest. Whether it succeeds or not, the parents
form no cycle, so that the way up ends from everywhere, and so does a check of the graph. -/
theorem link_accepts_forests (g : Graph) (hg : g.Closed) : LinksTops g 0 g.top [] g.link ∧
    (g.link.2 = none ↔ none ∉ g.top ∧ ∀ i, g.Reachable i → g.referenceCount i = 1) ∧
    (g.link.2 = none → g.Navigable g.link.1) ∧
    (∀ i, ¬ Relation.TransGen (fun a b => parent? g.link.1 a = some b) i i) ∧
    (∀ i, Climbs g g.link.1 i (g.surround? g.link.1 g.nodes.length i)) ∧
    ∃ found, Checks g g.link.1 (checkVariables 0 [] g.vars).2 g.top [] found ∧
      g.problems g.link.1 = (checkVariables 0 [] g.vars).1 ++ found := by
  have hsound := sound_link hg
  exact ⟨(link_spec hg).1, link_eq_none_iff hg,
    fun hnone => (walking_of_link_eq_none hg hnone).navigable hsound, hsound.grown.acyclic,
    fun i => hsound.climbs (hsound.rank_le_length i), hsound.checks_problems hg⟩

/-- A loop with a count over its shadow, a body of two blocks, and a block that follows. -/
def loopSample : Graph where
  nodes := [
    { data := { id := "l", type := "controls_repeat_ext" }
      plugs := [{ name := "TIMES", kind := .value, plugged := some 1, shadow := some 2 },
        { name := "DO", kind := .statement, plugged := some 3 }]
      next := some 5 },
    { data := { id := "n", type := "math_number" } },
    { data := { id := "s", type := "math_number" } },
    { data := { id := "a", type := "text_print" }, next := some 4 },
    { data := { id := "b", type := "text_print" } },
    { data := { id := "c", type := "text_print" } }]
  top := [some 0]

/-- Two blocks that follow each other. -/
def ringSample : Graph where
  nodes := [{ data := { id := "a", type := "text_print" }, next := some 1 },
    { data := { id := "b", type := "text_print" }, next := some 0 }]
  top := [some 0]

theorem link_accepts_forests_samples :
    (loopSample.Closed ∧ loopSample.link.2 = none ∧ loopSample.Navigable loopSample.link.1 ∧
      loopSample.surround? loopSample.link.1 6 4 = some 0) ∧
    (ringSample.Closed ∧ ringSample.link.2 = some (.shared "a" "text_print") ∧
      ¬ (∀ i, ringSample.Reachable i → ringSample.referenceCount i = 1) ∧
      ∀ i, ¬ Relation.TransGen (fun a b => parent? ringSample.link.1 a = some b) i i) := by
  have hloop := link_accepts_forests loopSample (by decide)
  have hring := link_accepts_forests ringSample (by decide)
  have hfault : ringSample.link.2 = some (.shared "a" "text_print") := by decide
  refine ⟨⟨by decide, by decide, hloop.2.2.1 (by decide), by decide⟩, by decide, hfault, fun hforest => ?_,
    hring.2.2.2.1⟩
  have hnone := hring.2.1.mpr ⟨by decide, hforest⟩
  rw [hfault] at hnone
  cases hnone

end BlockProgram.Graph
