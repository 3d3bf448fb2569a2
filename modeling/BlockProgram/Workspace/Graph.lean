import BlockProgram.Workspace.Check

/-! Blocks as a graph. A drawing put together by hand refers to its blocks by number, so a block may
be referred to twice, or from below itself. Linking walks the graph from its top blocks, gives every
block the one that refers to it as its parent, and succeeds exactly when no block is met twice; the
graph is then a forest and can be read as a workspace. -/
namespace BlockProgram

structure Plug where
  name : String
  kind : SocketKind
  plugged : Option Nat := none
  shadow : Option Nat := none
deriving DecidableEq

/-- A block whose connections are numbers of nodes. -/
structure Node where
  data : BlockData
  plugs : List Plug := []
  next : Option Nat := none
deriving Inhabited

/-- A graph of blocks with its top blocks; a top block may be missing. -/
structure Graph where
  nodes : List Node
  top : List (Option Nat)
  vars : List Variable := []
  developerVariables : List String := []

inductive LinkFault where
  | nullTop (index : Nat)
  | shared (id type : String)
deriving DecidableEq

def LinkFault.message : LinkFault → String
  | nullTop i => "top block " ++ toString i ++ ": " ++ Problem.nullBlock.message
  | shared id type => (Problem.blockShared id type).message

/-- The parents given so far: a node that has been met, with the node that refers to it. -/
abbrev Links := List (Nat × Option Nat)

def Plug.target? (p : Plug) : Option Nat :=
  match p.plugged with
  | some n => some n
  | none => p.shadow

namespace Node

/-- Every node referred to: for each socket what is plugged in and then the shadow, and at last the
successor. -/
def references (n : Node) : List Nat :=
  n.plugs.flatMap (fun p => p.plugged.toList ++ p.shadow.toList) ++ n.next.toList

/-- The nodes below that count: the targets of the sockets, and the successor. -/
def children (n : Node) : List Nat := n.plugs.filterMap Plug.target? ++ n.next.toList

end Node

namespace Graph

def met (links : Links) (i : Nat) : Bool := links.any (·.1 = i)

def parent? (links : Links) (i : Nat) : Option Nat :=
  match links.find? (·.1 = i) with
  | some (_, p) => p
  | none => none

/-- Walks the graph in pre-order. `pending` are references still to follow, each with the node it
comes from. Every step but the last meets a node for the first time, so `fuel` is one more than the
number of nodes. The links are returned also when the walk fails. -/
def walk (g : Graph) : Nat → List (Option Nat × Nat) → Links → Links × Option LinkFault
  | 0, _, links => (links, none)
  | _ + 1, [], links => (links, none)
  | fuel + 1, (parent, i) :: pending, links =>
    match g.nodes[i]? with
    | none => walk g fuel pending links
    | some node =>
      if met links i then (links, some (.shared node.data.id node.data.type))
      else
        walk g fuel (node.references.map (some i, ·) ++ pending) ((i, parent) :: links)

def linkTops (g : Graph) (k : Nat) (links : Links) : List (Option Nat) → Links × Option LinkFault
  | [] => (links, none)
  | none :: _ => (links, some (.nullTop k))
  | some i :: rest =>
    match g.walk (g.nodes.length + 1) [(none, i)] links with
    | (links, none) => linkTops g (k + 1) links rest
    | (links, some fault) => (links, some fault)

/-- Gives every block its parent. The links set before a fault are kept. -/
def link (g : Graph) : Links × Option LinkFault := g.linkTops 0 [] g.top

/-- The nearest enclosing node: the first one up the parents of which the node below is not the
successor. -/
def surround? (g : Graph) (links : Links) : Nat → Nat → Option Nat
  | 0, _ => none
  | fuel + 1, i =>
    match parent? links i with
    | none => none
    | some p =>
      match g.nodes[p]? with
      | none => none
      | some node => if node.next = some i then surround? g links fuel p else some p

/-- Whether a node is the target of a value socket of its parent. -/
def hasOutputLink (g : Graph) (links : Links) (i : Nat) : Bool :=
  match parent? links i with
  | none => false
  | some p =>
    match g.nodes[p]? with
    | none => false
    | some node =>
      node.next ≠ some i && node.plugs.any fun s => s.kind = .value && s.target? = some i

def enclosing (g : Graph) (links : Links) : Nat → Nat → List BlockData
  | 0, _ => []
  | fuel + 1, i =>
    match g.surround? links g.nodes.length i with
    | none => []
    | some p =>
      match g.nodes[p]? with
      | none => []
      | some node => node.data :: enclosing g links fuel p

/-- The problems of the blocks: `pending` are references still to follow, and `seen` the nodes met.
A node met again is a problem and is not entered. Every step follows one reference, so `fuel` is one
more than their number. -/
def blockProblems (g : Graph) (links : Links) (declared : List String) :
    Nat → List (Option Nat) → List Nat → List Problem
  | 0, _, _ => []
  | _ + 1, [], _ => []
  | fuel + 1, none :: pending, seen => .nullBlock :: blockProblems g links declared fuel pending seen
  | fuel + 1, some i :: pending, seen =>
    match g.nodes[i]? with
    | none => blockProblems g links declared fuel pending seen
    | some node =>
      if seen.contains i then
        .blockShared node.data.id node.data.type ::
          blockProblems g links declared fuel pending seen
      else
        node.data.problems declared (paramScope (g.enclosing links g.nodes.length i)) ++
          blockProblems g links declared fuel (node.children.map some ++ pending) (i :: seen)

def problems (g : Graph) (links : Links) : List Problem :=
  let (ofVariables, declared) := checkVariables 0 [] g.vars
  let references := g.nodes.foldl (fun k n => k + n.references.length) g.top.length
  ofVariables ++ g.blockProblems links declared (references + 1) g.top []

mutual

/-- The stack that starts at a node. In a forest no path is longer than the number of nodes. -/
def stackAt (g : Graph) : Nat → Nat → Stack
  | 0, _ => []
  | fuel + 1, i =>
    match g.nodes[i]? with
    | none => []
    | some node => .mk node.data (plugsAt g fuel node.plugs) :: optionalAt g fuel node.next

def optionalAt (g : Graph) : Nat → Option Nat → Stack
  | _, none => []
  | 0, some _ => []
  | fuel + 1, some i => stackAt g fuel i

def plugsAt (g : Graph) : Nat → List Plug → List Socket
  | 0, _ => []
  | _, [] => []
  | fuel + 1, p :: ps =>
    .mk p.name p.kind (optionalAt g fuel p.plugged) (optionalAt g fuel p.shadow) ::
      plugsAt g fuel ps

end

def workspace (g : Graph) : Workspace :=
  let fuel := g.nodes.foldl (fun k n => k + n.plugs.length) (3 * g.nodes.length + 1)
  { tops := g.top.filterMap fun t => t.map (g.stackAt fuel)
    vars := g.vars
    developerVariables := g.developerVariables }

end Graph

end BlockProgram
