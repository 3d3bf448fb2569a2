import BlockProgram.Workspace.Basic

/-! Where a block stands: which blocks enclose it, which one it follows, and whether it is plugged
in as a value. -/
namespace BlockProgram

structure Place where
  /-- The enclosing blocks, nearest first: each owns the socket that holds the stack of the one
  before. -/
  enclosing : List BlockData := []
  previous : Option BlockData := none
  /-- Whether it is the first block in the stack that counts of a value socket. -/
  plugged : Bool := false

namespace Place

/-- The block it hangs from: the one it follows, or else the one that encloses it. -/
def parent? (p : Place) : Option BlockData :=
  match p.previous with
  | some b => some b
  | none => p.enclosing.head?

def surround? (p : Place) : Option BlockData := p.enclosing.head?

/-- The place of the first block in a socket of `owner`, which stands at `p`. -/
def inside (p : Place) (owner : BlockData) (asValue : Bool) : Place :=
  { enclosing := owner :: p.enclosing, previous := none, plugged := asValue }

/-- The place of the block that follows `b`, which stands at `p`. -/
def after (p : Place) (b : BlockData) : Place :=
  { enclosing := p.enclosing, previous := some b, plugged := false }

end Place

/-- A block with its place and the blocks that follow it. -/
structure Site where
  block : Block
  place : Place
  following : Stack

mutual

/-- The site of a block and the sites below it, before its successors. -/
def Block.sites (place : Place) (following : Stack) : Block → List Site
  | .mk d ss => ⟨.mk d ss, place, following⟩ :: Socket.listSites place d ss

def Socket.listSites (place : Place) (owner : BlockData) : List Socket → List Site
  | [] => []
  | s :: ss => s.sites place owner ++ Socket.listSites place owner ss

def Socket.sites (place : Place) (owner : BlockData) : Socket → List Site
  | .mk _ kind [] shadow => Stack.sites (place.inside owner (kind = .value)) shadow
  | .mk _ kind (b :: bs) _ =>
    let here := place.inside owner (kind = .value)
    b.sites here bs ++ Stack.sites (here.after b.data) bs

def Stack.sites (place : Place) : List Block → List Site
  | [] => []
  | b :: bs => b.sites place bs ++ Stack.sites (place.after b.data) bs

end

/-- Every block that counts with its place, stack by stack. -/
def Workspace.sites (w : Workspace) : List Site := w.tops.flatMap (Stack.sites {})

end BlockProgram
