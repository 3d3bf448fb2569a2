import BlockProgram.Number.Literal

/-! Blocks. A block carries data of its own and sockets; what is plugged into a socket is a stack: a
block together with the blocks that follow it. A workspace is a list of stacks, so that following,
enclosing and being plugged in are all read off the shape of the tree. -/
namespace BlockProgram

inductive SocketKind where
  | value
  | statement
deriving DecidableEq, Inhabited

/-- A named field of a block. A field that refers to a variable holds its id in `variableId`, which
is empty otherwise. -/
structure Field where
  name : String
  value : String := ""
  variableId : String := ""
deriving DecidableEq, Inhabited

structure Param where
  name : String
  id : String := ""
deriving DecidableEq, Inhabited

/-- The shape a block was given in the editor: how many items or further arms it has, whether it has
an else arm or returns a value, and the name and parameters of a procedure. -/
structure Mutation where
  itemCount : Int := 0
  elseIfCount : Int := 0
  hasElse : Bool := false
  params : List Param := []
  name : String := ""
  hasReturnValue : Bool := false
deriving DecidableEq

/-- All of a block but what is plugged into it. -/
structure BlockData where
  id : String
  type : String
  x : Number.Floating := .zero
  y : Number.Floating := .zero
  disabled : Bool := false
  comment : String := ""
  fields : List Field := []
  mutation : Mutation := {}
deriving DecidableEq, Inhabited

mutual

inductive Block where
  | mk (data : BlockData) (sockets : List Socket)

/-- A named socket with the stack plugged into it and the shadow stack shown while it is empty. -/
inductive Socket where
  | mk (name : String) (kind : SocketKind) (plugged shadow : List Block)

end

instance : Inhabited Block := ⟨.mk default []⟩

/-- A block and its successors. -/
abbrev Stack := List Block

namespace BlockData

def field? (b : BlockData) (name : String) : Option Field := b.fields.find? (·.name = name)

def hasField (b : BlockData) (name : String) : Bool := (b.field? name).isSome

/-- What a field says: the id of its variable if it refers to one, and its text otherwise. Empty for
a field the block does not carry. -/
def fieldValue (b : BlockData) (name : String) : String :=
  match b.field? name with
  | some f => if f.variableId ≠ "" then f.variableId else f.value
  | none => ""

def paramNames (b : BlockData) : List String := b.mutation.params.map (·.name)

/-- Whether the block defines a procedure or the callback of a widget. -/
def isProcedureDefinition (b : BlockData) : Bool :=
  b.type = "procedures_defreturn" || b.type = "procedures_defnoreturn" ||
    b.type = "widgets_defreturn" || b.type = "widgets_defnoreturn"

end BlockData

namespace Socket

def name : Socket → String
  | mk n _ _ _ => n

def kind : Socket → SocketKind
  | mk _ k _ _ => k

def plugged : Socket → Stack
  | mk _ _ b _ => b

def shadow : Socket → Stack
  | mk _ _ _ s => s

/-- The stack that counts: what is plugged in, and the shadow while nothing is. -/
def target : Socket → Stack
  | mk _ _ [] s => s
  | mk _ _ b _ => b

end Socket

namespace Block

def data : Block → BlockData
  | mk d _ => d

def sockets : Block → List Socket
  | mk _ ss => ss

def id (b : Block) : String := b.data.id

def type (b : Block) : String := b.data.type

def socket? (b : Block) (name : String) : Option Socket := b.sockets.find? (·.name = name)

/-- The stack in the named socket; empty when there is no such socket. -/
def target (b : Block) (name : String) : Stack :=
  match b.socket? name with
  | some s => s.target
  | none => []

/-- The number behind `mark` in the name of a socket. -/
def socketIndex? (name mark : String) : Option Nat :=
  if mark.toList.isPrefixOf name.toList then
    match Number.readInteger? (name.toList.drop mark.length) with
    | some i => if 0 ≤ i then some i.toNat else none
    | none => none
  else none

/-- Whether the block has the named socket: one that is written down, or one that its mutation gives
it. The first arm of a conditional is always there, further ones by their number, the else arm by
its flag, and items by their count. -/
def hasSocket (b : Block) (name : String) : Bool :=
  if (b.socket? name).isSome then true
  else if name = "ELSE" then b.data.mutation.hasElse
  else if name = "IF0" || name = "DO0" then true
  else
    match socketIndex? name "IF", socketIndex? name "DO", socketIndex? name "ADD" with
    | some n, _, _ => (n : Int) ≤ b.data.mutation.elseIfCount
    | none, some n, _ => (n : Int) ≤ b.data.mutation.elseIfCount
    | none, none, some n => (n : Int) < b.data.mutation.itemCount
    | none, none, none => false

end Block

mutual

/-- The block and all below it, before its successors: sockets in order, each with its whole
stack. -/
def Block.descendants : Block → List Block
  | .mk d ss => .mk d ss :: Socket.listDescendants ss

def Socket.listDescendants : List Socket → List Block
  | [] => []
  | s :: ss => s.descendants ++ Socket.listDescendants ss

def Socket.descendants : Socket → List Block
  | .mk _ _ [] shadow => Stack.descendants shadow
  | .mk _ _ (b :: bs) _ => b.descendants ++ Stack.descendants bs

def Stack.descendants : List Block → List Block
  | [] => []
  | b :: bs => b.descendants ++ Stack.descendants bs

end

end BlockProgram
