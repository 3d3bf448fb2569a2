import BlockProgram.Program.Run

/-! Emitting blocks. A handler sees its block as a scene: the data, the place, and for every socket
the steps that emit what is plugged into it. A scene is built by recursion on the block, so that a
handler can only ever emit what lies below its own block. -/
namespace BlockProgram

/-- A socket as a handler sees it. -/
structure Slot where
  name : String
  kind : SocketKind
  target : Stack
  code : Emit Fragment
  chain : Emit String

/-- A block as a handler sees it. -/
structure Scene where
  block : Block
  place : Place
  slots : List Slot

abbrev Handler := Scene → Emit Fragment

structure BlockHandler where
  emit : Handler
  flags : HandlerFlags := {}

/-- The handlers by type of block; no type occurs twice. -/
abbrev Vocabulary := List (String × BlockHandler)

namespace Vocabulary

def get? (v : Vocabulary) (type : String) : Option BlockHandler :=
  (v.find? (·.1 = type)).map (·.2)

def register (v : Vocabulary) (type : String) (h : BlockHandler) : Vocabulary :=
  if v.any (·.1 = type) then v.map fun e => if e.1 = type then (type, h) else e
  else v ++ [(type, h)]

/-- Lets another type share the handler of a type that has one. -/
def addAlias (v : Vocabulary) (type target : String) : Except String Vocabulary :=
  match v.get? target with
  | some h => .ok (v.register type h)
  | none => .error ("gen: alias " ++ type ++ " to unregistered block type " ++ target)

def types (v : Vocabulary) : List String :=
  (v.map (·.1)).mergeSort fun a b => a ≤ b

def flags? (v : Vocabulary) (type : String) : Option HandlerFlags := (v.get? type).map (·.flags)

end Vocabulary

namespace Scene

def data (s : Scene) : BlockData := s.block.data

def field (s : Scene) (name : String) : String := s.data.fieldValue name

def slot? (s : Scene) (name : String) : Option Slot := s.slots.find? (·.name = name)

end Scene

namespace Emit

/-- The comments of a block and of all below and behind it, a line each or more. -/
def commentsWithin (stack : Stack) : String :=
  let comments := (Stack.descendants stack).filterMap fun b =>
    if b.data.comment = "" then none else some b.data.comment
  if comments.isEmpty then "" else Text.join "\n" comments ++ "\n"

/-- The comment lines of a block that stands at `place`: its own comment, and those of the values
plugged into it. A value leaves its comments to the statement it belongs to. -/
def commentLines (options : Options) (flags : HandlerFlags) (place : Place) (block : Block) :
    String :=
  if place.plugged then ""
  else
    let own :=
      if block.data.comment = "" then ""
      else
        let mark := if flags.definesProcedure then "/// " else "// "
        let width := (options.commentWrap - 3).toNat
        Text.prependLines mark (Text.wrap width block.data.comment ++ "\n")
    let nested (s : Socket) : String :=
      if s.kind = .value then
        let comments := commentsWithin s.target
        if comments = "" then "" else Text.prependLines "// " comments
      else ""
    own ++ String.join (block.sockets.map nested)

/-- The code with the comments of its block in front. -/
def withNeighbours (s : Scene) (code : String) : Emit String := do
  let setting ← read
  return commentLines setting.options (setting.flagsOf s.block.type) s.place s.block ++ code

/-- The code of a handler with the hooks and comments of its block. -/
def dressed (o : Options) (flags : HandlerFlags) (s : Scene) : Fragment → Fragment
  | .expression text precedence =>
    .expression (commentLines o flags s.place s.block ++ text) precedence
  | .statement text =>
    .statement (commentLines o flags s.place s.block ++
      if flags.ownHooks then text
      else hook o.statementPrefix s.data ++ text ++ hook o.statementSuffix s.data)
  | .handled => .empty

/-- Emits the block of a scene: hands it to its handler and adds hooks and comments to what comes
back. A disabled block has no code. -/
def dispatch (vocabulary : Vocabulary) (s : Scene) : Emit Fragment := do
  if (← failed) || s.data.disabled then return .empty
  match vocabulary.get? s.data.type with
  | none =>
    fail .dispatch s.data ("no generator for block type " ++ Text.quoted s.data.type)
  | some h =>
    modify fun r => { r with dispatched := s.data :: r.dispatched }
    let code ← h.emit s
    if ← failed then return .empty
    let o ← options
    return dressed o h.flags s code

/-- What is made of the code of the first block of a stack. A value cannot stand in a stack of
statements. -/
def proceed (b : BlockData) (rest : Emit String) (code : Fragment) : Emit String := do
  if ← failed then return ""
  match code with
  | .expression _ _ =>
    let _ ← fail .shape b "value block used as a statement"
    return ""
  | code =>
    let text ← rest
    if ← failed then return ""
    return code.text ++ text

/-- Adds the code of one block to that of the blocks behind it. -/
def link (b : BlockData) (first : Emit Fragment) (rest : Emit String) : Emit String := do
  let code ← first
  proceed b rest code

end Emit

mutual

def Block.emit (v : Vocabulary) (place : Place) : Block → Emit Fragment
  | .mk d ss => Emit.dispatch v ⟨.mk d ss, place, Socket.listSlots v place d ss⟩

/-- The sockets of a block with data `owner` as its handler sees them. -/
def Socket.listSlots (v : Vocabulary) (place : Place) (owner : BlockData) : List Socket → List Slot
  | [] => []
  | s :: ss => s.slot v place owner :: Socket.listSlots v place owner ss

/-- A socket of a block with data `owner` as its handler sees it. -/
def Socket.slot (v : Vocabulary) (place : Place) (owner : BlockData) : Socket → Slot
  | .mk name kind [] shadow =>
    let here := place.inside owner (kind = .value)
    { name := name, kind := kind, target := shadow
      code := Stack.emitFirst v here shadow, chain := Stack.emit v here shadow }
  | .mk name kind (b :: bs) _ =>
    let here := place.inside owner (kind = .value)
    { name := name, kind := kind, target := b :: bs
      code := b.emit v here
      chain := Emit.link b.data (b.emit v here) (Stack.emit v (here.after b.data) bs) }

def Stack.emitFirst (v : Vocabulary) (place : Place) : List Block → Emit Fragment
  | [] => return .empty
  | b :: _ => b.emit v place

/-- Emits a stack of statements whose first block stands at `place`. -/
def Stack.emit (v : Vocabulary) (place : Place) : List Block → Emit String
  | [] => return ""
  | b :: bs => Emit.link b.data (b.emit v place) (Stack.emit v (place.after b.data) bs)

end

def Block.scene (v : Vocabulary) (place : Place) (b : Block) : Scene :=
  ⟨b, place, Socket.listSlots v place b.data b.sockets⟩

namespace Emit

/-- What is made of the code of the block that is plugged in when a value is read. -/
def settle (s : Scene) (name : String) (outer : Precedence) (first : Block) (code : Fragment) :
    Emit String := do
  if ← failed then return ""
  match code with
  | .expression text precedence =>
    return if text = "" then "" else Precedence.enclose text precedence outer
  | code =>
    if code.text = "" then return ""
    let _ ← fail .shape first.data
      ("statement block plugged into value input " ++ name ++ " of " ++ s.data.type)
    return ""

/-- The code of the value in a socket, to stand where `outer` is allowed. Empty when nothing is
plugged in, or when what is plugged in has no code. -/
def value (s : Scene) (name : String) (outer : Precedence) : Emit String := do
  match s.slot? name with
  | none => return ""
  | some slot =>
    match slot.target with
    | [] => return ""
    | first :: _ =>
      if ← failed then return ""
      let code ← slot.code
      settle s name outer first code

/-- The code of the value in a socket, or `fallback` when it is empty. -/
def valueOrElse (s : Scene) (name : String) (outer : Precedence) (fallback : String) : Emit String := do
  let code ← value s name outer
  return if code = "" then fallback else code

/-- The code of the statements in a socket, indented by one step. -/
def statements (s : Scene) (name : String) : Emit String := do
  match s.slot? name with
  | none => return ""
  | some slot =>
    let code ← slot.chain
    if code = "" then return ""
    return Text.prependLines (← options).indent code

/-- The body of a loop with its trap in front. Unless the handler places hooks itself, the suffix of
the loop comes first and its prefix last. -/
def loopBody (s : Scene) (body : String) : Emit String := do
  let setting ← read
  let o := setting.options
  let body := indentedHook o.indent o.infiniteLoopTrap s.data ++ body
  if (setting.flagsOf s.data.type).ownHooks then return body
  return indentedHook o.indent o.statementSuffix s.data ++ body ++
    indentedHook o.indent o.statementPrefix s.data

def itemList (s : Scene) (outer : Precedence) (fallback : String) :
    List Nat → Emit (List String)
  | [] => return []
  | i :: rest => do
    let item ← valueOrElse s ("ADD" ++ toString i) outer fallback
    let items ← itemList s outer fallback rest
    return item :: items

/-- The items of a block, as many as its mutation says. The count must be in range. -/
def items (s : Scene) (outer : Precedence) (fallback : String) : Emit (Option (List String)) := do
  let n := s.data.mutation.itemCount
  if n < 0 || 1024 < n then
    let _ ← fail .shape s.data ("itemCount " ++ toString n ++ " outside [0, 1024]")
    return none
  return some (← itemList s outer fallback (List.range n.toNat))

/-- The position in a socket, moved by `delta` and turned around if `negate`, to stand where `outer`
is allowed. Positions that count from one are brought to zero first. Plain numbers are computed;
other code is extended. -/
def adjusted (s : Scene) (name : String) (delta : Int) (negate : Bool) (outer : Precedence) :
    Emit String := do
  let o ← options
  let delta := if o.oneBasedIndex then delta - 1 else delta
  let fallback := if o.oneBasedIndex then "1" else "0"
  let operand : Precedence :=
    if delta ≠ 0 then .additive else if negate then .unaryPrefix else outer
  let at_ ← valueOrElse s name operand fallback
  if Number.isLiteral at_ then
    let n := (Number.wholePart at_).add Number.binary64 (Number.binary64.ofInt delta)
    return Number.format (if negate then n.neg else n)
  let moved :=
    if 0 < delta then at_ ++ " + " ++ toString delta
    else if delta < 0 then at_ ++ " - " ++ toString (-delta)
    else at_
  let turned :=
    if negate then (if delta ≠ 0 then "-(" ++ moved ++ ")" else "-" ++ moved) else moved
  let inner : Precedence :=
    if negate then .unaryPrefix else if delta ≠ 0 then .additive else .atomic
  return if inner ≠ .atomic && inner.rank ≤ outer.rank then "(" ++ turned ++ ")" else turned

end Emit

end BlockProgram
