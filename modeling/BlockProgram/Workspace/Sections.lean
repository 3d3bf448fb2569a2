import BlockProgram.Block.Mutation
import BlockProgram.Hcl.Library
import BlockProgram.Ids
import BlockProgram.Workspace.Basic

/-! Workspaces written as configuration documents:

    variable "v1" { name = "count" }
    block "variables_set" {
      vars = { VAR = "v1" }
      value "VALUE" {
        block "math_number" { fields = { NUM = 4 } }
      }
    }

Reading goes on after a fault, and all complaints about a document are told at once. -/
namespace BlockProgram

/-- A complaint about a document and the place it is about. `language` covers syntax, names that are
not expected and expressions that cannot be evaluated. -/
inductive Complaint where
  | language (place : Hcl.Pos)
  | unfit (name detail : String) (place : Hcl.Pos)
  | mutation (fault : Mutation.Fault) (place : Hcl.Pos)
  | crowded (socket : String) (place : Hcl.Pos)
  | strayShadow (place : Hcl.Pos)
deriving DecidableEq

namespace Complaint

def place : Complaint → Hcl.Pos
  | language p => p
  | unfit _ _ p => p
  | mutation _ p => p
  | crowded _ p => p
  | strayShadow p => p

def summary : Complaint → String
  | language _ => "Invalid document"
  | unfit name _ _ => "Invalid " ++ Text.quoted name
  | mutation _ _ => "Invalid extra"
  | crowded _ _ => "Too many blocks in value input"
  | strayShadow _ => "Unexpected shadow block"

def detail : Complaint → String
  | language _ => "The document is not a valid configuration document."
  | unfit _ detail _ => detail
  | mutation fault _ => fault.message
  | crowded socket _ => "Value input " ++ Text.quoted socket ++ " takes a single block."
  | strayShadow _ => "Shadow blocks are only allowed in value inputs."

/-- The complaint in one line, for the document with the given name. -/
def message (name : String) (c : Complaint) : String :=
  name ++ ":" ++ toString c.place.line ++ "," ++ toString c.place.column ++ ": " ++ c.summary ++ "; " ++
    c.detail

/-- The first complaint, and how many others there are. -/
def messages (name : String) : List Complaint → String
  | [] => "no diagnostics"
  | [c] => c.message name
  | c :: cs => c.message name ++ ", and " ++ toString cs.length ++ " other diagnostic(s)"

end Complaint

structure SectionState where
  ids : Ids
  complaints : List Complaint := []

abbrev SectionM := ExceptT Breakdown (StateM SectionState)

namespace SectionM

def complain (c : Complaint) : SectionM Unit :=
  modify fun s => { s with complaints := s.complaints ++ [c] }

def drawId : SectionM String := do
  let s ← get
  set { s with ids := s.ids.draw.2 }
  return s.ids.draw.1

end SectionM

namespace Hcl

open SectionM

variable [L : Library]

/-- Reads an attribute, if it is there, and otherwise keeps `old`. -/
def readAttribute {α : Type} (as : List (Attribute L.Expr)) (name : String)
    (of : Value → Except String α) (old : α) : SectionM α :=
  match attribute? name as with
  | none => return old
  | some a =>
    let o := L.eval a.expr
    if o.faulty then do
      complain (.language a.start)
      return old
    else
      match of o.value with
      | .ok x => return x
      | .error detail => do
        complain (.unfit name detail a.start)
        return old

def keyText (v : Value) : SectionM (Option String) :=
  match v.type with
  | .string => do
    let text ← MonadExcept.ofExcept (L.asString v)
    return some text
  | _ => return none

/-- The members of an object that is written out, in the order in which they are written. A member
whose key is no text is left out. -/
def writtenMembers (place : Pos) : List (L.Expr × L.Expr) → SectionM (List (String × Value))
  | [] => return []
  | (k, v) :: rest => do
    let key := L.eval k
    let value := L.eval v
    if key.faulty then complain (.language place)
    if value.faulty then
      complain (.language place)
      writtenMembers place rest
    else
      match ← keyText key.value with
      | some name =>
        let more ← writtenMembers place rest
        return (name, value.value) :: more
      | none => writtenMembers place rest

/-- The members of an attribute that is an object: as written if it is written out, and sorted by
name if it is computed. -/
def readMembers (a : Attribute L.Expr) : SectionM (List (String × Value)) :=
  match L.items? a.expr with
  | some items => writtenMembers a.start items
  | none => do
    let o := L.eval a.expr
    if o.faulty then
      complain (.language a.start)
      return []
    else
      match o.value.type with
      | .object _ => MonadExcept.ofExcept (L.elements o.value)
      | .map _ => MonadExcept.ofExcept (L.elements o.value)
      | _ => do
        complain (.unfit a.name "expected an object" a.start)
        return []

def scalarText (v : Value) : SectionM (Except String String) :=
  if v.isNull then return .ok ""
  else
    match v.type with
    | .string => do
      let text ← MonadExcept.ofExcept (L.asString v)
      return .ok text
    | .number => do
      let x ← MonadExcept.ofExcept (L.asNumber v)
      return .ok x.text
    | .bool => do
      let b ← MonadExcept.ofExcept (L.isTrue v)
      return .ok (if b then "TRUE" else "FALSE")
    | t => return .error ("field value of type " ++ L.typeName t ++ " is not supported")

def fieldsOf (a : Attribute L.Expr) (of : String → Value → SectionM (Except String Field)) :
    List (String × Value) → SectionM (List Field)
  | [] => return []
  | (name, v) :: rest => do
    match ← of name v with
    | .ok f =>
      let fs ← fieldsOf a of rest
      return f :: fs
    | .error detail =>
      complain (.unfit a.name detail a.start)
      fieldsOf a of rest

def valueField (name : String) (v : Value) : SectionM (Except String Field) := do
  match ← scalarText v with
  | .ok text => return .ok ⟨name, text, ""⟩
  | .error detail => return .error detail

def variableField (name : String) (v : Value) : SectionM (Except String Field) :=
  match v.type with
  | .string => do
    let id ← MonadExcept.ofExcept (L.asString v)
    return .ok ⟨name, "", id⟩
  | _ => return .error ("variable reference " ++ name ++ " must be a string id")

def readFields (as : List (Attribute L.Expr)) (name : String)
    (of : String → Value → SectionM (Except String Field)) : SectionM (List Field) :=
  match attribute? name as with
  | none => return []
  | some a => do
    let ms ← readMembers a
    fieldsOf a of ms

/-- Reads the mutation of a block. What it says is what the same value would say in JSON. -/
def readMutation (as : List (Attribute L.Expr)) (type : String) (start : Pos) :
    SectionM Mutation := do
  let text ←
    match attribute? "extra" as with
    | none => pure "null"
    | some a =>
      let o := L.eval a.expr
      if o.faulty then do
        complain (.language a.start)
        pure "null"
      else
        match L.writeJson o.value with
        | .ok text => pure text
        | .error detail => do
          complain (.unfit "extra" detail a.start)
          pure "null"
  let result :=
    match Json.read text with
    | .ok json => Mutation.ofJson type json
    | .error f => .error (.json f)
  match result with
  | .ok m => return m
  | .error f => do
    complain (.mutation f start)
    return {}

def documentShape : Schema :=
  { sections := [("variable", 1), ("developer_variable", 1), ("block", 1), ("stack", 0)] }

def variableShape : Schema := { attributes := ["name", "type"] }

def blockShape : Schema :=
  { attributes := ["id", "x", "y", "disabled", "comment", "fields", "vars", "extra"]
    sections := [("value", 1), ("statement", 1)] }

def sequenceSchema : Schema := { sections := [("block", 1), ("shadow", 1)] }

def firstLabel (labels : List String) : String := labels.head?.getD ""

/-- Reads the data of a block. An id that is missing or empty is drawn. -/
def readBlockData (type : String) (start : Pos) (as : List (Attribute L.Expr)) :
    SectionM BlockData := do
  let id ← readAttribute as "id" L.toText ""
  let id ← if id = "" then drawId else pure id
  let x ← readAttribute as "x" L.toDouble .zero
  let y ← readAttribute as "y" L.toDouble .zero
  let disabled ← readAttribute as "disabled" L.toTruth false
  let comment ← readAttribute as "comment" L.toText ""
  let fields ← readFields as "fields" valueField
  let references ← readFields as "vars" variableField
  let mutation ← readMutation as type start
  return { id := id, type := type, x := x, y := y, disabled := disabled, comment := comment,
           fields := fields ++ references, mutation := mutation }

mutual

/-- Reads a block; `none` when its body is not one of a block. -/
def readBlock : Section L.Expr → SectionM (Option Block)
  | .mk _ labels start as ss =>
    if L.allows blockShape as ss then do
      let data ← readBlockData (firstLabel labels) start as
      let sockets ← readSockets ss
      return some (.mk data sockets)
    else do
      complain (.language start)
      return none

def readSockets : List (Section L.Expr) → SectionM (List Socket)
  | [] => return []
  | s :: rest => do
    let socket ← readSocket s
    let sockets ← readSockets rest
    return socket :: sockets

/-- Reads an input. A value input takes one block. -/
def readSocket : Section L.Expr → SectionM Socket
  | .mk type labels start as ss => do
    let isValue := type = "value"
    let (stack, shadow) ←
      if L.allows sequenceSchema as ss then readSequence isValue ss
      else do
        complain (.language start)
        pure ([], [])
    if isValue then
      if 1 < stack.length then complain (.crowded (firstLabel labels) start)
      return .mk (firstLabel labels) .value stack shadow
    else return .mk (firstLabel labels) .statement stack []

/-- Reads blocks that follow one another, and the last shadow among them. -/
def readSequence (isValue : Bool) : List (Section L.Expr) → SectionM (Stack × Stack)
  | [] => return ([], [])
  | s :: rest => do
    let block ← readBlock s
    let isShadow := s.type = "shadow"
    if isShadow && !isValue && block.isSome then complain (.strayShadow s.start)
    let (stack, shadow) ← readSequence isValue rest
    match block with
    | none => return (stack, shadow)
    | some b =>
      if isShadow then return (stack, if shadow.isEmpty then [b] else shadow)
      else return (b :: stack, shadow)

end

/-- Reads a variable. Its name is its id unless it says otherwise. -/
def readVariable (s : Section L.Expr) : SectionM Variable := do
  let id := firstLabel s.labels
  if !L.allows variableShape s.attributes s.sections then complain (.language s.start)
  let name ← readAttribute s.attributes "name" L.toText id
  let type ← readAttribute s.attributes "type" L.toText ""
  return ⟨id, name, type⟩

def readVariables : List (Section L.Expr) → SectionM (List Variable)
  | [] => return []
  | s :: rest =>
    if s.type = "variable" then do
      let v ← readVariable s
      let vs ← readVariables rest
      return v :: vs
    else readVariables rest

/-- Reads the stacks of a document: a block that stands alone, or a stack of them. -/
def readStacks : List (Section L.Expr) → SectionM (List Stack)
  | [] => return []
  | s :: rest => do
    let stack ←
      if s.type = "block" then do
        let block ← readBlock s
        pure block.toList
      else if s.type = "stack" then
        if L.allows sequenceSchema s.attributes s.sections then do
          let (stack, _) ← readSequence false s.sections
          pure stack
        else do
          complain (.language s.start)
          pure []
      else pure []
    let tops ← readStacks rest
    return if stack.isEmpty then tops else stack :: tops

def readWorkspace (body : Body L.Expr) : SectionM Workspace := do
  let vars ← readVariables body.sections
  let tops ← readStacks body.sections
  return { tops := tops, vars := vars,
           developerVariables := (body.sections.filter (·.type = "developer_variable")).map
             fun s => firstLabel s.labels }

end Hcl

inductive SectionFault where
  | complaints (list : List Complaint)
  | breakdown (b : Breakdown)

def Workspace.ofSections [L : Hcl.Library] (bytes : List UInt8) (ids : Ids) :
    Except SectionFault Workspace × Ids :=
  match L.read bytes with
  | .error p => (.error (.complaints [.language p]), ids)
  | .ok body =>
    if !L.allows Hcl.documentShape body.attributes body.sections then
      (.error (.complaints [.language {}]), ids)
    else
      match (Hcl.readWorkspace body).run ⟨ids, []⟩ with
      | (.error b, s) => (.error (.breakdown b), s.ids)
      | (.ok w, s) =>
        if s.complaints.isEmpty then (.ok w, s.ids) else (.error (.complaints s.complaints), s.ids)

end BlockProgram
