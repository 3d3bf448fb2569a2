import BlockProgram.Ids
import BlockProgram.Workspace.Document

/-! Turning the records of a document into blocks. -/
namespace BlockProgram

inductive LoadFault where
  | json (fault : Json.Fault)
  | nullTop (index : Nat)
  | inBlock (id type : String) (cause : LoadFault)
  | notObject (found : String)
  | nullSocket (name : String)
  | socket (name : String) (fault : Json.Fault)
  | field (name : String) (fault : Json.Fault)
  | mutation (fault : Mutation.Fault)
deriving DecidableEq

def LoadFault.message : LoadFault → String
  | json f => f.message
  | nullTop i => "blocks.blocks[" ++ toString i ++ "]: null block"
  | inBlock id type cause => "block " ++ id ++ " (" ++ type ++ "): " ++ cause.message
  | notObject found => "expected object, got " ++ found
  | nullSocket name => "input " ++ name ++ ": null block"
  | socket name f => "input " ++ name ++ ": " ++ f.message
  | field name f => "field " ++ name ++ ": " ++ f.message
  | mutation f => f.message

/-- What grows while a document is read: the variables, and the identifiers drawn. -/
structure LoadState where
  vars : List Variable
  ids : Ids

/-- A step of reading a document. What has been drawn and declared stays so when a step fails. -/
abbrev Loading (α : Type) := LoadState → Except LoadFault α × LoadState

namespace Loading

def done {α : Type} (a : α) : Loading α := fun s => (.ok a, s)

def fail {α : Type} (f : LoadFault) : Loading α := fun s => (.error f, s)

def andThen {α β : Type} (m : Loading α) (k : α → Loading β) : Loading β := fun s =>
  match m s with
  | (.error f, s) => (.error f, s)
  | (.ok a, s) => k a s

/-- The outcome of a reading that needs no state. -/
def ofExcept {α ε : Type} (wrap : ε → LoadFault) (r : Except ε α) : Loading α := fun s =>
  match r with
  | .ok a => (.ok a, s)
  | .error f => (.error (wrap f), s)

def inBlock {α : Type} (id type : String) (m : Loading α) : Loading α := fun s =>
  match m s with
  | (.error f, s) => (.error (.inBlock id type f), s)
  | (.ok a, s) => (.ok a, s)

def drawId : Loading String := fun s => (.ok s.ids.draw.1, { s with ids := s.ids.draw.2 })

/-- The given id, or a fresh one in place of an empty one. -/
def idOr (id : String) : Loading String := if id = "" then drawId else done id

/-- The id of the variable with this name and type, which is declared if it is not yet. -/
def variableNamed (name type : String) : Loading String := fun s =>
  match s.vars.find? (fun v => v.name = name && v.type = type) with
  | some v => (.ok v.id, s)
  | none =>
    let (id, ids) := s.ids.draw
    (.ok id, { vars := s.vars ++ [⟨id, name, type⟩], ids := ids })

end Loading

/-- The names of sockets that take statements when a document does not tell: the arms of
conditionals and loops, and bodies. -/
def isStatementName (name : String) : Bool :=
  name = "ELSE" || name = "STACK" || name = "STMTS" ||
    match name.toList with
    | 'D' :: 'O' :: digits => digits.all Char.isDigit
    | _ => false

def defaultSocketKind (name : String) : SocketKind :=
  if isStatementName name then .statement else .value

def describeToken : Json → Except LoadFault String
  | .null => .ok "<nil>"
  | .bool b => .ok (if b then "true" else "false")
  | .string s => .ok s
  | .array _ _ => .ok "["
  | .object _ => .ok "\x7b"
  | .number s =>
    match Number.readDouble? s.toList with
    | some x => .ok (Number.describe x)
    | none => .error (.json (.mismatch "a number"))

def notObjectFault (v : Json) : LoadFault :=
  match describeToken v with
  | .ok found => .notObject found
  | .error f => f

/-- A reference to a variable: by id, or by name and type. -/
structure VariableRef where
  id : String := ""
  name : String := ""
  type : String := ""

def VariableRef.ofJson : Json → Except Json.Fault VariableRef :=
  Json.takeMembers (fun key v r =>
    if key = "id" then (Json.takeString r.id v).map fun s => { r with id := s }
    else if key = "name" then (Json.takeString r.name v).map fun s => { r with name := s }
    else if key = "type" then (Json.takeString r.type v).map fun s => { r with type := s }
    else .ok r) {}

/-- Reads one field. Truth values become words, numbers and lists keep their spelling, and an object
refers to a variable. -/
def loadField (name : String) (v : Json) : Loading Field :=
  match v with
  | .null => .done ⟨name, "", ""⟩
  | .string s => .done ⟨name, s, ""⟩
  | .bool b => .done ⟨name, if b then "TRUE" else "FALSE", ""⟩
  | .number s => .done ⟨name, s, ""⟩
  | .array _ source => .done ⟨name, source, ""⟩
  | .object members =>
    (Loading.ofExcept (LoadFault.field name) (VariableRef.ofJson (.object members))).andThen fun r =>
      if r.id ≠ "" then .done ⟨name, "", r.id⟩
      else (Loading.variableNamed r.name r.type).andThen fun id => .done ⟨name, "", id⟩

def loadFieldList : List (String × Json) → Loading (List Field)
  | [] => .done []
  | (name, v) :: rest =>
    (loadField name v).andThen fun f => (loadFieldList rest).andThen fun fs => .done (f :: fs)

def loadFields : Json → Loading (List Field)
  | .null => .done []
  | .object members => loadFieldList members
  | v => .fail (notObjectFault v)

def BlockEntry.disabled (e : BlockEntry) : Bool :=
  e.enabled = some false || !e.disabledReasons.items.isEmpty

mutual

/-- Reads a block and its successors: id, fields, mutation, sockets, statements, and then what
follows. -/
def BlockDoc.load : BlockDoc → Loading Stack
  | .mk e inputs statements next =>
    (Loading.idOr e.id).andThen fun id =>
    (Loading.inBlock id e.type (loadFields e.fields)).andThen fun fields =>
    (Loading.inBlock id e.type
      (Loading.ofExcept LoadFault.mutation (Mutation.ofJson e.type e.extraState))).andThen
        fun mutation =>
    (Loading.inBlock id e.type (inputs.load defaultSocketKind)).andThen fun values =>
    (Loading.inBlock id e.type (statements.load fun _ => .statement)).andThen fun bodies =>
    (loadNext next).andThen fun following =>
      .done (.mk
        { id := id, type := e.type, x := e.x, y := e.y, disabled := e.disabled,
          comment := e.icon.getD e.comment, fields := fields, mutation := mutation }
        (values ++ bodies) :: following)

/-- Reads what follows a block. A shadow there does not count. -/
def loadNext : Option ConnectionDoc → Loading Stack
  | none => .done []
  | some c => c.loadBlock

def ConnectionDoc.loadBlock : ConnectionDoc → Loading Stack
  | .mk block _ => loadOptional block

def loadOptional : Option BlockDoc → Loading Stack
  | none => .done []
  | some d => d.load

def ConnectionDoc.loadBoth : ConnectionDoc → Loading (Stack × Stack)
  | .mk block shadow =>
    (loadOptional block).andThen fun plugged =>
    (loadOptional shadow).andThen fun shadow => .done (plugged, shadow)

def SocketsDoc.load (kind : String → SocketKind) : SocketsDoc → Loading (List Socket)
  | .members sockets => loadSockets kind sockets
  | .notObject v => .fail (notObjectFault v)

def loadSockets (kind : String → SocketKind) : List SocketDoc → Loading (List Socket)
  | [] => .done []
  | s :: rest =>
    (s.load kind).andThen fun socket =>
    (loadSockets kind rest).andThen fun sockets => .done (socket :: sockets)

def SocketDoc.load (kind : String → SocketKind) : SocketDoc → Loading Socket
  | .connected name c =>
    c.loadBoth.andThen fun (plugged, shadow) => .done (.mk name (kind name) plugged shadow)
  | .null name => .fail (.nullSocket name)
  | .faulty name f => .fail (.socket name f)

end

def loadTops (i : Nat) : List (Option BlockDoc) → Loading (List Stack)
  | [] => .done []
  | none :: _ => .fail (.nullTop i)
  | some d :: rest =>
    d.load.andThen fun stack => (loadTops (i + 1) rest).andThen fun tops => .done (stack :: tops)

/-- Turns a document into a workspace, drawing ids from `ids`. -/
def Document.load (d : Document) (ids : Ids) : Except LoadFault Workspace × Ids :=
  match loadTops 0 d.blocks.items ⟨d.vars.items, ids⟩ with
  | (.error f, s) => (.error f, s.ids)
  | (.ok tops, s) =>
    (.ok { tops := tops, vars := s.vars, developerVariables := d.developerVariables.items },
      s.ids)

/-- Reads a workspace from the text of a document. What follows the first value is not looked at. -/
def Workspace.ofJsonText (text : String) (ids : Ids) : Except LoadFault Workspace × Ids :=
  match Json.readFirst text with
  | .error f => (.error (.json f), ids)
  | .ok (value, _) =>
    match Document.ofJson value with
    | .error f => (.error (.json f), ids)
    | .ok d => d.load ids

end BlockProgram
