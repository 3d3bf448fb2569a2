import BlockProgram.Block.Mutation
import BlockProgram.Workspace.Basic

/-! Documents as the editor saves them. Reading one takes two steps. The first reads the records of
blocks and of what follows them; it looks into sockets too, but what is wrong there is only noted.
The second turns records into blocks, in document order: it names what has no id, finds or declares
the variables that fields refer to by name, and reports the first thing that is wrong. -/
namespace BlockProgram

/-- A record of a block, apart from its connections. -/
structure BlockEntry where
  type : String := ""
  id : String := ""
  x : Number.Floating := .zero
  y : Number.Floating := .zero
  enabled : Option Bool := none
  disabledReasons : Json.Slots String := {}
  comment : String := ""
  icon : Option String := none
  fields : Json := .null
  extraState : Json := .null

mutual

/-- A record of a block with its sockets and what follows it. -/
inductive BlockDoc where
  | mk (entry : BlockEntry) (inputs statements : SocketsDoc) (next : Option ConnectionDoc)

/-- What is connected: a block and a shadow, each of which may be missing. -/
inductive ConnectionDoc where
  | mk (block shadow : Option BlockDoc)

/-- The sockets of a block; or what stands in their place, which is no object. -/
inductive SocketsDoc where
  | members (sockets : List SocketDoc)
  | notObject (value : Json)

/-- A named socket: connected, empty where a connection is required, or not readable. -/
inductive SocketDoc where
  | connected (name : String) (connection : ConnectionDoc)
  | null (name : String)
  | faulty (name : String) (fault : Json.Fault)

end

def BlockDoc.empty : BlockDoc := .mk {} (.members []) (.members []) none

def ConnectionDoc.empty : ConnectionDoc := .mk none none

def takeIcons (old : Option String) : Json → Except Json.Fault (Option String) :=
  let takeText (old : String) : Json → Except Json.Fault String :=
    Json.takeMembers (fun key v text => if key = "text" then Json.takeString text v else .ok text) old
  Json.takeMembers (fun key v icon =>
    if key = "comment" then Json.takeOption (takeText (icon.getD "")) v else .ok icon) old

/-- Updates a record by a member that is no connection. -/
def BlockEntry.update (key : String) (v : Json) (e : BlockEntry) : Except Json.Fault BlockEntry :=
  if key = "type" then (Json.takeString e.type v).map fun s => { e with type := s }
  else if key = "id" then (Json.takeString e.id v).map fun s => { e with id := s }
  else if key = "x" then (Json.takeDouble e.x v).map fun n => { e with x := n }
  else if key = "y" then (Json.takeDouble e.y v).map fun n => { e with y := n }
  else if key = "enabled" then
    (Json.takeOption (Json.takeBool false) v).map fun b => { e with enabled := b }
  else if key = "disabledreasons" then
    (Json.takeStrings e.disabledReasons v).map fun ss => { e with disabledReasons := ss }
  else if key = "comment" then (Json.takeString e.comment v).map fun s => { e with comment := s }
  else if key = "icons" then (takeIcons e.icon v).map fun i => { e with icon := i }
  else if key = "fields" then .ok { e with fields := v }
  else if key = "extrastate" then .ok { e with extraState := v }
  else .ok e

mutual

/-- Reads a block where one may be missing; what was read there before is updated. -/
def readBlock (old : Option BlockDoc) : Json → Except Json.Fault (Option BlockDoc)
  | .null => .ok none
  | .object members => (readBlockMembers (old.getD .empty) members).map some
  | _ => .error (.mismatch "a block")

def readBlockMembers (doc : BlockDoc) : List (String × Json) → Except Json.Fault BlockDoc
  | [] => .ok doc
  | (key, v) :: rest =>
    match doc with
    | .mk e inputs statements next =>
      let key := Json.foldKey key
      if key = "next" then
        match readConnection next v with
        | .error f => .error f
        | .ok next => readBlockMembers (.mk e inputs statements next) rest
      else if key = "inputs" then
        readBlockMembers (.mk e (readSockets v) statements next) rest
      else if key = "statements" then
        readBlockMembers (.mk e inputs (readSockets v) next) rest
      else
        match e.update key v with
        | .error f => .error f
        | .ok e => readBlockMembers (.mk e inputs statements next) rest

/-- Reads a connection where one may be missing; what was read there before is updated. -/
def readConnection (old : Option ConnectionDoc) : Json → Except Json.Fault (Option ConnectionDoc)
  | .null => .ok none
  | .object members => (readConnectionMembers (old.getD .empty) members).map some
  | _ => .error (.mismatch "a connection")

def readConnectionMembers (doc : ConnectionDoc) :
    List (String × Json) → Except Json.Fault ConnectionDoc
  | [] => .ok doc
  | (key, v) :: rest =>
    match doc with
    | .mk block shadow =>
      let key := Json.foldKey key
      if key = "block" then
        match readBlock block v with
        | .error f => .error f
        | .ok block => readConnectionMembers (.mk block shadow) rest
      else if key = "shadow" then
        match readBlock shadow v with
        | .error f => .error f
        | .ok shadow => readConnectionMembers (.mk block shadow) rest
      else readConnectionMembers doc rest

/-- Reads sockets: the members of an object in order, repeated ones included. -/
def readSockets : Json → SocketsDoc
  | .null => .members []
  | .object members => .members (readSocketMembers members)
  | v => .notObject v

def readSocketMembers : List (String × Json) → List SocketDoc
  | [] => []
  | (name, v) :: rest =>
    (match readConnection none v with
      | .ok (some connection) => .connected name connection
      | .ok none => .null name
      | .error f => .faulty name f) :: readSocketMembers rest

end

/-- A document: its blocks, which may be missing, and its variables. -/
structure Document where
  blocks : Json.Slots (Option BlockDoc) := {}
  vars : Json.Slots Variable := {}
  developerVariables : Json.Slots String := {}

def takeVariable (old : Variable) : Json → Except Json.Fault Variable :=
  Json.takeMembers (fun key v x =>
    if key = "id" then (Json.takeString x.id v).map fun s => { x with id := s }
    else if key = "name" then (Json.takeString x.name v).map fun s => { x with name := s }
    else if key = "type" then (Json.takeString x.type v).map fun s => { x with type := s }
    else .ok x) old

def takeSection (old : Json.Slots (Option BlockDoc)) :
    Json → Except Json.Fault (Json.Slots (Option BlockDoc)) :=
  Json.takeMembers (fun key v blocks =>
    if key = "blocks" then Json.takeList (fun b => readBlock (b.getD none)) blocks v
    else if key = "languageversion" then (Json.takeInt 0 v).map fun _ => blocks
    else .ok blocks) old

def Document.ofJson : Json → Except Json.Fault Document :=
  Json.takeMembers (fun key v d =>
    if key = "blocks" then (takeSection d.blocks v).map fun bs => { d with blocks := bs }
    else if key = "variables" then
      (Json.takeList (fun x => takeVariable (x.getD ⟨"", "", ""⟩)) d.vars v).map fun vs =>
        { d with vars := vs }
    else if key = "developervariables" then
      (Json.takeStrings d.developerVariables v).map fun ss => { d with developerVariables := ss }
    else .ok d) {}

end BlockProgram
