import BlockProgram.Service.Generation
import BlockProgram.Service.Store

/-! What callers send, as JSON. A document in JSON stands in the request itself and is kept as it is
written; any other comes as text. -/
namespace BlockProgram.Service

/-- The members of the object a text starts with; `null` has none. -/
def requestMembers (text : String) : Except Json.Fault (List Json.Member) :=
  match Json.readFirst text with
  | .error f => .error f
  | .ok (.object _, _) => .ok (Json.membersOf text)
  | .ok (.null, _) => .ok []
  | .ok _ => .error (.mismatch "an object")

/-- Reads a record from the members of a request, keys without regard to case. -/
def readRequest {α : Type} (update : String → Json.Member → α → Except Json.Fault α) (blank : α)
    (text : String) : Except Json.Fault α := do
  let members ← requestMembers text
  members.foldlM (fun acc m => update (Json.foldKey m.key) m acc) blank

structure Enclosure where
  format : String := ""
  workspace : Option String := none
  source : String := ""
deriving DecidableEq

namespace Enclosure

def update (key : String) (m : Json.Member) (e : Enclosure) : Except Json.Fault Enclosure :=
  match key with
  | "format" => (Json.takeString e.format m.value).map ({ e with format := · })
  | "workspace" => .ok { e with workspace := some m.source }
  | "source" => (Json.takeString e.source m.value).map ({ e with source := · })
  | _ => .ok e

/-- The rules a document part breaks: the format is a known one, and the document is where the
format says. `record` is what the request is called. -/
def broken (record : String) (e : Enclosure) : List String :=
  let rule (field name : String) : String := ruleMessage (record ++ "." ++ field) field name
  (if e.format = "" || e.format = "json" || e.format = "hcl" then [] else [rule "Format" "oneof"]) ++
  (if e.format ≠ "hcl" && e.workspace.isNone then [rule "Workspace" "required_unless"] else []) ++
  (if e.format = "hcl" && e.source = "" then [rule "Source" "required_if"] else [])

def text (e : Enclosure) : String := if e.format = "hcl" then e.source else e.workspace.getD ""

end Enclosure

structure GenerateRequest where
  enclosure : Enclosure := {}
  overrides : String := ""
deriving DecidableEq

structure CreateRequest where
  name : String := ""
  enclosure : Enclosure := {}
deriving DecidableEq

def GenerateRequest.read : String → Except Json.Fault GenerateRequest :=
  readRequest (fun key m r =>
    if key = "options" then .ok { r with overrides := m.source }
    else (r.enclosure.update key m).map ({ r with enclosure := · })) {}

def GenerateRequest.broken (r : GenerateRequest) : List String := r.enclosure.broken "Generate"

def GenerateRequest.order (r : GenerateRequest) : Order :=
  { format := r.enclosure.format, document := Digest.bytesOf r.enclosure.text
    overrides := r.overrides }

def CreateRequest.read : String → Except Json.Fault CreateRequest :=
  readRequest (fun key m r =>
    if key = "name" then (Json.takeString r.name m.value).map ({ r with name := · })
    else (r.enclosure.update key m).map ({ r with enclosure := · })) {}

/-- The rules a request to store breaks: the name is given, with at most 255 characters. -/
def CreateRequest.broken (r : CreateRequest) : List String :=
  let rule (name : String) : List String := [ruleMessage "CreateWorkspace.Name" "Name" name]
  (if r.name = "" then rule "required" else if 255 < r.name.length then rule "max" else []) ++
    r.enclosure.broken "CreateWorkspace"

def CreateRequest.workspace (r : CreateRequest) : SavedWorkspace :=
  let e := r.enclosure
  if e.format = "hcl" then { name := r.name, format := e.format, source := e.source }
  else { name := r.name, format := e.format, document := ⟨e.workspace⟩ }

def readOverrides : String → Except Json.Fault String :=
  readRequest (fun key m old => .ok (if key = "options" then m.source else old)) ""

end BlockProgram.Service
