import BlockProgram.Block.Basic
import BlockProgram.Json.Reader
import BlockProgram.Json.Record
import BlockProgram.Markup.Reader

/-! Reading mutations. New documents write an object, old ones a string with a markup element; both
say the same things. What is not said follows from the type of the block. -/
namespace BlockProgram.Mutation

/-- The shape a block of this type has when its document says nothing about it. -/
def initial (type : String) : Mutation :=
  if type = "text_join" || type = "lists_create_with" then { itemCount := 2 }
  else if type = "controls_ifelse" then { hasElse := true }
  else if type = "procedures_ifreturn" || type = "widgets_ifreturn" then { hasReturnValue := true }
  else {}

inductive Fault where
  | json (fault : Json.Fault)
  | param (fault : Json.Fault)
  | markup (text : String) (fault : Markup.Fault)
deriving DecidableEq

def Fault.message : Fault → String
  | json f => "extraState: " ++ f.message
  | param f => "extraState: procedure parameter: " ++ f.message
  | markup text f => "mutation " ++ Text.quoted text ++ ": " ++ f.message

structure Entry where
  itemCount : Option Int := none
  elseIfCount : Int := 0
  hasElse : Option Bool := none
  params : Json.Slots Param := {}
  name : String := ""
  hasReturnValue : Option Bool := none

/-- A parameter: its name alone, or an object with a name and an id. A name alone leaves the id that
stood there before. -/
def takeParam (old : Param) : Json → Except Json.Fault Param
  | .null => .ok { old with name := "" }
  | .string s => .ok { old with name := s }
  | v => Json.takeMembers (fun key v p =>
      if key = "name" then (Json.takeString p.name v).map fun s => { p with name := s }
      else if key = "id" then (Json.takeString p.id v).map fun s => { p with id := s }
      else .ok p) ⟨"", ""⟩ v

/-- Updates an entry by one member of the object. A list of parameters that cannot be read is a
fault of its own. -/
def Entry.update (key : String) (v : Json) (e : Entry) : Except Fault Entry :=
  if key = "itemcount" then
    match Json.takeOption (Json.takeInt 0) v with
    | .ok n => .ok { e with itemCount := n }
    | .error f => .error (.json f)
  else if key = "elseifcount" then
    match Json.takeInt e.elseIfCount v with
    | .ok n => .ok { e with elseIfCount := n }
    | .error f => .error (.json f)
  else if key = "haselse" then
    match Json.takeOption (Json.takeBool false) v with
    | .ok b => .ok { e with hasElse := b }
    | .error f => .error (.json f)
  else if key = "hasreturnvalue" then
    match Json.takeOption (Json.takeBool false) v with
    | .ok b => .ok { e with hasReturnValue := b }
    | .error f => .error (.json f)
  else if key = "name" then
    match Json.takeString e.name v with
    | .ok s => .ok { e with name := s }
    | .error f => .error (.json f)
  else if key = "params" then
    match v with
    | .null => .ok { e with params := {} }
    | .array items _ =>
      match Json.takeItems (fun p => takeParam (p.getD ⟨"", ""⟩)) e.params items with
      | .ok ps => .ok { e with params := ps }
      | .error f => .error (.param f)
    | _ => .error (.json (.mismatch "a list of parameters"))
  else .ok e

/-- Reads the members of an object in order. A fault in a parameter ends the reading; any other is
remembered, and the first one counts at the end. -/
def Entry.ofMembers (e : Entry) (first : Option Fault) :
    List (String × Json) → Except Fault Entry
  | [] =>
    match first with
    | some f => .error f
    | none => .ok e
  | (key, v) :: rest =>
    match e.update (Json.foldKey key) v with
    | .ok e => Entry.ofMembers e first rest
    | .error (.param f) => .error (.param f)
    | .error f => Entry.ofMembers e (first.or (some f)) rest

def ofEntry (type : String) (e : Entry) : Mutation :=
  let d := initial type
  { itemCount := e.itemCount.getD d.itemCount
    elseIfCount := e.elseIfCount
    hasElse := e.hasElse.getD d.hasElse
    params := e.params.items
    name := e.name
    hasReturnValue := e.hasReturnValue.getD d.hasReturnValue }

/-- The integer an attribute spells. White space around it is dropped, and an empty one is zero. -/
def wholeAttribute? (e : Markup.Element) (name : String) : Except Markup.Fault (Option Int) :=
  (e.attributes.filter (·.1.base = name)).foldlM (fun _ (_, value) =>
    if value = "" then .ok (some 0)
    else
      match Number.readInteger? (Text.trimChars value.toList) with
      | some i => .ok (some i)
      | none => .error (.notWhole name)) none

def ofElement (type : String) (e : Markup.Element) : Except Markup.Fault Mutation := do
  let d := initial type
  let items ← wholeAttribute? e "items"
  let elseIf ← wholeAttribute? e "elseif"
  let otherwise ← wholeAttribute? e "else"
  let value ← wholeAttribute? e "value"
  let args := e.children.filter (·.name.base = "arg")
  return {
    itemCount := items.getD d.itemCount
    elseIfCount := elseIf.getD 0
    hasElse := d.hasElse || otherwise = some 1
    params := args.map fun a =>
      ⟨(a.attribute? "name").getD "", (a.attribute? "varid").getD ""⟩
    name := (e.attribute? "name").getD ""
    hasReturnValue := match value with
      | some v => v = 1
      | none => d.hasReturnValue }

/-- Reads the mutation of a block of the given type: an object, a string with markup, or nothing. -/
def ofJson (type : String) : Json → Except Fault Mutation
  | .null => .ok (initial type)
  | .string "" => .ok (initial type)
  | .string s =>
    match Markup.read s with
    | .error f => .error (.markup s f)
    | .ok e =>
      match ofElement type e with
      | .error f => .error (.markup s f)
      | .ok m => .ok m
  | .object members => (Entry.ofMembers {} none members).map (ofEntry type)
  | _ => .error (.json (.mismatch "an object"))

end BlockProgram.Mutation
