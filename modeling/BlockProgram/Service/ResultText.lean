import BlockProgram.Json.Printer
import BlockProgram.Json.Record
import BlockProgram.Program.Generate

/-! Results as JSON. In this form they are kept, and read again later. -/
namespace BlockProgram

def NameEntry.json (n : NameEntry) : Json :=
  .object [("category", .string n.category.label), ("logical", .string n.logical),
    ("text", .string n.text)]

def Definition.json (d : Definition) : Json :=
  .object [("key", .string d.key), ("code", .string d.code)]

def NameEntry.take (old : NameEntry) : Json → Except Json.Fault NameEntry :=
  Json.takeMembers (fun key v n =>
    match key with
    | "category" => (Json.takeString n.category.label v).map ({ n with category := ⟨·⟩ })
    | "logical" => (Json.takeString n.logical v).map ({ n with logical := · })
    | "text" => (Json.takeString n.text v).map ({ n with text := · })
    | _ => .ok n) old

def Definition.take (old : Definition) : Json → Except Json.Fault Definition :=
  Json.takeMembers (fun key v d =>
    match key with
    | "key" => (Json.takeString d.key v).map ({ d with key := · })
    | "code" => (Json.takeString d.code v).map ({ d with code := · })
    | _ => .ok d) old

namespace Result

def json (r : Result) : Json :=
  .object [("code", .string r.code), ("names", .array (r.names.map (·.json)) ""),
    ("definitions", .array (r.definitions.map (·.json)) "")]

structure Draft where
  code : String := ""
  names : Json.Slots NameEntry := {}
  definitions : Json.Slots Definition := {}

def Draft.update (key : String) (v : Json) (d : Draft) : Except Json.Fault Draft :=
  match key with
  | "code" => (Json.takeString d.code v).map ({ d with code := · })
  | "names" =>
    (Json.takeList (fun n => NameEntry.take (n.getD default)) d.names v).map ({ d with names := · })
  | "definitions" =>
    (Json.takeList (fun x => Definition.take (x.getD default)) d.definitions v).map
      ({ d with definitions := · })
  | _ => .ok d

def ofJson (v : Json) : Except Json.Fault Result :=
  (Json.takeMembers Draft.update {} v).map fun d => ⟨d.code, d.names.items, d.definitions.items⟩

end Result

end BlockProgram
