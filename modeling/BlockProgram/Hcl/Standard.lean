import BlockProgram.Hcl.Body
import BlockProgram.Hcl.Library

/-! The library that workspaces are read with. -/
namespace BlockProgram.Hcl

namespace Value

def text? : Value → Option String
  | .string s => some s
  | _ => none

def number? : Value → Option Number.Wide
  | .number x => some x
  | _ => none

def truth? : Value → Option Bool
  | .bool b => some b
  | _ => none

def greatestDouble : String := toString ((Nat.pow 2 53 - 1) * Nat.pow 2 971) ++ ".000000"

/-- Why a null, unknown or unlike value does not do where `wanted` is. -/
def unfitDetail (wanted : String) : Value → String
  | .null (.list _) => wanted ++ " value is required"
  | .null (.map _) => wanted ++ " value is required"
  | .null _ => "null value is not allowed"
  | .unknown _ => "value must be known"
  | _ => wanted ++ " value is required"

/-- A value as a double. A number beyond all doubles does not do. -/
def toDouble : Value → Except String Number.Floating
  | .number x =>
    match x.value, x.value.convert Number.binary64 with
    | .finite _ _ _, .infinity _ =>
      .error ("value must be between -" ++ greatestDouble ++ " and " ++ greatestDouble ++ " inclusive")
    | _, d => .ok d
  | v => .error (unfitDetail "number" v)

/-- How the use of a value ends that is not there. -/
def absence (v : Value) : Breakdown :=
  ⟨some (if v.isNull then "value is null" else "value is not known")⟩

def elements : Value → Except Breakdown (List (String × Value))
  | .object ms => .ok ms
  | .map _ ms => .ok ms
  | .null _ => .error ⟨some "can't use a null value as a collection"⟩
  | _ => .error ⟨some "can't use an unknown value as a collection"⟩

end Value

/-- The keys and values of an object that is written out. -/
def Expr.items? : Expr → Option (List (Expr × Expr))
  | .object items => some items
  | _ => none

/-- Reads a document, if all of its bytes stand for characters that may be there. -/
def Body.ofBytes (bytes : List UInt8) : Except Pos (Body Expr) :=
  let text := Text.ofBytes bytes
  if isReadable text (Text.strayBytes bytes.length bytes) then Body.read text else .error {}

instance standard : Library where
  Expr := Expr
  read := Body.ofBytes
  allows := Schema.allows
  eval e := e.eval {}
  items? := Expr.items?
  typeName := Ty.name
  toText v := v.text?.elim (.error (v.unfitDetail "string")) .ok
  toTruth v := v.truth?.elim (.error (v.unfitDetail "bool")) .ok
  toDouble := Value.toDouble
  writeJson v := v.writeJson.mapError Value.WriteFault.message
  asString v := v.text?.elim (.error v.absence) .ok
  asNumber v := v.number?.elim (.error v.absence) .ok
  isTrue v := v.truth?.elim (.error v.absence) .ok
  elements := Value.elements

end BlockProgram.Hcl
