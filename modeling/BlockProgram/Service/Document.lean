import BlockProgram.Digest.Bytes
import BlockProgram.Json.Source

/-! Documents as they are stored. -/
namespace BlockProgram

/-- A stored document: a text, or nothing at all. -/
structure StoredText where
  text : Option String := none
deriving DecidableEq

namespace StoredText

inductive Column where
  | null
  | bytes (text : String)
  | string (text : String)
  | integer (n : Int)
  | boolean (b : Bool)
deriving DecidableEq

/-- Reads a column. Columns without a byte are nothing; other kinds than text are refused, with the
name of the kind. -/
def ofColumn : Column → Except String StoredText
  | .null => .ok {}
  | .bytes "" => .ok {}
  | .bytes s => .ok ⟨some s⟩
  | .string s => .ok ⟨some s⟩
  | .integer _ => .error "int64"
  | .boolean _ => .error "bool"

def refusalMessage (kind : String) : String := "cannot scan type " ++ kind ++ " into Document"

/-- Takes a JSON text as it is written. -/
def ofJson (text : String) : Except Json.Fault StoredText :=
  (Json.read text).map fun _ => ⟨some (Json.firstSource text)⟩

def json (d : StoredText) : Except Json.Fault String :=
  match d.text with
  | none => .ok "null"
  | some text => Json.squeezed text

/-- The text, empty for nothing. -/
def content (d : StoredText) : String := d.text.getD ""

end StoredText

end BlockProgram
