import BlockProgram.Hcl.Document
import BlockProgram.Hcl.Value

/-! What reading workspaces relies on: a library that reads configuration documents, evaluates the
expressions in them and converts the values that these come to. -/
namespace BlockProgram

/-- Reading breaks off where a value is used that is not there; the text says how, if it says. -/
structure Breakdown where
  text : Option String := none

namespace Hcl

class Library where
  /-- The expressions in its documents. -/
  Expr : Type
  /-- The body of a document, or the place where it cannot be read any further. -/
  read : List UInt8 → Except Pos (Body Expr)
  /-- Whether a body has only what a schema has. -/
  allows : Schema → List (Attribute Expr) → List (Section Expr) → Bool
  eval : Expr → Outcome
  /-- The keys and values of an object that is written out. -/
  items? : Expr → Option (List (Expr × Expr))
  /-- The name of a type in messages. -/
  typeName : Ty → String
  -- Converting tells why a value does not do.
  toText : Value → Except String String
  toTruth : Value → Except String Bool
  toDouble : Value → Except String Number.Floating
  writeJson : Value → Except String String
  -- Using a value as one of a type that it is not breaks off.
  asString : Value → Except Breakdown String
  asNumber : Value → Except Breakdown Number.Wide
  isTrue : Value → Except Breakdown Bool
  /-- The members of an object or a map. -/
  elements : Value → Except Breakdown (List (String × Value))

end Hcl

end BlockProgram
