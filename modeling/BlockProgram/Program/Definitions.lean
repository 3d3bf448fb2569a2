import BlockProgram.Text.Blank

/-! Definitions a program needs outside its body, under a key each. The first code stored under a
key stays. -/
namespace BlockProgram

structure Definition where
  key : String
  code : String
deriving DecidableEq, Inhabited

/-- Definitions in the order in which they were stored; no key occurs twice. -/
abbrev Definitions := List Definition

namespace Definitions

def get? (ds : Definitions) (key : String) : Option String :=
  (ds.find? (·.key = key)).map (·.code)

/-- Stores code under a key, unless the key is in use. -/
def put (ds : Definitions) (key code : String) : Definitions :=
  match ds.get? key with
  | some _ => ds
  | none => ds ++ [⟨key, code⟩]

/-- Whether code is an import: the word itself, and white space. -/
def isImport (code : String) : Bool :=
  match code.toList with
  | 'i' :: 'm' :: 'p' :: 'o' :: 'r' :: 't' :: c :: _ => Text.isPatternBlank c
  | _ => false

def imports (ds : Definitions) : List String := (ds.map (·.code)).filter isImport

def others (ds : Definitions) : List String := (ds.map (·.code)).filter fun c => !isImport c

end Definitions

end BlockProgram
