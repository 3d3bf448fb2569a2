import BlockProgram.Text.Quoted

/-! Fresh identifiers for what a document leaves unnamed. They have the shape of version-4
identifiers and are numbered in the order in which they are drawn. -/
namespace BlockProgram

/-- How many identifiers have been drawn. -/
structure Ids where
  drawn : Nat := 0
deriving DecidableEq, Inhabited

namespace Ids

def nth (n : Nat) : String :=
  "00000000-0000-4000-8000-" ++ String.ofList (Text.hexPadded 12 n)

def draw (ids : Ids) : String × Ids := (nth (ids.drawn + 1), ⟨ids.drawn + 1⟩)

end Ids

end BlockProgram
