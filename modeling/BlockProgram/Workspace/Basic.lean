import BlockProgram.Block.Basic
import BlockProgram.Order

/-! Workspaces: the stacks of a drawing surface and the variables declared on it. -/
namespace BlockProgram

structure Variable where
  id : String
  name : String
  type : String := ""
deriving DecidableEq

/-- All stacks, in document order, with the variables of the user and of the developer. No stack is
empty. -/
structure Workspace where
  tops : List Stack := []
  vars : List Variable := []
  developerVariables : List String := []

namespace Workspace

/-- The sine of three degrees: how far the reading line falls for each unit to the right. -/
def readingSlant : Number.Floating :=
  (Number.readDouble? "0.052335956242943835".toList).getD .zero

def readingPosition (b : BlockData) : Number.Floating :=
  b.y.add Number.binary64 (readingSlant.mul Number.binary64 b.x)

/-- Whether a stack is read before another, for their positions; false when one of these is not a
number. -/
def readsBefore (x y : Number.Floating × Stack) : Bool := x.1.lt y.1

/-- The stacks in reading order: downwards along a slightly falling line, equal ones as in the
document. A stack at the end of both axes has no position and is read somewhere among the others. -/
def inReadingOrder (w : Workspace) : List Stack :=
  let placed := w.tops.map fun s => (readingPosition ((s.head?.map Block.data).getD default), s)
  let sorted :=
    if placed.any fun x => x.1 = .nan then Order.blockwise readsBefore placed
    else Order.insertion readsBefore placed
  sorted.map (·.2)

/-- Every block that counts, stack by stack. -/
def everyBlock (w : Workspace) : List Block := w.tops.flatMap Stack.descendants

def lookup? (w : Workspace) (id : String) : Option Variable := w.vars.find? (·.id = id)

def variableName? (w : Workspace) (id : String) : Option String := (w.lookup? id).map (·.name)

/-- The variables a block refers to: by its fields, then by the parameters it defines. What is not
declared stands for itself. -/
def mentioned (w : Workspace) (b : BlockData) : List Variable :=
  let ofField (f : Field) : Option Variable :=
    if f.variableId = "" then none
    else some ((w.lookup? f.variableId).getD ⟨f.variableId, f.variableId, ""⟩)
  let ofParam (p : Param) : Variable :=
    let id := if p.id = "" then p.name else p.id
    (w.lookup? id).getD ⟨id, p.name, ""⟩
  b.fields.filterMap ofField ++
    (if b.isProcedureDefinition then b.mutation.params.map ofParam else [])

def addNew (known : List Variable) : List Variable → List Variable
  | [] => known
  | v :: vs => if known.any (·.id = v.id) then addNew known vs else addNew (known ++ [v]) vs

/-- The variables in use, one for each id, in order of first mention. -/
def usedVariables (w : Workspace) : List Variable :=
  addNew [] (w.everyBlock.flatMap fun b => w.mentioned b.data)

end Workspace

end BlockProgram
