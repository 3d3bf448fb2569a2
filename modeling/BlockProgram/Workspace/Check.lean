import BlockProgram.Rule
import BlockProgram.Workspace.Basic
import BlockProgram.Text.Lines
import BlockProgram.Text.Quoted

/-! Checking a workspace: variables with an id and a name, declared once; blocks with a type, with
counts in range, and with fields that refer to variables in scope. All problems are reported. -/
namespace BlockProgram

def mutatorLimit : Int := 1024

inductive Problem where
  | variableIncomplete (index : Nat) (missing : List String)
  | variableRepeated (id : String)
  | nullBlock
  | blockShared (id type : String)
  | noType (id : String)
  | itemCount (id type : String) (count : Int)
  | elseIfCount (id type : String) (count : Int)
  | unknownVariable (id type field variableId : String)
deriving DecidableEq

namespace Problem

def countMessage (id type count : String) (n : Int) : String :=
  "block " ++ id ++ " (" ++ type ++ "): " ++ count ++ " " ++ toString n ++ " outside [0, " ++
    toString mutatorLimit ++ "]"

def message : Problem → String
  | variableIncomplete i missing =>
    "variable " ++ toString i ++ ": " ++
      Text.join "\n" (missing.map fun f => ruleMessage ("Variable." ++ f) f "required")
  | variableRepeated id => "variable id " ++ Text.quoted id ++ " declared twice"
  | nullBlock => "null block"
  | blockShared id type => "block reachable from more than one place: " ++ id ++ " (" ++ type ++ ")"
  | noType id => "block " ++ id ++ " has no type"
  | itemCount id type n => countMessage id type "itemCount" n
  | elseIfCount id type n => countMessage id type "elseIfCount" n
  | unknownVariable id type field v =>
    "block " ++ id ++ " (" ++ type ++ "): field " ++ field ++ " references unknown variable " ++
      Text.quoted v

def messages (ps : List Problem) : String := Text.join "\n" (ps.map message)

end Problem

def Variable.missing (v : Variable) : List String :=
  (if v.id = "" then ["ID"] else []) ++ (if v.name = "" then ["Name"] else [])

/-- The problems of the variables from index `i` on, with the ids met before, and all ids of
complete variables. -/
def checkVariables (i : Nat) (ids : List String) : List Variable → List Problem × List String
  | [] => ([], ids)
  | v :: vs =>
    if v.missing = [] then
      let (problems, all) := checkVariables (i + 1) (ids ++ [v.id]) vs
      (if ids.contains v.id then (.variableRepeated v.id :: problems, all) else (problems, all))
    else
      let (problems, all) := checkVariables (i + 1) ids vs
      (.variableIncomplete i v.missing :: problems, all)

/-- The names under which the parameters of enclosing blocks may be referred to. -/
def paramScope (enclosing : List BlockData) : List String :=
  enclosing.flatMap fun b => b.mutation.params.flatMap fun p => [p.id, p.name]

/-- The problems of one block, given the ids that are declared and those of parameters in scope. -/
def BlockData.problems (declared params : List String) (b : BlockData) : List Problem :=
  let outside (n : Int) : Bool := n < 0 || mutatorLimit < n
  (if b.type = "" then [.noType b.id] else []) ++
  (if outside b.mutation.itemCount then [.itemCount b.id b.type b.mutation.itemCount] else []) ++
  (if outside b.mutation.elseIfCount then
    [.elseIfCount b.id b.type b.mutation.elseIfCount] else []) ++
  b.fields.filterMap fun f =>
    if f.variableId ≠ "" && !declared.contains f.variableId && !params.contains f.variableId then
      some (.unknownVariable b.id b.type f.name f.variableId)
    else none

mutual

def Block.problems (declared : List String) (enclosing : List BlockData) : Block → List Problem
  | .mk d ss =>
    d.problems declared (paramScope enclosing) ++ Socket.listProblems declared (d :: enclosing) ss

def Socket.listProblems (declared : List String) (enclosing : List BlockData) :
    List Socket → List Problem
  | [] => []
  | s :: ss => s.problems declared enclosing ++ Socket.listProblems declared enclosing ss

def Socket.problems (declared : List String) (enclosing : List BlockData) : Socket → List Problem
  | .mk _ _ [] shadow => Stack.problems declared enclosing shadow
  | .mk _ _ (b :: bs) _ =>
    b.problems declared enclosing ++ Stack.problems declared enclosing bs

def Stack.problems (declared : List String) (enclosing : List BlockData) :
    List Block → List Problem
  | [] => []
  | b :: bs => b.problems declared enclosing ++ Stack.problems declared enclosing bs

end

def Workspace.problems (w : Workspace) : List Problem :=
  let (ofVariables, declared) := checkVariables 0 [] w.vars
  ofVariables ++ w.tops.flatMap (Stack.problems declared [])

end BlockProgram
