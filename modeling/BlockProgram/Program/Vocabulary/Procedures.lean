import BlockProgram.Program.Scene

/-! Procedures and variables. -/
namespace BlockProgram.Vocabulary

def variableNames : List String → Emit (List String)
  | [] => return []
  | v :: vs => do
    let name ← Emit.variableName v
    let names ← variableNames vs
    return name :: names

def parameterNames (s : Scene) : Emit (List String) := variableNames s.data.paramNames

def argumentList (s : Scene) : List Nat → Emit (List String)
  | [] => return []
  | i :: rest => do
    let argument ← Emit.valueOrElse s ("ARG" ++ toString i) .loosest "null"
    let arguments ← argumentList s rest
    return argument :: arguments

def arguments (s : Scene) : Emit (List String) :=
  argumentList s (List.range s.data.mutation.params.length)

/-- The function of a procedure with the given identifier: its name and its text. The body is
entered with the hooks of the block and the loop trap; the hooks run again before a value is
returned. -/
def procedureFunction (s : Scene) (name : String) : Emit (Option (String × String)) := do
  let o ← Emit.options
  let hooks := Emit.hook o.statementPrefix s.data ++ Emit.hook o.statementSuffix s.data
  let entry := if hooks = "" then "" else Text.prependLines o.indent hooks
  let trap := Emit.indentedHook o.indent o.infiniteLoopTrap s.data
  let body ← Emit.statements s "STACK"
  let value ← Emit.value s "RETURN" .loosest
  let again := if body ≠ "" && value ≠ "" then entry else ""
  let returned := if value = "" then "" else o.indent ++ "return " ++ value ++ ";\n"
  let type := if value = "" then "void" else "dynamic"
  let params ← parameterNames s
  let code := type ++ " " ++ name ++ "(" ++ Text.join ", " params ++ ") \x7b\n" ++
    entry ++ trap ++ body ++ again ++ returned ++ "\x7d"
  let code ← Emit.withNeighbours s code
  return some (name, code)

/-- Stores a function under a key that no helper function has. -/
def storeFunction : Option (String × String) → Emit Fragment
  | none => return .handled
  | some (name, code) => do
    Emit.define ("%" ++ name) code
    return .handled

def procedureDefinition : Handler := fun s => do
  let name ← Emit.procedureName (s.field "NAME")
  let function ← procedureFunction s name
  storeFunction function

def callCode (s : Scene) : Emit String := do
  let name ← Emit.procedureName (s.field "NAME")
  let args ← arguments s
  return name ++ "(" ++ Text.join ", " args ++ ")"

def procedureCallReturn : Handler := fun s => do
  return .expression (← callCode s) .unaryPostfix

def procedureCallNoReturn : Handler := fun s => do
  return .statement ((← callCode s) ++ ";\n")

/-- Returns if a condition holds. Nothing behind a return runs, so the suffix comes first. -/
def procedureIfReturn : Handler := fun s => do
  let o ← Emit.options
  let condition ← Emit.valueOrElse s "CONDITION" .loosest "false"
  let suffix := Emit.indentedHook o.indent o.statementSuffix s.data
  let returned ←
    if s.data.mutation.hasReturnValue then do
      let value ← Emit.valueOrElse s "VALUE" .loosest "null"
      pure (o.indent ++ "return " ++ value ++ ";\n")
    else pure (o.indent ++ "return;\n")
  return .statement ("if (" ++ condition ++ ") \x7b\n" ++ suffix ++ returned ++ "\x7d\n")

def variableGet : Handler := fun s => do
  return .expression (← Emit.variableName (s.field "VAR")) .atomic

def variableSet : Handler := fun s => do
  let value ← Emit.valueOrElse s "VALUE" .assignment "0"
  let name ← Emit.variableName (s.field "VAR")
  return .statement (name ++ " = " ++ value ++ ";\n")

def procedures : Vocabulary := [
  ("procedures_defreturn", ⟨procedureDefinition, { ownHooks := true, definesProcedure := true }⟩),
  ("procedures_defnoreturn", ⟨procedureDefinition, { ownHooks := true, definesProcedure := true }⟩),
  ("procedures_callreturn", ⟨procedureCallReturn, {}⟩),
  ("procedures_callnoreturn", ⟨procedureCallNoReturn, {}⟩),
  ("procedures_ifreturn", ⟨procedureIfReturn, { ownHooks := true }⟩),
  ("variables_get", ⟨variableGet, {}⟩),
  ("variables_set", ⟨variableSet, {}⟩),
  ("variables_get_dynamic", ⟨variableGet, {}⟩),
  ("variables_set_dynamic", ⟨variableSet, {}⟩)]

end BlockProgram.Vocabulary
