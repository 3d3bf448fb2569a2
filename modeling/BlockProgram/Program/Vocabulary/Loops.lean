import BlockProgram.Program.Scene

/-! Loops, and the jumps out of them. -/
namespace BlockProgram.Vocabulary

def loopKinds : List String :=
  ["controls_repeat", "controls_repeat_ext", "controls_forEach", "controls_for",
    "controls_whileUntil"]

/-- Whether a bound may be written more than once: a name or a plain number. -/
def isRepeatable (code : String) : Bool := Literal.isWord code || Number.isLiteral code

/-- A bound that is evaluated once: itself if it may be repeated, or else a fresh variable and its
declaration. -/
def onceEvaluated (seed code : String) : Emit (String × String) := do
  if isRepeatable code then return ("", code)
  let name ← Emit.freshVariable seed
  return ("var " ++ name ++ " = " ++ code ++ ";\n", name)

def controlsRepeat : Handler := fun s => do
  let times ←
    if s.data.hasField "TIMES" then pure (Number.format (Number.parse (s.field "TIMES")))
    else Emit.valueOrElse s "TIMES" .assignment "0"
  let statements ← Emit.statements s "DO"
  let body ← Emit.loopBody s statements
  let counter ← Emit.freshVariable "count"
  let (declaration, limit) ← onceEvaluated "repeat_end" times
  return .statement (declaration ++ "for (int " ++ counter ++ " = 0; " ++ counter ++ " < " ++ limit ++
    "; " ++ counter ++ "++) \x7b\n" ++ body ++ "\x7d\n")

def controlsWhileUntil : Handler := fun s => do
  let untilMode := s.field "MODE" = "UNTIL"
  let condition ← Emit.valueOrElse s "BOOL" (if untilMode then .unaryPrefix else .loosest) "false"
  let statements ← Emit.statements s "DO"
  let body ← Emit.loopBody s statements
  let condition := if untilMode then "!" ++ condition else condition
  return .statement ("while (" ++ condition ++ ") \x7b\n" ++ body ++ "\x7d\n")

/-- The header of a counting loop whose bounds are plain numbers: direction and step are fixed. -/
def staticHeader (v first last step : String) : String :=
  let up := (Number.parse first).le (Number.parse last)
  let size := (Number.parse step).abs
  let change :=
    if size.same (Number.binary64.ofInt 1) then (if up then "++" else "--")
    else (if up then " += " else " -= ") ++ Number.format size
  "for (" ++ v ++ " = " ++ first ++ "; " ++ v ++ (if up then " <= " else " >= ") ++ last ++ "; " ++
    v ++ change ++ ") \x7b\n"

/-- Counts a variable from one bound to another. Bounds that are not plain numbers are evaluated
once, and the direction is found before the first round. -/
def controlsFor : Handler := fun s => do
  let v ← Emit.variableName (s.field "VAR")
  let first ← Emit.valueOrElse s "FROM" .assignment "0"
  let last ← Emit.valueOrElse s "TO" .assignment "0"
  let step ← Emit.valueOrElse s "BY" .assignment "1"
  let statements ← Emit.statements s "DO"
  let body ← Emit.loopBody s statements
  if Number.isLiteral first && Number.isLiteral last && Number.isLiteral step then
    return .statement (staticHeader v first last step ++ body ++ "\x7d\n")
  let o ← Emit.options
  let (declareStart, start) ← onceEvaluated (v ++ "_start") first
  let (declareEnd, limit) ← onceEvaluated (v ++ "_end") last
  let inc ← Emit.freshVariable (v ++ "_inc")
  let size :=
    if Number.isLiteral step then Number.format (Number.parse step).abs ++ ";\n"
    else "(" ++ step ++ ").abs();\n"
  return .statement (declareStart ++ declareEnd ++ "num " ++ inc ++ " = " ++ size ++
    "if (" ++ start ++ " > " ++ limit ++ ") \x7b\n" ++
    o.indent ++ inc ++ " = -" ++ inc ++ ";\n" ++
    "\x7d\n" ++
    "for (" ++ v ++ " = " ++ start ++ "; " ++ inc ++ " >= 0 ? " ++ v ++ " <= " ++ limit ++ " : " ++
    v ++ " >= " ++ limit ++ "; " ++ v ++ " += " ++ inc ++ ") \x7b\n" ++ body ++ "\x7d\n")

def controlsForEach : Handler := fun s => do
  let v ← Emit.variableName (s.field "VAR")
  let list ← Emit.valueOrElse s "LIST" .assignment Literal.emptyList
  let statements ← Emit.statements s "DO"
  let body ← Emit.loopBody s statements
  return .statement ("for (var " ++ v ++ " in " ++ list ++ ") \x7b\n" ++ body ++ "\x7d\n")

def enclosingLoop? (p : Place) : Option BlockData :=
  p.enclosing.find? fun b => loopKinds.contains b.type

/-- A jump. Nothing behind it runs, so its hooks come first, and then the prefix of the loop it
belongs to. -/
def controlsFlow : Handler := fun s => do
  let setting ← read
  let o := setting.options
  let ofLoop : String :=
    match enclosingLoop? s.place with
    | some loop =>
      match setting.flags loop.type with
      | some flags => if flags.ownHooks then "" else Emit.hook o.statementPrefix loop
      | none => ""
    | none => ""
  let hooks := Emit.hook o.statementPrefix s.data ++ Emit.hook o.statementSuffix s.data ++ ofLoop
  match s.field "FLOW" with
  | "BREAK" => return .statement (hooks ++ "break;\n")
  | "CONTINUE" => return .statement (hooks ++ "continue;\n")
  | flow => Emit.fail .option s.data ("unknown flow statement " ++ Text.quoted flow)

def loops : Vocabulary := [
  ("controls_repeat_ext", ⟨controlsRepeat, {}⟩),
  ("controls_repeat", ⟨controlsRepeat, {}⟩),
  ("controls_whileUntil", ⟨controlsWhileUntil, {}⟩),
  ("controls_for", ⟨controlsFor, {}⟩),
  ("controls_forEach", ⟨controlsForEach, {}⟩),
  ("controls_flow_statements", ⟨controlsFlow, { ownHooks := true }⟩)]

end BlockProgram.Vocabulary
