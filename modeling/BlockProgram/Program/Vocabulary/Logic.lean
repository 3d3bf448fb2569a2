import BlockProgram.Program.Scene

/-! Conditionals, comparisons and logical operators. -/
namespace BlockProgram.Vocabulary

/-- A branch of a conditional: its statements, with the suffix of the conditional in front. -/
def branch (s : Scene) (name : String) : Emit String := do
  let body ← Emit.statements s name
  let o ← Emit.options
  return Emit.indentedHook o.indent o.statementSuffix s.data ++ body

def arm (s : Scene) (n : Nat) : Emit String := do
  let condition ← Emit.valueOrElse s ("IF" ++ toString n) .loosest "false"
  let body ← branch s ("DO" ++ toString n)
  return (if n = 0 then "" else "else ") ++ "if (" ++ condition ++ ") \x7b\n" ++ body ++ "\x7d"

/-- The arms from number `n` on, as long as the block has a socket for the next condition. A block
has at most one such socket more than it has sockets written down and arms counted. -/
def arms (s : Scene) : Nat → Nat → Emit String
  | 0, _ => return ""
  | fuel + 1, n => do
    if n = 0 || s.block.hasSocket ("IF" ++ toString n) then
      let first ← arm s n
      let rest ← arms s fuel (n + 1)
      return first ++ rest
    else return ""

/-- A conditional. It places its hooks itself: the prefix once in front, the suffix at the start of
every branch. With a suffix in use there is always an else branch to hold it. -/
def controlsIf : Handler := fun s => do
  let o ← Emit.options
  let fuel := s.block.sockets.length + s.data.mutation.elseIfCount.toNat + 2
  let chain ← arms s fuel 0
  let otherwise ←
    if s.block.hasSocket "ELSE" || o.statementSuffix ≠ "" then do
      let body ← branch s "ELSE"
      pure (" else \x7b\n" ++ body ++ "\x7d")
    else pure ""
  return .statement (Emit.hook o.statementPrefix s.data ++ chain ++ otherwise ++ "\n")

def comparison? : String → Option String
  | "EQ" => some "=="
  | "NEQ" => some "!="
  | "LT" => some "<"
  | "LTE" => some "<="
  | "GT" => some ">"
  | "GTE" => some ">="
  | _ => none

/-- A comparison. Its operands must bind tighter than the operator, because comparisons do not
chain. -/
def logicCompare : Handler := fun s => do
  match comparison? (s.field "OP") with
  | none => Emit.fail .option s.data ("unknown comparison " ++ Text.quoted (s.field "OP"))
  | some op =>
    let p : Precedence := if op = "==" || op = "!=" then .equality else .relational
    let a ← Emit.valueOrElse s "A" p.tighter "0"
    let b ← Emit.valueOrElse s "B" p.tighter "0"
    return .expression (a ++ " " ++ op ++ " " ++ b) p

/-- Logical and, and logical or. One missing operand is the neutral one; two are both false. -/
def logicOperation : Handler := fun s => do
  let isAnd := s.field "OP" = "AND"
  let p : Precedence := if isAnd then .logicalAnd else .logicalOr
  let op := if isAnd then "&&" else "||"
  let neutral := if isAnd then "true" else "false"
  let a ← Emit.value s "A" p
  let b ← Emit.value s "B" p
  let (a, b) :=
    if a = "" && b = "" then ("false", "false")
    else (if a = "" then neutral else a, if b = "" then neutral else b)
  return .expression (a ++ " " ++ op ++ " " ++ b) p

def logicNegate : Handler := fun s => do
  let a ← Emit.valueOrElse s "BOOL" .unaryPrefix "true"
  return .expression ("!" ++ a) .unaryPrefix

def logicBoolean : Handler := fun s =>
  return .expression (if s.field "BOOL" = "TRUE" then "true" else "false") .atomic

def logicNull : Handler := fun _ => return .expression "null" .atomic

/-- A conditional expression. A conditional in place of the condition would group to the right, so
it must bind tighter there. -/
def logicTernary : Handler := fun s => do
  let condition ← Emit.valueOrElse s "IF" Precedence.conditional.tighter "false"
  let yes ← Emit.valueOrElse s "THEN" .conditional "null"
  let no ← Emit.valueOrElse s "ELSE" .conditional "null"
  return .expression (condition ++ " ? " ++ yes ++ " : " ++ no) .conditional

def logic : Vocabulary := [
  ("controls_if", ⟨controlsIf, { ownHooks := true }⟩),
  ("controls_ifelse", ⟨controlsIf, { ownHooks := true }⟩),
  ("logic_compare", ⟨logicCompare, {}⟩),
  ("logic_operation", ⟨logicOperation, {}⟩),
  ("logic_negate", ⟨logicNegate, {}⟩),
  ("logic_boolean", ⟨logicBoolean, {}⟩),
  ("logic_null", ⟨logicNull, {}⟩),
  ("logic_ternary", ⟨logicTernary, {}⟩)]

end BlockProgram.Vocabulary
