import BlockProgram.Program.Scene
import BlockProgram.Proofs.Expression.Code

/-! # Expressions of blocks

`Expression` is what a block that gives a value stands for: literals, variables, arithmetic,
comparisons, logic, conditionals and lengths.  `Block.expression?` reads it off a block, with an
empty socket replaced by the literal that counts for it.

An expression has a text (`Expression.code`, which `Code.print` writes) and a tree
(`Expression.tree`), which is the expression itself but for the operands that regroup.  The code has
this tree (`Expression.code_tree`).
-/
namespace BlockProgram

open Constant

open Grammar (Tree)

/-! ### Expressions -/

inductive MathFunction where
  | absolute | round | roundUp | roundDown
  | root | logarithm | exponential
  | powerOfTen
  | sine | cosine | tangent
  | commonLogarithm
  | arcsine | arccosine | arctangent
deriving DecidableEq

/-- A property of a number that needs no second number. -/
inductive NumberProperty where
  | even | odd | whole | positive | negative
deriving DecidableEq

/-- What a block that gives a value stands for. A variable is given by its id or its name. -/
inductive Expression where
  | number (c : Constant)
  | infinity
  | text (s : String)
  | boolean (b : Bool)
  | null
  | emptyList
  | reference (name : String)
  | binary (op : Operation) (left right : Expression)
  | power (base exponent : Expression)
  | negate (operand : Expression)
  | function (f : MathFunction) (operand : Expression)
  | property (p : NumberProperty) (number : Expression)
  | divisible (number divisor : Expression)
  | prime (number : Expression)
  | constrain (value low high : Expression)
  | not (operand : Expression)
  | conditional (condition yes no : Expression)
  | length (operand : Expression)
deriving DecidableEq

/-- The identifiers of variables, and of helper functions by their key. -/
structure Naming where
  ofVariable : String → Word
  ofHelper : String → Word

namespace MathFunction

/-- How tightly the code of a function binds. Those that end in a product or a quotient bind like
one. -/
def precedence : MathFunction → Precedence
  | commonLogarithm | arcsine | arccosine | arctangent => .multiplicative
  | _ => .unaryPostfix

end MathFunction

namespace Expression

/-- How tightly the code of an expression binds, as it is reported. -/
def precedence : Expression → Precedence
  | number c => if c.isNegative then .unaryPrefix else .atomic
  | text _ | boolean _ | null | emptyList | reference _ => .atomic
  | infinity | power _ _ | prime _ | constrain _ _ _ | length _ => .unaryPostfix
  | function f _ => f.precedence
  | negate _ | not _ => .unaryPrefix
  | binary op _ _ => op.precedence
  | property _ _ | divisible _ _ => .equality
  | conditional _ _ _ => .conditional

end Expression

@[simp] def Expression.variables : Expression → List String
  | reference x => [x]
  | negate a | function _ a | property _ a | prime a | not a | length a => a.variables
  | binary _ a b | power a b | divisible a b => a.variables ++ b.variables
  | constrain a b c | conditional a b c => a.variables ++ (b.variables ++ c.variables)
  | _ => []

/-! ### Trees -/

namespace Grammar.Tree

def math (w : String) : Tree := .member (.name "Math") w

def callTwo (f a b : Tree) : Tree := .call f (.binary .comma a b)

end Grammar.Tree

namespace MathFunction

/-- The tree of a function of the number with tree `a`. Angles are in degrees. -/
def tree (a : Tree) : MathFunction → Tree
  | absolute => .callEmpty (.member a "abs")
  | round => .callEmpty (.member a "round")
  | roundUp => .callEmpty (.member a "ceil")
  | roundDown => .callEmpty (.member a "floor")
  | root => .call (.math "sqrt") a
  | logarithm => .call (.math "log") a
  | exponential => .call (.math "exp") a
  | powerOfTen => .callTwo (.math "pow") ten.tree a
  | sine => .call (.math "sin") (radians a)
  | cosine => .call (.math "cos") (radians a)
  | tangent => .call (.math "tan") (radians a)
  | commonLogarithm => .binary .over (.call (.math "log") a) (.call (.math "log") ten.tree)
  | arcsine => degrees (.call (.math "asin") a)
  | arccosine => degrees (.call (.math "acos") a)
  | arctangent => degrees (.call (.math "atan") a)
where
  radians (a : Tree) : Tree := .binary .times (.binary .over a halfTurn.tree) (.math "pi")
  degrees (a : Tree) : Tree := .binary .times (.binary .over a (.math "pi")) halfTurn.tree

end MathFunction

namespace NumberProperty

def tree (a : Tree) : NumberProperty → Tree
  | even => .binary .equal (.binary .remainder a two.tree) zero.tree
  | odd => .binary .equal (.binary .remainder a two.tree) one.tree
  | whole => .binary .equal (.binary .remainder a one.tree) zero.tree
  | positive => .binary .greater a zero.tree
  | negative => .binary .less a zero.tree

end NumberProperty

namespace Expression

/-- The tree of an expression. It is the expression itself, except that the right operand of a sum,
a product, a conjunction or a disjunction regroups if it has the precedence of the operator
(`Operation.tree`). -/
def tree (ν : Naming) : Expression → Tree
  | number c => c.tree
  | infinity => .member (.name "double") "infinity"
  | text s => .text s
  | boolean b => .name (if b then "true" else "false")
  | null => .name "null"
  | emptyList => .emptyList
  | reference x => .name (ν.ofVariable x).text
  | binary op a b => op.tree (a.tree ν) (b.tree ν) b.precedence
  | power a b => .callTwo (.math "pow") (a.tree ν) (b.tree ν)
  | negate a => .signed .minus (a.tree ν)
  | function f a => f.tree (a.tree ν)
  | property p a => p.tree (a.tree ν)
  | divisible a b => .binary .equal (.binary .remainder (a.tree ν) (b.tree ν)) zero.tree
  | prime a => .call (.name (ν.ofHelper "math_isPrime").text) (a.tree ν)
  | constrain v l h =>
    .callTwo (.math "min") (.callTwo (.math "max") (v.tree ν) (l.tree ν)) (h.tree ν)
  | not a => .signed .bang (a.tree ν)
  | conditional c y n => .conditional (c.tree ν) (y.tree ν) (n.tree ν)
  | length a => .member (a.tree ν) "length"

end Expression

/-! ### Code -/

namespace Code

def math (w : Word) : Code := .member (.name { text := "Math" }) w

def mathCall (w : Word) (a : Code) : Code := .call (math w) .loosest a

end Code

namespace MathFunction

def code (a : Code) : MathFunction → Code
  | absolute => .method a { text := "abs" }
  | round => .method a { text := "round" }
  | roundUp => .method a { text := "ceil" }
  | roundDown => .method a { text := "floor" }
  | root => .mathCall { text := "sqrt" } a
  | logarithm => .mathCall { text := "log" } a
  | exponential => .mathCall { text := "exp" } a
  | powerOfTen => .callTwo (.math { text := "pow" }) true (.number .ten) a
  | sine => .mathCall { text := "sin" } (radians a)
  | cosine => .mathCall { text := "cos" } (radians a)
  | tangent => .mathCall { text := "tan" } (radians a)
  | commonLogarithm =>
    .binary .divide (.mathCall { text := "log" } a) (.mathCall { text := "log" } (.number .ten))
  | arcsine => degrees (.mathCall { text := "asin" } a)
  | arccosine => degrees (.mathCall { text := "acos" } a)
  | arctangent => degrees (.mathCall { text := "atan" } a)
where
  radians (a : Code) : Code :=
    .binary .multiply (.binary .divide a (.number .halfTurn)) (.math { text := "pi" })
  degrees (a : Code) : Code :=
    .binary .multiply (.binary .divide a (.math { text := "pi" })) (.number .halfTurn)

theorem code_precedence (f : MathFunction) (a : Code) : (f.code a).precedence = f.precedence := by
  cases f <;> rfl

theorem code_tree (f : MathFunction) (a : Code) : (f.code a).tree = f.tree a.tree := by
  cases f <;> rfl

end MathFunction

namespace NumberProperty

def code (a : Code) : NumberProperty → Code
  | even => .binary .equal (.binary .remainder a (.number .two)) (.number .zero)
  | odd => .binary .equal (.binary .remainder a (.number .two)) (.number .one)
  | whole => .binary .equal (.binary .remainder a (.number .one)) (.number .zero)
  | positive => .binary .positive a (.number .zero)
  | negative => .binary .negative a (.number .zero)

theorem code_precedence (p : NumberProperty) (a : Code) : (p.code a).precedence = .equality := by
  cases p <;> rfl

theorem code_tree (p : NumberProperty) (a : Code) : (p.code a).tree = p.tree a.tree := by
  cases p <;> rfl

end NumberProperty

namespace Expression

def code (ν : Naming) : Expression → Code
  | number c => .number c
  | infinity => .member (.name { text := "double" }) { text := "infinity" }
  | text s => .text s
  | boolean b => .name (if b then { text := "true" } else { text := "false" })
  | null => .name { text := "null" }
  | emptyList => .emptyList
  | reference x => .name (ν.ofVariable x)
  | binary op a b => .binary op (a.code ν) (b.code ν)
  | power a b => .callTwo (.math { text := "pow" }) false (a.code ν) (b.code ν)
  | negate a => .minus (a.code ν)
  | function f a => f.code (a.code ν)
  | property p a => p.code (a.code ν)
  | divisible a b => .binary .equal (.binary .remainder (a.code ν) (b.code ν)) (.number .zero)
  | prime a => .call (.name (ν.ofHelper "math_isPrime")) .multiplicative (a.code ν)
  | constrain v l h =>
    .callTwo (.math { text := "min" }) false
      (.callTwo (.math { text := "max" }) false (v.code ν) (l.code ν)) (h.code ν)
  | not a => .bang (a.code ν)
  | conditional c y n => .conditional (c.code ν) (y.code ν) (n.code ν)
  | length a => .member (a.code ν) { text := "length" }

def print (e : Expression) (ν : Naming) : String := (e.code ν).print

theorem code_precedence (e : Expression) (ν : Naming) : (e.code ν).precedence = e.precedence := by
  cases e with
  | function f a => exact f.code_precedence _
  | property p a => exact p.code_precedence _
  | _ => rfl

theorem code_tree (e : Expression) (ν : Naming) : (e.code ν).tree = e.tree ν := by
  induction e with
  | boolean b => cases b <;> rfl
  | binary op a b iha ihb =>
    unfold code Code.tree tree
    rw [iha, ihb, code_precedence]
  | function f a ih =>
    unfold code tree
    rw [f.code_tree, ih]
  | property p a ih =>
    unfold code tree
    rw [p.code_tree, ih]
  | divisible a b iha ihb | power a b iha ihb =>
    unfold tree
    rw [← iha, ← ihb]
    rfl
  | constrain a b c iha ihb ihc | conditional a b c iha ihb ihc =>
    unfold tree
    rw [← iha, ← ihb, ← ihc]
    rfl
  | negate a ih | prime a ih | not a ih | length a ih =>
    unfold tree
    rw [← ih]
    rfl
  | _ => rfl

end Expression

/-! ### From blocks to expressions -/

def Constant.parse? (text : String) : Option Constant :=
  match h : Number.parse text with
  | .finite s m e => some ⟨s, m, e, by rw [← h]; exact Number.isCanonical_parse text⟩
  | _ => none

theorem Constant.parse_of_parse? {text : String} {c : Constant} (h : parse? text = some c) :
    Number.parse text = c.value := by
  unfold parse? at h
  split at h
  · rename_i hparse
    cases h
    exact hparse
  · cases h

/-- No comment is in the block or in a value plugged into it. -/
def Block.isSilent (b : Block) : Bool :=
  b.data.comment = "" && b.sockets.all fun s => s.kind ≠ .value || Emit.commentsWithin s.target = ""

/-- What a socket holds: nothing that counts, an expression, or something else. -/
inductive Operand where
  | missing
  | filled (e : Expression)
  | foreign
deriving DecidableEq

namespace Operand

/-- The expression in a socket, or the one that counts for an empty socket. -/
def orElse? (fallback : Expression) : Operand → Option Expression
  | missing => some fallback
  | filled e => some e
  | foreign => none

/-- What a block plugged into a socket amounts to. A disabled block counts for nothing. In a socket
for statements a value comes with its comments, if there are any. -/
def ofBlock (kind : SocketKind) (b : Block) : Option Expression → Operand
  | some e => if b.data.disabled then missing else if kind = .value ∨ b.isSilent then filled e else foreign
  | none => if b.data.disabled then missing else foreign

/-- The operand under a name in a list; there is none under a name that is not listed. -/
def named (operands : List (String × Operand)) (name : String) : Operand :=
  match operands.find? (·.1 = name) with
  | some (_, o) => o
  | none => missing

end Operand

/-- The types of blocks that stand for an expression, up to types that mean the same. -/
inductive BlockKind where
  | number | reference | text | boolean | null
  | arithmetic | modulo | single | property | constrain
  | compare | operation | negate | ternary
  | listLength | textLength
deriving DecidableEq

namespace BlockKind

def ofType? : String → Option BlockKind
  | "math_number" => some .number
  | "variables_get" => some .reference
  | "variables_get_dynamic" => some .reference
  | "text" => some .text
  | "logic_boolean" => some .boolean
  | "logic_null" => some .null
  | "math_arithmetic" => some .arithmetic
  | "math_modulo" => some .modulo
  | "math_single" => some .single
  | "math_round" => some .single
  | "math_trig" => some .single
  | "math_number_property" => some .property
  | "math_constrain" => some .constrain
  | "logic_compare" => some .compare
  | "logic_operation" => some .operation
  | "logic_negate" => some .negate
  | "logic_ternary" => some .ternary
  | "lists_length" => some .listLength
  | "text_length" => some .textLength
  | _ => none

end BlockKind

def Operation.arithmetic? : String → Option Operation
  | "ADD" => some add
  | "MINUS" => some subtract
  | "MULTIPLY" => some multiply
  | "DIVIDE" => some divide
  | _ => none

def Operation.comparison? : String → Option Operation
  | "EQ" => some equal
  | "NEQ" => some unequal
  | "LT" => some less
  | "LTE" => some lessEqual
  | "GT" => some greater
  | "GTE" => some greaterEqual
  | _ => none

namespace MathFunction

def field : MathFunction → String
  | absolute => "ABS"
  | round => "ROUND"
  | roundUp => "ROUNDUP"
  | roundDown => "ROUNDDOWN"
  | root => "ROOT"
  | logarithm => "LN"
  | exponential => "EXP"
  | powerOfTen => "POW10"
  | sine => "SIN"
  | cosine => "COS"
  | tangent => "TAN"
  | commonLogarithm => "LOG10"
  | arcsine => "ASIN"
  | arccosine => "ACOS"
  | arctangent => "ATAN"

def ofField? (s : String) : Option MathFunction :=
  [absolute, round, roundUp, roundDown, root, logarithm, exponential, powerOfTen, sine, cosine, tangent,
    commonLogarithm, arcsine, arccosine, arctangent].find? (·.field = s)

theorem field_of_ofField? {s : String} {f : MathFunction} (h : ofField? s = some f) : f.field = s := by
  have hfield := List.find?_some h
  exact of_decide_eq_true hfield

end MathFunction

namespace NumberProperty

def field : NumberProperty → String
  | even => "EVEN"
  | odd => "ODD"
  | whole => "WHOLE"
  | positive => "POSITIVE"
  | negative => "NEGATIVE"

def ofField? (s : String) : Option NumberProperty :=
  [even, odd, whole, positive, negative].find? (·.field = s)

theorem field_of_ofField? {s : String} {p : NumberProperty} (h : ofField? s = some p) : p.field = s := by
  have hfield := List.find?_some h
  exact of_decide_eq_true hfield

end NumberProperty

namespace BlockKind

/-- Zero, which counts for a missing number. -/
def zero : Expression := .number .zero

def arithmetic? (op : String) (a b : Expression) : Option Expression :=
  if op = "POWER" then some (.power a b) else (Operation.arithmetic? op).map fun o => .binary o a b

def single? (op : String) (a : Expression) : Option Expression :=
  if op = "NEG" then some (.negate a) else (MathFunction.ofField? op).map fun f => .function f a

/-- A test of a number. Nothing to divide by makes it false. -/
def property? (property : String) (a : Expression) (divisor : Operand) : Option Expression :=
  if property = "PRIME" then some (.prime a)
  else if property = "DIVISIBLE_BY" then
    match divisor with
    | .missing => some (.boolean false)
    | .filled b => some (.divisible a b)
    | .foreign => none
  else (NumberProperty.ofField? property).map fun p => .property p a

/-- A conjunction or a disjunction. One missing operand is neutral, and two are false. -/
def operation? (isAnd : Bool) : Operand → Operand → Option Expression
  | .missing, .missing => some (.binary (op isAnd) (.boolean false) (.boolean false))
  | a, b => do
    let a ← a.orElse? (.boolean isAnd)
    let b ← b.orElse? (.boolean isAnd)
    return .binary (op isAnd) a b
where
  op (isAnd : Bool) : Operation := if isAnd then .and else .or

/-- The expression of a block with data `d` and these operands. -/
def expression? (d : BlockData) (operand : String → Operand) : BlockKind → Option Expression
  | number => (parse? (d.fieldValue "NUM")).map .number
  | reference => some (.reference (d.fieldValue "VAR"))
  | text => some (.text (d.fieldValue "TEXT"))
  | boolean => some (.boolean (d.fieldValue "BOOL" = "TRUE"))
  | null => some .null
  | arithmetic => do
    let a ← (operand "A").orElse? zero
    let b ← (operand "B").orElse? zero
    arithmetic? (d.fieldValue "OP") a b
  | modulo => do
    let a ← (operand "DIVIDEND").orElse? zero
    let b ← (operand "DIVISOR").orElse? zero
    return .binary .remainder a b
  | single => do
    let a ← (operand "NUM").orElse? zero
    single? (d.fieldValue "OP") a
  | property =>
    match operand "NUMBER_TO_CHECK" with
    | .missing => some (.boolean false)
    | .filled a => property? (d.fieldValue "PROPERTY") a (operand "DIVISOR")
    | .foreign => none
  | constrain => do
    let value ← (operand "VALUE").orElse? zero
    let low ← (operand "LOW").orElse? zero
    let high ← (operand "HIGH").orElse? .infinity
    return .constrain value low high
  | compare => do
    let a ← (operand "A").orElse? zero
    let b ← (operand "B").orElse? zero
    (Operation.comparison? (d.fieldValue "OP")).map fun o => .binary o a b
  | operation => operation? (d.fieldValue "OP" = "AND") (operand "A") (operand "B")
  | negate => do
    let a ← (operand "BOOL").orElse? (.boolean true)
    return .not a
  | ternary => do
    let condition ← (operand "IF").orElse? (.boolean false)
    let yes ← (operand "THEN").orElse? .null
    let no ← (operand "ELSE").orElse? .null
    return .conditional condition yes no
  | listLength => do
    let a ← (operand "VALUE").orElse? .emptyList
    return .length a
  | textLength => do
    let a ← (operand "VALUE").orElse? (.text "")
    return .length a

end BlockKind

/-- The expression of a block with these operands; `none` if it is of another type, or if an operand
it needs is. -/
def BlockData.expression? (d : BlockData) (operands : List (String × Operand)) : Option Expression :=
  (BlockKind.ofType? d.type).bind (·.expression? d (Operand.named operands))

mutual

def Block.expression? : Block → Option Expression
  | .mk d ss => d.expression? (Socket.operands ss)

def Socket.operands : List Socket → List (String × Operand)
  | [] => []
  | s :: ss => (s.name, s.operand) :: Socket.operands ss

def Socket.operand : Socket → Operand
  | .mk _ kind [] shadow => Stack.operand kind shadow
  | .mk _ kind (b :: _) _ => .ofBlock kind b b.expression?

/-- What a stack in a socket amounts to: its first block. -/
def Stack.operand (kind : SocketKind) : List Block → Operand
  | [] => .missing
  | b :: _ => .ofBlock kind b b.expression?

end

def Block.operand (b : Block) (name : String) : Operand := .named (Socket.operands b.sockets) name

end BlockProgram
