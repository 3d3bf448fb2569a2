/-! The precedence of expressions in the target language. A lower rank binds tighter; an expression
is put in parentheses exactly when it binds more loosely than the place it goes to allows. -/
namespace BlockProgram

/-- How tightly an expression binds. -/
structure Precedence where
  rank : Int
deriving DecidableEq

namespace Precedence

/-- Literals and identifiers. -/
def atomic : Precedence := ⟨0⟩
/-- Calls, subscripts and members. -/
def unaryPostfix : Precedence := ⟨1⟩
def unaryPrefix : Precedence := ⟨2⟩
def multiplicative : Precedence := ⟨3⟩
def additive : Precedence := ⟨4⟩
def shift : Precedence := ⟨5⟩
def bitwiseAnd : Precedence := ⟨6⟩
def bitwiseXor : Precedence := ⟨7⟩
def bitwiseOr : Precedence := ⟨8⟩
def relational : Precedence := ⟨9⟩
def equality : Precedence := ⟨10⟩
def logicalAnd : Precedence := ⟨11⟩
def logicalOr : Precedence := ⟨12⟩
/-- A default for a missing value. -/
def ifNull : Precedence := ⟨13⟩
def conditional : Precedence := ⟨14⟩
def cascade : Precedence := ⟨15⟩
def assignment : Precedence := ⟨16⟩
/-- Between parentheses or commas, where everything may stand. -/
def loosest : Precedence := ⟨99⟩

def name (p : Precedence) : String :=
  match p.rank with
  | 0 => "atomic"
  | 1 => "unary-postfix"
  | 2 => "unary-prefix"
  | 3 => "multiplicative"
  | 4 => "additive"
  | 5 => "shift"
  | 6 => "bitwise-and"
  | 7 => "bitwise-xor"
  | 8 => "bitwise-or"
  | 9 => "relational"
  | 10 => "equality"
  | 11 => "logical-and"
  | 12 => "logical-or"
  | 13 => "if-null"
  | 14 => "conditional"
  | 15 => "cascade"
  | 16 => "assignment"
  | 99 => "none"
  | r => "order(" ++ toString r ++ ")"

/-- One step tighter; nothing binds tighter than an atom. -/
def tighter (p : Precedence) : Precedence := if p.rank = 0 then p else ⟨p.rank - 1⟩

/-- Puts an expression of precedence `inner` where `outer` is allowed. -/
def enclose (code : String) (inner outer : Precedence) : String :=
  if outer.rank < inner.rank then "(" ++ code ++ ")" else code

end Precedence

end BlockProgram
