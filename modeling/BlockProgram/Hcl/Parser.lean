import BlockProgram.Hcl.Scanner
import BlockProgram.Hcl.Template

/-! Reading expressions from tokens. Line ends count in some places and not in others: they part the
members of an object and end an attribute, and inside parentheses, brackets and sequences they are
skipped. A reading that fails tells where. -/
namespace BlockProgram.Hcl

abbrev Tokens := List Located

def placeOf (ts : Tokens) : Pos := (ts.head?.map (·.start)).getD {}

/-- The tokens from the next one on that counts. -/
def skip (lines : Bool) (ts : Tokens) : Tokens :=
  if lines then ts else ts.dropWhile fun t => t.token == .newline

def fault {α : Type} (ts : Tokens) : Except Pos (α × Tokens) := .error (placeOf ts)

def expect (lines : Bool) (s : Sign) (ts : Tokens) : Except Pos Tokens :=
  match skip lines ts with
  | ⟨.sign t, p⟩ :: rest => if t = s then .ok rest else .error p
  | rest => .error (placeOf rest)

def takeWord (lines : Bool) (ts : Tokens) : Except Pos (String × Tokens) :=
  match skip lines ts with
  | ⟨.word w, _⟩ :: rest => .ok (w, rest)
  | rest => fault rest

/-- The operation a sign stands for, and how tightly it binds. -/
def Token.operator? : Token → Option (BinaryOp × Nat)
  | .sign .either => some (.either, 0)
  | .sign .both => some (.both, 1)
  | .sign .equal => some (.equal, 2)
  | .sign .notEqual => some (.notEqual, 2)
  | .sign .greater => some (.greater, 3)
  | .sign .greaterEqual => some (.greaterEqual, 3)
  | .sign .less => some (.less, 3)
  | .sign .lessEqual => some (.lessEqual, 3)
  | .sign .plus => some (.add, 4)
  | .sign .minus => some (.subtract, 4)
  | .sign .star => some (.multiply, 5)
  | .sign .slash => some (.divide, 5)
  | .sign .percent => some (.modulo, 5)
  | _ => none

def numberLiteral? (spelling : String) : Option Expr :=
  (Number.Wide.read? spelling).map fun x => .literal (.number x)

/-- Whether a key can be looked up without evaluating anything. -/
def Expr.isFixedKey : Expr → Bool
  | .literal _ => true
  | .template [.literal (.string _)] => true
  | _ => false

/-- Whether an expression is a name with fixed steps after it. -/
def Expr.isPath : Expr → Bool
  | .reference _ => true
  | .select e _ => e.isPath
  | .index e k => e.isPath && k.isFixedKey
  | _ => false

/-- The key an expression stands for in an object. A lone name is the name itself. -/
def Expr.asKey : Expr → Expr
  | .reference name => .literal (.text name)
  | .literal (.null _) => .literal (.string "null")
  | .literal (.bool b) => .literal (.string (if b then "true" else "false"))
  | e => if e.isPath then .ambiguous else e

mutual

/-- Reads an expression. Every call has less fuel than its caller. -/
def expression : Nat → Bool → Tokens → Except Pos (Expr × Tokens)
  | 0, _, ts => fault ts
  | fuel + 1, lines, ts => do
    let (condition, ts) ← operation fuel lines 0 ts
    match skip lines ts with
    | ⟨.sign .question, _⟩ :: rest =>
      let (yes, rest) ← expression fuel lines rest
      let rest ← expect lines .colon rest
      let (no, rest) ← expression fuel lines rest
      return (.conditional condition yes no, rest)
    | _ => return (condition, ts)

/-- Reads operations that bind at least as tightly as `level`. -/
def operation : Nat → Bool → Nat → Tokens → Except Pos (Expr × Tokens)
  | 0, _, _, ts => fault ts
  | fuel + 1, lines, level, ts => do
    let (left, ts) ← operand fuel lines ts
    operationRest fuel lines level left ts

/-- Reads the operators and operands after the first one. -/
def operationRest : Nat → Bool → Nat → Expr → Tokens → Except Pos (Expr × Tokens)
  | 0, _, _, _, ts => fault ts
  | fuel + 1, lines, level, left, ts =>
    match skip lines ts with
    | t :: rest =>
      match t.token.operator? with
      | some (op, tightness) =>
        if level ≤ tightness then do
          let (right, rest) ← operation fuel lines (tightness + 1) rest
          operationRest fuel lines level (.binary op left right) rest
        else .ok (left, ts)
      | none => .ok (left, ts)
    | [] => .ok (left, ts)

/-- Reads an operand: a term, and the steps into it. -/
def operand : Nat → Bool → Tokens → Except Pos (Expr × Tokens)
  | 0, _, ts => fault ts
  | fuel + 1, lines, ts => do
    let (e, ts) ← term fuel lines ts
    steps fuel lines e ts

def term : Nat → Bool → Tokens → Except Pos (Expr × Tokens)
  | 0, _, ts => fault ts
  | fuel + 1, lines, ts =>
    match skip lines ts with
    | ⟨.sign .openParen, _⟩ :: rest => do
      let (e, rest) ← expression fuel false rest
      let rest ← expect false .closeParen rest
      return (.wrapped e, rest)
    | ⟨.number spelling, p⟩ :: rest =>
      match numberLiteral? spelling with
      | some e => .ok (e, rest)
      | none => .error p
    | ⟨.word name, _⟩ :: rest =>
      match skip lines rest with
      | ⟨.sign .openParen, _⟩ :: rest => arguments fuel rest
      | ⟨.sign .doubleColon, _⟩ :: rest => scopedCall fuel lines rest
      | _ =>
        .ok (match name with
          | "true" => .literal (.bool true)
          | "false" => .literal (.bool false)
          | "null" => .literal (.null .dynamic)
          | name => .reference name, rest)
    | ⟨.openQuote, p⟩ :: rest => do
      let (pieces, rest) ← pieces fuel .closeQuote rest
      match templateExpr false pieces with
      | some e => return (e, rest)
      | none => throw p
    | ⟨.openHeredoc flush, p⟩ :: rest => do
      let (pieces, rest) ← pieces fuel .closeHeredoc rest
      match templateExpr flush pieces with
      | some e => return (e, rest)
      | none => throw p
    | ⟨.sign .minus, _⟩ :: rest => do
      let (e, rest) ← operand fuel lines rest
      return (.unary .negate e, rest)
    | ⟨.sign .bang, _⟩ :: rest => do
      let (e, rest) ← operand fuel lines rest
      return (.unary .invert e, rest)
    | ⟨.sign .openBracket, _⟩ :: rest =>
      match skip false rest with
      | ⟨.word "for", _⟩ :: rest => loopExpr fuel false rest
      | _ => do
        let (items, rest) ← items fuel rest
        return (.tuple items, rest)
    | ⟨.sign .openBrace, _⟩ :: rest =>
      match skip false rest with
      | ⟨.word "for", _⟩ :: rest => loopExpr fuel true rest
      | _ => do
        let (items, rest) ← members fuel rest
        return (.object items, rest)
    | rest => fault rest

/-- Reads the rest of the name of a function in a namespace, and its arguments. -/
def scopedCall : Nat → Bool → Tokens → Except Pos (Expr × Tokens)
  | 0, _, ts => fault ts
  | fuel + 1, lines, ts => do
    let (_, rest) ← takeWord lines ts
    match skip lines rest with
    | ⟨.sign .openParen, _⟩ :: rest => arguments fuel rest
    | ⟨.sign .doubleColon, _⟩ :: rest => scopedCall fuel lines rest
    | rest => fault rest

def arguments : Nat → Tokens → Except Pos (Expr × Tokens)
  | 0, ts => fault ts
  | fuel + 1, ts =>
    match skip false ts with
    | ⟨.sign .closeParen, _⟩ :: rest => .ok (.call, rest)
    | ts => do
      let (_, rest) ← expression fuel false ts
      match skip false rest with
      | ⟨.sign .closeParen, _⟩ :: rest => return (.call, rest)
      | ⟨.sign .ellipsis, _⟩ :: rest =>
        let rest ← expect false .closeParen rest
        return (.call, rest)
      | ⟨.sign .comma, _⟩ :: rest => arguments fuel rest
      | rest => fault rest

/-- Reads the steps after a term: attributes, indices and splats. -/
def steps : Nat → Bool → Expr → Tokens → Except Pos (Expr × Tokens)
  | 0, _, _, ts => fault ts
  | fuel + 1, lines, e, ts =>
    match skip lines ts with
    | ⟨.sign .dot, _⟩ :: rest =>
      match skip lines rest with
      | ⟨.word name, _⟩ :: rest => steps fuel lines (.select e name) rest
      | ⟨.number spelling, p⟩ :: rest =>
        match numberLiteral? spelling with
        | some k =>
          if spelling.toList.contains '.' then .error p
          else steps fuel lines (.index e k) rest
        | none => .error p
      | ⟨.sign .star, _⟩ :: rest => do
        let (each, rest) ← plainSteps fuel lines .item rest
        steps fuel lines (.splat e each) rest
      | rest => fault rest
    | ⟨.sign .openBracket, _⟩ :: rest =>
      match skip lines rest with
      | ⟨.sign .star, _⟩ :: rest => do
        let rest ← expect lines .closeBracket rest
        let (each, rest) ← steps fuel lines .item rest
        steps fuel lines (.splat e each) rest
      | _ => do
        let (k, rest) ← expression fuel false rest
        let rest ← expect false .closeBracket rest
        steps fuel lines (.index e k) rest
    | _ => .ok (e, ts)

/-- Reads the steps of a splat that takes attributes only. -/
def plainSteps : Nat → Bool → Expr → Tokens → Except Pos (Expr × Tokens)
  | 0, _, _, ts => fault ts
  | fuel + 1, lines, e, ts =>
    match skip lines ts with
    | ⟨.sign .dot, _⟩ :: rest =>
      match skip lines rest with
      | ⟨.word name, _⟩ :: rest => plainSteps fuel lines (.select e name) rest
      | ⟨.number spelling, p⟩ :: rest =>
        match numberLiteral? spelling with
        | some k => plainSteps fuel lines (.index e k) rest
        | none => .error p
      | rest => fault rest
    | _ => .ok (e, ts)

def items : Nat → Tokens → Except Pos ((List Expr) × Tokens)
  | 0, ts => fault ts
  | fuel + 1, ts =>
    match skip false ts with
    | ⟨.sign .closeBracket, _⟩ :: rest => .ok ([], rest)
    | ts => do
      let (e, rest) ← expression fuel false ts
      match skip false rest with
      | ⟨.sign .closeBracket, _⟩ :: rest => return ([e], rest)
      | ⟨.sign .comma, _⟩ :: rest =>
        let (es, rest) ← items fuel rest
        return (e :: es, rest)
      | rest => fault rest

/-- Reads the members of an object and its closing brace. A comma or a line end parts two
members. -/
def members : Nat → Tokens → Except Pos ((List (Expr × Expr)) × Tokens)
  | 0, ts => fault ts
  | fuel + 1, ts =>
    match ts with
    | ⟨.newline, _⟩ :: rest => members fuel rest
    | ⟨.sign .closeBrace, _⟩ :: rest => .ok ([], rest)
    | ts => do
      let inParens := match ts with | ⟨.sign .openParen, _⟩ :: _ => true | _ => false
      let (k, rest) ← expression fuel true ts
      let key := if inParens then k else k.asKey
      let rest ←
        match rest with
        | ⟨.sign .assign, _⟩ :: rest => pure rest
        | rest => expect true .colon rest
      let (v, rest) ← expression fuel true rest
      match rest with
      | ⟨.sign .closeBrace, _⟩ :: rest => return ([(key, v)], rest)
      | ⟨.sign .comma, _⟩ :: rest =>
        let (ms, rest) ← members fuel rest
        return ((key, v) :: ms, rest)
      | ⟨.newline, _⟩ :: rest =>
        let (ms, rest) ← members fuel rest
        return ((key, v) :: ms, rest)
      | rest => fault rest

def loopHead : Nat → Tokens → Except Pos ((String × String × Expr) × Tokens)
  | 0, ts => fault ts
  | fuel + 1, ts => do
    let (first, rest) ← takeWord false ts
    let (names, rest) ←
      match skip false rest with
      | ⟨.sign .comma, _⟩ :: rest => do
        let (second, rest) ← takeWord false rest
        pure ((first, second), rest)
      | rest => pure (("", first), rest)
    match skip false rest with
    | ⟨.word "in", _⟩ :: rest =>
      let (source, rest) ← expression fuel false rest
      return ((names.1, names.2, source), rest)
    | rest => fault rest

/-- Reads a loop in brackets or braces, after its first word. -/
def loopExpr : Nat → Bool → Tokens → Except Pos (Expr × Tokens)
  | 0, _, ts => fault ts
  | fuel + 1, braces, ts => do
    let ((keyName, valueName, source), rest) ← loopHead fuel ts
    let rest ← expect false .colon rest
    let (first, rest) ← expression fuel false rest
    let ((key, result), rest) ←
      match skip false rest with
      | ⟨.sign .arrow, _⟩ :: rest => do
        let (second, rest) ← expression fuel false rest
        pure ((some first, second), rest)
      | rest => pure ((none, first), rest)
    let (group, rest) :=
      match skip false rest with
      | ⟨.sign .ellipsis, _⟩ :: rest => (true, rest)
      | rest => (false, rest)
    let (condition, rest) ←
      match skip false rest with
      | ⟨.word "if", _⟩ :: rest => expression fuel false rest
      | rest => pure (.literal (.bool true), rest)
    let rest ← expect false (if braces then .closeBrace else .closeBracket) rest
    match braces, key with
    | true, some key =>
      return (.forObject keyName valueName source key result condition group, rest)
    | false, none =>
      if group then fault ts
      else return (.forTuple keyName valueName source result condition, rest)
    | _, _ => fault ts

/-- Reads the pieces of a text up to its closing token. -/
def pieces : Nat → Token → Tokens → Except Pos ((List TrimmedPiece) × Tokens)
  | 0, _, ts => fault ts
  | fuel + 1, closer, ts =>
    match ts with
    | ⟨.quotedText cs, p⟩ :: rest =>
      match unescape true cs with
      | some cs => do
        let (ps, rest) ← pieces fuel closer rest
        return (⟨.literal cs, false, false⟩ :: ps, rest)
      | none => .error p
    | ⟨.plainText cs, p⟩ :: rest =>
      match unescape false cs with
      | some cs => do
        let (ps, rest) ← pieces fuel closer rest
        return (⟨.literal cs, false, false⟩ :: ps, rest)
      | none => .error p
    | ⟨.openValue before, _⟩ :: rest => do
      let (e, rest) ← expression fuel false rest
      match skip false rest with
      | ⟨.closeSequence after, _⟩ :: rest =>
        let (ps, rest) ← pieces fuel closer rest
        return (⟨.value e, before, after⟩ :: ps, rest)
      | rest => fault rest
    | ⟨.openControl before, _⟩ :: rest => do
      let (piece, rest) ← directive fuel rest
      match skip false rest with
      | ⟨.closeSequence after, _⟩ :: rest =>
        let (ps, rest) ← pieces fuel closer rest
        return (⟨piece, before, after⟩ :: ps, rest)
      | rest => fault rest
    | t :: rest => if t.token == closer then .ok ([], rest) else .error t.start
    | [] => .error {}

def directive : Nat → Tokens → Except Pos (Piece × Tokens)
  | 0, ts => fault ts
  | fuel + 1, ts => do
    let (word, rest) ← takeWord false ts
    match word with
    | "if" =>
      let (c, rest) ← expression fuel false rest
      return (.whether c, rest)
    | "else" => return (.otherwise, rest)
    | "endif" => return (.endWhether, rest)
    | "for" =>
      let ((k, v, source), rest) ← loopHead fuel rest
      return (.loop k v source, rest)
    | "endfor" => return (.endLoop, rest)
    | _ => fault ts

end

end BlockProgram.Hcl
