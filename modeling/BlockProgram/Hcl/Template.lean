import BlockProgram.Hcl.Expr
import BlockProgram.Text.Cluster
import BlockProgram.Text.Utf8

/-! Texts with sequences in them. A text is first a row of pieces, literal ones and the sequences
between them; marks that eat white space, and the indentation of a here-document, are taken off the
literal pieces; conditions and loops are then closed, and what remains is an expression. -/
namespace BlockProgram.Hcl

/-- The characters a piece of text stands for. A mark written twice stands for itself; in quotes a
backslash begins an escape, and `none` is an escape that does not exist. -/
def unescape (quoted : Bool) : List Char → Option (List Char)
  | [] => some []
  | '$' :: '$' :: '\x7b' :: r => (unescape quoted r).map fun t => '$' :: '\x7b' :: t
  | '%' :: '%' :: '\x7b' :: r => (unescape quoted r).map fun t => '%' :: '\x7b' :: t
  | '$' :: '$' :: r => (unescape quoted r).map fun t => '$' :: '$' :: t
  | '%' :: '%' :: r => (unescape quoted r).map fun t => '%' :: '%' :: t
  | '\\' :: 'u' :: a :: b :: c :: d :: r =>
    if quoted then
      match Text.hexNumber? [a, b, c, d] with
      | some n => if n.isValidChar then (unescape quoted r).map (Char.ofNat n :: ·) else none
      | none => none
    else (unescape quoted ('u' :: a :: b :: c :: d :: r)).map ('\\' :: ·)
  | '\\' :: 'U' :: a :: b :: c :: d :: e :: f :: g :: h :: r =>
    if quoted then
      match Text.hexNumber? [a, b, c, d, e, f, g, h] with
      | some n => if n.isValidChar then (unescape quoted r).map (Char.ofNat n :: ·) else none
      | none => none
    else (unescape quoted ('U' :: a :: b :: c :: d :: e :: f :: g :: h :: r)).map ('\\' :: ·)
  | '\\' :: c :: r =>
    if quoted then
      let known : Option Char :=
        match c with
        | 'n' => some '\n'
        | 'r' => some '\r'
        | 't' => some '\t'
        | '"' => some '"'
        | '\\' => some '\\'
        | _ => none
      match known with
      | some k => (unescape quoted r).map (k :: ·)
      | none => none
    else (unescape quoted (c :: r)).map ('\\' :: ·)
  | c :: r => (unescape quoted r).map (c :: ·)

inductive Piece where
  | literal (chars : List Char)
  | value (e : Expr)
  | whether (condition : Expr)
  | otherwise
  | endWhether
  | loop (keyName valueName : String) (source : Expr)
  | endLoop

/-- A piece and whether the marks around it eat the white space before and after it. -/
structure TrimmedPiece where
  piece : Piece
  trimBefore : Bool := false
  trimAfter : Bool := false

/-- Takes the white space that marks eat off the literal pieces. `trimNext` says that the mark
before eats. -/
def trimPieces (trimNext : Bool) : List TrimmedPiece → List Piece
  | [] => []
  | ⟨.literal cs, _, _⟩ :: rest =>
    let cs := if trimNext then cs.dropWhile Text.isBlank else cs
    let trimmed :=
      match rest with
      | ⟨.literal _, _, _⟩ :: _ => cs
      | p :: _ => if p.trimBefore then Text.dropEndWhile Text.isBlank cs else cs
      | [] => cs
    .literal trimmed :: trimPieces false rest
  | p :: rest => p.piece :: trimPieces p.trimAfter rest

/-- The indentation of each line of a here-document that counts: lines of white space alone do not,
and a sequence at the start of a line counts as none. -/
def indentations (lineStart : Bool) : List Piece → List Nat
  | [] => []
  | .literal cs :: rest =>
    let blanks := cs.takeWhile Text.isBlank
    let ends := cs.getLast? = some '\n'
    let more := indentations ends rest
    if lineStart && !(blanks.length = cs.length && ends) then (Text.clusters blanks).length :: more
    else more
  | _ :: rest => if lineStart then 0 :: indentations false rest else indentations false rest

/-- Drops `width` clusters from each line that counts; a mark behind a blank goes with it. -/
def dropIndentation (width : Nat) (lineStart : Bool) : List Piece → List Piece
  | [] => []
  | .literal cs :: rest =>
    let blanks := cs.takeWhile Text.isBlank
    let ends := cs.getLast? = some '\n'
    let counts := lineStart && !(blanks.length = cs.length && ends)
    let kept := if counts then ((Text.clusters cs).drop width).flatten else cs
    .literal kept :: dropIndentation width ends rest
  | p :: rest => p :: dropIndentation width false rest

/-- Takes the common indentation off the lines of a here-document. -/
def flushLeft (pieces : List Piece) : List Piece :=
  match (indentations true pieces).min? with
  | some width => dropIndentation width true pieces
  | none => pieces

def meld : List Piece → List Piece
  | [] => []
  | .literal cs :: rest =>
    match meld rest with
    | .literal ds :: more => .literal (cs ++ ds) :: more
    | more => .literal cs :: more
  | p :: rest => p :: meld rest

/-- The expressions up to a piece that ends them, which is left. The fuel is the number of
pieces. -/
def collect : Nat → List Piece → Option (List Expr × List Piece)
  | 0, ps => some ([], ps)
  | fuel + 1, ps =>
    let text (es : List Expr) : Expr :=
      .template (if es.isEmpty then [.literal (.string "")] else es)
    match ps with
    | .literal cs :: rest =>
      (collect fuel rest).map fun (es, rest) =>
        (.literal (.text (String.ofList cs)) :: es, rest)
    | .value e :: rest => (collect fuel rest).map fun (es, rest) => (e :: es, rest)
    | .whether c :: rest =>
      match collect fuel rest with
      | some (yes, .endWhether :: rest) =>
        (collect fuel rest).map fun (es, rest) => (.conditional c (text yes) (text []) :: es, rest)
      | some (yes, .otherwise :: rest) =>
        match collect fuel rest with
        | some (no, .endWhether :: rest) =>
          (collect fuel rest).map fun (es, rest) =>
            (.conditional c (text yes) (text no) :: es, rest)
        | _ => none
      | _ => none
    | .loop k v source :: rest =>
      match collect fuel rest with
      | some (body, .endLoop :: rest) =>
        (collect fuel rest).map fun (es, rest) =>
          (.joined (.forTuple k v source (text body) (.literal (.bool true))) :: es, rest)
      | _ => none
    | ps => some ([], ps)

/-- The expression of a text; `none` when a condition or a loop is not closed as it was opened. A
text that is nothing but one value has that value, whatever its type. -/
def templateExpr (flush : Bool) (pieces : List TrimmedPiece) : Option Expr :=
  let trimmed := trimPieces false pieces
  let melded := meld (if flush then flushLeft trimmed else trimmed)
  match melded with
  | [] => some (.template [.literal (.string "")])
  | [.value e] => some (.wrapped e)
  | ps =>
    match collect (ps.length + 1) ps with
    | some (es, []) => some (.template es)
    | _ => none

end BlockProgram.Hcl
