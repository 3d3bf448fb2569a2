import BlockProgram.Hcl.Token
import BlockProgram.Text.Blank
import BlockProgram.Text.Identifier

/-! Splitting a configuration document into tokens. A stack of frames says what the scanner is in:
plain syntax, a text in quotes, or a here-document. A sequence inside a text opens a frame of plain
syntax again, which its own closing brace ends. -/
namespace BlockProgram.Hcl

/-- What the scanner is in. Plain syntax counts the braces open in it; a here-document knows its
closing word and whether a line starts here. -/
inductive Frame where
  | plain (depth : Nat)
  | quoted
  | heredoc (marker : List Char) (lineStart : Bool)

/-- One step of scanning: at most one token, what it took and what it left, and the frames after
it. -/
structure Step where
  token : Option Token
  taken : List Char
  rest : List Char
  frames : List Frame

/-- The signs of two and three characters, longest first. -/
def longSigns : List (List Char × Sign) :=
  [("...".toList, .ellipsis), ("==".toList, .equal), ("!=".toList, .notEqual),
    (">=".toList, .greaterEqual), ("<=".toList, .lessEqual), ("&&".toList, .both),
    ("||".toList, .either), ("=>".toList, .arrow), ("::".toList, .doubleColon)]

/-- The signs of one character, braces aside. -/
def shortSign? : Char → Option Sign
  | '[' => some .openBracket
  | ']' => some .closeBracket
  | '(' => some .openParen
  | ')' => some .closeParen
  | '.' => some .dot
  | ',' => some .comma
  | '*' => some .star
  | '/' => some .slash
  | '%' => some .percent
  | '+' => some .plus
  | '-' => some .minus
  | '=' => some .assign
  | '<' => some .less
  | '>' => some .greater
  | '!' => some .bang
  | '?' => some .question
  | ':' => some .colon
  | _ => none

/-- The longest run that may continue a number: digits, points, and exponents with their digits. -/
def numberRun : List Char → List Char × List Char
  | [] => ([], [])
  | 'e' :: s :: d :: r =>
    if s.isDigit then let (t, rest) := numberRun (d :: r); ('e' :: s :: t, rest)
    else if (s = '+' || s = '-') && d.isDigit then
      let (t, rest) := numberRun r; ('e' :: s :: d :: t, rest)
    else ([], 'e' :: s :: d :: r)
  | 'E' :: s :: d :: r =>
    if s.isDigit then let (t, rest) := numberRun (d :: r); ('E' :: s :: t, rest)
    else if (s = '+' || s = '-') && d.isDigit then
      let (t, rest) := numberRun r; ('E' :: s :: d :: t, rest)
    else ([], 'E' :: s :: d :: r)
  | [c, d] =>
    if c.isDigit || c = '.' then
      if d.isDigit || d = '.' then ([c, d], []) else ([c], [d])
    else if (c = 'e' || c = 'E') && d.isDigit then ([c, d], [])
    else ([], [c, d])
  | c :: r =>
    if c.isDigit || c = '.' then let (t, rest) := numberRun r; (c :: t, rest) else ([], c :: r)

/-- A number, which does not end with a point. -/
def numberSpelling (cs : List Char) : List Char × List Char :=
  let (run, rest) := numberRun cs
  let points := run.reverse.takeWhile (· = '.')
  (run.take (run.length - points.length), points ++ rest)

/-- The text up to and including the end of a comment in stars. -/
def starComment? : List Char → Option (List Char × List Char)
  | [] => none
  | '*' :: '/' :: r => some (['*', '/'], r)
  | c :: r => (starComment? r).map fun (t, rest) => (c :: t, rest)

/-- Opens a here-document: an optional minus sign, a name and a line end after the two signs. -/
def heredocStart? (cs : List Char) : Option (Bool × List Char × List Char × List Char) :=
  let (flush, body) := match cs with | '-' :: r => (true, r) | r => (false, r)
  match body with
  | c :: _ =>
    if Text.isNameStart c then
      let name := body.takeWhile fun c => Text.isNamePart c || c = '-'
      let ending := body.drop name.length
      let opening := if flush then '-' :: name else name
      match ending with
      | '\r' :: '\n' :: r => some (flush, name, opening ++ ['\r', '\n'], r)
      | '\n' :: r => some (flush, name, opening ++ ['\n'], r)
      | _ => none
    else none
  | [] => none

/-- A step of plain syntax, above the frames `outer`. -/
def plainStep (depth : Nat) (outer : List Frame) (cs : List Char) : Step :=
  let here : List Frame := .plain depth :: outer
  let close (trim : Bool) (taken rest : List Char) : Step :=
    if depth = 0 && !outer.isEmpty then ⟨some (.closeSequence trim), taken, rest, outer⟩
    else ⟨some (if trim then .closeSequence true else .sign .closeBrace), taken, rest,
      .plain (depth - 1) :: outer⟩
  let comment (cs : List Char) : Step :=
    let body := cs.takeWhile (· ≠ '\n')
    match cs.drop body.length with
    | c :: r => ⟨some .newline, body ++ [c], r, here⟩
    | [] => ⟨none, body, [], here⟩
  let sign : Step :=
    match longSigns.find? (fun s => s.1.isPrefixOf cs) with
    | some (text, s) => ⟨some (.sign s), text, cs.drop text.length, here⟩
    | none =>
      match cs with
      | [] => ⟨none, [], [], here⟩
      | c :: r =>
        match shortSign? c with
        | some s => ⟨some (.sign s), [c], r, here⟩
        | none => ⟨some .stray, [c], r, here⟩
  match cs with
  | [] => ⟨none, [], [], here⟩
  | '\n' :: r => ⟨some .newline, ['\n'], r, here⟩
  | '\r' :: '\n' :: r => ⟨some .newline, ['\r', '\n'], r, here⟩
  | '#' :: _ => comment cs
  | '/' :: '/' :: _ => comment cs
  | '/' :: '*' :: r =>
    match starComment? r with
    | some (t, rest) => ⟨none, '/' :: '*' :: t, rest, here⟩
    | none => ⟨some .stray, ['/'], '*' :: r, here⟩
  | '"' :: r => ⟨some .openQuote, ['"'], r, .quoted :: here⟩
  | '\x7b' :: r => ⟨some (.sign .openBrace), ['\x7b'], r, .plain (depth + 1) :: outer⟩
  | '\x7d' :: r => close false ['\x7d'] r
  | '~' :: '\x7d' :: r => close true ['~', '\x7d'] r
  | '<' :: '<' :: r =>
    match heredocStart? r with
    | some (flush, marker, opening, rest) =>
      ⟨some (.openHeredoc flush), '<' :: '<' :: opening, rest, .heredoc marker true :: here⟩
    | none => sign
  | c :: r =>
    if c = ' ' || c = '\t' then
      let blanks := cs.takeWhile fun c => c = ' ' || c = '\t'
      ⟨none, blanks, cs.drop blanks.length, here⟩
    else if c.isDigit then
      let (spelling, rest) := numberSpelling r
      ⟨some (.number (String.ofList (c :: spelling))), c :: spelling, rest, here⟩
    else if Text.isNameStart c then
      let name := cs.takeWhile fun c => Text.isNamePart c || c = '-'
      ⟨some (.word (String.ofList name)), name, cs.drop name.length, here⟩
    else sign

/-- A run of a text in quotes without marks; a backslash takes the character after it along. -/
def quotedRun : List Char → List Char × List Char
  | [] => ([], [])
  | '\\' :: c :: r =>
    if c = '\n' || c = '\r' then ([], '\\' :: c :: r)
    else let (t, rest) := quotedRun r; ('\\' :: c :: t, rest)
  | c :: r =>
    if c = '$' || c = '%' || c = '"' || c = '\\' || c = '\n' || c = '\r' then ([], c :: r)
    else let (t, rest) := quotedRun r; (c :: t, rest)

/-- The mark that opens a sequence, if one starts here. -/
def sequenceStart? : List Char → Option (Token × List Char × List Char)
  | '$' :: '\x7b' :: '~' :: r => some (.openValue true, ['$', '\x7b', '~'], r)
  | '$' :: '\x7b' :: r => some (.openValue false, ['$', '\x7b'], r)
  | '%' :: '\x7b' :: '~' :: r => some (.openControl true, ['%', '\x7b', '~'], r)
  | '%' :: '\x7b' :: r => some (.openControl false, ['%', '\x7b'], r)
  | _ => none

/-- A mark written twice, which stands for itself, or a sign that begins no mark. -/
def plainMark? : List Char → Option (List Char × List Char)
  | '$' :: '$' :: '\x7b' :: '~' :: r => some (['$', '$', '\x7b', '~'], r)
  | '$' :: '$' :: '\x7b' :: r => some (['$', '$', '\x7b'], r)
  | '%' :: '%' :: '\x7b' :: '~' :: r => some (['%', '%', '\x7b', '~'], r)
  | '%' :: '%' :: '\x7b' :: r => some (['%', '%', '\x7b'], r)
  | '$' :: r => some (['$'], r)
  | '%' :: r => some (['%'], r)
  | _ => none

def quotedStep (outer : List Frame) (cs : List Char) : Step :=
  let here : List Frame := .quoted :: outer
  match sequenceStart? cs with
  | some (token, taken, rest) => ⟨some token, taken, rest, .plain 0 :: here⟩
  | none =>
    match plainMark? cs with
    | some (taken, rest) => ⟨some (.quotedText taken), taken, rest, here⟩
    | none =>
      match cs with
      | [] => ⟨none, [], [], here⟩
      | '"' :: r => ⟨some .closeQuote, ['"'], r, outer⟩
      | c :: r =>
        match quotedRun cs with
        | ([], _) => ⟨some .stray, [c], r, here⟩
        | (run, rest) => ⟨some (.quotedText run), run, rest, here⟩

/-- The rest of a line of a here-document, up to a mark or through the line end. The fuel is the
length of the text. -/
def heredocRun : Nat → List Char → List Char × List Char × Bool
  | 0, cs => ([], cs, false)
  | fuel + 1, cs =>
    match sequenceStart? cs with
    | some _ => ([], cs, false)
    | none =>
      match plainMark? cs with
      | some (taken, r) => let (t, rest, ended) := heredocRun fuel r; (taken ++ t, rest, ended)
      | none =>
        match cs with
        | [] => ([], [], false)
        | '\r' :: '\n' :: r => (['\r', '\n'], r, true)
        | c :: r =>
          if c = '\n' then ([c], r, true)
          else if c = '\r' then ([], cs, false)
          else let (t, rest, ended) := heredocRun fuel r; (c :: t, rest, ended)

/-- A step inside a here-document. A line that holds nothing but the closing word ends it; its line
end is left. -/
def heredocStep (marker : List Char) (lineStart : Bool) (outer : List Frame) (cs : List Char) :
    Step :=
  match sequenceStart? cs with
  | some (token, taken, rest) =>
    ⟨some token, taken, rest, .plain 0 :: .heredoc marker false :: outer⟩
  | none =>
    match heredocRun cs.length cs with
    | ([], _, _) =>
      match cs with
      | [] => ⟨none, [], [], .heredoc marker lineStart :: outer⟩
      | c :: r => ⟨some .stray, [c], r, .heredoc marker lineStart :: outer⟩
    | (run, rest, ended) =>
      if ended && lineStart && Text.trimChars run = marker then
        let line := run.takeWhile fun c => c ≠ '\n' && c ≠ '\r'
        ⟨some .closeHeredoc, line, cs.drop line.length, outer⟩
      else ⟨some (.plainText run), run, rest, .heredoc marker ended :: outer⟩

def scanStep (frames : List Frame) (cs : List Char) : Step :=
  match frames with
  | .quoted :: outer => quotedStep outer cs
  | .heredoc marker lineStart :: outer => heredocStep marker lineStart outer cs
  | .plain depth :: outer => plainStep depth outer cs
  | [] => plainStep 0 [] cs

/-- The tokens of a text that starts at `p`. Every step takes a character, so the fuel is the length
of the text. -/
def scanFrom : Nat → List Frame → Pos → List Char → List Located
  | 0, _, p, _ => [⟨.finish, p⟩]
  | _ + 1, _, p, [] => [⟨.finish, p⟩]
  | fuel + 1, frames, p, c :: cs =>
    let s := scanStep frames (c :: cs)
    let rest := scanFrom fuel s.frames (p.advance s.taken) s.rest
    match s.token with
    | some t => ⟨t, p⟩ :: rest
    | none => rest

def isCommentStep (frames : List Frame) (taken : List Char) : Bool :=
  match frames, taken with
  | .plain _ :: _, '#' :: _ => true
  | .plain _ :: _, '/' :: '/' :: _ => true
  | .plain _ :: _, '/' :: '*' :: _ => true
  | _, _ => false

/-- Whether a mark stands at a character outside of comments. Every step takes a character, so the
fuel is the length of the text. -/
def marksOutside : Nat → List Frame → List Char → List Bool → Bool
  | 0, _, _, _ => false
  | _ + 1, _, [], _ => false
  | fuel + 1, frames, c :: cs, marks =>
    let s := scanStep frames (c :: cs)
    let n := s.taken.length
    (!isCommentStep frames s.taken && (marks.take n).contains true) ||
      marksOutside fuel s.frames s.rest (marks.drop n)

/-- Whether a text can be read though some of its characters, those that are marked, stand for
something else: these may stand in comments only. -/
def isReadable (text : String) (marks : List Bool) : Bool :=
  let cs := text.toList
  !marks.contains true || !marksOutside cs.length [.plain 0] cs marks

/-- The tokens of a document. A byte order mark at its start is not part of it. -/
def scan (text : String) : List Located :=
  let cs := match text.toList with | '\uFEFF' :: r => r | r => r
  scanFrom cs.length [.plain 0] {} cs

end BlockProgram.Hcl
