import BlockProgram.Text.Cluster

/-! Tokens of configuration documents, and the places at which they stand. -/
namespace BlockProgram.Hcl

/-- A place in a document. Lines and columns count from one. -/
structure Pos where
  line : Nat := 1
  column : Nat := 1
deriving DecidableEq

/-- The place behind a cluster. A carriage return and the newline after it are one line end. -/
def Pos.pass (p : Pos) (cluster : List Char) : Pos :=
  if cluster = ['\n'] || cluster = ['\r', '\n'] then ⟨p.line + 1, 1⟩ else ⟨p.line, p.column + 1⟩

/-- The place behind a text that starts here. Columns count what a reader takes for one
character. -/
def Pos.advance (p : Pos) (cs : List Char) : Pos := (Text.clusters cs).foldl Pos.pass p

inductive Sign where
  | openBrace
  | closeBrace
  | openBracket
  | closeBracket
  | openParen
  | closeParen
  | dot
  | comma
  | star
  | slash
  | percent
  | plus
  | minus
  | assign
  | equal
  | notEqual
  | less
  | lessEqual
  | greater
  | greaterEqual
  | both
  | either
  | bang
  | question
  | colon
  | doubleColon
  | ellipsis
  | arrow
deriving DecidableEq

/-- A token. The pieces of a text in quotes or of a here-document are tokens of their own, as are
the marks that begin and end a sequence inside it; `trim` says that the mark eats white space. Every
document ends with a `finish`. -/
inductive Token where
  | word (name : String)
  | number (spelling : String)
  | openQuote
  | closeQuote
  | openHeredoc (flush : Bool)
  | closeHeredoc
  | quotedText (chars : List Char)
  | plainText (chars : List Char)
  | openValue (trim : Bool)
  | openControl (trim : Bool)
  | closeSequence (trim : Bool)
  | newline
  | sign (s : Sign)
  | stray
  | finish
deriving DecidableEq

structure Located where
  token : Token
  start : Pos

end BlockProgram.Hcl
