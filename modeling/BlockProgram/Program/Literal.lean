import BlockProgram.Text.Lines

/-! Text literals of the target language, and the two patterns by which a piece of program text is
known to be a name or a simple literal. -/
namespace BlockProgram.Literal

/-- How one character is written between single quotes. A backslash stands before a backslash, a
line break, a dollar sign and a quote. -/
def escapeChar (c : Char) : List Char :=
  if c = '\\' || c = '\n' || c = '$' || c = '\'' then ['\\', c] else [c]

def quoteChars (cs : List Char) : List Char :=
  '\'' :: (cs.flatMap escapeChar ++ ['\''])

def quote (s : String) : String := String.ofList (quoteChars s.toList)

/-- What joins the literals of a text with several lines. -/
def lineJoint : List Char := " + '\\n' + \n".toList

def joinQuoted : List (List Char) → List Char
  | [] => []
  | [l] => quoteChars l
  | l :: ls => quoteChars l ++ lineJoint ++ joinQuoted ls

/-- A text as one literal for each line, joined with line breaks. -/
def quoteLines (s : String) : String :=
  String.ofList (joinQuoted (Text.splitLines s.toList))

def emptyText : String := "''"

def emptyList : String := "[]"

/-- Whether the text is one word: letters, digits and underscores. -/
def isWord (s : String) : Bool :=
  let cs := s.toList
  !cs.isEmpty && cs.all Text.isWordChar

/-- Whether the text is one word, with or without a quote at either end. -/
def isSimpleText (s : String) : Bool :=
  let cs := match s.toList with | '\'' :: r => r | r => r
  let cs := match cs.reverse with | '\'' :: r => r | r => r
  !cs.isEmpty && cs.all Text.isWordChar

end BlockProgram.Literal
