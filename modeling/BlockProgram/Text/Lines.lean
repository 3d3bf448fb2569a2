import BlockProgram.Text.Blank

/-! Text as lines: putting a mark in front of each, turning the two-space indentation of a written
definition into another, and the tidying steps a finished program goes through. All of them work on
lists of characters; the functions on strings are wrappers. -/
namespace BlockProgram.Text

/-- Cuts at every newline; the newlines themselves are dropped. Never empty. -/
def splitLines : List Char → List (List Char)
  | [] => [[]]
  | c :: cs =>
    if c = '\n' then [] :: splitLines cs
    else
      match splitLines cs with
      | [] => [[c]]
      | line :: rest => (c :: line) :: rest

def joinLines : List (List Char) → List Char
  | [] => []
  | [line] => line
  | line :: rest => line ++ '\n' :: joinLines rest

def lines (s : String) : List String := (splitLines s.toList).map String.ofList

/-- What `prependLinesChars` writes after the first mark: a mark follows every newline but the last
character of the text. -/
def markAfterNewlines (mark : List Char) : List Char → List Char
  | [] => []
  | [c] => [c]
  | c :: cs =>
    if c = '\n' then '\n' :: (mark ++ markAfterNewlines mark cs)
    else c :: markAfterNewlines mark cs

/-- Puts `mark` at the start of every line. A final newline ends the last line and starts none. -/
def prependLinesChars (mark cs : List Char) : List Char :=
  match cs with
  | ['\n'] => mark ++ ['\n']
  | cs => mark ++ markAfterNewlines mark cs

def prependLines (mark text : String) : String :=
  String.ofList (prependLinesChars mark.toList text.toList)

/-- One line that is indented by pairs of spaces, indented by `indent` for each pair; an odd
space stays. -/
def reindentLine (indent line : List Char) : List Char :=
  let spaces := (line.takeWhile (· = ' ')).length
  (List.replicate (spaces / 2) indent).flatten ++ line.drop (spaces - spaces % 2)

def reindent (indent code : String) : String :=
  String.ofList (joinLines ((splitLines code.toList).map (reindentLine indent.toList)))

/-- Shortens every run of newlines to two. `run` counts the newlines just written. -/
def collapseNewlines (run : Nat) : List Char → List Char
  | [] => []
  | c :: cs =>
    if c = '\n' then
      if run < 2 then c :: collapseNewlines (run + 1) cs else collapseNewlines run cs
    else c :: collapseNewlines 0 cs

def dropEndNewlines (cs : List Char) : List Char := dropEndWhile (· = '\n') cs

/-- The part of a blank run after its last newline, or `none` when the run holds no newline. -/
def afterLastNewline : List Char → Option (List Char)
  | [] => none
  | c :: cs =>
    match afterLastNewline cs with
    | some rest => some rest
    | none => if c = '\n' then some cs else none

/-- Drops leading blank lines: the longest run of pattern blanks at the start that ends with a
newline and is longer than that newline. -/
def dropLeadingBlank (cs : List Char) : List Char :=
  match cs with
  | [] => []
  | c :: rest =>
    if isPatternBlank c then
      match afterLastNewline (rest.takeWhile isPatternBlank) with
      | some tail => tail ++ rest.dropWhile isPatternBlank
      | none => cs
    else cs

/-- Shortens a final run of pattern blanks to its first newline, if the run holds one. -/
def dropTrailingBlank (cs : List Char) : List Char :=
  let body := dropEndWhile isPatternBlank cs
  let run := cs.drop body.length
  let (before, after) := run.span (· ≠ '\n')
  match after with
  | _ :: _ :: _ => body ++ before ++ ['\n']
  | _ => cs

def isTrailingSpace (c : Char) : Bool := c == ' ' || c == '\t'

/-- Drops spaces and tabs that stand right before a newline. `held` are those met since the last
other character. -/
def dropLineEndSpaces (held : List Char) : List Char → List Char
  | [] => held
  | c :: cs =>
    if isTrailingSpace c then dropLineEndSpaces (held ++ [c]) cs
    else if c = '\n' then c :: dropLineEndSpaces [] cs
    else held ++ c :: dropLineEndSpaces [] cs

/-- The last pass over a program: leading blank lines, the blank end, spaces at line ends. -/
def tidyChars (cs : List Char) : List Char :=
  dropLineEndSpaces [] (dropTrailingBlank (dropLeadingBlank cs))

def tidy (code : String) : String := String.ofList (tidyChars code.toList)

/-- Replaces every occurrence of a non-empty `old`, from left to right. The fuel is the length of
the text, since every step consumes at least one character. -/
def replaceChars (old new : List Char) : Nat → List Char → List Char
  | 0, cs => cs
  | _ + 1, [] => []
  | fuel + 1, c :: cs =>
    if old.isPrefixOf (c :: cs) then new ++ replaceChars old new fuel ((c :: cs).drop old.length)
    else c :: replaceChars old new fuel cs

def replaceAll (text old new : String) : String :=
  let cs := text.toList
  String.ofList (replaceChars old.toList new.toList cs.length cs)

def join (separator : String) (parts : List String) : String :=
  separator.intercalate parts

end BlockProgram.Text
