import BlockProgram.Text.Blank

/-! Breaking a comment into lines of limited width. Words are never cut: a word that does not fit
starts a new line and takes the place of the white space before it, and a word longer than the limit
stays whole. -/
namespace BlockProgram.Text

/-- The state of a wrap: what is written, the width of the current line, and the white space and the
word read since. -/
structure WrapState where
  written : List Char := []
  width : Nat := 0
  space : List Char := []
  word : List Char := []

namespace WrapState

def flush (s : WrapState) : List Char := s.written ++ s.space ++ s.word

/-- White space at which a line may be broken: all of it but the no-break space. -/
def isBreakable (c : Char) : Bool := isBlank c && c.toNat != 0xA0

def read (limit : Nat) (s : WrapState) (c : Char) : WrapState :=
  if c = '\n' then
    let written :=
      if s.word.isEmpty then
        if s.width + s.space.length > limit then s.written else s.written ++ s.space
      else s.flush
    { written := written ++ ['\n'], width := 0, space := [], word := [] }
  else if isBreakable c then
    if s.space.isEmpty || !s.word.isEmpty then
      { written := s.flush, width := s.width + s.space.length + s.word.length,
        space := [c], word := [] }
    else { s with space := s.space ++ [c] }
  else
    let word := s.word ++ [c]
    if s.width + word.length + s.space.length > limit && word.length < limit then
      { written := s.written ++ ['\n'], width := 0, space := [], word := word }
    else { s with word := word }

/-- Ends the text: white space at the end is kept only where it fits. -/
def finish (limit : Nat) (s : WrapState) : List Char :=
  if s.word.isEmpty then
    if s.width + s.space.length ≤ limit then s.written ++ s.space else s.written
  else s.flush

end WrapState

/-- Breaks a text into lines of at most `limit` characters where its words allow it. -/
def wrap (limit : Nat) (text : String) : String :=
  String.ofList ((text.toList.foldl (WrapState.read limit) {}).finish limit)

end BlockProgram.Text
