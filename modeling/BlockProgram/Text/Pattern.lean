/-! Patterns of messages. In a pattern a percent sign opens a place for a value: flags, a width and
a precision may follow it, and then the letter of a form; a percent sign in place of the letter
stands for itself. A pattern that is given no values shows where they are missing. -/
namespace BlockProgram.Text

def isPlaceFlag (c : Char) : Bool := c == '+' || c == '-' || c == '#' || c == ' ' || c == '0'

/-- The text from the letter of a place on: its flags, its width and its precision are passed
over. -/
def fromPlaceLetter (cs : List Char) : List Char :=
  match (cs.dropWhile isPlaceFlag).dropWhile Char.isDigit with
  | '.' :: r => r.dropWhile Char.isDigit
  | r => r

/-- A pattern without values. Every step takes a character, so the fuel is the length of the
pattern. -/
def unfilledChars : Nat → List Char → List Char
  | 0, cs => cs
  | _ + 1, [] => []
  | fuel + 1, c :: cs =>
    if c = '%' then
      match fromPlaceLetter cs with
      | [] => "%!(NOVERB)".toList
      | letter :: rest =>
        if letter = '%' then '%' :: unfilledChars fuel rest
        else "%!".toList ++ letter :: ("(MISSING)".toList ++ unfilledChars fuel rest)
    else c :: unfilledChars fuel cs

def unfilled (pattern : String) : String :=
  String.ofList (unfilledChars pattern.length pattern.toList)

end BlockProgram.Text
