/-! White space. Two classes occur in this library: the Unicode class, which decides where a
number or a comment may be trimmed, and the five ASCII characters a pattern's blank stands for,
which decide where a program is tidied. -/
namespace BlockProgram.Text

/-- The characters with the Unicode property White_Space. -/
def isBlank (c : Char) : Bool :=
  let n := c.toNat
  (9 ≤ n && n ≤ 13) || n == 0x20 || n == 0x85 || n == 0xA0 || n == 0x1680 ||
    (0x2000 ≤ n && n ≤ 0x200A) || n == 0x2028 || n == 0x2029 || n == 0x202F || n == 0x205F ||
    n == 0x3000

/-- The blanks of a pattern: tab, newline, form feed, carriage return and space. -/
def isPatternBlank (c : Char) : Bool :=
  c == '\t' || c == '\n' || c == '\x0c' || c == '\r' || c == ' '

/-- Drops the longest run at the end whose characters satisfy `p`. -/
def dropEndWhile (p : Char → Bool) (cs : List Char) : List Char :=
  (cs.reverse.dropWhile p).reverse

def trimChars (cs : List Char) : List Char :=
  dropEndWhile isBlank (cs.dropWhile isBlank)

def trim (s : String) : String := String.ofList (trimChars s.toList)

def isWordChar (c : Char) : Bool :=
  c.isAlphanum || c == '_'

end BlockProgram.Text
