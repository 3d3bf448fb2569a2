import BlockProgram.Number.Decimal
import BlockProgram.Number.Word
import BlockProgram.Text.Blank

/-! Numbers as the fields of blocks spell them and as a program writes them. Reading accepts signs,
fractions, exponents, the word Infinity and whole numbers of base sixteen, eight and two; all else
is not a number. Writing gives the shortest decimal. -/
namespace BlockProgram.Number

def digitsValue (ds : List Char) : Nat :=
  ds.foldl (fun n c => n * 10 + (c.toNat - 48)) 0

/-- Reads the exponent after its mark: an optional sign and at least one digit. -/
def readExponent? (cs : List Char) : Option Int :=
  let (negative, ds) :=
    match cs with
    | '-' :: r => (true, r)
    | '+' :: r => (false, r)
    | r => (false, r)
  if ds ≠ [] && ds.all Char.isDigit then
    let n : Int := digitsValue ds
    some (if negative then -n else n)
  else none

/-- Reads an unsigned decimal: digits with at most one point and an optional exponent. At least one
digit stands before the exponent. -/
def readUnsigned? (cs : List Char) : Option Decimal :=
  let whole := cs.takeWhile Char.isDigit
  let rest := cs.dropWhile Char.isDigit
  let (fraction, rest) :=
    match rest with
    | '.' :: r => (r.takeWhile Char.isDigit, r.dropWhile Char.isDigit)
    | r => ([], r)
  if whole = [] && fraction = [] then none
  else
    let base : Decimal := ⟨digitsValue (whole ++ fraction), -(fraction.length : Int)⟩
    match rest with
    | [] => some base
    | c :: r =>
      if c = 'e' || c = 'E' then
        (readExponent? r).map fun e => ⟨base.digits, base.exponent + e⟩
      else none

def readDecimal? (cs : List Char) : Option (Bool × Decimal) :=
  match cs with
  | '-' :: r => (readUnsigned? r).map (true, ·)
  | '+' :: r => (readUnsigned? r).map (false, ·)
  | r => (readUnsigned? r).map (false, ·)

/-- The double nearest to a spelled decimal; `none` when the text is no decimal or its value is out
of range. -/
def readDouble? (cs : List Char) : Option Floating :=
  match readDecimal? cs with
  | none => none
  | some (negative, d) =>
    match binary64.ofDecimal negative d.digits d.exponent with
    | .finite s m e => some (.finite s m e)
    | _ => none

/-- The integer a text of digits with an optional sign spells, if it fits 64 bits. -/
def readInteger? (cs : List Char) : Option Int :=
  let (negative, ds) := match cs with
    | '-' :: r => (true, r)
    | '+' :: r => (false, r)
    | r => (false, r)
  if ds ≠ [] && ds.all Char.isDigit then
    let n : Int := digitsValue ds
    let i := if negative then -n else n
    if fitsInteger i then some i else none
  else none

def digitValue? (c : Char) : Option Nat :=
  if c.isDigit then some (c.toNat - 48)
  else if c.isLower then some (c.toNat - 87)
  else if c.isUpper then some (c.toNat - 55)
  else none

/-- Reads a whole number of the given base, below `wordSize`. -/
def readWhole? (base : Nat) (cs : List Char) : Option Nat :=
  let step (acc : Option Nat) (c : Char) : Option Nat :=
    match acc, digitValue? c with
    | some n, some d => if d < base then some (n * base + d) else none
    | _, _ => none
  if cs = [] then none
  else
    match cs.foldl step (some 0) with
    | some n => if n < wordSize then some n else none
    | none => none

/-- The base announced by the two characters a number starts with. -/
def announcedBase? : List Char → Option (Nat × List Char)
  | '0' :: c :: d :: r =>
    if c = 'x' || c = 'X' then some (16, d :: r)
    else if c = 'o' || c = 'O' then some (8, d :: r)
    else if c = 'b' || c = 'B' then some (2, d :: r)
    else none
  | _ => none

/-- Reads the number a text spells, white space around it aside. The empty text is zero. -/
def parseChars (text : List Char) : Floating :=
  let cs := Text.trimChars text
  if cs = [] then .zero
  else if cs = "Infinity".toList || cs = "+Infinity".toList then .infinity false
  else if cs = "-Infinity".toList then .infinity true
  else
    match announcedBase? cs with
    | some (base, digits) =>
      match readWhole? base digits with
      | some n => binary64.round false n 1
      | none => .nan
    | none => (readDouble? cs).getD .nan

def parse (s : String) : Floating := parseChars s.toList

/-- The text of a number in a program. Both zeros are written `0`. -/
def format : Floating → String
  | .nan => "NaN"
  | .infinity false => "Infinity"
  | .infinity true => "-Infinity"
  | .finite s m e => if m = 0 then "0" else binary64.write programNotation s m e

/-- The text of a finite double in a message; a negative zero keeps its sign. -/
def describe : Floating → String
  | .nan => "NaN"
  | .infinity false => "+Inf"
  | .infinity true => "-Inf"
  | .finite s m e => binary64.write messageNotation s m e

/-- Whether the characters are a plain number: digits, an optional minus sign in front and an
optional fraction behind. -/
def isPlain (cs : List Char) : Bool :=
  let cs := match cs with | '-' :: r => r | r => r
  let whole := cs.takeWhile Char.isDigit
  let rest := cs.dropWhile Char.isDigit
  whole ≠ [] &&
    match rest with
    | [] => true
    | '.' :: r => r ≠ [] && r.all Char.isDigit
    | _ => false

/-- Whether a piece of program text is a plain number, pattern blanks around it aside. -/
def isLiteral (s : String) : Bool :=
  isPlain (Text.dropEndWhile Text.isPatternBlank (s.toList.dropWhile Text.isPatternBlank))

def wholePart (s : String) : Floating :=
  parseChars ((Text.trimChars s.toList).takeWhile (· ≠ '.'))

end BlockProgram.Number
