import BlockProgram.Json.Basic
import BlockProgram.Text.Utf8

/-! Reading JSON text. A reader step takes the characters that are left and gives a value together
with the rest. -/
namespace BlockProgram.Json

def isSpace (c : Char) : Bool := c == ' ' || c == '\t' || c == '\n' || c == '\r'

def skipSpace (cs : List Char) : List Char := cs.dropWhile isSpace

/-- The fault of a text that should go on differently: its first character, or its end. -/
def unexpected : List Char → Fault
  | [] => .endOfText
  | c :: _ => .badCharacter c

def isHighHalf (u : Nat) : Bool := 0xD800 ≤ u && u < 0xDC00

def isLowHalf (u : Nat) : Bool := 0xDC00 ≤ u && u < 0xE000

/-- The character of a code unit that is no half of a pair, or the replacement character. -/
def unitChar (u : Nat) : Char :=
  if isHighHalf u || isLowHalf u then Text.replacement else Char.ofNat u

/-- The code unit spelled by an escape at the start of the text, and the rest. -/
def unit? : List Char → Option (Nat × List Char)
  | '\\' :: 'u' :: a :: b :: c :: d :: r => (Text.hexNumber? [a, b, c, d]).map (·, r)
  | _ => none

def escape? : Char → Option Char
  | '"' => some '"'
  | '\\' => some '\\'
  | '/' => some '/'
  | 'b' => some '\x08'
  | 'f' => some '\x0c'
  | 'n' => some '\n'
  | 'r' => some '\r'
  | 't' => some '\t'
  | _ => none

/-- Reads a string after its opening quote. `done` holds the characters read, last first. Every step
consumes a character. -/
def readString : Nat → List Char → List Char → Except Fault (String × List Char)
  | 0, _, _ => .error .endOfText
  | _ + 1, [], _ => .error .endOfText
  | fuel + 1, c :: cs, done =>
    if c = '"' then .ok (String.ofList done.reverse, cs)
    else if c.toNat < 0x20 then .error (.badCharacter c)
    else if c = '\\' then
      match unit? (c :: cs) with
      | some (u, rest) =>
        match isHighHalf u, unit? rest with
        | true, some (v, rest') =>
          if isLowHalf v then
            readString fuel rest'
              (Char.ofNat (0x10000 + (u - 0xD800) * 1024 + (v - 0xDC00)) :: done)
          else readString fuel rest (Text.replacement :: done)
        | _, _ => readString fuel rest (unitChar u :: done)
      | none =>
        match cs with
        | [] => .error .endOfText
        | e :: rest =>
          match escape? e with
          | some x => readString fuel rest (x :: done)
          | none => .error (.badCharacter e)
    else readString fuel cs (c :: done)

/-- Splits off the digits at the start; there must be at least one. -/
def someDigits (cs : List Char) : Except Fault (List Char × List Char) :=
  let ds := cs.takeWhile Char.isDigit
  let rest := cs.dropWhile Char.isDigit
  if ds = [] then .error (unexpected rest) else .ok (ds, rest)

def readSign : List Char → List Char × List Char
  | '-' :: r => (['-'], r)
  | r => ([], r)

/-- Splits off the digits before a point: no leading zeros. -/
def readWhole : List Char → Except Fault (List Char × List Char)
  | '0' :: r => .ok (['0'], r)
  | r => someDigits r

def readFraction : List Char → Except Fault (List Char × List Char)
  | '.' :: r => (someDigits r).map fun (ds, rest) => ('.' :: ds, rest)
  | r => .ok ([], r)

def readExponent : List Char → Except Fault (List Char × List Char)
  | c :: r =>
    if c = 'e' || c = 'E' then
      let (mark, r) := match r with
        | '+' :: r' => ([c, '+'], r')
        | '-' :: r' => ([c, '-'], r')
        | r' => ([c], r')
      (someDigits r).map fun (ds, rest) => (mark ++ ds, rest)
    else .ok ([], c :: r)
  | [] => .ok ([], [])

def readNumber (cs : List Char) : Except Fault (String × List Char) := do
  let (sign, cs) := readSign cs
  let (whole, cs) ← readWhole cs
  let (fraction, cs) ← readFraction cs
  let (exponent, cs) ← readExponent cs
  .ok (String.ofList (sign ++ whole ++ fraction ++ exponent), cs)

/-- The characters up to the bracket that closes the outermost one, for a well-formed text.
`depth` counts open brackets; `inText` and `escaped` tell whether a character is one. -/
def bracketed (inText escaped : Bool) (depth : Nat) : List Char → List Char
  | [] => []
  | c :: cs =>
    if inText then
      if escaped then c :: bracketed true false depth cs
      else if c = '\\' then c :: bracketed true true depth cs
      else c :: bracketed (c != '"') false depth cs
    else if c = '"' then c :: bracketed true false depth cs
    else if c = '[' then c :: bracketed false false (depth + 1) cs
    else if c = ']' then
      if depth ≤ 1 then [c] else c :: bracketed false false (depth - 1) cs
    else c :: bracketed false false depth cs

/-- The value with the text it is spelled by, if it is an array. The text starts with the value. -/
def spelled (text : List Char) : Json → Json
  | .array items _ => .array items (String.ofList (bracketed false false 0 (skipSpace text)))
  | v => v

def maxDepth : Nat := 10000

def readWord (word : List Char) (value : Json) (cs : List Char) : Except Fault (Json × List Char) :=
  if word.isPrefixOf cs then .ok (value, cs.drop word.length)
  else .error (unexpected (cs.dropWhile Char.isAlpha))

mutual

/-- Reads one value. `room` is how much deeper the text may nest. Each call takes one from the fuel,
which is more than twice the number of characters. -/
def readValue : Nat → Nat → List Char → Except Fault (Json × List Char)
  | 0, _, _ => .error .endOfText
  | fuel + 1, room, text =>
    match skipSpace text with
    | [] => .error .endOfText
    | '"' :: cs => (readString fuel cs []).map fun (s, rest) => (.string s, rest)
    | 't' :: cs => readWord "true".toList (.bool true) ('t' :: cs)
    | 'f' :: cs => readWord "false".toList (.bool false) ('f' :: cs)
    | 'n' :: cs => readWord "null".toList .null ('n' :: cs)
    | '[' :: cs =>
      match room with
      | 0 => .error .tooDeep
      | room + 1 =>
        match skipSpace cs with
        | ']' :: rest => .ok (.array [] "", rest)
        | cs => (readItems fuel room cs).map fun (items, rest) => (.array items "", rest)
    | '\x7b' :: cs =>
      match room with
      | 0 => .error .tooDeep
      | room + 1 =>
        match skipSpace cs with
        | '\x7d' :: rest => .ok (.object [], rest)
        | cs => (readMembers fuel room cs).map fun (ms, rest) => (.object ms, rest)
    | c :: cs =>
      if c = '-' || c.isDigit then
        (readNumber (c :: cs)).map fun (s, rest) => (.number s, rest)
      else .error (.badCharacter c)

/-- Reads the items of an array up to its closing bracket; at least one. -/
def readItems : Nat → Nat → List Char → Except Fault (List Json × List Char)
  | 0, _, _ => .error .endOfText
  | fuel + 1, room, cs =>
    match readValue fuel room cs with
    | .error e => .error e
    | .ok (item, rest) =>
      match skipSpace rest with
      | ']' :: rest => .ok ([item], rest)
      | ',' :: rest => (readItems fuel room rest).map fun (items, rest) => (item :: items, rest)
      | rest => .error (unexpected rest)

/-- Reads the members of an object up to its closing brace; at least one. -/
def readMembers : Nat → Nat → List Char → Except Fault (List (String × Json) × List Char)
  | 0, _, _ => .error .endOfText
  | fuel + 1, room, cs =>
    match skipSpace cs with
    | '"' :: cs =>
      match readString fuel cs [] with
      | .error e => .error e
      | .ok (key, rest) =>
        match skipSpace rest with
        | ':' :: rest =>
          match readValue fuel room rest with
          | .error e => .error e
          | .ok (value, behind) =>
            match skipSpace behind with
            | '\x7d' :: after => .ok ([(key, value.spelled rest)], after)
            | ',' :: after =>
              (readMembers fuel room after).map fun (ms, after) =>
                ((key, value.spelled rest) :: ms, after)
            | after => .error (unexpected after)
        | rest => .error (unexpected rest)
    | rest => .error (unexpected rest)

end

/-- Reads the first value of a text; what follows it is not looked at. -/
def readFirst (text : String) : Except Fault (Json × List Char) :=
  let cs := text.toList
  readValue (2 * cs.length + 2) maxDepth cs

/-- Reads a text that holds one value and nothing else. -/
def read (text : String) : Except Fault Json :=
  match readFirst text with
  | .error e => .error e
  | .ok (value, rest) =>
    match skipSpace rest with
    | [] => .ok value
    | c :: _ => .error (.badCharacter c)

end BlockProgram.Json
