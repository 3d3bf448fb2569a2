import BlockProgram.Text.Lines
import BlockProgram.Text.Quoted

/-! Files with one variable a line, `NAME=value` or `NAME: value`. A value may stand in quotes, and
in double quotes it may have escapes; outside single quotes it may refer to variables that the file
sets before it. -/
namespace BlockProgram.EnvFile

abbrev Variables := List (String × String)

inductive Fault where
  | badCharacter (c : Char) (near : String)
  | unterminated (value : String)
  | noName
deriving DecidableEq

def Fault.message : Fault → String
  | badCharacter c near =>
    "unexpected character " ++ Text.quoted c.toString ++ " in variable name near " ++ Text.quoted near
  | unterminated value => "unterminated quoted value " ++ value
  | noName => "zero length string"

def isLineBlank (c : Char) : Bool :=
  let n := c.toNat
  n == 9 || n == 11 || n == 12 || n == 13 || n == 32 || n == 0x85 || n == 0xA0

/-- Whether a byte may stand in a name: a letter or a number of Latin, a point, an underscore or a
blank. -/
def isNameByte (b : UInt8) : Bool :=
  let n := b.toNat
  let c := Char.ofNat n
  if n < 128 then c.isAlphanum || c == '_' || c == '.' || isLineBlank c
  else
    isLineBlank c || n == 0xAA || n == 0xB2 || n == 0xB3 || n == 0xB5 || n == 0xB9 || n == 0xBA ||
      (0xBC ≤ n && n ≤ 0xBE) || (0xC0 ≤ n && n != 0xD7 && n != 0xF7)

def isNameChar (c : Char) : Bool := c.toString.toUTF8.toList.all isNameByte

/-- Drops blank lines and comments, up to the next line that sets something. -/
def statementStart : Nat → List Char → List Char
  | 0, cs => cs
  | fuel + 1, cs =>
    match cs.dropWhile Text.isBlank with
    | '#' :: r => statementStart fuel (r.dropWhile (· ≠ '\n'))
    | r => r

def dropExport (cs : List Char) : List Char :=
  match cs with
  | 'e' :: 'x' :: 'p' :: 'o' :: 'r' :: 't' :: c :: r =>
    if isLineBlank c then r.dropWhile isLineBlank else cs
  | _ => cs

/-- Reads a name and the sign after it. At the end of a file the sign may be missing, and then the
name is empty. -/
def readName (cs : List Char) : Except Fault (String × List Char) :=
  let cs := dropExport (cs.dropWhile isLineBlank)
  let name := cs.takeWhile fun c => c ≠ '=' && c ≠ ':' && isNameChar c
  match cs.drop name.length with
  | [] => if cs.isEmpty then .error .noName else .ok ("", cs)
  | c :: r =>
    if c = '=' || c = ':' then
      .ok (String.ofList (Text.dropEndWhile Text.isBlank name), r.dropWhile isLineBlank)
    else .error (.badCharacter c (String.ofList cs))

def isReferenceChar (c : Char) : Bool := c.isUpper || c.isDigit || c == '_'

def dropOne (c : Char) : List Char → List Char
  | d :: r => if d = c then r else d :: r
  | [] => []

/-- Puts values in place of references. A backslash in front of the sign takes the meaning from it.
The fuel is the length of the text. -/
def substitute (vars : Variables) : Nat → List Char → List Char
  | 0, cs => cs
  | _ + 1, [] => []
  | fuel + 1, '\\' :: '$' :: r =>
    let body := dropOne '\x7b' (dropOne '(' r)
    let rest := dropOne '\x7d' (body.dropWhile isReferenceChar)
    '$' :: r.take (r.length - rest.length) ++ substitute vars fuel rest
  | fuel + 1, '$' :: r =>
    let body := dropOne '\x7b' (dropOne '(' r)
    let name := String.ofList (body.takeWhile isReferenceChar)
    let rest := dropOne '\x7d' (body.dropWhile isReferenceChar)
    if name = "" then '$' :: r.take (r.length - rest.length) ++ substitute vars fuel rest
    else
      ((vars.find? (·.1 = name)).map (·.2.toList)).getD [] ++ substitute vars fuel rest
  | fuel + 1, c :: r => c :: substitute vars fuel r

def expand (vars : Variables) (cs : List Char) : List Char :=
  substitute vars cs.length cs

/-- Turns the escapes for line ends into line ends. -/
def lineEscapes : List Char → List Char
  | '\\' :: c :: r =>
    if c = 'n' then '\n' :: lineEscapes r
    else if c = 'r' then '\r' :: lineEscapes r
    else if c = '\n' then '\\' :: '\n' :: lineEscapes r
    else '\\' :: c :: lineEscapes r
  | c :: r => c :: lineEscapes r
  | [] => []

/-- Drops the backslash in front of anything but a dollar sign. -/
def plainEscapes : List Char → List Char
  | '\\' :: c :: r => if c = '$' then '\\' :: '$' :: plainEscapes r else c :: plainEscapes r
  | c :: r => c :: plainEscapes r
  | [] => []

/-- The text up to a quote that no backslash stands before, and what follows the quote. -/
def untilQuote (quote : Char) (previous : Char) : List Char → Option (List Char × List Char)
  | [] => none
  | c :: r =>
    if c = quote && previous ≠ '\\' then some ([], r)
    else (untilQuote quote c r).map fun (t, rest) => (c :: t, rest)

def readValue (vars : Variables) (cs : List Char) : Except Fault (String × List Char) :=
  let quoted (quote : Char) (r : List Char) : Except Fault (String × List Char) :=
    match untilQuote quote quote r with
    | some (body, rest) =>
      let body := (Text.dropEndWhile (· = quote) body).dropWhile (· = quote)
      let value := if quote = '"' then expand vars (plainEscapes (lineEscapes body)) else body
      .ok (String.ofList value, rest)
    | none => .error (.unterminated (String.ofList (cs.takeWhile (· ≠ '\n'))))
  match cs with
  | '"' :: r => quoted '"' r
  | '\'' :: r => quoted '\'' r
  | _ =>
    let line := cs.takeWhile fun c => c ≠ '\n' && c ≠ '\r'
    let value := Text.dropEndWhile isLineBlank (beforeComment ' ' true line)
    .ok (String.ofList (expand vars (value.dropWhile isLineBlank)), cs.drop line.length)
where
  /-- The part of a line in front of a comment, which a blank must precede. -/
  beforeComment (previous : Char) (first : Bool) : List Char → List Char
    | [] => []
    | c :: r =>
      if c = '#' && !first && isLineBlank previous then [] else c :: beforeComment c false r

/-- Reads statements after those that set `vars`. Each takes a character at least, so the fuel is
the length of the text. -/
def readStatements : Nat → Variables → List Char → Except Fault Variables
  | 0, vars, _ => .ok vars
  | fuel + 1, vars, cs =>
    match statementStart cs.length cs with
    | [] => .ok vars
    | cs => do
      let (name, rest) ← readName cs
      let (value, rest) ← readValue vars rest
      readStatements fuel ((name, value) :: vars) rest

def read (text : String) : Except Fault Variables :=
  let cs := (Text.replaceAll text "\r\n" "\n").toList
  readStatements (cs.length + 1) [] cs

end BlockProgram.EnvFile
