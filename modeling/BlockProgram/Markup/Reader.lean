import BlockProgram.Markup.Basic
import BlockProgram.Markup.Letter
import BlockProgram.Number.Literal
import BlockProgram.Text.Lines
import BlockProgram.Text.Quoted
import BlockProgram.Text.Utf8

/-! Reading the first element of a text. Declarations, comments and text around and between elements
are passed over; what follows the element is not looked at. -/
namespace BlockProgram.Markup

def Fault.message : Fault → String
  | malformed => "XML syntax error"
  | noElement => "EOF"
  | version v => "xml: unsupported version " ++ Text.quoted v ++ "; only version 1.0 is supported"
  | encoding e =>
    "xml: encoding " ++ Text.quoted e ++ " declared but Decoder.CharsetReader is nil"
  | notWhole a => "XML syntax error: attribute " ++ a ++ " is not a whole number"

def isTagSpace (c : Char) : Bool := c == ' ' || c == '\t' || c == '\n' || c == '\r'

def skipTagSpace (cs : List Char) : List Char := cs.dropWhile isTagSpace

/-- A character that the run of a name goes on with. Beyond ASCII every character is one; whether it
may stand in a name is looked at afterwards. -/
def isRunChar (c : Char) : Bool :=
  c.isAlphanum || c == '_' || c == ':' || c == '.' || c == '-' || 128 ≤ c.toNat

def readWord (cs : List Char) : Except Fault (List Char × List Char) :=
  let word := cs.takeWhile isRunChar
  match word with
  | [] => .error .malformed
  | c :: more =>
    if isNameStart c && more.all isNamePart then .ok (word, cs.dropWhile isRunChar)
    else .error .malformed

/-- Reads a name: a part before a colon and a part after it, or a part alone. -/
def readName (cs : List Char) : Except Fault (Name × List Char) :=
  match readWord cs with
  | .error e => .error e
  | .ok (word, rest) =>
    if 1 < word.count ':' then .error .malformed
    else
      let space := word.takeWhile (· ≠ ':')
      let base := (word.dropWhile (· ≠ ':')).drop 1
      if space = [] || base = [] then .ok (⟨"", String.ofList word⟩, rest)
      else .ok (⟨String.ofList space, String.ofList base⟩, rest)

def isTextChar (c : Char) : Bool :=
  c == '\t' || c == '\n' || c == '\r' || (0x20 ≤ c.toNat && c.toNat ≠ 0xFFFE && c.toNat ≠ 0xFFFF)

/-- The character of a numeric reference. Code points that are no characters are replaced. -/
def referenceChar? (base : Nat) (digits : List Char) : Option Char :=
  match Number.readWhole? base digits with
  | some n =>
    if n ≤ 0x10FFFF then
      some (if 0xD800 ≤ n && n < 0xE000 then Text.replacement else Char.ofNat n)
    else none
  | none => none

def entity? : List Char → Option Char
  | ['a', 'm', 'p'] => some '&'
  | ['l', 't'] => some '<'
  | ['g', 't'] => some '>'
  | ['a', 'p', 'o', 's'] => some '\''
  | ['q', 'u', 'o', 't'] => some '"'
  | _ => none

def readReference (cs : List Char) : Except Fault (Char × List Char) :=
  let (value, rest) : Option Char × List Char :=
    match cs with
    | '#' :: 'x' :: r =>
      let digits := r.takeWhile fun c => (Text.hexValue? c).isSome
      (referenceChar? 16 digits, r.drop digits.length)
    | '#' :: r =>
      let digits := r.takeWhile Char.isDigit
      (referenceChar? 10 digits, r.drop digits.length)
    | r =>
      let word := r.takeWhile isRunChar
      (entity? word, r.drop word.length)
  match value, rest with
  | some c, ';' :: rest => if isTextChar c then .ok (c, rest) else .error .malformed
  | _, _ => .error .malformed

/-- Reads the value of an attribute after its opening quote. Line ends become newlines. -/
def readQuoted (quote : Char) : Nat → List Char → List Char → Except Fault (String × List Char)
  | 0, _, _ => .error .malformed
  | _ + 1, [], _ => .error .malformed
  | fuel + 1, c :: cs, done =>
    if c = quote then .ok (String.ofList done.reverse, cs)
    else if c = '<' then .error .malformed
    else if c = '&' then
      match readReference cs with
      | .error e => .error e
      | .ok (x, rest) => readQuoted quote fuel rest (x :: done)
    else if c = '\r' then
      match cs with
      | '\n' :: rest => readQuoted quote fuel rest ('\n' :: done)
      | _ => readQuoted quote fuel cs ('\n' :: done)
    else if isTextChar c then readQuoted quote fuel cs (c :: done)
    else .error .malformed

/-- Reads attributes up to the end of the tag, and tells whether the tag closes its element. -/
def readAttributes : Nat → List Char → List (Name × String) →
    Except Fault (List (Name × String) × Bool × List Char)
  | 0, _, _ => .error .malformed
  | fuel + 1, text, done =>
    match skipTagSpace text with
    | '/' :: '>' :: rest => .ok (done.reverse, true, rest)
    | '>' :: rest => .ok (done.reverse, false, rest)
    | cs =>
      match readName cs with
      | .error e => .error e
      | .ok (name, rest) =>
        match skipTagSpace rest with
        | '=' :: rest =>
          match skipTagSpace rest with
          | q :: rest =>
            if q = '"' || q = '\'' then
              match readQuoted q fuel rest [] with
              | .error e => .error e
              | .ok (value, rest) => readAttributes fuel rest ((name, value) :: done)
            else .error .malformed
          | [] => .error .malformed
        | _ => .error .malformed

/-- The characters after the first occurrence of `mark`, and those before it. -/
def cutAt (mark : List Char) : List Char → Option (List Char × List Char)
  | [] => if mark = [] then some ([], []) else none
  | c :: cs =>
    if mark.isPrefixOf (c :: cs) then some ([], (c :: cs).drop mark.length)
    else (cutAt mark cs).map fun (before, rest) => (c :: before, rest)

/-- The quoted value after `key=` in a declaration; empty when there is none. -/
def declared (key : List Char) : Nat → List Char → List Char
  | 0, _ => []
  | fuel + 1, cs =>
    match cutAt (key ++ ['=']) cs with
    | some (_, q :: rest) =>
      if q = '"' || q = '\'' then
        match cutAt [q] rest with
        | some (value, _) => value
        | none => []
      else declared key fuel rest
    | _ => []

/-- Passes over an instruction after its question mark. A declaration may only announce version 1.0
and the encoding UTF-8. -/
def skipInstruction (cs : List Char) : Except Fault (List Char) :=
  match readWord cs with
  | .error e => .error e
  | .ok (word, rest) =>
    match cutAt ['?', '>'] (skipTagSpace rest) with
    | none => .error .malformed
    | some (body, rest) =>
      if word = "xml".toList then
        let version := declared "version".toList body.length body
        let encoding := declared "encoding".toList body.length body
        if version ≠ [] && version ≠ "1.0".toList then .error (.version (String.ofList version))
        else if encoding ≠ [] && encoding.map Char.toLower ≠ "utf-8".toList then
          .error (.encoding (String.ofList encoding))
        else .ok rest
      else .ok rest

/-- Passes over a comment after its opening mark. Two hyphens in a row may only end it. -/
def skipComment (cs : List Char) : Except Fault (List Char) :=
  match cutAt ['-', '-'] cs with
  | some (_, '>' :: rest) => .ok rest
  | _ => .error .malformed

/-- Passes over a directive: quotes and angle brackets in it are balanced, and comments do not
count. Every step takes a character, so the fuel is the length of the text. -/
def skipDirective : Nat → Option Char → Nat → List Char → Except Fault (List Char)
  | 0, _, _, _ => .error .malformed
  | _ + 1, _, _, [] => .error .malformed
  | fuel + 1, quote, depth, c :: cs =>
    match quote with
    | some q => skipDirective fuel (if c = q then none else some q) depth cs
    | none =>
      if c = '"' || c = '\'' then skipDirective fuel (some c) depth cs
      else if c = '<' then
        if "!--".toList.isPrefixOf cs then
          match cutAt "-->".toList (cs.drop 3) with
          | some (_, rest) => skipDirective fuel none depth rest
          | none => .error .malformed
        else skipDirective fuel none (depth + 1) cs
      else if c = '>' then
        match depth with
        | 0 => .ok cs
        | d + 1 => skipDirective fuel none d cs
      else skipDirective fuel none depth cs

def skipText : Nat → List Char → Except Fault (List Char)
  | 0, _ => .error .malformed
  | _ + 1, [] => .ok []
  | fuel + 1, c :: cs =>
    if c = '<' then .ok (c :: cs)
    else if c = '&' then
      match readReference cs with
      | .error e => .error e
      | .ok (_, rest) => skipText fuel rest
    else if "]]>".toList.isPrefixOf (c :: cs) then .error .malformed
    else if isTextChar c then skipText fuel cs
    else .error .malformed

/-- Passes over what starts with an exclamation mark: a comment, raw text or a directive. The first
character of a directive is always part of it. -/
def skipMarked (cs : List Char) : Except Fault (List Char) :=
  match cs with
  | '-' :: '-' :: rest => skipComment rest
  | '-' :: _ => .error .malformed
  | '[' :: rest =>
    if "CDATA[".toList.isPrefixOf rest then
      match cutAt "]]>".toList (rest.drop 6) with
      | some (body, rest) => if body.all isTextChar then .ok rest else .error .malformed
      | none => .error .malformed
    else .error .malformed
  | rest => skipDirective rest.length none 0 (rest.drop 1)

mutual

def readElement : Nat → List Char → Except Fault (Element × List Char)
  | 0, _ => .error .malformed
  | fuel + 1, cs =>
    match readName cs with
    | .error e => .error e
    | .ok (name, rest) =>
      match readAttributes fuel rest [] with
      | .error e => .error e
      | .ok (attributes, true, rest) => .ok (.mk name attributes [], rest)
      | .ok (attributes, false, rest) =>
        match readContent fuel name rest with
        | .error e => .error e
        | .ok (children, rest) => .ok (.mk name attributes children, rest)

/-- Reads what stands between the tags of an element, and its closing tag. -/
def readContent : Nat → Name → List Char → Except Fault (List Element × List Char)
  | 0, _, _ => .error .malformed
  | fuel + 1, name, text =>
    match skipText fuel text with
    | .error e => .error e
    | .ok ('<' :: '/' :: cs) =>
      match readName cs with
      | .error e => .error e
      | .ok (closing, rest) =>
        match skipTagSpace rest with
        | '>' :: rest => if closing = name then .ok ([], rest) else .error .malformed
        | _ => .error .malformed
    | .ok ('<' :: '?' :: cs) =>
      match skipInstruction cs with
      | .error e => .error e
      | .ok rest => readContent fuel name rest
    | .ok ('<' :: '!' :: cs) =>
      match skipMarked cs with
      | .error e => .error e
      | .ok rest => readContent fuel name rest
    | .ok ('<' :: cs) =>
      match readElement fuel cs with
      | .error e => .error e
      | .ok (child, rest) =>
        match readContent fuel name rest with
        | .error e => .error e
        | .ok (children, rest) => .ok (child :: children, rest)
    | .ok _ => .error .malformed

end

def readFrom : Nat → List Char → Except Fault Element
  | 0, _ => .error .noElement
  | fuel + 1, text =>
    match skipText (fuel + 1) text with
    | .error e => .error e
    | .ok ('<' :: '?' :: cs) =>
      match skipInstruction cs with
      | .error e => .error e
      | .ok rest => readFrom fuel rest
    | .ok ('<' :: '!' :: cs) =>
      match skipMarked cs with
      | .error e => .error e
      | .ok rest => readFrom fuel rest
    | .ok ('<' :: cs) => (readElement fuel cs).map (·.1)
    | .ok _ => .error .noElement

def read (text : String) : Except Fault Element :=
  let cs := text.toList
  readFrom (2 * cs.length + 2) cs

end BlockProgram.Markup
