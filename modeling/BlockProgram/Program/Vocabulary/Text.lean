import BlockProgram.Program.Vocabulary.Math

/-! Texts. -/
namespace BlockProgram.Vocabulary

def textLiteral : Handler := fun s => return .expression (Literal.quote (s.field "TEXT")) .atomic

/-- A text of several lines. With a joint in it, it is a sum. -/
def textMultiline : Handler := fun s =>
  let code := Literal.quoteLines (s.field "TEXT")
  return .expression code (if code.toList.contains '+' then .additive else .atomic)

def textJoin : Handler := fun s => do
  let n := s.data.mutation.itemCount
  if n = 0 then return .expression Literal.emptyText .atomic
  if n = 1 then
    let item ← Emit.valueOrElse s "ADD0" .unaryPostfix Literal.emptyText
    return .expression (item ++ ".toString()") .unaryPostfix
  match ← Emit.items s .loosest Literal.emptyText with
  | none => return .empty
  | some items => return .expression ("[" ++ Text.join "," items ++ "].join()") .unaryPostfix

def textAppend : Handler := fun s => do
  let v ← Emit.variableName (s.field "VAR")
  let value ← Emit.valueOrElse s "TEXT" .loosest Literal.emptyText
  return .statement (v ++ " = [" ++ v ++ ", " ++ value ++ "].join();\n")

def textLength : Handler := fun s => do
  let text ← Emit.valueOrElse s "VALUE" .unaryPostfix Literal.emptyText
  return .expression (text ++ ".length") .unaryPostfix

def textIsEmpty : Handler := fun s => do
  let text ← Emit.valueOrElse s "VALUE" .unaryPostfix Literal.emptyText
  return .expression (text ++ ".isEmpty") .unaryPostfix

/-- The call that finds a position, brought to the counting in use. -/
def foundPosition (subject operation found : String) : Emit Fragment := do
  let code := subject ++ "." ++ operation ++ "(" ++ found ++ ")"
  if (← Emit.options).oneBasedIndex then return .expression (code ++ " + 1") .additive
  return .expression code .unaryPostfix

def searchOperation (s : Scene) : String :=
  if s.field "END" = "FIRST" then "indexOf" else "lastIndexOf"

def textIndexOf : Handler := fun s => do
  let sub ← Emit.valueOrElse s "FIND" .loosest Literal.emptyText
  let text ← Emit.valueOrElse s "VALUE" .unaryPostfix Literal.emptyText
  foundPosition text (searchOperation s) sub

def fromEndLines : List String := [
  "String " ++ Emit.placeholder ++ "(String text, num x) \x7b",
  "  return text[text.length - x];",
  "\x7d"]

def randomLetterLines : List String := [
  "String " ++ Emit.placeholder ++ "(String text) \x7b",
  "  int x = new Math.Random().nextInt(text.length);",
  "  return text[x];",
  "\x7d"]

def fieldOr (s : Scene) (name fallback : String) : String :=
  if s.field name = "" then fallback else s.field name

def textCharAt : Handler := fun s => do
  let position := fieldOr s "WHERE" "FROM_START"
  let p : Precedence :=
    if position = "FIRST" || position = "FROM_START" then .unaryPostfix else .loosest
  let text ← Emit.valueOrElse s "VALUE" p Literal.emptyText
  match position with
  | "FIRST" => return .expression (text ++ "[0]") .unaryPostfix
  | "FROM_START" =>
    let i ← Emit.adjusted s "AT" 0 false .loosest
    return .expression (text ++ "[" ++ i ++ "]") .unaryPostfix
  | "LAST" =>
    let name ← Emit.addHelper "text_get_from_end" fromEndLines
    return .expression (name ++ "(" ++ text ++ ", 1)") .unaryPostfix
  | "FROM_END" =>
    let i ← Emit.adjusted s "AT" 1 false .loosest
    let name ← Emit.addHelper "text_get_from_end" fromEndLines
    return .expression (name ++ "(" ++ text ++ ", " ++ i ++ ")") .unaryPostfix
  | "RANDOM" =>
    needMath
    let name ← Emit.addHelper "text_random_letter" randomLetterLines
    return .expression (name ++ "(" ++ text ++ ")") .unaryPostfix
  | _ => Emit.fail .option s.data ("unknown position " ++ Text.quoted position)

/-- The body of a helper function that cuts out a part. A number counted from the start is the
position itself, and one counted from the end is taken from the last position; the end is moved
behind the last item. -/
def rangeBody (subject operation type : String) : List String := [
  "  int getAt(String where, num at) \x7b",
  "    if (where == 'FROM_END') \x7b",
  "      at = " ++ (subject ++ ".length - 1 - at") ++ ";",
  "    \x7d else if (where == 'FIRST') \x7b",
  "      at = 0;",
  "    \x7d else if (where == 'LAST') \x7b",
  "      at = " ++ subject ++ ".length - 1;",
  "    \x7d else if (where != 'FROM_START') \x7b",
  "      throw 'Unhandled option (" ++ type ++ ").';",
  "    \x7d",
  "    return at;",
  "  \x7d",
  "  at1 = getAt(where1, at1);",
  "  at2 = getAt(where2, at2) + 1;",
  "  return " ++ subject ++ "." ++ operation ++ "(at1, at2);",
  "\x7d"]

/-- A function that gives a part of a text, both ends given by a position mode and an index. -/
def substringLines : List String :=
  ("String " ++ Emit.placeholder ++ "(String text, String where1, num at1, String where2, num at2) \x7b") ::
    rangeBody "text" "substring" "text_getSubstring"

/-- The first position of a range of `subject`; `none` when the mode is not known. -/
def rangeStart (s : Scene) (subject mode : String) : Emit (Option String) := do
  match mode with
  | "FROM_START" => return some (← Emit.adjusted s "AT1" 0 false .loosest)
  | "FROM_END" =>
    let i ← Emit.adjusted s "AT1" 1 false .additive
    return some (subject ++ ".length - " ++ i)
  | "FIRST" => return some "0"
  | _ =>
    let _ ← Emit.fail .option s.data ("unknown start position " ++ Text.quoted mode)
    return none

/-- The position behind a range of `subject`, empty for a range up to the end; `none` when the mode
is not known. -/
def rangeEnd (s : Scene) (subject mode : String) : Emit (Option String) := do
  match mode with
  | "FROM_START" => return some (← Emit.adjusted s "AT2" 1 false .loosest)
  | "FROM_END" =>
    let i ← Emit.adjusted s "AT2" 0 false .additive
    return some (subject ++ ".length - " ++ i)
  | "LAST" => return some ""
  | _ =>
    let _ ← Emit.fail .option s.data ("unknown end position " ++ Text.quoted mode)
    return none

/-- The call that cuts a range out of `subject`. -/
def inlineRange (s : Scene) (subject operation mode1 mode2 : String) : Emit Fragment := do
  match ← rangeStart s subject mode1 with
  | none => return .empty
  | some start =>
    match ← rangeEnd s subject mode2 with
    | none => return .empty
    | some stop =>
      let arguments := if mode2 = "LAST" then start else start ++ ", " ++ stop
      return .expression (subject ++ "." ++ operation ++ "(" ++ arguments ++ ")") .unaryPostfix

/-- The call of a helper function that cuts a range out of `subject`. -/
def helperRange (s : Scene) (key : String) (lines : List String) (subject mode1 mode2 : String) :
    Emit Fragment := do
  let i ← Emit.adjusted s "AT1" 0 false .loosest
  let j ← Emit.adjusted s "AT2" 0 false .loosest
  let name ← Emit.addHelper key lines
  return .expression (name ++ "(" ++ subject ++ ", '" ++ mode1 ++ "', " ++ i ++ ", '" ++ mode2 ++
    "', " ++ j ++ ")") .unaryPostfix

/-- Whether the subject is mentioned once more for its length. -/
def isRepeated (mode1 mode2 : String) : Bool := mode1 = "FROM_END" || mode2 ≠ "FROM_START"

/-- Cuts a range out of `subject`. Where it has to be mentioned twice and must not be, a helper
function takes it once. -/
def cutRange (s : Scene) (key : String) (lines : List String) (operation : String)
    (mayRepeat : String → Bool) (subject : String) : Emit Fragment :=
  let mode1 := s.field "WHERE1"
  let mode2 := s.field "WHERE2"
  if !mayRepeat subject && isRepeated mode1 mode2 then helperRange s key lines subject mode1 mode2
  else inlineRange s subject operation mode1 mode2

/-- A part of a list or text, or the whole of it. -/
def cutPart (subject : Emit String) (isWhole : Bool) (cut : String → Emit Fragment) : Emit Fragment := do
  let code ← subject
  if isWhole then return .expression code .loosest
  cut code

def textGetSubstring : Handler := fun s =>
  let mode1 := s.field "WHERE1"
  let mode2 := s.field "WHERE2"
  let level : Precedence := if isRepeated mode1 mode2 then .loosest else .unaryPostfix
  cutPart (Emit.valueOrElse s "STRING" level Literal.emptyText) (mode1 = "FIRST" && mode2 = "LAST")
    (cutRange s "text_get_substring" substringLines "substring" Literal.isSimpleText)

def titleCaseLines : List String := [
  "String " ++ Emit.placeholder ++ "(String str) \x7b",
  "  RegExp exp = new RegExp(r'\\b');",
  "  List<String> list = str.split(exp);",
  "  final title = new StringBuffer();",
  "  for (String part in list) \x7b",
  "    if (part.length > 0) \x7b",
  "      title.write(part[0].toUpperCase());",
  "      if (part.length > 0) \x7b",
  "        title.write(part.substring(1).toLowerCase());",
  "      \x7d",
  "    \x7d",
  "  \x7d",
  "  return title.toString();",
  "\x7d"]

def textChangeCase : Handler := fun s => do
  match s.field "CASE" with
  | "UPPERCASE" =>
    let text ← Emit.valueOrElse s "TEXT" .unaryPostfix Literal.emptyText
    return .expression (text ++ ".toUpperCase()") .unaryPostfix
  | "LOWERCASE" =>
    let text ← Emit.valueOrElse s "TEXT" .unaryPostfix Literal.emptyText
    return .expression (text ++ ".toLowerCase()") .unaryPostfix
  | "TITLECASE" =>
    let text ← Emit.valueOrElse s "TEXT" .loosest Literal.emptyText
    let name ← Emit.addHelper "text_toTitleCase" titleCaseLines
    return .expression (name ++ "(" ++ text ++ ")") .unaryPostfix
  | mode => Emit.fail .option s.data ("unknown case " ++ Text.quoted mode)

def trimCall? : String → Option String
  | "LEFT" => some ".replaceFirst(new RegExp(r'^\\s+'), '')"
  | "RIGHT" => some ".replaceFirst(new RegExp(r'\\s+$'), '')"
  | "BOTH" => some ".trim()"
  | _ => none

def textTrim : Handler := fun s => do
  match trimCall? (s.field "MODE") with
  | none => Emit.fail .option s.data ("unknown trim mode " ++ Text.quoted (s.field "MODE"))
  | some call =>
    let text ← Emit.valueOrElse s "TEXT" .unaryPostfix Literal.emptyText
    return .expression (text ++ call) .unaryPostfix

def textPrint : Handler := fun s => do
  let text ← Emit.valueOrElse s "TEXT" .loosest Literal.emptyText
  return .statement ("print(" ++ text ++ ");\n")

def textPrompt : Handler := fun s => do
  Emit.define "import_lisp_html" "import 'lisp:html' as Html;"
  let text ←
    if s.data.hasField "TEXT" then pure (Literal.quote (s.field "TEXT"))
    else Emit.valueOrElse s "TEXT" .loosest Literal.emptyText
  let code := "Html.window.prompt(" ++ text ++ ", '')"
  if s.field "TYPE" = "NUMBER" then
    needMath
    return .expression ("Math.parseDouble(" ++ code ++ ")") .unaryPostfix
  return .expression code .unaryPostfix

def countLines : List String := [
  "int " ++ Emit.placeholder ++ "(String haystack, String needle) \x7b",
  "  if (needle.length == 0) \x7b",
  "    return haystack.length + 1;",
  "  \x7d",
  "  int index = 0;",
  "  int count = 0;",
  "  while (index != -1) \x7b",
  "    index = haystack.indexOf(needle, index);",
  "    if (index != -1) \x7b",
  "      count++;",
  "      index += needle.length;",
  "    \x7d",
  "  \x7d",
  "  return count;",
  "\x7d"]

def textCount : Handler := fun s => do
  let text ← Emit.valueOrElse s "TEXT" .loosest Literal.emptyText
  let sub ← Emit.valueOrElse s "SUB" .loosest Literal.emptyText
  let name ← Emit.addHelper "text_count" countLines
  return .expression (name ++ "(" ++ text ++ ", " ++ sub ++ ")") .unaryPostfix

def textReplace : Handler := fun s => do
  let text ← Emit.valueOrElse s "TEXT" .unaryPostfix Literal.emptyText
  let old ← Emit.valueOrElse s "FROM" .loosest Literal.emptyText
  let new ← Emit.valueOrElse s "TO" .loosest Literal.emptyText
  return .expression (text ++ ".replaceAll(" ++ old ++ ", " ++ new ++ ")") .unaryPostfix

def textReverse : Handler := fun s => do
  let text ← Emit.valueOrElse s "TEXT" .unaryPostfix Literal.emptyText
  return .expression ("new String.fromCharCodes(" ++ text ++ ".runes.toList().reversed)")
    .unaryPrefix

def text : Vocabulary := [
  ("text", ⟨textLiteral, {}⟩),
  ("text_multiline", ⟨textMultiline, {}⟩),
  ("text_join", ⟨textJoin, {}⟩),
  ("text_append", ⟨textAppend, {}⟩),
  ("text_length", ⟨textLength, {}⟩),
  ("text_isEmpty", ⟨textIsEmpty, {}⟩),
  ("text_indexOf", ⟨textIndexOf, {}⟩),
  ("text_charAt", ⟨textCharAt, {}⟩),
  ("text_getSubstring", ⟨textGetSubstring, {}⟩),
  ("text_changeCase", ⟨textChangeCase, {}⟩),
  ("text_trim", ⟨textTrim, {}⟩),
  ("text_print", ⟨textPrint, {}⟩),
  ("text_prompt_ext", ⟨textPrompt, {}⟩),
  ("text_prompt", ⟨textPrompt, {}⟩),
  ("text_count", ⟨textCount, {}⟩),
  ("text_replace", ⟨textReplace, {}⟩),
  ("text_reverse", ⟨textReverse, {}⟩)]

end BlockProgram.Vocabulary
