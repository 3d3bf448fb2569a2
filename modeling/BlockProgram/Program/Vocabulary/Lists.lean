import BlockProgram.Program.Vocabulary.Text

/-! Lists. -/
namespace BlockProgram.Vocabulary

def listsCreateEmpty : Handler := fun _ => return .expression Literal.emptyList .atomic

def listsCreateWith : Handler := fun s => do
  match ← Emit.items s .loosest "null" with
  | none => return .empty
  | some items => return .expression ("[" ++ Text.join ", " items ++ "]") .atomic

def listsRepeat : Handler := fun s => do
  let item ← Emit.valueOrElse s "ITEM" .loosest "null"
  let count ← Emit.valueOrElse s "NUM" .loosest "0"
  return .expression ("new List.filled(" ++ count ++ ", " ++ item ++ ")") .unaryPostfix

def listsLength : Handler := fun s => do
  let list ← Emit.valueOrElse s "VALUE" .unaryPostfix Literal.emptyList
  return .expression (list ++ ".length") .unaryPostfix

def listsIsEmpty : Handler := fun s => do
  let list ← Emit.valueOrElse s "VALUE" .unaryPostfix Literal.emptyList
  return .expression (list ++ ".isEmpty") .unaryPostfix

def listsIndexOf : Handler := fun s => do
  let item ← Emit.valueOrElse s "FIND" .loosest Literal.emptyText
  let list ← Emit.valueOrElse s "VALUE" .unaryPostfix Literal.emptyList
  foundPosition list (searchOperation s) item

/-- Stores a list in a fresh variable: the declaration, and the name. -/
def holdList (list : String) : Emit (String × String) := do
  let name ← Emit.freshVariable "tmp_list"
  return ("List " ++ name ++ " = " ++ list ++ ";\n", name)

/-- Stores a random position of a list in a fresh variable: the declaration, and the name. -/
def indexAtRandom (list : String) : Emit (String × String) := do
  let name ← Emit.freshVariable "tmp_x"
  return ("int " ++ name ++ " = new Math.Random().nextInt(" ++ list ++ ".length);\n", name)

def getFromEndLines : List String := [
  "dynamic " ++ Emit.placeholder ++ "(List my_list, num x) \x7b",
  "  x = my_list.length - x;",
  "  return my_list[x];",
  "\x7d"]

def removeFromEndLines : List String := [
  "dynamic " ++ Emit.placeholder ++ "(List my_list, num x) \x7b",
  "  x = my_list.length - x;",
  "  return my_list.removeAt(x);",
  "\x7d"]

def getRandomLines : List String := [
  "dynamic " ++ Emit.placeholder ++ "(List my_list) \x7b",
  "  int x = new Math.Random().nextInt(my_list.length);",
  "  return my_list[x];",
  "\x7d"]

def removeRandomLines : List String := [
  "dynamic " ++ Emit.placeholder ++ "(List my_list) \x7b",
  "  int x = new Math.Random().nextInt(my_list.length);",
  "  return my_list.removeAt(x);",
  "\x7d"]

def unknownMode (s : Scene) (mode position : String) : Emit Fragment :=
  Emit.fail .dispatch s.data ("mode " ++ mode ++ " at " ++ position)

/-- Reads, takes out or removes an item, given the code behind the list for reading and for taking
out. -/
def accessItem (s : Scene) (mode position list get take : String) : Emit Fragment :=
  match mode with
  | "GET" => return .expression (list ++ get) .unaryPostfix
  | "GET_REMOVE" => return .expression (list ++ take) .unaryPostfix
  | "REMOVE" => return .statement (list ++ take ++ ";\n")
  | _ => unknownMode s mode position

/-- The call of a helper function with a list and a position counted from the end. -/
def fromEndCall (s : Scene) (key : String) (lines : List String) (list : String) :
    Emit Fragment := do
  let i ← Emit.adjusted s "AT" 1 false .loosest
  let name ← Emit.addHelper key lines
  return .expression (name ++ "(" ++ list ++ ", " ++ i ++ ")") .unaryPostfix

/-- The item of a list that is no name, where the list would have to be mentioned twice. -/
def accessOnce (s : Scene) (mode position list : String) : Emit Fragment := do
  if position = "RANDOM" then
    needMath
    let (declareList, list) ← holdList list
    let (declareIndex, x) ← indexAtRandom list
    return .statement (declareList ++ declareIndex ++ list ++ ".removeAt(" ++ x ++ ");\n")
  match mode with
  | "REMOVE" =>
    let i ← Emit.adjusted s "AT" 1 false .additive
    let (declaration, list) ← holdList list
    return .statement (declaration ++ list ++ ".removeAt(" ++ list ++ ".length - " ++ i ++ ");\n")
  | "GET" => fromEndCall s "lists_get_from_end" getFromEndLines list
  | "GET_REMOVE" => fromEndCall s "lists_remove_from_end" removeFromEndLines list
  | _ => unknownMode s mode position

def accessRandom (s : Scene) (mode position list : String) : Emit Fragment := do
  needMath
  match mode with
  | "REMOVE" =>
    let (declaration, x) ← indexAtRandom list
    return .statement (declaration ++ list ++ ".removeAt(" ++ x ++ ");\n")
  | "GET" =>
    let name ← Emit.addHelper "lists_get_random_item" getRandomLines
    return .expression (name ++ "(" ++ list ++ ")") .unaryPostfix
  | "GET_REMOVE" =>
    let name ← Emit.addHelper "lists_remove_random_item" removeRandomLines
    return .expression (name ++ "(" ++ list ++ ")") .unaryPostfix
  | _ => unknownMode s mode position

def listsGetIndex : Handler := fun s => do
  let mode := fieldOr s "MODE" "GET"
  let position := fieldOr s "WHERE" "FROM_START"
  let p : Precedence :=
    if position = "RANDOM" || position = "FROM_END" then .loosest else .unaryPostfix
  let list ← Emit.valueOrElse s "VALUE" p Literal.emptyList
  if ((position = "RANDOM" && mode = "REMOVE") || position = "FROM_END") && !Literal.isWord list then
    accessOnce s mode position list
  else
    match position with
    | "FIRST" => accessItem s mode position list ".first" ".removeAt(0)"
    | "LAST" => accessItem s mode position list ".last" ".removeLast()"
    | "FROM_START" =>
      let i ← Emit.adjusted s "AT" 0 false .loosest
      accessItem s mode position list ("[" ++ i ++ "]") (".removeAt(" ++ i ++ ")")
    | "FROM_END" =>
      let i ← Emit.adjusted s "AT" 1 false .additive
      accessItem s mode position list ("[" ++ list ++ ".length - " ++ i ++ "]")
        (".removeAt(" ++ list ++ ".length - " ++ i ++ ")")
    | "RANDOM" => accessRandom s mode position list
    | _ => unknownMode s mode position

/-- A list that may be mentioned twice: itself if it is a name, or else a fresh variable and its
declaration. -/
def cachedList (list : String) : Emit (String × String) := do
  if Literal.isWord list then return ("", list)
  holdList list

def listsSetIndex : Handler := fun s => do
  let mode := fieldOr s "MODE" "GET"
  let position := fieldOr s "WHERE" "FROM_START"
  let list ← Emit.valueOrElse s "LIST" .unaryPostfix Literal.emptyList
  let value ← Emit.valueOrElse s "TO" .assignment "null"
  match position with
  | "FIRST" =>
    match mode with
    | "SET" => return .statement (list ++ "[0] = " ++ value ++ ";\n")
    | "INSERT" => return .statement (list ++ ".insert(0, " ++ value ++ ");\n")
    | _ => unknownMode s mode position
  | "LAST" =>
    match mode with
    | "SET" =>
      let (declaration, list) ← cachedList list
      return .statement (declaration ++ list ++ "[" ++ list ++ ".length - 1] = " ++ value ++ ";\n")
    | "INSERT" => return .statement (list ++ ".add(" ++ value ++ ");\n")
    | _ => unknownMode s mode position
  | "FROM_START" =>
    let i ← Emit.adjusted s "AT" 0 false .loosest
    match mode with
    | "SET" => return .statement (list ++ "[" ++ i ++ "] = " ++ value ++ ";\n")
    | "INSERT" => return .statement (list ++ ".insert(" ++ i ++ ", " ++ value ++ ");\n")
    | _ => unknownMode s mode position
  | "FROM_END" =>
    let i ← Emit.adjusted s "AT" 1 false .additive
    let (declaration, list) ← cachedList list
    match mode with
    | "SET" =>
      return .statement (declaration ++ list ++ "[" ++ list ++ ".length - " ++ i ++ "] = " ++ value ++
        ";\n")
    | "INSERT" =>
      return .statement (declaration ++ list ++ ".insert(" ++ list ++ ".length - " ++ i ++ ", " ++
        value ++ ");\n")
    | _ => unknownMode s mode position
  | "RANDOM" =>
    needMath
    let (declareList, list) ← cachedList list
    let (declareIndex, x) ← indexAtRandom list
    match mode with
    | "SET" =>
      return .statement (declareList ++ declareIndex ++ list ++ "[" ++ x ++ "] = " ++ value ++ ";\n")
    | "INSERT" =>
      return .statement (declareList ++ declareIndex ++ list ++ ".insert(" ++ x ++ ", " ++ value ++
        ");\n")
    | _ => unknownMode s mode position
  | _ => unknownMode s mode position

/-- A function that gives a part of a list, both ends given by a position mode and an index. -/
def sublistLines : List String :=
  ("List " ++ Emit.placeholder ++ "(List list, String where1, num at1, String where2, num at2) \x7b") ::
    rangeBody "list" "sublist" "lists_getSublist"

def listsGetSublist : Handler := fun s =>
  cutPart (Emit.valueOrElse s "LIST" .unaryPostfix Literal.emptyList) false
    (cutRange s "lists_get_sublist" sublistLines "sublist" Literal.isWord)

def sortLines : List String := [
  "List " ++ Emit.placeholder ++ "(List list, String type, int direction) \x7b",
  "  var compareFuncs = \x7b",
  "    \"NUMERIC\": (a, b) => (direction * a.compareTo(b)).toInt(),",
  "    \"TEXT\": (a, b) => direction * a.toString().compareTo(b.toString()),",
  "    \"IGNORE_CASE\": ",
  "       (a, b) => direction * ",
  "      a.toString().toLowerCase().compareTo(b.toString().toLowerCase())",
  "  \x7d;",
  "  list = new List.from(list);",
  "  var compare = compareFuncs[type];",
  "  list.sort(compare);",
  "  return list;",
  "\x7d"]

def listsSort : Handler := fun s => do
  let list ← Emit.valueOrElse s "LIST" .loosest Literal.emptyList
  let direction := if s.field "DIRECTION" = "1" then "1" else "-1"
  let name ← Emit.addHelper "lists_sort" sortLines
  return .expression (name ++ "(" ++ list ++ ", \"" ++ s.field "TYPE" ++ "\", " ++ direction ++ ")")
    .unaryPostfix

def listsSplit : Handler := fun s => do
  let input ← Emit.value s "INPUT" .unaryPostfix
  let delimiter ← Emit.valueOrElse s "DELIM" .loosest Literal.emptyText
  match s.field "MODE" with
  | "SPLIT" =>
    let text := if input = "" then Literal.emptyText else input
    return .expression (text ++ ".split(" ++ delimiter ++ ")") .unaryPostfix
  | "JOIN" =>
    let list := if input = "" then Literal.emptyList else input
    return .expression (list ++ ".join(" ++ delimiter ++ ")") .unaryPostfix
  | mode => Emit.fail .option s.data ("unknown mode " ++ Text.quoted mode)

def listsReverse : Handler := fun s => do
  let list ← Emit.valueOrElse s "LIST" .unaryPostfix Literal.emptyList
  return .expression ("new List.from(" ++ list ++ ".reversed)") .unaryPostfix

def lists : Vocabulary := [
  ("lists_create_empty", ⟨listsCreateEmpty, {}⟩),
  ("lists_create_with", ⟨listsCreateWith, {}⟩),
  ("lists_repeat", ⟨listsRepeat, {}⟩),
  ("lists_length", ⟨listsLength, {}⟩),
  ("lists_isEmpty", ⟨listsIsEmpty, {}⟩),
  ("lists_indexOf", ⟨listsIndexOf, {}⟩),
  ("lists_getIndex", ⟨listsGetIndex, {}⟩),
  ("lists_setIndex", ⟨listsSetIndex, {}⟩),
  ("lists_getSublist", ⟨listsGetSublist, {}⟩),
  ("lists_sort", ⟨listsSort, {}⟩),
  ("lists_split", ⟨listsSplit, {}⟩),
  ("lists_reverse", ⟨listsReverse, {}⟩)]

end BlockProgram.Vocabulary
