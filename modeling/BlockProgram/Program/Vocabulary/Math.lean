import BlockProgram.Program.Scene

/-! Numbers and arithmetic. -/
namespace BlockProgram.Vocabulary

def needMath : Emit Unit := Emit.define "import_lisp_math" "import 'lisp:math' as Math;"

/-- A number. Infinity is a member of a class, and a negative number is a sign in front of another,
so neither is an atom. -/
def mathNumber : Handler := fun s =>
  let n := Number.parse (s.field "NUM")
  match n with
  | .infinity false => return .expression "double.infinity" .unaryPostfix
  | .infinity true => return .expression "-double.infinity" .unaryPrefix
  | n =>
    if n.lt .zero then return .expression (Number.format n) .unaryPrefix
    else return .expression (Number.format n) .atomic

/-- An arithmetic operator: its symbol, its precedence, and what its right operand must bind. A
power has no symbol. -/
structure ArithmeticOperator where
  symbol : String
  precedence : Precedence
  right : Precedence

/-- The arithmetic operators. Differences and quotients group to the left. -/
def arithmetic? : String → Option ArithmeticOperator
  | "ADD" => some ⟨" + ", .additive, .additive⟩
  | "MINUS" => some ⟨" - ", .additive, Precedence.additive.tighter⟩
  | "MULTIPLY" => some ⟨" * ", .multiplicative, .multiplicative⟩
  | "DIVIDE" => some ⟨" / ", .multiplicative, Precedence.multiplicative.tighter⟩
  | "POWER" => some ⟨"", .loosest, .loosest⟩
  | _ => none

def mathArithmetic : Handler := fun s => do
  match arithmetic? (s.field "OP") with
  | none => Emit.fail .option s.data ("unknown arithmetic operator " ++ Text.quoted (s.field "OP"))
  | some op =>
    let a ← Emit.valueOrElse s "A" op.precedence "0"
    let b ← Emit.valueOrElse s "B" op.right "0"
    if op.symbol = "" then
      needMath
      return .expression ("Math.pow(" ++ a ++ ", " ++ b ++ ")") .unaryPostfix
    return .expression (a ++ op.symbol ++ b) op.precedence

/-- What the operand of a function of one number must bind. -/
def singleOperand (op : String) : Precedence :=
  if op = "ABS" || "ROUND".toList.isPrefixOf op.toList then .unaryPostfix
  else if op = "SIN" || op = "COS" || op = "TAN" then .multiplicative
  else .loosest

def single? (op a : String) : Option (String × Precedence) :=
  match op with
  | "ABS" => some (a ++ ".abs()", .unaryPostfix)
  | "ROOT" => some ("Math.sqrt(" ++ a ++ ")", .unaryPostfix)
  | "LN" => some ("Math.log(" ++ a ++ ")", .unaryPostfix)
  | "EXP" => some ("Math.exp(" ++ a ++ ")", .unaryPostfix)
  | "POW10" => some ("Math.pow(10," ++ a ++ ")", .unaryPostfix)
  | "ROUND" => some (a ++ ".round()", .unaryPostfix)
  | "ROUNDUP" => some (a ++ ".ceil()", .unaryPostfix)
  | "ROUNDDOWN" => some (a ++ ".floor()", .unaryPostfix)
  | "SIN" => some ("Math.sin(" ++ a ++ " / 180 * Math.pi)", .unaryPostfix)
  | "COS" => some ("Math.cos(" ++ a ++ " / 180 * Math.pi)", .unaryPostfix)
  | "TAN" => some ("Math.tan(" ++ a ++ " / 180 * Math.pi)", .unaryPostfix)
  | "LOG10" => some ("Math.log(" ++ a ++ ") / Math.log(10)", .multiplicative)
  | "ASIN" => some ("Math.asin(" ++ a ++ ") / Math.pi * 180", .multiplicative)
  | "ACOS" => some ("Math.acos(" ++ a ++ ") / Math.pi * 180", .multiplicative)
  | "ATAN" => some ("Math.atan(" ++ a ++ ") / Math.pi * 180", .multiplicative)
  | _ => none

/-- A function of one number. Two minus signs are kept apart. -/
def mathSingle : Handler := fun s => do
  let op := s.field "OP"
  if op = "NEG" then
    let a ← Emit.valueOrElse s "NUM" .unaryPrefix "0"
    let a := if a.toList.head? = some '-' then " " ++ a else a
    return .expression ("-" ++ a) .unaryPrefix
  needMath
  let a ← Emit.valueOrElse s "NUM" (singleOperand op) "0"
  match single? op a with
  | some (code, p) => return .expression code p
  | none => Emit.fail .dispatch s.data ("unknown math operator " ++ Text.quoted op)

/-- The code of a constant, its precedence, and whether it needs the library. -/
def constant? : String → Option (String × Precedence × Bool)
  | "PI" => some ("Math.pi", .unaryPostfix, true)
  | "E" => some ("Math.e", .unaryPostfix, true)
  | "GOLDEN_RATIO" => some ("(1 + Math.sqrt(5)) / 2", .multiplicative, true)
  | "SQRT2" => some ("Math.sqrt2", .unaryPostfix, true)
  | "SQRT1_2" => some ("Math.sqrt1_2", .unaryPostfix, true)
  | "INFINITY" => some ("double.infinity", .atomic, false)
  | _ => none

def mathConstant : Handler := fun s => do
  match constant? (s.field "CONSTANT") with
  | none => Emit.fail .option s.data ("unknown constant " ++ Text.quoted (s.field "CONSTANT"))
  | some (code, p, needsMath) =>
    if needsMath then needMath
    return .expression code p

def primeLines : List String := [
  "bool " ++ Emit.placeholder ++ "(n) \x7b",
  "  // https://en.wikipedia.org/wiki/Primality_test#Naive_methods",
  "  if (n == 2 || n == 3) \x7b",
  "    return true;",
  "  \x7d",
  "  // False if n is null, negative, is 1, or not whole.",
  "  // And false if n is divisible by 2 or 3.",
  "  if (n == null || n <= 1 || n % 1 != 0 || n % 2 == 0 || n % 3 == 0) \x7b",
  "    return false;",
  "  \x7d",
  "  // Check all the numbers of form 6k +/- 1, up to sqrt(n).",
  "  for (var x = 6; x <= Math.sqrt(n) + 1; x += 6) \x7b",
  "    if (n % (x - 1) == 0 || n % (x + 1) == 0) \x7b",
  "      return false;",
  "    \x7d",
  "  \x7d",
  "  return true;",
  "\x7d"]

def property? (property number : String) : Option String :=
  match property with
  | "EVEN" => some (number ++ " % 2 == 0")
  | "ODD" => some (number ++ " % 2 == 1")
  | "WHOLE" => some (number ++ " % 1 == 0")
  | "POSITIVE" => some (number ++ " > 0")
  | "NEGATIVE" => some (number ++ " < 0")
  | _ => none

/-- Whether a number has a property. Nothing to check, or to divide by, has none. -/
def mathNumberProperty : Handler := fun s => do
  let number ← Emit.value s "NUMBER_TO_CHECK" .multiplicative
  if number = "" then return .expression "false" .atomic
  match s.field "PROPERTY" with
  | "PRIME" =>
    needMath
    let name ← Emit.addHelper "math_isPrime" primeLines
    return .expression (name ++ "(" ++ number ++ ")") .unaryPostfix
  | "DIVISIBLE_BY" =>
    let divisor ← Emit.value s "DIVISOR" Precedence.multiplicative.tighter
    if divisor = "" then return .expression "false" .atomic
    return .expression (number ++ " % " ++ divisor ++ " == 0") .equality
  | property =>
    match property? property number with
    | some code => return .expression code .equality
    | none => Emit.fail .option s.data ("unknown number property " ++ Text.quoted property)

/-- Adds to a variable, which counts as zero while it holds no number. -/
def mathChange : Handler := fun s => do
  let delta ← Emit.valueOrElse s "DELTA" .additive "0"
  let v ← Emit.variableName (s.field "VAR")
  return .statement (v ++ " = (" ++ v ++ " is num ? " ++ v ++ " : 0) + " ++ delta ++ ";\n")

/-- A helper function on lists: its name, whether it needs the library, and its text. -/
structure ListHelper where
  name : String
  needsMath : Bool
  lines : List String

def sumHelper : ListHelper := ⟨"math_sum", false, [
  "num " ++ Emit.placeholder ++ "(List<num> myList) \x7b",
  "  num sumVal = 0;",
  "  myList.forEach((num entry) \x7bsumVal += entry;\x7d);",
  "  return sumVal;",
  "\x7d"]⟩

def minimumHelper : ListHelper := ⟨"math_min", true, [
  "num " ++ Emit.placeholder ++ "(List<num> myList) \x7b",
  "  if (myList.isEmpty) return null;",
  "  num minVal = myList[0];",
  "  myList.forEach((num entry) \x7bminVal = Math.min(minVal, entry);\x7d);",
  "  return minVal;",
  "\x7d"]⟩

def maximumHelper : ListHelper := ⟨"math_max", true, [
  "num " ++ Emit.placeholder ++ "(List<num> myList) \x7b",
  "  if (myList.isEmpty) return null;",
  "  num maxVal = myList[0];",
  "  myList.forEach((num entry) \x7bmaxVal = Math.max(maxVal, entry);\x7d);",
  "  return maxVal;",
  "\x7d"]⟩

def meanHelper : ListHelper := ⟨"math_mean", false, [
  "num " ++ Emit.placeholder ++ "(List myList) \x7b",
  "  // First filter list for numbers only.",
  "  List localList = new List.from(myList);",
  "  localList.removeWhere((a) => a is! num);",
  "  if (localList.isEmpty) return null;",
  "  num sumVal = 0;",
  "  localList.forEach((var entry) \x7bsumVal += entry;\x7d);",
  "  return sumVal / localList.length;",
  "\x7d"]⟩

def medianHelper : ListHelper := ⟨"math_median", false, [
  "num " ++ Emit.placeholder ++ "(List myList) \x7b",
  "  // First filter list for numbers only, then sort, then return middle value",
  "  // or the average of two middle values if list has an even number of elements.",
  "  List localList = new List.from(myList);",
  "  localList.removeWhere((a) => a is! num);",
  "  if (localList.isEmpty) return null;",
  "  localList.sort((a, b) => (a - b));",
  "  int index = localList.length ~/ 2;",
  "  if (localList.length % 2 == 1) \x7b",
  "    return localList[index];",
  "  \x7d else \x7b",
  "    return (localList[index - 1] + localList[index]) / 2;",
  "  \x7d",
  "\x7d"]⟩

def modesHelper : ListHelper := ⟨"math_modes", true, [
  "List " ++ Emit.placeholder ++ "(List values) \x7b",
  "  List modes = [];",
  "  List counts = [];",
  "  int maxCount = 0;",
  "  for (int i = 0; i < values.length; i++) \x7b",
  "    var value = values[i];",
  "    bool found = false;",
  "    int thisCount;",
  "    for (int j = 0; j < counts.length; j++) \x7b",
  "      if (counts[j][0] == value) \x7b",
  "        thisCount = ++counts[j][1];",
  "        found = true;",
  "        break;",
  "      \x7d",
  "    \x7d",
  "    if (!found) \x7b",
  "      counts.add([value, 1]);",
  "      thisCount = 1;",
  "    \x7d",
  "    maxCount = Math.max(thisCount, maxCount);",
  "  \x7d",
  "  for (int j = 0; j < counts.length; j++) \x7b",
  "    if (counts[j][1] == maxCount) \x7b",
  "        modes.add(counts[j][0]);",
  "    \x7d",
  "  \x7d",
  "  return modes;",
  "\x7d"]⟩

def deviationHelper : ListHelper := ⟨"math_standard_deviation", true, [
  "num " ++ Emit.placeholder ++ "(List myList) \x7b",
  "  // First filter list for numbers only.",
  "  List numbers = new List.from(myList);",
  "  numbers.removeWhere((a) => a is! num);",
  "  if (numbers.isEmpty) return null;",
  "  num n = numbers.length;",
  "  num sum = 0;",
  "  numbers.forEach((x) => sum += x);",
  "  num mean = sum / n;",
  "  num sumSquare = 0;",
  "  numbers.forEach((x) => sumSquare += Math.pow(x - mean, 2));",
  "  return Math.sqrt(sumSquare / n);",
  "\x7d"]⟩

def randomItemHelper : ListHelper := ⟨"math_random_item", true, [
  "dynamic " ++ Emit.placeholder ++ "(List myList) \x7b",
  "  int x = new Math.Random().nextInt(myList.length);",
  "  return myList[x];",
  "\x7d"]⟩

def listHelper? : String → Option ListHelper
  | "SUM" => some sumHelper
  | "MIN" => some minimumHelper
  | "MAX" => some maximumHelper
  | "AVERAGE" => some meanHelper
  | "MEDIAN" => some medianHelper
  | "MODE" => some modesHelper
  | "STD_DEV" => some deviationHelper
  | "RANDOM" => some randomItemHelper
  | _ => none

def mathOnList : Handler := fun s => do
  match listHelper? (s.field "OP") with
  | none => Emit.fail .option s.data ("unknown list operator " ++ Text.quoted (s.field "OP"))
  | some helper =>
    let list ← Emit.valueOrElse s "LIST" .loosest Literal.emptyList
    if helper.needsMath then needMath
    let name ← Emit.addHelper helper.name helper.lines
    return .expression (name ++ "(" ++ list ++ ")") .unaryPostfix

def mathModulo : Handler := fun s => do
  let dividend ← Emit.valueOrElse s "DIVIDEND" .multiplicative "0"
  let divisor ← Emit.valueOrElse s "DIVISOR" Precedence.multiplicative.tighter "0"
  return .expression (dividend ++ " % " ++ divisor) .multiplicative

def mathConstrain : Handler := fun s => do
  needMath
  let value ← Emit.valueOrElse s "VALUE" .loosest "0"
  let low ← Emit.valueOrElse s "LOW" .loosest "0"
  let high ← Emit.valueOrElse s "HIGH" .loosest "double.infinity"
  return .expression ("Math.min(Math.max(" ++ value ++ ", " ++ low ++ "), " ++ high ++ ")")
    .unaryPostfix

def randomIntLines : List String := [
  "int " ++ Emit.placeholder ++ "(num a, num b) \x7b",
  "  if (a > b) \x7b",
  "    // Swap a and b to ensure a is smaller.",
  "    num c = a;",
  "    a = b;",
  "    b = c;",
  "  \x7d",
  "  return new Math.Random().nextInt(b - a + 1) + a;",
  "\x7d"]

def mathRandomInt : Handler := fun s => do
  needMath
  let low ← Emit.valueOrElse s "FROM" .loosest "0"
  let high ← Emit.valueOrElse s "TO" .loosest "0"
  let name ← Emit.addHelper "math_random_int" randomIntLines
  return .expression (name ++ "(" ++ low ++ ", " ++ high ++ ")") .unaryPostfix

def mathRandomFloat : Handler := fun _ => do
  needMath
  return .expression "new Math.Random().nextDouble()" .unaryPostfix

def mathAtan2 : Handler := fun s => do
  needMath
  let x ← Emit.valueOrElse s "X" .loosest "0"
  let y ← Emit.valueOrElse s "Y" .loosest "0"
  return .expression ("Math.atan2(" ++ y ++ ", " ++ x ++ ") / Math.pi * 180") .multiplicative

def math : Vocabulary := [
  ("math_number", ⟨mathNumber, {}⟩),
  ("math_arithmetic", ⟨mathArithmetic, {}⟩),
  ("math_single", ⟨mathSingle, {}⟩),
  ("math_round", ⟨mathSingle, {}⟩),
  ("math_trig", ⟨mathSingle, {}⟩),
  ("math_constant", ⟨mathConstant, {}⟩),
  ("math_number_property", ⟨mathNumberProperty, {}⟩),
  ("math_change", ⟨mathChange, {}⟩),
  ("math_on_list", ⟨mathOnList, {}⟩),
  ("math_modulo", ⟨mathModulo, {}⟩),
  ("math_constrain", ⟨mathConstrain, {}⟩),
  ("math_random_int", ⟨mathRandomInt, {}⟩),
  ("math_random_float", ⟨mathRandomFloat, {}⟩),
  ("math_atan2", ⟨mathAtan2, {}⟩)]

end BlockProgram.Vocabulary
