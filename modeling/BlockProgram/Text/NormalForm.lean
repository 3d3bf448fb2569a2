import BlockProgram.Text.CombiningClass
import BlockProgram.Text.Composite

/-! The normal form of a text, in which texts that look the same are the same. A text is taken apart
into letters and marks, the marks of each letter are put in order, and composites are put together
again. A letter keeps at most thirty marks: a joiner that is not seen goes before the next one. -/
namespace BlockProgram.Text

/-- The letters that join the letter before them though they are not marks, Korean ones aside. -/
def joiningLetters : List Nat := [
  2494,2519,2878,2902,2903,3006,3031,3266,3285,3286,3390,3415,3535,3551,4142,6965,69927,70462,70487,70832,70842,70845,
  71087,71984]

/-- Characters that look like a text with marks but are not made of it, by the number of marks that
text begins and ends with. -/
def lookalikeSpans : List ((Nat × Nat) × List Nat) := [
  ((0, 1), [
    168,1,6,1,4,1,3,1,267,3,273,6,156,1,9,1,7224,1,1,2,60,2,24,1,38,1,4188,2,465,17,133,1,2,1,8,1,13,1,2,1,16,1,8,1,4,1,
    10,1,2,1,51285,2,10,2,169,3,50,1,72,1,98,2,267,4,35,3,1,1,1,10,1,12,104,6,232,1,61999,1]),
  ((0, 2), [
    901,1,3057,1,1,1,4167,1,11,3,13,3,13,2,56431,6,142,3]),
  ((1, 1), [
    12595,1,1,2,3,6,15,21,52794,2,3,1,1,2,3,6,18,6,2,6,2,6,2,3])]

/-- The joiner that is not seen. -/
def hiddenJoiner : Nat := 0x34F

def classOf (n : Nat) : Nat := combiningClass (Char.ofNat n)

def isMark (n : Nat) : Bool :=
  if n < 0x300 then false
  else
    classOf n != 0 || (0x1161 ≤ n && n < 0x1176) || (0x11A7 ≤ n && n < 0x11C3) ||
      joiningLetters.contains n

/-- The letters of a Korean syllable, counted from the first syllable: a consonant, a vowel, and a
final consonant if there is one. -/
def syllableLetters (i : Nat) : List Nat :=
  let final : List Nat := if i % 28 = 0 then [] else [0x11A7 + i % 28]
  (0x1100 + i / 588) :: (0x1161 + i % 588 / 28) :: final

/-- Takes a composite apart again and again; no composite is more than a few deep. -/
def takeApart : Nat → Nat → List Nat
  | 0, n => [n]
  | fuel + 1, n =>
    match composite? n with
    | some (first, mark) => takeApart fuel first ++ [mark]
    | none => [n]

def lettersOf (n : Nat) : List Nat :=
  if n < 0xC0 then [n]
  else if 0xAC00 ≤ n && n ≤ 0xD7A3 then syllableLetters (n - 0xAC00)
  else
    match replacement? n with
    | some m => [m]
    | none => takeApart 8 n

/-- The number of marks a character begins with, and the number it ends with. -/
def markCounts (n : Nat) : Nat × Nat :=
  match lookalikeSpans.find? fun e => inSpans e.2 n with
  | some e => e.1
  | none =>
    let letters := lettersOf n
    ((letters.takeWhile isMark).length, (letters.reverse.takeWhile isMark).length)

def markLimit : Nat := 30

/-- Splits a text into letters with their marks, all of them taken apart. `count` marks have been
seen since the last letter or joiner, and `current` is what has been gathered. -/
def letterRuns (count : Nat) (current : List Nat) : List Char → List (List Nat)
  | [] => [current]
  | c :: cs =>
    let letters := lettersOf c.toNat
    let (leading, trailing) := markCounts c.toNat
    if leading = 0 then current :: letterRuns trailing letters cs
    else if count + leading ≤ markLimit then
      letterRuns (count + leading) (current ++ letters) cs
    else (current ++ [hiddenJoiner]) :: letterRuns leading letters cs

/-- Puts a mark behind the marks gathered so far, the last of them first: before those of a higher
class, but never before a letter. -/
def placeMark (n : Nat) : List Nat → List Nat
  | [] => [n]
  | m :: ms => if classOf n != 0 && classOf n < classOf m then m :: placeMark n ms else n :: m :: ms

/-- The letters and marks with the marks of each letter in order. -/
def orderMarks (ns : List Nat) : List Nat := (ns.foldl (fun placed n => placeMark n placed) []).reverse

/-- The character two others are put together to: a Korean syllable or a composite. -/
def pair? (first second : Nat) : Option Nat :=
  if 0x1100 ≤ first && first < 0x1113 && 0x1161 ≤ second && second < 0x1176 then
    some (0xAC00 + (first - 0x1100) * 588 + (second - 0x1161) * 28)
  else if 0xAC00 ≤ first && first ≤ 0xD7A3 && (first - 0xAC00) % 28 = 0 &&
      0x11A7 < second && second < 0x11C3 then
    some (first + (second - 0x11A7))
  else compose? first second

/-- Puts composites together, from a letter on. `marks` are those of the letter that could not be
put together with it, the last first; one of the same or a higher class keeps a mark away from the
letter. -/
def putTogether (letter : Nat) (marks : List Nat) : List Nat → List Nat
  | [] => letter :: marks.reverse
  | n :: ns =>
    let reaches : Bool :=
      match marks with
      | [] => true
      | m :: _ => classOf m < classOf n
    match (if isMark n && reaches then pair? letter n else none) with
    | some joined => putTogether joined marks ns
    | none =>
      if classOf n = 0 then letter :: (marks.reverse ++ putTogether n [] ns)
      else putTogether letter (n :: marks) ns

def normalRun (ns : List Nat) : List Nat :=
  match orderMarks ns with
  | [] => []
  | n :: ns => putTogether n [] ns

/-- The normal form of characters. Those before the first mark of all are their own normal form. -/
def normalChars (cs : List Char) : List Char :=
  if cs.all fun c => c.toNat < 0x300 then cs
  else ((letterRuns 0 [] cs).flatMap normalRun).map Char.ofNat

def normalForm (s : String) : String := String.ofList (normalChars s.toList)

end BlockProgram.Text
