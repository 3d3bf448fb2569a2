import BlockProgram.Text.Quoted
import BlockProgram.Text.Utf8

/-! Identifiers of sixteen bytes, in the spellings in which they are accepted. -/
namespace BlockProgram.Text.Uuid

/-- The digits of an identifier in groups with hyphens between them. -/
def grouped (digits : List Char) : String :=
  let group (start count : Nat) : String := String.ofList ((digits.drop start).take count)
  "-".intercalate [group 0 8, group 8 4, group 12 4, group 16 4, group 20 12]

/-- The digits of the spelling with hyphens, brought to lower case. -/
def digits? (cs : List Char) : Option (List Char) :=
  let hyphens := [8, 13, 18, 23]
  let fits := cs.zipIdx.all fun (c, i) => if i ∈ hyphens then c = '-' else (hexValue? c).isSome
  if cs.length = 36 && fits then some ((cs.filter (· ≠ '-')).map Char.toLower) else none

/-- Reads an identifier and gives its plain spelling: five groups of lower-case digits. Also
accepted are a leading `urn:uuid:`, one byte on either side, and digits without hyphens. -/
def parse? (s : String) : Option String :=
  let cs := s.toList
  let read (cs : List Char) : Option String := (digits? cs).map grouped
  match s.utf8ByteSize with
  | 36 => read cs
  | 45 => if (cs.take 9).map Char.toLower = "urn:uuid:".toList then read (cs.drop 9) else none
  | 38 => if cs.length = 38 then read ((cs.drop 1).take 36) else none
  | 32 =>
    if cs.all fun c => (hexValue? c).isSome then some (grouped (cs.map Char.toLower)) else none
  | _ => none

def zero : String := "00000000-0000-0000-0000-000000000000"

end BlockProgram.Text.Uuid
