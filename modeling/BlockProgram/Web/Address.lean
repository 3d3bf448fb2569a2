import BlockProgram.Digest.Bytes
import BlockProgram.Text.Utf8

/-! The paths and queries of addresses, and how characters are escaped in them. -/
namespace BlockProgram.Web

/-- The bytes an escaped text stands for; in a query a plus sign is a space. -/
def unescape? (query : Bool) : List UInt8 → Option (List UInt8)
  | [] => some []
  | 0x25 :: a :: b :: r =>
    match Text.hexNumber? [Char.ofNat a.toNat, Char.ofNat b.toNat] with
    | some n => (unescape? query r).map (n.toUInt8 :: ·)
    | none => none
  | c :: r =>
    if c = 0x25 then none
    else (unescape? query r).map ((if query && c = 0x2B then 0x20 else c) :: ·)

def unescaped? (query : Bool) (s : String) : Option String :=
  (unescape? query (Digest.bytesOf s)).map Text.ofBytes

def isPathByte (b : UInt8) : Bool :=
  b < 0x80 && ((Char.ofNat b.toNat).isAlphanum || Char.ofNat b.toNat ∈ "-_.~$&+,/:;=@".toList)

def escapedPath (path : String) : String :=
  String.ofList ((Digest.bytesOf path).flatMap fun b =>
    if isPathByte b then [Char.ofNat b.toNat]
    else '%' :: (Text.hexPadded 2 b.toNat).map Char.toUpper)

/-- A path without the parts that lead nowhere: empty ones and those of one point are dropped, and
one of two points takes the part before it away. A stroke at the end stays. -/
def cleanPath (path : String) : String :=
  let step (acc : List String) (part : String) : List String :=
    if part = "" || part = "." then acc
    else if part = ".." then acc.dropLast
    else acc ++ [part]
  let parts := (path.splitOn "/").foldl step []
  let clean := "/" ++ "/".intercalate parts
  if path.endsWith "/" && !clean.endsWith "/" then clean ++ "/" else clean

/-- The names and values of a query. Pairs that cannot be read are left out. -/
def queryPairs (query : String) : List (String × String) :=
  (query.splitOn "&").filterMap fun pair =>
    if pair = "" || pair.contains ';' then none
    else
      let name := pair.toList.takeWhile (· ≠ '=')
      let value := (pair.toList.dropWhile (· ≠ '=')).drop 1
      match unescaped? true (String.ofList name), unescaped? true (String.ofList value) with
      | some n, some v => some (n, v)
      | _, _ => none

end BlockProgram.Web
