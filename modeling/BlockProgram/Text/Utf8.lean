/-! Bytes as text. Ill-formed bytes are read as the replacement character, one for each byte. -/
namespace BlockProgram.Text

/-- The character that stands for what cannot be read. -/
def replacement : Char := '�'

def isTail (b : UInt8) : Bool := 0x80 ≤ b && b ≤ 0xBF

/-- Whether `b` may follow the first byte `a` of a character of three or four bytes: overlong forms,
surrogates and code points past the last plane are excluded here. -/
def isSecond (a b : UInt8) : Bool :=
  isTail b && (a != 0xE0 || 0xA0 ≤ b) && (a != 0xED || b ≤ 0x9F) &&
    (a != 0xF0 || 0x90 ≤ b) && (a != 0xF4 || b ≤ 0x8F)

def tailBits (b : UInt8) : Nat := b.toNat % 64

/-- Reads one character that does not fit one byte, and the bytes after it. -/
def longChar? : List UInt8 → Option (Char × List UInt8)
  | a :: b :: c :: d :: r =>
    if 0xC2 ≤ a && a ≤ 0xDF && isTail b then
      some (Char.ofNat (a.toNat % 32 * 64 + tailBits b), c :: d :: r)
    else if 0xE0 ≤ a && a ≤ 0xEF && isSecond a b && isTail c then
      some (Char.ofNat (a.toNat % 16 * 4096 + tailBits b * 64 + tailBits c), d :: r)
    else if 0xF0 ≤ a && a ≤ 0xF4 && isSecond a b && isTail c && isTail d then
      some (Char.ofNat (a.toNat % 8 * 262144 + tailBits b * 4096 + tailBits c * 64 + tailBits d), r)
    else none
  | [a, b, c] =>
    if 0xC2 ≤ a && a ≤ 0xDF && isTail b then
      some (Char.ofNat (a.toNat % 32 * 64 + tailBits b), [c])
    else if 0xE0 ≤ a && a ≤ 0xEF && isSecond a b && isTail c then
      some (Char.ofNat (a.toNat % 16 * 4096 + tailBits b * 64 + tailBits c), [])
    else none
  | [a, b] =>
    if 0xC2 ≤ a && a ≤ 0xDF && isTail b then
      some (Char.ofNat (a.toNat % 32 * 64 + tailBits b), [])
    else none
  | _ => none

/-- Reads bytes as characters; `none` stands for a byte that begins none. Every step consumes at
least one byte, so the fuel is the number of bytes. -/
def readUtf8 : Nat → List UInt8 → List (Option Char)
  | 0, _ => []
  | _ + 1, [] => []
  | fuel + 1, a :: r =>
    if a < 0x80 then some (Char.ofNat a.toNat) :: readUtf8 fuel r
    else
      match longChar? (a :: r) with
      | some (c, rest) => some c :: readUtf8 fuel rest
      | none => none :: readUtf8 fuel r

/-- The text of the bytes, ill-formed ones replaced. -/
def ofBytes (bytes : List UInt8) : String :=
  String.ofList ((readUtf8 bytes.length bytes).map (·.getD replacement))

/-- How many bytes have the shape of a character at the front: a first byte and as many that
continue it as it announces. Zero if none has. -/
def shapedBytes : List UInt8 → Nat
  | [] => 0
  | a :: r =>
    let tails (n : Nat) : Nat := if (r.take n).length = n && (r.take n).all isTail then n + 1 else 0
    if a < 0x80 then 1
    else if 0xC0 ≤ a && a ≤ 0xDF then tails 1
    else if 0xE0 ≤ a && a ≤ 0xEF then tails 2
    else if 0xF0 ≤ a && a ≤ 0xF7 then tails 3
    else 0

/-- For each character of `ofBytes` whether it stands for a byte that is not part of anything shaped
like a character. Every step takes at least one byte, so the fuel is the number of bytes. -/
def strayBytes : Nat → List UInt8 → List Bool
  | 0, _ => []
  | _ + 1, [] => []
  | fuel + 1, a :: r =>
    match shapedBytes (a :: r) with
    | 0 => true :: strayBytes fuel r
    | n + 1 =>
      let shown := (readUtf8 (n + 1) ((a :: r).take (n + 1))).length
      List.replicate shown false ++ strayBytes fuel (r.drop n)

def hexValue? (c : Char) : Option Nat :=
  if c.isDigit then some (c.toNat - 48)
  else if 'a' ≤ c && c ≤ 'f' then some (c.toNat - 87)
  else if 'A' ≤ c && c ≤ 'F' then some (c.toNat - 55)
  else none

def hexNumber? (cs : List Char) : Option Nat :=
  cs.foldl (fun acc c => match acc, hexValue? c with
    | some n, some d => some (n * 16 + d)
    | _, _ => none) (some 0)

def hexBytes? : List Char → Option (List UInt8)
  | [] => some []
  | a :: b :: r =>
    match hexValue? a, hexValue? b, hexBytes? r with
    | some x, some y, some rest => some ((x * 16 + y).toUInt8 :: rest)
    | _, _, _ => none
  | _ => none

end BlockProgram.Text
