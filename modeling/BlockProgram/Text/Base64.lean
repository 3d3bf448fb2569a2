/-! Bytes as text in base 64, with the two signs that may stand in addresses or with the plain
ones. -/
namespace BlockProgram.Text.Base64

/-- Which signs stand for the last two digits, and whether the last group is filled up with equals
signs. -/
structure Alphabet where
  digit62 : Char
  digit63 : Char
  padded : Bool

/-- The alphabet for addresses, without filling. -/
def address : Alphabet := ⟨'-', '_', false⟩

/-- The plain alphabet, with filling. -/
def plain : Alphabet := ⟨'+', '/', true⟩

def Alphabet.sign (a : Alphabet) (n : Nat) : Char :=
  if n < 26 then Char.ofNat (n + 65)
  else if n < 52 then Char.ofNat (n + 71)
  else if n < 62 then Char.ofNat (n - 4)
  else if n = 62 then a.digit62
  else a.digit63

def Alphabet.digit? (a : Alphabet) (c : Char) : Option Nat :=
  if c.isUpper then some (c.toNat - 65)
  else if c.isLower then some (c.toNat - 71)
  else if c.isDigit then some (c.toNat + 4)
  else if c = a.digit62 then some 62
  else if c = a.digit63 then some 63
  else none

def encode (a : Alphabet) : List UInt8 → List Char
  | x :: y :: z :: r =>
    let n := (x.toNat * 256 + y.toNat) * 256 + z.toNat
    a.sign (n / 262144) :: a.sign (n / 4096 % 64) :: a.sign (n / 64 % 64) :: a.sign (n % 64) ::
      encode a r
  | [x, y] =>
    let n := (x.toNat * 256 + y.toNat) * 4
    [a.sign (n / 4096), a.sign (n / 64 % 64), a.sign (n % 64)]
  | [x] => [a.sign (x.toNat / 4), a.sign (x.toNat * 16 % 64)]
  | [] => []

/-- The bytes of digits; one digit alone at the end spells none. -/
def bytes? : List Nat → Option (List UInt8)
  | w :: x :: y :: z :: r =>
    let n := ((w * 64 + x) * 64 + y) * 64 + z
    (bytes? r).map fun rest =>
      (n / 65536).toUInt8 :: (n / 256).toUInt8 :: n.toUInt8 :: rest
  | [w, x, y] =>
    let n := (w * 64 + x) * 64 + y
    some [(n / 1024).toUInt8, (n / 4).toUInt8]
  | [w, x] => some [((w * 64 + x) / 16).toUInt8]
  | [_] => none
  | [] => some []

/-- Reads bytes. Line ends are passed over; bits that fill no byte are not looked at. -/
def decode? (a : Alphabet) (cs : List Char) : Option (List UInt8) :=
  let cs := cs.filter fun c => c ≠ '\n' && c ≠ '\r'
  let body := cs.takeWhile (· ≠ '=')
  let fill := cs.dropWhile (· ≠ '=')
  let filling := if a.padded then (4 - body.length % 4) % 4 else 0
  if fill = List.replicate filling '=' then (body.mapM a.digit?).bind bytes? else none

end BlockProgram.Text.Base64
