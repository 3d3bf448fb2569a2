import BlockProgram.Digest.Bytes

/-! The SHA-256 digest, and the keyed digest built on it. -/
namespace BlockProgram.Digest.Sha256

def start : List UInt32 :=
  [0x6a09e667, 0xbb67ae85, 0x3c6ef372, 0xa54ff53a, 0x510e527f, 0x9b05688c, 0x1f83d9ab, 0x5be0cd19]

def constants : List UInt32 :=
  [0x428a2f98, 0x71374491, 0xb5c0fbcf, 0xe9b5dba5, 0x3956c25b, 0x59f111f1, 0x923f82a4, 0xab1c5ed5,
    0xd807aa98, 0x12835b01, 0x243185be, 0x550c7dc3, 0x72be5d74, 0x80deb1fe, 0x9bdc06a7, 0xc19bf174,
    0xe49b69c1, 0xefbe4786, 0x0fc19dc6, 0x240ca1cc, 0x2de92c6f, 0x4a7484aa, 0x5cb0a9dc, 0x76f988da,
    0x983e5152, 0xa831c66d, 0xb00327c8, 0xbf597fc7, 0xc6e00bf3, 0xd5a79147, 0x06ca6351, 0x14292967,
    0x27b70a85, 0x2e1b2138, 0x4d2c6dfc, 0x53380d13, 0x650a7354, 0x766a0abb, 0x81c2c92e, 0x92722c85,
    0xa2bfe8a1, 0xa81a664b, 0xc24b8b70, 0xc76c51a3, 0xd192e819, 0xd6990624, 0xf40e3585, 0x106aa070,
    0x19a4c116, 0x1e376c08, 0x2748774c, 0x34b0bcb5, 0x391c0cb3, 0x4ed8aa4a, 0x5b9cca4f, 0x682e6ff3,
    0x748f82ee, 0x78a5636f, 0x84c87814, 0x8cc70208, 0x90befffa, 0xa4506ceb, 0xbef9a3f7, 0xc67178f2]

def turn (w n : UInt32) : UInt32 := (w >>> n) ||| (w <<< (32 - n))

/-- Appends the words of later rounds to those of a block, `n` of them. -/
def extend : Nat → Array UInt32 → Array UInt32
  | 0, w => w
  | n + 1, w =>
    let back (k : Nat) : UInt32 := w.getD (w.size - k) 0
    let x := back 15
    let y := back 2
    let s := turn x 7 ^^^ turn x 18 ^^^ (x >>> 3)
    let t := turn y 17 ^^^ turn y 19 ^^^ (y >>> 10)
    extend n (w.push (back 16 + s + back 7 + t))

def round (h : List UInt32) (kw : UInt32 × UInt32) : List UInt32 :=
  match h with
  | [a, b, c, d, e, f, g, x] =>
    let s := turn e 6 ^^^ turn e 11 ^^^ turn e 25
    let choice := (e &&& f) ^^^ ((e ^^^ 0xffffffff) &&& g)
    let t := x + s + choice + kw.1 + kw.2
    let u := turn a 2 ^^^ turn a 13 ^^^ turn a 22
    let majority := (a &&& b) ^^^ (a &&& c) ^^^ (b &&& c)
    [t + (u + majority), a, b, c, d + t, e, f, g]
  | other => other

def compress (h : List UInt32) (block : List UInt8) : List UInt32 :=
  let w := extend 48 ((blocks 4 block).map fun b => (bigEndian b).toUInt32).toArray
  List.zipWith (· + ·) h ((constants.zip w.toList).foldl round h)

/-- A message with a one bit, zeros and its length in bits behind it, filling whole blocks. -/
def padded (message : List UInt8) : List UInt8 :=
  let open55 := (message.length + 9) % 64
  message ++ 0x80 :: List.replicate ((64 - open55) % 64) 0 ++ bigEndianBytes 8 (8 * message.length)

def digest (message : List UInt8) : List UInt8 :=
  ((blocks 64 (padded message)).foldl compress start).flatMap fun w => bigEndianBytes 4 w.toNat

/-- The digest of a message under a key. A key longer than a block is replaced by its digest. -/
def keyed (key message : List UInt8) : List UInt8 :=
  let key := filled 64 (if key.length > 64 then digest key else key)
  digest (key.map (· ^^^ 0x5c) ++ digest (key.map (· ^^^ 0x36) ++ message))

end BlockProgram.Digest.Sha256
