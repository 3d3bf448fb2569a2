import BlockProgram.Digest.Bytes

/-! The BLAKE2b digest of 256 bits, without a key. -/
namespace BlockProgram.Digest.Blake2b

def start : Array UInt64 :=
  #[0x6a09e667f3bcc908, 0xbb67ae8584caa73b, 0x3c6ef372fe94f82b, 0xa54ff53a5f1d36f1,
    0x510e527fade682d1, 0x9b05688c2b3e6c1f, 0x1f83d9abfb41bd6b, 0x5be0cd19137e2179]

/-- The order in which a round takes the words of a block, two for each mixing. -/
def schedule : List (List Nat) :=
  [[0, 1, 2, 3, 4, 5, 6, 7, 8, 9, 10, 11, 12, 13, 14, 15],
    [14, 10, 4, 8, 9, 15, 13, 6, 1, 12, 0, 2, 11, 7, 5, 3],
    [11, 8, 12, 0, 5, 2, 15, 13, 10, 14, 3, 6, 7, 1, 9, 4],
    [7, 9, 3, 1, 13, 12, 11, 14, 2, 6, 5, 10, 4, 0, 15, 8],
    [9, 0, 5, 7, 2, 4, 10, 15, 14, 1, 11, 12, 6, 8, 3, 13],
    [2, 12, 6, 10, 0, 11, 8, 3, 4, 13, 7, 5, 15, 14, 1, 9],
    [12, 5, 1, 15, 14, 13, 4, 10, 0, 7, 6, 3, 9, 2, 8, 11],
    [13, 11, 7, 14, 12, 1, 3, 9, 5, 0, 15, 4, 8, 6, 2, 10],
    [6, 15, 14, 9, 11, 3, 0, 8, 12, 2, 13, 7, 1, 4, 10, 5],
    [10, 2, 8, 4, 7, 6, 1, 5, 15, 11, 9, 14, 3, 12, 13, 0]]

/-- The words that each of the eight mixings of a round works on: first columns, then diagonals. -/
def mixings : List (Nat × Nat × Nat × Nat) :=
  [(0, 4, 8, 12), (1, 5, 9, 13), (2, 6, 10, 14), (3, 7, 11, 15),
    (0, 5, 10, 15), (1, 6, 11, 12), (2, 7, 8, 13), (3, 4, 9, 14)]

def turn (w : UInt64) (n : UInt64) : UInt64 := (w >>> n) ||| (w <<< (64 - n))

/-- Mixes two words of the block into four words of the state. -/
def mix (v : Array UInt64) (at4 : Nat × Nat × Nat × Nat) (x y : UInt64) : Array UInt64 :=
  let (i, j, k, l) := at4
  let a := v.getD i 0 + v.getD j 0 + x
  let d := turn (v.getD l 0 ^^^ a) 32
  let c := v.getD k 0 + d
  let b := turn (v.getD j 0 ^^^ c) 24
  let a := a + b + y
  let d := turn (d ^^^ a) 16
  let c := c + d
  let b := turn (b ^^^ c) 63
  (((v.setIfInBounds i a).setIfInBounds j b).setIfInBounds k c).setIfInBounds l d

/-- One round: eight mixings, each with the next two words in the order given. -/
def round (m : Array UInt64) (v : Array UInt64) (order : List Nat) : Array UInt64 :=
  let words := (order.map fun i => m.getD i 0).toArray
  mixings.zipIdx.foldl
    (fun v (at4, n) => mix v at4 (words.getD (2 * n) 0) (words.getD (2 * n + 1) 0)) v

/-- The sixteen words of a block, lowest byte first. -/
def words (block : List UInt8) : Array UInt64 :=
  ((blocks 8 (filled 128 block)).map fun w => (bigEndian w.reverse).toUInt64).toArray

/-- Folds one block into the state. `count` is how many bytes have been taken with it, and `last`
tells the final block apart. -/
def compress (h : Array UInt64) (block : List UInt8) (count : Nat) (last : Bool) : Array UInt64 :=
  let v := h ++ start
  let v := v.setIfInBounds 12 (v.getD 12 0 ^^^ count.toUInt64)
  let v := if last then v.setIfInBounds 14 (v.getD 14 0 ^^^ 0xffffffffffffffff) else v
  let v := (schedule ++ schedule.take 2).foldl (round (words block)) v
  ((List.range 8).map fun i => h.getD i 0 ^^^ v.getD i 0 ^^^ v.getD (i + 8) 0).toArray

def absorb (h : Array UInt64) (count : Nat) : List (List UInt8) → Array UInt64
  | [] => compress h [] count true
  | [block] => compress h block (count + block.length) true
  | block :: rest => absorb (compress h block (count + block.length) false) (count + block.length) rest

def digest (message : List UInt8) : List UInt8 :=
  let h := start.setIfInBounds 0 (start.getD 0 0 ^^^ 0x01010020)
  ((absorb h 0 (blocks 128 message)).toList.take 4).flatMap fun w => (bigEndianBytes 8 w.toNat).reverse

end BlockProgram.Digest.Blake2b
