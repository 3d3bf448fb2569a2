import BlockProgram.Text.Quoted

/-! Bytes as digests see them: cut into blocks and gathered into words. -/
namespace BlockProgram.Digest

def bytesOf (s : String) : List UInt8 := s.toUTF8.toList

/-- Blocks of `size` bytes; the last one may be shorter. Every block takes at least one byte when
`size` is positive, so the number of bytes is fuel enough. -/
def blocksWithin (size : Nat) : Nat → List UInt8 → List (List UInt8)
  | 0, _ => []
  | _ + 1, [] => []
  | fuel + 1, b :: bs => (b :: bs).take size :: blocksWithin size fuel ((b :: bs).drop size)

def blocks (size : Nat) (bytes : List UInt8) : List (List UInt8) :=
  blocksWithin size bytes.length bytes

def filled (size : Nat) (bytes : List UInt8) : List UInt8 :=
  bytes ++ List.replicate (size - bytes.length) 0

/-- The number that bytes spell, the highest first. -/
def bigEndian (bytes : List UInt8) : Nat := bytes.foldl (fun n b => n * 256 + b.toNat) 0

/-- The lowest `count` bytes of a number, the highest first. -/
def bigEndianBytes (count n : Nat) : List UInt8 :=
  (List.range count).map fun i => (n / Nat.pow 256 (count - 1 - i)).toUInt8

def hex (bytes : List UInt8) : String :=
  String.ofList (bytes.flatMap fun b => Text.hexPadded 2 b.toNat)

end BlockProgram.Digest
