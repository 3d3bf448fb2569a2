import BlockProgram.Number.Floating

/-! Decimal text of floating-point numbers. The digits are the fewest that read back as the same
number, and of those the nearest to it; where they are written, with an exponent or without, is the
business of a `Notation`. -/
namespace BlockProgram.Number

/-- The decimal `digits * 10 ^ exponent`. -/
structure Decimal where
  digits : Nat
  exponent : Int
deriving DecidableEq

/-- Moves trailing zeros of the digits into the exponent. -/
def Decimal.strip (fuel : Nat) (d : Decimal) : Decimal :=
  match fuel with
  | 0 => d
  | fuel + 1 =>
    if d.digits ≠ 0 && d.digits % 10 = 0 then strip fuel ⟨d.digits / 10, d.exponent + 1⟩ else d

/-- The number of decimal digits of a natural number. Those of the highest power of two below it,
which the logarithm of two gives, are at most one fewer. -/
def digitCount (n : Nat) : Nat :=
  let guess := n.log2 * 30102999566398119521 / 100000000000000000000
  if n < Nat.pow 10 (guess + 1) then guess + 1 else guess + 2

/-- The least `k` with `v / d < 10 ^ k`, for positive `v` and `d`. -/
def decimalScale (v d : Nat) : Int :=
  if d ≤ v then digitCount (v / d)
  else
    let width := digitCount (d / v)
    if v * Nat.pow 10 (width - 1) = d then 2 - (width : Int) else 1 - (width : Int)

/-- An interval of the reals around a value, its ends and the value given as multiples of
`1 / unit`. -/
structure Interval where
  low : Nat
  value : Nat
  high : Nat
  unit : Nat
  closed : Bool

namespace Interval

/-- Whether `n / d`, for positive `d`, lies in the interval. -/
def holds (i : Interval) (n d : Nat) : Bool :=
  let x := n * i.unit
  if i.closed then i.low * d ≤ x && x ≤ i.high * d else i.low * d < x && x < i.high * d

/-- The numerator and denominator of `n * 10 ^ k`. -/
def atScale (n : Nat) (k : Int) : Nat × Nat :=
  if 0 ≤ k then (n * Nat.pow 10 k.toNat, 1) else (n, Nat.pow 10 (-k).toNat)

/-- The decimal on the grid `10 ^ k` that lies in the interval, the nearer if both neighbours of the
value do; an equal distance goes to the even one. -/
def onGrid (i : Interval) (k : Int) : Option Decimal :=
  let (p, q) := if 0 ≤ k then (i.value, i.unit * Nat.pow 10 k.toNat) else
    (i.value * Nat.pow 10 (-k).toNat, i.unit)
  let below := p / q
  let fits (n : Nat) : Bool := let (a, b) := atScale n k; i.holds a b
  let nearer := roundHalfEven p q
  if fits below && fits (below + 1) then some ⟨nearer, k⟩
  else if fits below then some ⟨below, k⟩
  else if fits (below + 1) then some ⟨below + 1, k⟩
  else none

/-- Tries grids of `n`, `n + 1`, … digits until one has a decimal in the interval. -/
def search (i : Interval) (scale : Int) : Nat → Nat → Option Decimal
  | 0, _ => none
  | fuel + 1, n =>
    match i.onGrid (scale - n) with
    | some d => some d
    | none => search i scale fuel (n + 1)

end Interval

/-- The numbers that round to `mantissa * 2 ^ exponent` in format `f`. Below a power of two numbers
lie twice as dense. -/
def Format.interval (f : Format) (mantissa : Nat) (exponent : Int) : Interval :=
  let narrow := f.graded && mantissa = Nat.pow 2 (f.precision - 1) && f.least < exponent
  let quarter := exponent - 2
  let factor := if 0 ≤ quarter then Nat.pow 2 quarter.toNat else 1
  { low := (4 * mantissa - (if narrow then 1 else 2)) * factor
    value := 4 * mantissa * factor
    high := (4 * mantissa + 2) * factor
    unit := if 0 ≤ quarter then 1 else Nat.pow 2 (-quarter).toNat
    closed := mantissa % 2 == 0 }

/-- The shortest decimal that reads back as `mantissa * 2 ^ exponent` in format `f`, for a positive
mantissa. -/
def Format.shortest (f : Format) (mantissa : Nat) (exponent : Int) : Decimal :=
  let i := f.interval mantissa exponent
  match i.search (decimalScale i.value i.unit) (f.precision + 2) 1 with
  | some d => d.strip (f.precision + 2)
  | none => ⟨0, 0⟩

/-- Where and how a decimal is written: without an exponent while the exponent of its first digit
lies between `lowest` and `highest`, and otherwise with an exponent of at least `width` digits. -/
structure Notation where
  lowest : Option Int
  highest : Option Int
  width : Nat

/-- Zeros in front of the digits of `n`, up to `width` characters. -/
def padded (width n : Nat) : List Char :=
  let ds := Nat.toDigits 10 n
  List.replicate (width - ds.length) '0' ++ ds

/-- The digits with a point, and no exponent. -/
def positional (d : Decimal) : List Char :=
  let ds := Nat.toDigits 10 d.digits
  if 0 ≤ d.exponent then ds ++ List.replicate d.exponent.toNat '0'
  else
    let places := (-d.exponent).toNat
    if places < ds.length then
      ds.take (ds.length - places) ++ '.' :: ds.drop (ds.length - places)
    else '0' :: '.' :: (List.replicate (places - ds.length) '0' ++ ds)

/-- One digit, the others after a point, and a signed exponent. -/
def scientific (width : Nat) (d : Decimal) : List Char :=
  let ds := Nat.toDigits 10 d.digits
  let e : Int := d.exponent + ds.length - 1
  let mantissa :=
    match ds with
    | [] => []
    | [c] => [c]
    | c :: rest => c :: '.' :: rest
  mantissa ++ 'e' :: (if e < 0 then '-' else '+') :: padded width e.natAbs

def Notation.write (n : Notation) (d : Decimal) : List Char :=
  let e : Int := d.exponent + (Nat.toDigits 10 d.digits).length - 1
  let tooLow := match n.lowest with | some l => e < l | none => false
  let tooHigh := match n.highest with | some h => h < e | none => false
  if tooLow || tooHigh then scientific n.width d else positional d

/-- Every digit written out, whatever the size. -/
def plainNotation : Notation := ⟨none, none, 1⟩

/-- Numbers in program text: an exponent from `1e+21` upwards and below `0.000001`. -/
def programNotation : Notation := ⟨some (-6), some 20, 1⟩

/-- Numbers in messages: an exponent from `1e+06` upwards and below `0.0001`, two digits long. -/
def messageNotation : Notation := ⟨some (-4), some 5, 2⟩

/-- The text of a finite number of format `f`; zero is written without a fraction. -/
def Format.write (f : Format) (n : Notation) (negative : Bool) (mantissa : Nat) (exponent : Int) :
    String :=
  let body := if mantissa = 0 then ['0'] else n.write (f.shortest mantissa exponent)
  String.ofList (if negative then '-' :: body else body)

end BlockProgram.Number
