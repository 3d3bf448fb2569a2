import BlockProgram.Number.Literal

/-! The numbers of configuration documents. Each carries the number of bits it is kept to: those
that a document spells have many, and those that count the rounds of a loop have fewer. Operations
keep to the more precise of their operands. -/
namespace BlockProgram.Number

def wideFormat (bits : Nat) : Format := ⟨bits, -2147483648 - bits, 2147483647 - bits, false⟩

structure Wide where
  value : Floating
  bits : Nat
deriving DecidableEq

namespace Wide

def spelledBits : Nat := 512

def countedBits : Nat := 64

def ofNat (n : Nat) : Wide := ⟨(wideFormat countedBits).round false n 1, countedBits⟩

/-- Multiplies `done` by the powers of `factor` that make up `n` in base two. The factor is kept to
more bits than the product. -/
def powerLoop (bits : Nat) : Nat → Floating → Floating → Nat → Floating
  | 0, done, _, _ => done
  | fuel + 1, done, factor, n =>
    if n = 0 then done
    else
      let done := if n % 2 = 1 then done.mul (wideFormat bits) factor else done
      powerLoop bits fuel done (factor.mul (wideFormat (bits + 64)) factor) (n / 2)

/-- A power of five, kept to some bits. Up to the twenty-seventh they are exact. -/
def powerOfFive (bits n : Nat) : Floating :=
  let exact := min n 27
  powerLoop bits 64 (.finite false (Nat.pow 5 exact) 0) (.finite false 5 0) (n - exact)

/-- The number nearest to `± digits * 2 ^ two * 5 ^ five`; `none` when the power of two alone is out
of range. -/
def ofPowers? (negative : Bool) (digits : Nat) (two five : Int) : Option Wide :=
  let f := wideFormat spelledBits
  let height := digits.log2 + 1 + two
  if digits = 0 then some ⟨.finite negative 0 0, spelledBits⟩
  else if height < -2147483648 || 2147483647 < height then none
  else
    let start : Floating := .finite negative digits two
    if five = 0 then some ⟨start.convert f, spelledBits⟩
    else
      let power := powerOfFive (spelledBits + 64) five.natAbs
      some ⟨if five < 0 then start.div f power else start.mul f power, spelledBits⟩

/-- Reads an unsigned number: digits with at most one point, and an exponent of ten or, after the
letter p, of two. -/
def readUnsigned? (negative : Bool) (cs : List Char) : Option Wide :=
  let whole := cs.takeWhile Char.isDigit
  let rest := cs.dropWhile Char.isDigit
  let (fraction, rest) :=
    match rest with
    | '.' :: r => (r.takeWhile Char.isDigit, r.dropWhile Char.isDigit)
    | r => ([], r)
  let digits := digitsValue (whole ++ fraction)
  let places : Int := -(fraction.length : Int)
  if whole = [] && fraction = [] then none
  else
    match rest with
    | [] => ofPowers? negative digits places places
    | c :: r =>
      match readExponent? r with
      | none => none
      | some e =>
        if !fitsInteger e then none
        else if c = 'e' || c = 'E' then ofPowers? negative digits (places + e) (places + e)
        else if c = 'p' || c = 'P' then ofPowers? negative digits (places + e) places
        else none

def read? (s : String) : Option Wide :=
  let (negative, unsigned) :=
    match s.toList with
    | '-' :: r => (true, r)
    | '+' :: r => (false, r)
    | r => (false, r)
  if unsigned = "Inf".toList || unsigned = "inf".toList then
    some ⟨.infinity negative, spelledBits⟩
  else readUnsigned? negative unsigned

/-- The text of a number: all its digits, and the shortest fraction that reads back. -/
def text (x : Wide) : String :=
  match x.value.convert (wideFormat x.bits) with
  | .nan => "NaN"
  | .infinity negative => if negative then "-Inf" else "+Inf"
  | .finite negative m e => (wideFormat x.bits).write plainNotation negative m e

def neg (x : Wide) : Wide := ⟨x.value.neg, x.bits⟩

def add (x y : Wide) : Wide :=
  let bits := max x.bits y.bits
  ⟨x.value.add (wideFormat bits) y.value, bits⟩

def sub (x y : Wide) : Wide := x.add y.neg

/-- Halves a number while it is even, at most as often as the fuel says. -/
def oddPart : Nat → Nat → Nat
  | 0, n => n
  | fuel + 1, n => if n % 2 = 0 then oddPart fuel (n / 2) else n

def neededBits : Floating → Nat
  | .finite _ m _ => if m = 0 then 0 else (oddPart m.log2 m).log2 + 1
  | _ => 0

/-- The product, which is kept to more bits than both factors if it needs them. -/
def mul (x y : Wide) : Wide :=
  let product := x.value.mul (wideFormat spelledBits) y.value
  let bits := max (max x.bits y.bits) (neededBits product)
  ⟨product.convert (wideFormat bits), bits⟩

/-- The quotient; that by zero is infinite, unless zero is divided. -/
def div (x y : Wide) : Wide :=
  let bits := max x.bits y.bits
  ⟨x.value.div (wideFormat bits) y.value, bits⟩

/-- The remainder of a division whose quotient is cut off after the point, to the bits of the number
divided. What is left when nothing divides is the number itself. -/
def mod (x y : Wide) : Wide :=
  let f := wideFormat x.bits
  match y.value, (x.div y).value with
  | .finite _ 0 _, _ => x
  | _, .finite s m e =>
    let whole := ((Floating.finite s m e).truncate).convert f
    ⟨x.value.add f (y.value.mul f whole).neg, x.bits⟩
  | _, _ => ⟨.nan, x.bits⟩

end Wide

end BlockProgram.Number
