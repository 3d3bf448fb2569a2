/-! Binary floating-point numbers as exact values. A finite number is a sign, a natural mantissa and
a power of two; a `Format` says how many bits a mantissa may have and which exponents exist. Every
operation is the exact result, rounded once: to the nearest number of the format, and to the one
with the even mantissa when two are equally near. -/
namespace BlockProgram.Number

/-- A floating-point number. `finite negative mantissa exponent` stands for
`± mantissa * 2 ^ exponent`; zero has exponent zero, and keeps its sign. -/
inductive Floating where
  | nan
  | infinity (negative : Bool)
  | finite (negative : Bool) (mantissa : Nat) (exponent : Int)
deriving DecidableEq, Inhabited

/-- What a number may be: bits of a mantissa, and the least and greatest exponent. A `graded` format
has numbers with fewer bits below those of the least exponent, where others have only zero, and the
text of a power of two minds how dense the numbers below it lie. -/
structure Format where
  precision : Nat
  least : Int
  greatest : Int
  graded : Bool

def binary64 : Format := ⟨53, -1074, 971, true⟩

/-- `n / d` to the nearest natural number, a half going to the even neighbour. -/
def roundHalfEven (n d : Nat) : Nat :=
  let q := n / d
  let r := n % d
  if 2 * r > d || (2 * r == d && q % 2 == 1) then q + 1 else q

/-- The numerator and denominator of `n / d` divided by `2 ^ e`. -/
def scaleDown (n d : Nat) (e : Int) : Nat × Nat :=
  if 0 ≤ e then (n, d * Nat.pow 2 e.toNat) else (n * Nat.pow 2 (-e).toNat, d)

/-- The exponent of the highest power of two that is at most `n / d`, for positive `n` and `d`. -/
def floorLog2 (n d : Nat) : Int :=
  let guess : Int := (n.log2 : Int) - d.log2
  let (a, b) := scaleDown n d guess
  if a < b then guess - 1 else guess

/-- The number of the format that is nearest to `± n / d * 2 ^ k`. -/
def Format.roundAt (f : Format) (negative : Bool) (n d : Nat) (k : Int) : Floating :=
  if n = 0 then .finite negative 0 0
  else
    let wanted := floorLog2 n d + k - (f.precision - 1)
    if !f.graded && wanted < f.least then .finite negative 0 0
    else
      let e := max wanted f.least
      let (a, b) := scaleDown n d (e - k)
      let m := roundHalfEven a b
      let (m, e) := if m = Nat.pow 2 f.precision then (m / 2, e + 1) else (m, e)
      if m = 0 then .finite negative 0 0
      else if f.greatest < e then .infinity negative
      else .finite negative m e

/-- The number of the format that is nearest to `± n / d`. -/
def Format.round (f : Format) (negative : Bool) (n d : Nat) : Floating := f.roundAt negative n d 0

/-- The number nearest to `± digits * 10 ^ exponent`. Magnitudes far outside the format are not
computed. -/
def Format.ofDecimal (f : Format) (negative : Bool) (digits : Nat) (exponent : Int) : Floating :=
  if digits = 0 then .finite negative 0 0
  else
    let magnitude : Int := (Nat.toDigits 10 digits).length + exponent
    if f.greatest + f.precision < magnitude then .infinity negative
    else if magnitude < f.least then .finite negative 0 0
    else if 0 ≤ exponent then f.round negative (digits * Nat.pow 10 exponent.toNat) 1
    else f.round negative digits (Nat.pow 10 (-exponent).toNat)

def Format.ofInt (f : Format) (i : Int) : Floating := f.round (i < 0) i.natAbs 1

namespace Floating

def zero : Floating := .finite false 0 0

def neg : Floating → Floating
  | nan => nan
  | infinity s => infinity !s
  | finite s m e => finite (!s) m e

def abs : Floating → Floating
  | nan => nan
  | infinity _ => infinity false
  | finite _ m e => finite false m e

/-- The integer `± mantissa * 2 ^ (exponent - base)`, for a `base` that is at most the exponent. -/
def scaled (negative : Bool) (mantissa : Nat) (exponent base : Int) : Int :=
  let n : Int := (mantissa * Nat.pow 2 (exponent - base).toNat : Nat)
  if negative then -n else n

/-- A number that rounds a sum with `± m * 2 ^ e` as `n * 2 ^ k` does: itself, or a power of two in
place of one far too small to be seen but as more or less than nothing. -/
def faint (f : Format) (m : Nat) (e : Int) (n : Nat) (k : Int) : Nat × Int :=
  let unseen := min e (m.log2 + e - f.precision) - 3
  if n.log2 + k < unseen then (1, unseen) else (n, k)

/-- The sum, in format `f`. Opposite numbers add up to zero without a sign. -/
def add (f : Format) : Floating → Floating → Floating
  | nan, _ => nan
  | _, nan => nan
  | infinity s, infinity t => if s == t then infinity s else nan
  | infinity s, _ => infinity s
  | _, infinity t => infinity t
  | finite s m e, finite t n k =>
    if m = 0 && n = 0 then finite (s && t) 0 0
    else if m = 0 then f.roundAt t n 1 k
    else if n = 0 then f.roundAt s m 1 e
    else
      let x := faint f n k m e
      let y := faint f m e n k
      let base := min x.2 y.2
      let total := scaled s x.1 x.2 base + scaled t y.1 y.2 base
      f.roundAt (total < 0) total.natAbs 1 base

def mul (f : Format) : Floating → Floating → Floating
  | nan, _ => nan
  | _, nan => nan
  | infinity s, infinity t => infinity (s != t)
  | infinity s, finite t n _ => if n = 0 then nan else infinity (s != t)
  | finite s m _, infinity t => if m = 0 then nan else infinity (s != t)
  | finite s m e, finite t n k => f.roundAt (s != t) (m * n) 1 (e + k)

def div (f : Format) : Floating → Floating → Floating
  | nan, _ => nan
  | _, nan => nan
  | infinity _, infinity _ => nan
  | infinity s, finite t _ _ => infinity (s != t)
  | finite s _ _, infinity t => finite (s != t) 0 0
  | finite s m e, finite t n k =>
    if n = 0 then (if m = 0 then nan else infinity (s != t))
    else f.roundAt (s != t) m n (e - k)

/-- Minus one, zero or one, as a number is below zero, zero or above it. -/
def sign (negative : Bool) (mantissa : Nat) : Int :=
  if mantissa = 0 then 0 else if negative then -1 else 1

/-- How two numbers compare; `none` when one of them is not a number. -/
def compare? : Floating → Floating → Option Ordering
  | nan, _ => none
  | _, nan => none
  | infinity s, infinity t => some (if s == t then .eq else if s then .lt else .gt)
  | infinity s, finite _ _ _ => some (if s then .lt else .gt)
  | finite _ _ _, infinity t => some (if t then .gt else .lt)
  | finite s m e, finite t n k =>
    let heights := compare (m.log2 + e) (n.log2 + k)
    let signs := compare (sign s m) (sign t n)
    if signs ≠ .eq then some signs
    else if m = 0 then some .eq
    else if heights ≠ .eq then some (if s then heights.swap else heights)
    else
      let base := min e k
      some (compare (scaled s m e base) (scaled t n k base))

/-- Strictly less; false when one of the two is not a number. -/
def lt (x y : Floating) : Bool := compare? x y == some .lt

/-- Less or equal; false when one of the two is not a number. -/
def le (x y : Floating) : Bool :=
  match compare? x y with
  | some .lt => true
  | some .eq => true
  | _ => false

/-- Equality of values: both zeros are equal, and what is not a number equals nothing. -/
def same (x y : Floating) : Bool := compare? x y == some .eq

/-- The integer part, the fraction cut off; a zero that is left has no sign. -/
def truncate : Floating → Floating
  | finite s m e =>
    if m = 0 || m.log2 + e < 0 then zero
    else if 0 ≤ e then finite s m e
    else finite s (m / Nat.pow 2 (-e).toNat) 0
  | x => x

/-- The natural number below `2 ^ 63` that this is. -/
def natural? : Floating → Option Nat
  | finite s m e =>
    if m = 0 then some 0
    else if s || m.log2 + e < 0 || 62 < m.log2 + e then none
    else if 0 ≤ e then some (m * Nat.pow 2 e.toNat)
    else if m % Nat.pow 2 (-e).toNat = 0 then some (m / Nat.pow 2 (-e).toNat)
    else none
  | _ => none

def convert (f : Format) : Floating → Floating
  | finite s m e => f.roundAt s m 1 e
  | x => x

end Floating

end BlockProgram.Number
