/-! Moments in time and how they are written. -/
namespace BlockProgram

/-- A moment: seconds since the start of 1970, and nanoseconds. -/
structure Moment where
  seconds : Int
  nanoseconds : Int := 0
deriving DecidableEq

namespace Moment

structure Day where
  year : Int
  month : Int
  day : Int
deriving DecidableEq

/-- The day that lies `n` days after the first of January 1970. Years are counted from March, so
that the leap day comes last, within eras of four hundred years. -/
def Day.ofNumber (n : Int) : Day :=
  let z := n + 719468
  let era := z / 146097
  let inEra := z % 146097
  let yearOfEra := (inEra - inEra / 1460 + inEra / 36524 - inEra / 146096) / 365
  let inYear := inEra - (365 * yearOfEra + yearOfEra / 4 - yearOfEra / 100)
  let fromMarch := (5 * inYear + 2) / 153
  let month := if fromMarch < 10 then fromMarch + 3 else fromMarch - 9
  { year := yearOfEra + era * 400 + (if month ≤ 2 then 1 else 0)
    month := month
    day := inYear - (153 * fromMarch + 2) / 5 + 1 }

def padded (width n : Nat) : String :=
  let digits := Nat.toDigits 10 n
  String.ofList (List.replicate (width - digits.length) '0' ++ digits)

/-- The nanoseconds after a point, without trailing zeros. -/
def fraction (nanoseconds : Nat) : String :=
  if nanoseconds = 0 then ""
  else
    let digits := (padded 9 nanoseconds).toList.reverse.dropWhile (· = '0')
    "." ++ String.ofList digits.reverse

/-- The moment as text; only years of at most four digits can be written. -/
def text? (m : Moment) : Option String :=
  let total := m.seconds + m.nanoseconds / 1000000000
  let day := Day.ofNumber (total / 86400)
  let second := (total % 86400).toNat
  if day.year < 0 || 9999 < day.year then none
  else
    some (padded 4 day.year.toNat ++ "-" ++ padded 2 day.month.toNat ++ "-" ++
      padded 2 day.day.toNat ++ "T" ++ padded 2 (second / 3600) ++ ":" ++
      padded 2 (second / 60 % 60) ++ ":" ++ padded 2 (second % 60) ++
      fraction (m.nanoseconds % 1000000000).toNat ++ "Z")

end Moment

end BlockProgram
