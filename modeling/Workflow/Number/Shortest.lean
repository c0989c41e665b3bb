import Workflow.Number.Binary64

/-!
# Decimal texts of double-precision numbers

* `Binary64.shortest` finds the fewest decimal digits that read back as the number, and of those
  the nearest to it.
* `FloatFormat` says how digits and an exponent are laid out; `FloatFormat.plain`,
  `FloatFormat.named` and `FloatFormat.compact` are the layouts of shortest digits.
* `Binary64.general` rounds to six significant digits and drops trailing zeros.
-/

namespace Workflow

namespace Binary64

/-! ## Shortest digits -/

/-- A positive decimal number `digits · 10 ^ exponent`. -/
structure Decimal where
  /-- The digits as one natural number. -/
  digits : Nat
  /-- The power of ten that they are multiplied with. -/
  exponent : Int
  deriving DecidableEq

/-- The largest `p` with `10 ^ p ≤ num / den`, for values no smaller than `10 ^ -400`. -/
def floorLog10 (num den : Nat) : Int :=
  ((Nat.toDigits 10 (num * tenPow 400 / den)).length : Int) - 401

/-- The reals that round to a positive finite number, scaled by a common denominator. -/
structure Interval where
  /-- The number itself. -/
  value : Nat
  /-- The lower end. -/
  low : Nat
  /-- The upper end. -/
  high : Nat
  /-- The denominator of all three. -/
  den : Nat
  /-- The ends belong to the interval. -/
  closed : Bool

/-- The reals that round to `mantissa · 2 ^ exponent`. Below a power of two the numbers lie twice
as close. -/
def interval (mantissa : Nat) (exponent : Int) : Interval :=
  let scale := twoPow exponent.toNat
  { value := 4 * mantissa * scale
    low := (if mantissa = twoPow 52 ∧ -1074 < exponent then 4 * mantissa - 1 else 4 * mantissa - 2)
      * scale
    high := (4 * mantissa + 2) * scale
    den := 4 * twoPow (-exponent).toNat
    closed := mantissa % 2 = 0 }

/-- The decimal number `candidate · 10 ^ exponent` lies in the interval. -/
def Interval.holds (i : Interval) (candidate : Nat) (exponent : Int) : Bool :=
  let num := candidate * tenPow exponent.toNat * i.den
  let den := tenPow (-exponent).toNat
  if i.closed then i.low * den ≤ num && num ≤ i.high * den
  else i.low * den < num && num < i.high * den

/-- The point of the decimal grid `10 ^ exponent` that lies in the interval, the nearer of the
value's two neighbours if both do. -/
def Interval.gridPoint? (i : Interval) (exponent : Int) : Option Nat :=
  let num := i.value * tenPow (-exponent).toNat
  let den := i.den * tenPow exponent.toNat
  let below := num / den
  let nearer := if 2 * (num % den) ≤ den then below else below + 1
  let other := if 2 * (num % den) ≤ den then below + 1 else below
  if i.holds nearer exponent then some nearer
  else if i.holds other exponent then some other
  else none

/-- The first grid with a point in the interval, from the coarsest on. -/
def Interval.firstPoint (i : Interval) (exponent : Int) : Nat → Decimal
  | 0 => ⟨(i.gridPoint? exponent).getD 0, exponent⟩
  | finer + 1 =>
    match i.gridPoint? exponent with
    | some digits => ⟨digits, exponent⟩
    | none => i.firstPoint (exponent - 1) finer

/-- The fewest digits that read back as the positive number `mantissa · 2 ^ exponent`. -/
def shortest (mantissa : Nat) (exponent : Int) : Decimal :=
  let i := interval mantissa exponent
  i.firstPoint (floorLog10 i.value i.den) 17

/-- A decimal number without trailing zeros, as its digits and the power of ten of the first. -/
def Decimal.scientific (d : Decimal) : List Char × Int :=
  let digits := Nat.toDigits 10 d.digits
  let trimmed := (digits.reverse.dropWhile (· == '0')).reverse
  (trimmed, d.exponent + digits.length - 1)

end Binary64

/-! ## Layouts -/

/-- How digits and an exponent are laid out. -/
structure FloatFormat where
  /-- The least power of ten of the first digit that is written without an exponent. -/
  leastPlain : Int
  /-- The greatest power of ten of the first digit that is written without an exponent. -/
  greatestPlain : Int
  /-- A whole number written without an exponent ends in a point and a nought. -/
  pointZero : Bool
  /-- A positive exponent has a sign. -/
  plusSign : Bool
  /-- The least number of digits of an exponent. -/
  exponentWidth : Nat
  /-- The text of the infinity. -/
  infinity : String
  /-- The text of the negative infinity. -/
  negativeInfinity : String
  /-- The text of what is not a number. -/
  nan : String

namespace FloatFormat

/-- Sixteen powers of ten are written out, and exponents have a sign and two digits. -/
def plain : FloatFormat :=
  ⟨-4, 15, true, true, 2, "inf", "-inf", "nan"⟩

/-- The layout `plain` with the names that JSON texts use for what is not finite. -/
def named : FloatFormat :=
  { plain with infinity := "Infinity", negativeInfinity := "-Infinity", nan := "NaN" }

/-- Exponents are as short as can be, and numbers that are not finite are absent. -/
def compact : FloatFormat :=
  ⟨-5, 15, true, false, 1, "null", "null", "null"⟩

/-- Six powers of ten are written out, and whole numbers have no point. -/
def general : FloatFormat :=
  ⟨-4, 5, false, true, 2, "inf", "-inf", "nan"⟩

/-- The text of an exponent. -/
def exponentText (f : FloatFormat) (exponent : Int) : List Char :=
  let digits := Nat.toDigits 10 exponent.natAbs
  let sign := if exponent < 0 then ['-'] else if f.plusSign then ['+'] else []
  'e' :: sign ++ List.replicate (f.exponentWidth - digits.length) '0' ++ digits

/-- The text of the number whose digits are `digits`, the first of them standing for ten to the
`power`. -/
def layout (f : FloatFormat) (digits : List Char) (power : Int) : List Char :=
  if power < f.leastPlain || f.greatestPlain < power then
    match digits with
    | [] => []
    | [d] => d :: f.exponentText power
    | d :: rest => d :: '.' :: rest ++ f.exponentText power
  else if power < 0 then
    '0' :: '.' :: List.replicate (-power - 1).toNat '0' ++ digits
  else
    let whole := digits.take (power.toNat + 1)
    let part := digits.drop (power.toNat + 1)
    whole ++ List.replicate (power.toNat + 1 - digits.length) '0' ++
      (if part.isEmpty then (if f.pointZero then ['.', '0'] else []) else '.' :: part)

/-- The text of a number from its kind, given the digits of a positive number. -/
def write (f : FloatFormat) (x : Binary64) (digits : Nat → Int → List Char × Int) : List Char :=
  match x.kind with
  | .nan => f.nan.toList
  | .infinite negative => (if negative then f.negativeInfinity else f.infinity).toList
  | .finite negative mantissa exponent =>
    let (digits, power) := if mantissa = 0 then (['0'], 0) else digits mantissa exponent
    (if negative then ['-'] else []) ++ f.layout digits power

end FloatFormat

namespace Binary64

/-- The shortest text that reads back as the number, in the given layout. -/
def text (x : Binary64) (f : FloatFormat) : List Char :=
  f.write x fun mantissa exponent => (shortest mantissa exponent).scientific

/-- A positive number rounded to six significant digits. -/
def sixDigits (mantissa : Nat) (exponent : Int) : Decimal :=
  let num := mantissa * twoPow exponent.toNat
  let den := twoPow (-exponent).toNat
  let unit := floorLog10 num den - 5
  ⟨roundHalfEven (num * tenPow (-unit).toNat) (den * tenPow unit.toNat), unit⟩

/-- The text of a number rounded to six significant digits. -/
def general (x : Binary64) : List Char :=
  FloatFormat.general.write x fun mantissa exponent => (sixDigits mantissa exponent).scientific

end Binary64
end Workflow
