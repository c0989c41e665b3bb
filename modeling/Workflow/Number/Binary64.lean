/-!
# Double-precision numbers

A number of the binary64 format is kept as its bits and read as an exact fraction, so all of its
arithmetic here is arithmetic of natural numbers.

* `Binary64.kind` takes the bits apart: not a number, an infinity, or `± m · 2 ^ e`.
* `Binary64.ofFraction` is the nearest number to a fraction, a tie going to the even mantissa.
* `Binary64.ofDecimal` reads `d · 10 ^ x`.
-/

namespace Workflow

/-- The power of two. -/
def twoPow (n : Nat) : Nat :=
  Nat.pow 2 n

/-- The power of ten. -/
def tenPow (n : Nat) : Nat :=
  Nat.pow 10 n

/-- A number of the binary64 format. -/
structure Binary64 where
  /-- The sign bit, eleven exponent bits and fifty-two mantissa bits. -/
  bits : UInt64
  deriving DecidableEq, Inhabited

/-- What the bits of a number stand for. -/
inductive Binary64.Kind where
  /-- Not a number. -/
  | nan
  /-- An infinity. -/
  | infinite (negative : Bool)
  /-- The number `± mantissa · 2 ^ exponent`. -/
  | finite (negative : Bool) (mantissa : Nat) (exponent : Int)
  deriving DecidableEq

namespace Binary64

/-! ## Bits -/

/-- The number whose bits are the given sign, exponent field and mantissa field. -/
def ofFields (negative : Bool) (exponentField mantissaField : Nat) : Binary64 :=
  ⟨UInt64.ofNat ((if negative then twoPow 63 else 0) + exponentField * twoPow 52 + mantissaField)⟩

/-- Not a number. -/
def nan : Binary64 :=
  ofFields false 2047 (twoPow 51)

/-- An infinity. -/
def infinity (negative : Bool) : Binary64 :=
  ofFields negative 2047 0

/-- A zero with a sign. -/
def zero (negative : Bool) : Binary64 :=
  ofFields negative 0 0

/-- What the bits stand for. -/
def kind (x : Binary64) : Kind :=
  let bits := x.bits.toNat
  let negative : Bool := twoPow 63 ≤ bits
  let exponentField : Nat := bits / twoPow 52 % 2048
  let mantissaField := bits % twoPow 52
  if exponentField = 2047 then
    if mantissaField = 0 then .infinite negative else .nan
  else if exponentField = 0 then .finite negative mantissaField (-1074)
  else .finite negative (twoPow 52 + mantissaField) ((exponentField : Int) - 1075)

/-- The number is neither an infinity nor not a number. -/
def isFinite (x : Binary64) : Bool :=
  match x.kind with
  | .finite .. => true
  | _ => false

/-! ## Fractions -/

/-- A signed fraction. -/
structure Fraction where
  /-- The numerator. -/
  num : Int
  /-- The denominator, never zero. -/
  den : Nat
  deriving DecidableEq

namespace Fraction

/-- A whole number as a fraction. -/
def ofInt (n : Int) : Fraction :=
  ⟨n, 1⟩

/-- Two fractions are the same number. -/
def same (a b : Fraction) : Bool :=
  a.num * b.den == b.num * a.den

/-- The first fraction is the smaller number. -/
def less (a b : Fraction) : Bool :=
  a.num * b.den < b.num * a.den

end Fraction

/-- The exact value of a finite number. -/
def fraction? (x : Binary64) : Option Fraction :=
  match x.kind with
  | .finite negative mantissa exponent =>
    let num : Int := mantissa * twoPow exponent.toNat
    some ⟨if negative then -num else num, twoPow (-exponent).toNat⟩
  | _ => none

/-! ## Rounding -/

/-- The nearest natural number to `num / den`, a half going to the even neighbour. -/
def roundHalfEven (num den : Nat) : Nat :=
  let quotient := num / den
  let twice := 2 * (num % den)
  if twice < den then quotient
  else if den < twice then quotient + 1
  else quotient + quotient % 2

/-- The largest `k` with `2 ^ k ≤ num / den`, for positive `num` and `den`. -/
def floorLog2 (num den : Nat) : Int :=
  let k : Int := (Nat.log2 num : Int) - Nat.log2 den
  if num * twoPow (-k).toNat < den * twoPow k.toNat then k - 1 else k

/-- The nearest number to `± num / den`, a tie going to the even mantissa. -/
def ofFraction (negative : Bool) (num den : Nat) : Binary64 :=
  if num = 0 then zero negative
  else
    let exponent := max (floorLog2 num den - 52) (-1074)
    let mantissa := roundHalfEven (num * twoPow (-exponent).toNat) (den * twoPow exponent.toNat)
    if mantissa < twoPow 52 then ofFields negative 0 mantissa
    else if mantissa < twoPow 53 then
      if 971 < exponent then infinity negative
      else ofFields negative (exponent + 1075).toNat (mantissa - twoPow 52)
    else if 970 < exponent then infinity negative
    else ofFields negative (exponent + 1076).toNat 0

/-- The nearest number to `± digits · 10 ^ exponent`. Exponents far outside the format's range are
settled by the number of digits alone. -/
def ofDecimal (negative : Bool) (digits : Nat) (exponent : Int) : Binary64 :=
  let magnitude : Int := (Nat.toDigits 10 digits).length + exponent
  if digits = 0 then zero negative
  else if 400 < magnitude then infinity negative
  else if magnitude < -400 then zero negative
  else ofFraction negative (digits * tenPow exponent.toNat) (tenPow (-exponent).toNat)

/-- The nearest number to a whole number. -/
def ofInt (n : Int) : Binary64 :=
  ofFraction (n < 0) n.natAbs 1

/-! ## Whole numbers and order -/

/-- The whole number that a number is, if it is one. -/
def toInt? (x : Binary64) : Option Int :=
  match x.fraction? with
  | some f => if f.num % f.den = 0 then some (f.num / f.den) else none
  | none => none

/-- Equality of numbers: the zeros are equal, and what is not a number equals nothing. -/
def same (x y : Binary64) : Bool :=
  match x.kind, y.kind with
  | .nan, _ => false
  | _, .nan => false
  | .infinite a, .infinite b => a == b
  | _, _ =>
    match x.fraction?, y.fraction? with
    | some f, some g => f.same g
    | _, _ => false

/-- The first number is the smaller one; what is not a number is never smaller or larger. -/
def less (x y : Binary64) : Bool :=
  match x.kind, y.kind with
  | .nan, _ => false
  | _, .nan => false
  | .infinite a, .infinite b => a && !b
  | .infinite a, .finite .. => a
  | .finite .., .infinite b => !b
  | .finite .., .finite .. =>
    match x.fraction?, y.fraction? with
    | some f, some g => f.less g
    | _, _ => false

end Binary64
end Workflow
