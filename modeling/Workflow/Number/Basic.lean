import Workflow.Number.Shortest

/-!
# Numbers

A number is a whole number of any size or a double-precision number. The two kinds stay apart when
they are written, and compare as the numbers that they are.
-/

namespace Workflow

/-- A whole number or a double-precision number. -/
inductive Number where
  /-- A whole number of any size. -/
  | int (n : Int)
  /-- A double-precision number. -/
  | float (x : Binary64)
  deriving DecidableEq, Inhabited

namespace Number

/-- The nearest double-precision number. -/
def toBinary64 : Number → Binary64
  | int n => .ofInt n
  | float x => x

/-- The exact value of a finite number. -/
def fraction? : Number → Option Binary64.Fraction
  | int n => some (.ofInt n)
  | float x => x.fraction?

/-- Equality of numbers whatever their kinds. -/
def same : Number → Number → Bool
  | int m, int n => m == n
  | float x, float y => x.same y
  | m, n =>
    match m.fraction?, n.fraction? with
    | some f, some g => f.same g
    | _, _ => false

/-- The first number is the smaller one whatever their kinds. -/
def less : Number → Number → Bool
  | int m, int n => m < n
  | float x, float y => x.less y
  | m, n =>
    match m.fraction?, n.fraction? with
    | some f, some g => f.less g
    | some _, none => match n with
      | float y => (Binary64.zero false).less y
      | int _ => false
    | none, _ => match m with
      | float x => x.less (Binary64.zero false)
      | int _ => false

/-- The number is a zero. -/
def isZero (n : Number) : Bool :=
  n.same (.int 0)

/-- The text of a number, with the given layout of double-precision numbers. -/
def text (f : FloatFormat) : Number → List Char
  | int n => (toString n).toList
  | float x => x.text f

/-- The text of a number rounded to six significant digits. -/
def general (n : Number) : List Char :=
  n.toBinary64.general

end Number
end Workflow
