import Workflow.Value.Display

/-!
# Placeholders with a percent sign

A log message may hold placeholders such as `%s`, `%5d` or `%.2f` for its arguments. A placeholder
has flags, a width, a precision and a letter that says how its argument is written; `%%` stands for
the percent sign. With a single object for argument, `%(name)s` takes a field of it.

`Percent.fill` puts arguments in place of the placeholders. There is no text if an argument is
missing, left over, or of a kind that its placeholder does not write.
-/

namespace Workflow.Percent

/-- How an argument is written. -/
structure Placeholder where
  /-- The field that is taken, if the argument is an object. -/
  name : Option String := none
  /-- The flags. -/
  flags : List Char := []
  /-- The least number of characters. -/
  width : Nat := 0
  /-- The number of digits of a number, or the greatest number of characters of a text. -/
  precision : Option Nat := none
  /-- The letter. -/
  letter : Char := 's'

namespace Placeholder

/-- The placeholder has a flag. -/
def has (p : Placeholder) (flag : Char) : Bool :=
  p.flags.contains flag

/-- A text of at least the width. -/
def pad (p : Placeholder) (s : List Char) : List Char :=
  let blanks := List.replicate (p.width - s.length) ' '
  if p.has '-' then s ++ blanks else blanks ++ s

/-- The digits of a number with its sign and the mark of its base, of at least the width. -/
def padNumber (p : Placeholder) (negative : Bool) (mark digits : List Char) : List Char :=
  let sign :=
    if negative then ['-'] else if p.has '+' then ['+'] else if p.has ' ' then [' '] else []
  let front := sign ++ mark
  if p.has '0' && !p.has '-' then
    front ++ List.replicate (p.width - front.length - digits.length) '0' ++ digits
  else p.pad (front ++ digits)

end Placeholder

/-! ## Reading -/

/-- The characters of flags. -/
def flagChars : List Char := ['-', '+', ' ', '0', '#']

/-- The number that digits stand for. -/
def number (digits : List Char) : Nat :=
  digits.foldl (fun n c => 10 * n + (c.toNat - 48)) 0

/-- The placeholder after a percent sign, and what follows it. -/
def read? (s : List Char) : Option (Placeholder × List Char) :=
  let (name, s) := match s with
    | '(' :: rest =>
      (some (String.ofList (rest.takeWhile (· ≠ ')'))), (rest.dropWhile (· ≠ ')')).drop 1)
    | _ => (none, s)
  let flags := s.takeWhile flagChars.contains
  let s := s.dropWhile flagChars.contains
  let width := number (s.takeWhile Char.isDigit)
  let s := s.dropWhile Char.isDigit
  let (precision, s) := match s with
    | '.' :: rest => (some (number (rest.takeWhile Char.isDigit)), rest.dropWhile Char.isDigit)
    | _ => (none, s)
  match s.dropWhile ['h', 'l', 'L'].contains with
  | letter :: rest => some (⟨name, flags, width, precision, letter⟩, rest)
  | [] => none

/-! ## Numbers -/

/-- The whole number that an argument is, without what follows its point. -/
def whole? : Value → Option Int
  | .bool b => some (if b then 1 else 0)
  | .number n => n.fraction?.map fun f => f.num.tdiv f.den
  | _ => none

/-- The number that an argument is. -/
def float? : Value → Option Binary64
  | .bool b => some (.ofInt (if b then 1 else 0))
  | .number n => some n.toBinary64
  | _ => none

/-- Digits with a point before the last `places` of them. -/
def point (places : Nat) (alternate : Bool) (digits : List Char) : List Char :=
  let digits := List.replicate (places + 1 - digits.length) '0' ++ digits
  let front := digits.take (digits.length - places)
  if places = 0 then (if alternate then front ++ ['.'] else front)
  else front ++ '.' :: digits.drop (digits.length - places)

/-- A positive fraction with a number of decimal places. -/
def fixed (num den places : Nat) (alternate : Bool) : List Char :=
  point places alternate (Nat.toDigits 10 (Binary64.roundHalfEven (num * tenPow places) den))

/-- The digits of a fraction rounded to `count` of them, and the power of ten of the first. -/
def significant (num den count : Nat) : List Char × Int :=
  if num = 0 then (List.replicate count '0', 0)
  else
    let power := Binary64.floorLog10 num den
    let unit := power - (count - 1 : Nat)
    let digits := Nat.toDigits 10 (Binary64.roundHalfEven (num * tenPow (-unit).toNat)
      (den * tenPow unit.toNat))
    (digits.take count, if count < digits.length then power + 1 else power)

/-- An exponent of at least two digits. -/
def exponentText (power : Int) : List Char :=
  let digits := Nat.toDigits 10 power.natAbs
  'e' :: (if power < 0 then '-' else '+') :: List.replicate (2 - digits.length) '0' ++ digits

/-- A fraction with an exponent and a number of decimal places. -/
def scientific (num den places : Nat) (alternate : Bool) : List Char :=
  let (digits, power) := significant num den (places + 1)
  point places alternate digits ++ exponentText power

/-- A text without the noughts at the end of its decimal places. -/
def trimPlaces (s : List Char) : List Char :=
  if s.contains '.' then
    let s := (s.reverse.dropWhile (· == '0')).reverse
    if s.getLast? = some '.' then s.dropLast else s
  else s

/-- A fraction rounded to a number of significant digits, with an exponent where that is shorter. -/
def general (num den count : Nat) (alternate : Bool) : List Char :=
  let count := max count 1
  let (digits, power) := significant num den count
  if -4 ≤ power ∧ power < count then
    let s := fixed num den (count - 1 - power).toNat alternate
    if alternate then s else trimPlaces s
  else
    let s := point (count - 1) alternate digits
    (if alternate then s else trimPlaces s) ++ exponentText power

/-- A positive number as the letter of its placeholder says. -/
def floatDigits (p : Placeholder) (num den : Nat) : List Char :=
  let places := p.precision.getD 6
  match p.letter.toLower with
  | 'f' => fixed num den places (p.has '#')
  | 'e' => scientific num den places (p.has '#')
  | _ => general num den places (p.has '#')

/-- A double-precision number as its placeholder says. -/
def writeFloat (p : Placeholder) (x : Binary64) : List Char :=
  let (negative, digits) := match x.kind with
    | .nan => (false, "nan".toList)
    | .infinite negative => (negative, "inf".toList)
    | .finite negative mantissa exponent =>
      (negative, floatDigits p (mantissa * twoPow exponent.toNat) (twoPow (-exponent).toNat))
  p.padNumber negative [] (if p.letter.isUpper then digits.map Char.toUpper else digits)

/-- A whole number in a base as its placeholder says. -/
def writeInt (p : Placeholder) (n : Int) (base : Nat) (mark : String) : List Char :=
  let digits := Nat.toDigits base n.natAbs
  let digits := List.replicate (p.precision.getD 0 - digits.length) '0' ++ digits
  let mark := if p.has '#' then mark.toList else []
  let upper (s : List Char) : List Char := if p.letter = 'X' then s.map Char.toUpper else s
  p.padNumber (n < 0) (upper mark) (upper digits)

/-! ## Filling -/

/-- A text with escapes in place of the characters beyond ASCII. -/
def asciiText (s : String) : String :=
  String.ofList (s.toList.flatMap fun c =>
    if c.toNat < 128 then [c]
    else if c.toNat < 0x100 then '\\' :: 'x' :: Text.hexDigits 2 c.toNat
    else if c.toNat < 0x10000 then '\\' :: 'u' :: Text.hexDigits 4 c.toNat
    else '\\' :: 'U' :: Text.hexDigits 8 c.toNat)

/-- The character that an argument is or is the number of. -/
def char? : Value → Option Char
  | .bool b => some (if b then '\x01' else '\x00')
  | .number (.int n) => if 0 ≤ n ∧ n < 0x110000 then some (Char.ofNat n.toNat) else none
  | .string s =>
    match s.toList with
    | [c] => some c
    | _ => none
  | _ => none

/-- An argument as its placeholder says. -/
def write? (p : Placeholder) (v : Value) : Option (List Char) :=
  let text (s : String) : List Char :=
    p.pad (match p.precision with
      | some count => s.toList.take count
      | none => s.toList)
  let digits (base : Nat) (mark : String) : Option (List Char) :=
    match v with
    | .bool b => some (writeInt p (if b then 1 else 0) base mark)
    | .number (.int n) => some (writeInt p n base mark)
    | _ => none
  match p.letter with
  | 's' => some (text v.plain)
  | 'r' => some (text v.display)
  | 'a' => some (text (asciiText v.display))
  | 'd' => (whole? v).map fun n => writeInt p n 10 ""
  | 'i' => (whole? v).map fun n => writeInt p n 10 ""
  | 'u' => (whole? v).map fun n => writeInt p n 10 ""
  | 'x' => digits 16 "0x"
  | 'X' => digits 16 "0x"
  | 'o' => digits 8 "0o"
  | 'c' => (char? v).map fun c => p.pad [c]
  | letter =>
    if ['e', 'E', 'f', 'F', 'g', 'G'].contains letter then (float? v).map (writeFloat p) else none

/-- The text with arguments in place of its placeholders, at most `count` characters of it. -/
def fillWithin (fields : Fields Value) : Nat → List Char → List Value → Option (List Char)
  | 0, _, args => if args.isEmpty then some [] else none
  | _, [], args => if args.isEmpty then some [] else none
  | count + 1, c :: rest, args =>
    if c ≠ '%' then (fillWithin fields count rest args).map (c :: ·)
    else do
      let (p, rest) ← read? rest
      if p.letter = '%' then return '%' :: (← fillWithin fields count rest args)
      match p.name with
      | some name =>
        let v ← Fields.get? fields name
        return (← write? p v) ++ (← fillWithin fields count rest args)
      | none =>
        match args with
        | v :: args => return (← write? p v) ++ (← fillWithin fields count rest args)
        | [] => none

/-- The text with arguments in place of its placeholders; a text without arguments stays as it
is. -/
def fill (text : String) (args : List Value) : Option String :=
  match args with
  | [] => some text
  | [.object (field :: fields)] =>
    (fillWithin (field :: fields) text.length text.toList []).or
      (fillWithin [] text.length text.toList [.object (field :: fields)]) |>.map String.ofList
  | args => (fillWithin [] text.length text.toList args).map String.ofList

end Workflow.Percent
