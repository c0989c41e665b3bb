import Workflow.Value.Basic

/-!
# JSON texts: reading

`Json.parse` reads one value from a text. Beside the grammar of JSON it takes the names `NaN`,
`Infinity` and `-Infinity` for numbers that are not finite. A name given twice in an object keeps
its first place and its last value. What is wrong with any other text is a `Json.Fault` at a
position.
-/

namespace Workflow.Json

/-! ## Errors -/

/-- What is wrong with a text. -/
inductive Fault where
  /-- No value starts here. -/
  | value
  /-- No name of a field starts here. -/
  | name
  /-- There is no colon after a name. -/
  | colon
  /-- There is neither a comma nor a closing bracket after an item. -/
  | comma
  /-- The string that starts here has no end. -/
  | unterminated
  /-- A string holds a raw character below the space. -/
  | control
  /-- A backslash is followed by a letter that means nothing. -/
  | escape
  /-- Four hexadecimal digits are missing. -/
  | unicodeEscape
  /-- Half of a surrogate pair stands alone. -/
  | surrogate
  /-- Something follows the value. -/
  | extra
  /-- The text starts with a byte order mark. -/
  | byteOrderMark
  deriving DecidableEq

/-- The wording of a fault. -/
def Fault.message : Fault → String
  | value => "Expecting value"
  | name => "Expecting property name enclosed in double quotes"
  | colon => "Expecting ':' delimiter"
  | comma => "Expecting ',' delimiter"
  | unterminated => "Unterminated string starting at"
  | control => "Invalid control character at"
  | escape => "Invalid \\escape"
  | unicodeEscape => "Invalid \\uXXXX escape"
  | surrogate => "Unpaired surrogate"
  | extra => "Extra data"
  | byteOrderMark => "Unexpected UTF-8 BOM (decode using utf-8-sig)"

/-- A fault with what is left of the text at the place that it is reported for. -/
structure Stuck where
  /-- What is wrong. -/
  fault : Fault
  /-- The number of characters from the place to the end of the text. -/
  left : Nat
  deriving DecidableEq

/-! ## Leaves -/

/-- White space of the grammar. -/
def isSpace (c : Char) : Bool :=
  c == ' ' || c == '\t' || c == '\n' || c == '\r'

/-- The text after leading white space. -/
def skipSpace (s : List Char) : List Char :=
  s.dropWhile isSpace

/-- The number that a run of decimal digits stands for. -/
def digitsValue (digits : List Char) : Nat :=
  digits.foldl (fun n c => 10 * n + (c.toNat - 48)) 0

/-- The value of a hexadecimal digit. -/
def hexValue? (c : Char) : Option Nat :=
  if c.isDigit then some (c.toNat - 48)
  else if 'a' ≤ c ∧ c ≤ 'f' then some (c.toNat - 87)
  else if 'A' ≤ c ∧ c ≤ 'F' then some (c.toNat - 55)
  else none

/-- Four hexadecimal digits that are not the end of the text. -/
def readUnit? : List Char → Option (Nat × List Char)
  | a :: b :: c :: d :: next :: rest => do
    let a ← hexValue? a
    let b ← hexValue? b
    let c ← hexValue? c
    let d ← hexValue? d
    return (((a * 16 + b) * 16 + c) * 16 + d, next :: rest)
  | _ => none

/-- The character that a letter after a backslash stands for. -/
def escapeLetter? (c : Char) : Option Char :=
  match c with
  | '"' => some '"'
  | '\\' => some '\\'
  | '/' => some '/'
  | 'b' => some '\x08'
  | 'f' => some '\x0c'
  | 'n' => some '\n'
  | 'r' => some '\r'
  | 't' => some '\t'
  | _ => none

/-- The fraction of a number: a point and at least one digit. -/
def readFraction (s : List Char) : List Char × List Char :=
  match s with
  | '.' :: rest =>
    let digits := rest.takeWhile Char.isDigit
    if digits.isEmpty then ([], s) else (digits, rest.dropWhile Char.isDigit)
  | _ => ([], s)

/-- The exponent of a number: a letter, perhaps a sign, and at least one digit. -/
def readExponent (s : List Char) : Option Int × List Char :=
  match s with
  | e :: rest =>
    if e == 'e' || e == 'E' then
      let (negative, body) := match rest with
        | '-' :: body => (true, body)
        | '+' :: body => (false, body)
        | _ => (false, rest)
      let digits := body.takeWhile Char.isDigit
      if digits.isEmpty then (none, s)
      else
        let n : Int := digitsValue digits
        (some (if negative then -n else n), body.dropWhile Char.isDigit)
    else (none, s)
  | [] => (none, s)

/-- The digits before the point: a nought alone, or digits that do not start with one. -/
def readWhole (s : List Char) : List Char × List Char :=
  match s with
  | '0' :: rest => (['0'], rest)
  | _ => (s.takeWhile Char.isDigit, s.dropWhile Char.isDigit)

/-- A number. It is whole if it has neither a point nor an exponent. -/
def readNumber? (s : List Char) : Option (Number × List Char) :=
  let (negative, body) := match s with
    | '-' :: body => (true, body)
    | _ => (false, s)
  let (whole, afterWhole) := readWhole body
  if whole.isEmpty then none
  else
    let (fraction, afterFraction) := readFraction afterWhole
    let (exponent, rest) := readExponent afterFraction
    if fraction.isEmpty && exponent.isNone then
      let n : Int := digitsValue whole
      some (.int (if negative then -n else n), rest)
    else
      some (.float (.ofDecimal negative (digitsValue (whole ++ fraction))
        (exponent.getD 0 - fraction.length)), rest)

/-- The names that stand for values. -/
def constants : List (String × Value) :=
  [("null", .null), ("true", .bool true), ("false", .bool false), ("NaN", .float .nan),
   ("Infinity", .float (.infinity false)), ("-Infinity", .float (.infinity true))]

/-- A name that stands for a value. -/
def readConstant? (s : List Char) : Option (Value × List Char) :=
  (constants.find? fun entry => entry.1.toList.isPrefixOf s).map fun entry =>
    (entry.2, s.drop entry.1.length)

/-! ## Strings -/

/-- The rest of a string, its characters read so far being `done` in reverse. `start` is the text
from the opening quote on. -/
def readString (start done : List Char) :
    Nat → List Char → Except Stuck (String × List Char)
  | 0, _ => .error ⟨.unterminated, start.length⟩
  | fuel + 1, s =>
    match s with
    | [] => .error ⟨.unterminated, start.length⟩
    | '"' :: rest => .ok (String.ofList done.reverse, rest)
    | '\\' :: rest =>
      match rest with
      | [] => .error ⟨.unterminated, start.length⟩
      | 'u' :: digits =>
        match readUnit? digits with
        | none => .error ⟨.unicodeEscape, rest.length⟩
        | some (unit, afterUnit) =>
          if unit < 0xD800 || 0xDFFF < unit then
            readString start (Char.ofNat unit :: done) fuel afterUnit
          else if 0xDBFF < unit then .error ⟨.surrogate, rest.length⟩
          else
            match afterUnit with
            | '\\' :: 'u' :: lowDigits =>
              match readUnit? lowDigits with
              | none => .error ⟨.unicodeEscape, lowDigits.length + 1⟩
              | some (low, afterLow) =>
                if low < 0xDC00 || 0xDFFF < low then .error ⟨.surrogate, rest.length⟩
                else
                  let code := 0x10000 + (unit - 0xD800) * 0x400 + (low - 0xDC00)
                  readString start (Char.ofNat code :: done) fuel afterLow
            | _ => .error ⟨.surrogate, rest.length⟩
      | letter :: afterLetter =>
        match escapeLetter? letter with
        | some c => readString start (c :: done) fuel afterLetter
        | none => .error ⟨.escape, s.length⟩
    | c :: rest =>
      if c.toNat < 32 then .error ⟨.control, s.length⟩
      else readString start (c :: done) fuel rest

/-! ## Values -/

mutual

/-- A value at the start of the text. -/
def readValue : Nat → List Char → Except Stuck (Value × List Char)
  | 0, s => .error ⟨.value, s.length⟩
  | fuel + 1, s =>
    match s with
    | '"' :: rest => do
      let (text, rest) ← readString s [] fuel rest
      return (.string text, rest)
    | '[' :: rest =>
      match skipSpace rest with
      | ']' :: rest => .ok (.array [], rest)
      | inner => do
        let (items, rest) ← readItems fuel inner
        return (.array items, rest)
    | '\x7b' :: rest =>
      match skipSpace rest with
      | '\x7d' :: rest => .ok (.object [], rest)
      | inner => do
        let (fields, rest) ← readFields fuel [] inner
        return (.object fields, rest)
    | _ =>
      match readNumber? s with
      | some (n, rest) => .ok (.number n, rest)
      | none =>
        match readConstant? s with
        | some (v, rest) => .ok (v, rest)
        | none => .error ⟨.value, s.length⟩

/-- The items of a list up to its closing bracket. -/
def readItems : Nat → List Char → Except Stuck (List Value × List Char)
  | 0, s => .error ⟨.value, s.length⟩
  | fuel + 1, s => do
    let (v, rest) ← readValue fuel s
    match skipSpace rest with
    | ']' :: rest => return ([v], rest)
    | ',' :: rest =>
      let (items, rest) ← readItems fuel (skipSpace rest)
      return (v :: items, rest)
    | rest => .error ⟨.comma, rest.length⟩

/-- The fields of an object up to its closing bracket, after those that are read already. -/
def readFields : Nat → Fields Value → List Char → Except Stuck (Fields Value × List Char)
  | 0, _, s => .error ⟨.name, s.length⟩
  | fuel + 1, fields, s =>
    match s with
    | '"' :: rest => do
      let (name, rest) ← readString s [] fuel rest
      match skipSpace rest with
      | ':' :: rest =>
        let (v, rest) ← readValue fuel (skipSpace rest)
        let fields := Fields.set fields name v
        match skipSpace rest with
        | '\x7d' :: rest => return (fields, rest)
        | ',' :: rest => readFields fuel fields (skipSpace rest)
        | rest => .error ⟨.comma, rest.length⟩
      | rest => .error ⟨.colon, rest.length⟩
    | _ => .error ⟨.name, s.length⟩

end

/-- The value that a text is, with white space around it. -/
def parseChars (s : List Char) : Except Stuck Value :=
  if s.head? = some '\ufeff' then .error ⟨.byteOrderMark, s.length⟩
  else
    match readValue (s.length + 1) (skipSpace s) with
    | .error stuck => .error stuck
    | .ok (v, rest) =>
      match skipSpace rest with
      | [] => .ok v
      | rest => .error ⟨.extra, rest.length⟩

/-- A fault at a position of a text. -/
structure Error where
  /-- What is wrong. -/
  fault : Fault
  /-- The number of characters before the place. -/
  position : Nat
  /-- The line of the place, counted from one. -/
  line : Nat
  /-- The column of the place, counted from one. -/
  column : Nat
  deriving DecidableEq

/-- The wording of an error. -/
def Error.message (e : Error) : String :=
  s!"{e.fault.message}: line {e.line} column {e.column} (char {e.position})"

/-- A fault located in its text. -/
def Stuck.locate (stuck : Stuck) (s : List Char) : Error :=
  let before := s.take (s.length - stuck.left)
  { fault := stuck.fault
    position := before.length
    line := before.count '\n' + 1
    column := (before.reverse.takeWhile (· ≠ '\n')).length + 1 }

/-- The value that a text is. -/
def parse (text : String) : Except Error Value :=
  match parseChars text.toList with
  | .ok v => .ok v
  | .error stuck => .error (stuck.locate text.toList)

end Workflow.Json
