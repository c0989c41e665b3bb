import Workflow.Document.Issue
import Workflow.Value.Display

/-!
# Reading records from documents

A check takes a value to a result or to all of its issues, in the order of the record's fields.

* `Checked.and` goes on to the next field and keeps the issues of both.
* `required`, `optional`, `nullable`, `listOf` and `fieldsOf` build the checks of records.
* `text`, `int`, `float`, `bool` and `oneOf` are the checks of simple values. Texts and truth values
  are taken as numbers where a number is needed, and texts and numbers as truth values.
-/

namespace Workflow.Document

/-- A result, or the issues of a document. -/
abbrev Checked (α : Type) := Except (List Issue) α

variable {α β : Type}

namespace Checked

/-- A result without issues. -/
def pure (a : α) : Checked α :=
  .ok a

/-- A result made into another one. -/
def map (f : α → β) : Checked α → Checked β
  | .ok a => .ok (f a)
  | .error issues => .error issues

/-- A single problem with the value at hand. -/
def fail (problem : Problem) : Checked α :=
  .error [⟨[], problem⟩]

/-- Goes on to another part of a record; the issues of both parts are kept in order. -/
def and (first : Checked (α → β)) (second : Checked α) : Checked β :=
  match first, second with
  | .ok f, .ok a => .ok (f a)
  | .ok _, .error issues => .error issues
  | .error issues, .ok _ => .error issues
  | .error issues, .error more => .error (issues ++ more)

/-- The result of a check of a part, its issues seen from the whole. -/
def under (key : Key) : Checked α → Checked α
  | .ok a => .ok a
  | .error issues => .error (issues.map (Issue.under key))

/-- Keeps the first result if the second part has no issues. -/
def also (first : Checked α) (second : Checked Unit) : Checked α :=
  (Checked.map (fun a _ => a) first).and second

end Checked

/-- A check of a value. -/
abbrev Check (α : Type) := Value → Checked α

/-! ## Records -/

/-- The check of a field that must be there. -/
def required (fields : Fields Value) (name : String) (check : Check α) : Checked α :=
  match Fields.get? fields name with
  | some v => (check v).under (.name name)
  | none => .error [⟨[.name name], .missing⟩]

/-- The check of a field that has a default. -/
def optional (fields : Fields Value) (name : String) (default : α) (check : Check α) :
    Checked α :=
  match Fields.get? fields name with
  | some v => (check v).under (.name name)
  | none => .ok default

/-- The check of a value that may be absent. -/
def nullable (check : Check α) : Check (Option α)
  | .null => .ok none
  | v => (check v).map some

/-- The fields that are not among the given names. -/
def otherFields (fields : Fields Value) (names : List String) : Fields Value :=
  fields.filter fun field => !names.contains field.1

/-- Fields that are not known are issues, one each. -/
def noOthers (fields : Fields Value) (names : List String) : Checked Unit :=
  match otherFields fields names with
  | [] => .ok ()
  | others => .error (others.map fun field => ⟨[.name field.1], .extra⟩)

/-- The checks of the items of a list, the first of them at `index`. -/
def listFrom (check : Check α) (index : Nat) : List Value → Checked (List α)
  | [] => .ok []
  | v :: items =>
    (Checked.map List.cons ((check v).under (.index index))).and
      (listFrom check (index + 1) items)

/-- The check of a list whose items have a check. -/
def listOf (check : Check α) : Check (List α)
  | .array items => listFrom check 0 items
  | _ => .fail .list

/-- The checks of the contents of fields. -/
def fieldsFrom (check : Check α) : Fields Value → Checked (Fields α)
  | [] => .ok []
  | (name, v) :: fields =>
    (Checked.map (fun a rest => (name, a) :: rest) ((check v).under (.name name))).and
      (fieldsFrom check fields)

/-- The check of an object whose fields have a check. -/
def fieldsOf (check : Check α) : Check (Fields α)
  | .object fields => fieldsFrom check fields
  | _ => .fail .object

/-- The check of an object that is a record. -/
def recordOf (check : Fields Value → Checked α) : Check α
  | .object fields => check fields
  | _ => .fail .record

/-- The check of an object whose field `kind` chooses what it is. -/
def kindOf (allowed : List String) (check : String → Fields Value → Option (Checked α)) : Check α
  | .object fields =>
    match Fields.get? fields "kind" with
    | none => .fail .noKind
    | some tag =>
      match tag with
      | .string kind =>
        match check kind fields with
        | some result => result.under (.name kind)
        | none => .fail (.kind kind allowed)
      | other => .fail (.kind other.plain allowed)
  | _ => .fail .object

/-! ## Texts -/

/-- Any value. -/
def any : Check Value :=
  .ok

/-- A text. -/
def text : Check String
  | .string s => .ok s
  | _ => .fail .string

/-- A text that is not empty. -/
def someText (v : Value) : Checked String :=
  match text v with
  | .ok s => if s.isEmpty then .fail (.tooShort 1) else .ok s
  | .error issues => .error issues

/-- One of the texts that `read` knows; `problem` is what any other value is. -/
def oneOf (read : String → Option α) (problem : Problem) : Check α
  | .string s => match read s with
    | some a => .ok a
    | none => .fail problem
  | _ => .fail problem

/-! ## Numbers in texts -/

/-- A text without underscores, if they stand one at a time between other characters. -/
def dropUnderscores? (s : List Char) : Option (List Char) :=
  let rec pairs : List Char → Bool
    | '_' :: '_' :: _ => true
    | _ :: rest => pairs rest
    | [] => false
  if s.head? = some '_' ∨ s.getLast? = some '_' ∨ !s.contains '_' ∨ pairs s then none
  else some (s.filter (· ≠ '_'))

/-- A whole number: perhaps a minus, then a nought alone or digits that do not start with one. -/
def plainInt? (s : List Char) : Option Int :=
  let (negative, digits) := match s with
    | '-' :: digits => (true, digits)
    | _ => (false, s)
  let value : Int := digits.foldl (fun n c => 10 * n + (c.toNat - 48 : Nat)) 0
  match digits with
  | [] => none
  | ['0'] => some 0
  | '0' :: _ => none
  | _ => if digits.all Char.isDigit then some (if negative then -value else value) else none

/-- The number after leading noughts and single underscores between them, the last nought being
kept before a point and at the end. -/
def dropNoughts? (s : List Char) : Option (List Char) :=
  match s with
  | '0' :: rest => go '0' rest
  | c :: _ => if ('1' ≤ c && c ≤ '9') || c = '-' then some s else none
  | [] => none
where
  /-- Goes on after the character `last`. -/
  go (last : Char) : List Char → Option (List Char)
    | [] => some [last]
    | c :: rest =>
      if c = '0' then go c rest
      else if c = '_' then if last = '_' then none else go c rest
      else if '1' ≤ c && c ≤ '9' then some (c :: rest)
      else if c = '.' then some (last :: c :: rest)
      else none

/-- A text without a point that only noughts follow. -/
def dropPoint (s : List Char) : List Char :=
  let part := s.dropWhile (· ≠ '.')
  if part.drop 1 |>.all (· = '0') then s.takeWhile (· ≠ '.') else s

/-- The whole number that a text stands for. A plus, leading noughts, a point with noughts and
single underscores between digits are allowed. -/
def intText? (s : String) : Option Int :=
  let trimmed := Unicode.trim s.toList
  match plainInt? trimmed with
  | some n => some n
  | none => do
    let unsigned := match trimmed with
      | '+' :: rest => rest
      | _ => trimmed
    let body := dropPoint (← dropNoughts? unsigned)
    plainInt? ((dropUnderscores? body).getD body)

/-- The digits of a decimal number as a whole number and a power of ten. -/
def decimalParts? (s : List Char) : Option (Nat × Int) := do
  let value (digits : List Char) : Nat := digits.foldl (fun n c => 10 * n + (c.toNat - 48)) 0
  let whole := s.takeWhile Char.isDigit
  let afterWhole := s.dropWhile Char.isDigit
  let (fraction, afterFraction) := match afterWhole with
    | '.' :: rest => (rest.takeWhile Char.isDigit, rest.dropWhile Char.isDigit)
    | _ => ([], afterWhole)
  if whole.isEmpty && fraction.isEmpty then none
  else
    let exponent ← match afterFraction with
      | [] => some 0
      | e :: rest =>
        if e = 'e' ∨ e = 'E' then
          let (negative, digits) := match rest with
            | '-' :: digits => (true, digits)
            | '+' :: digits => (false, digits)
            | _ => (false, rest)
          if digits.isEmpty || !digits.all Char.isDigit then none
          else some (if negative then -(value digits : Int) else value digits)
        else none
    return (value (whole ++ fraction), exponent - fraction.length)

/-- The number that a text without white space and underscores stands for. -/
def plainFloat? (s : List Char) : Option Binary64 :=
  let (negative, body) := match s with
    | '-' :: body => (true, body)
    | '+' :: body => (false, body)
    | _ => (false, s)
  let name := String.ofList (body.map Char.toLower)
  if name = "inf" ∨ name = "infinity" then some (.infinity negative)
  else if name = "nan" then some .nan
  else (decimalParts? body).map fun (digits, exponent) => .ofDecimal negative digits exponent

/-- The number that a text stands for. -/
def floatText? (s : String) : Option Binary64 :=
  match plainFloat? (Unicode.trim s.toList) with
  | some x => some x
  | none => do plainFloat? (Unicode.trim (← dropUnderscores? s.toList))

/-! ## Simple values -/

/-- A whole number, or a value that stands for one. -/
def int : Check Int
  | .bool b => .ok (if b then 1 else 0)
  | .number (.int n) => .ok n
  | .number (.float x) =>
    if !x.isFinite then .fail .infinite
    else
      match x.toInt? with
      | none => .fail .fractional
      | some n => if -(twoPow 63 : Int) < n ∧ n < twoPow 63 then .ok n else .fail .intSize
  | .string s => match intText? s with
    | some n => .ok n
    | none => .fail .intText
  | _ => .fail .int

/-- A number, or a value that stands for one. -/
def float : Check Binary64
  | .bool b => .ok (.ofInt (if b then 1 else 0))
  | .number n => .ok n.toBinary64
  | .string s => match floatText? s with
    | some x => .ok x
    | none => .fail .floatText
  | _ => .fail .float

/-- The truth value that a whole number stands for. -/
def boolOfInt (n : Int) : Checked Bool :=
  if n = 0 then .ok false else if n = 1 then .ok true else .fail .boolText

/-- The texts that stand for truth. -/
def trueTexts : List String := ["1", "on", "t", "true", "y", "yes"]

/-- The texts that stand for falsity. -/
def falseTexts : List String := ["0", "off", "f", "false", "n", "no"]

/-- A truth value, or a value that stands for one. -/
def bool : Check Bool
  | .bool b => .ok b
  | .number (.int n) => boolOfInt n
  | .number (.float x) => match x.toInt? with
    | some n => boolOfInt n
    | none => .fail .bool
  | .string s =>
    let lower := String.ofList (s.toList.map Char.toLower)
    if trueTexts.contains lower then .ok true
    else if falseTexts.contains lower then .ok false
    else .fail .boolText
  | _ => .fail .bool

/-- A positive whole number. -/
def positiveInt (v : Value) : Checked Nat :=
  match int v with
  | .ok n => if 1 ≤ n then .ok n.toNat else .fail (.below 1)
  | .error issues => .error issues

/-- A number that is neither negative nor zero. -/
def positiveFloat (v : Value) : Checked Binary64 :=
  match float v with
  | .ok x =>
    if x.less (Binary64.zero false) || x.same (Binary64.zero false) then .fail (.atMost 0)
    else .ok x
  | .error issues => .error issues

end Workflow.Document
