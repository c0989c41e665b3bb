import Workflow.Text.Quoted

/-!
# Path expressions

A path addresses a place in a tree. `$` is the root; each further segment follows a point and is a
field, perhaps with an index in brackets: `$.input[2].item[0].input[1]`.

* `Path.parse` reads an expression, `Path.format` writes one.
* `Path.child` appends one segment to a path's text.

A field starts with an ASCII letter or an underscore and goes on with word characters of any
script; an index is a run of decimal digits of any script. One line end may close a segment.
-/

namespace Workflow

/-! ## Segments -/

/-- One step of a path. -/
structure Segment where
  /-- The field that the step follows. -/
  field : String
  /-- The place among the entries of the field. Places read from a text are never negative. -/
  index : Option Int := none
  deriving DecidableEq, Inhabited

namespace Segment

/-- The text of a segment. -/
def chars (s : Segment) : List Char :=
  match s.index with
  | none => s.field.toList
  | some i => s.field.toList ++ '[' :: (toString i).toList ++ [']']

/-- The text of a segment. -/
def text (s : Segment) : String :=
  String.ofList s.chars

end Segment

namespace Path

/-- The field of children, of the body of a loop and of a step's inputs. -/
def childField : String := "input"

/-- The field of the instances of a loop. -/
def instanceField : String := "item"

/-- The field of the default of a branch. -/
def defaultField : String := "default"

/-- The path of the root. -/
def root : String := "$"

/-! ## Errors -/

/-- What is wrong with an expression. -/
inductive Malformed where
  /-- It has no characters. -/
  | empty
  /-- It does not start at the root. -/
  | noRoot
  /-- No point follows the root. -/
  | noPoint
  /-- The segment at a position is neither a field nor a field with an index. -/
  | segment (position : Nat) (text : String)
  deriving DecidableEq

/-- The wording of what is wrong with an expression. -/
def Malformed.reason : Malformed → String
  | empty => "path is empty"
  | noRoot => "path must start with '$'"
  | noPoint => "expected '.' after '$'"
  | segment position text =>
    s!"segment {position} ({Text.quoted text}) is not a field or field[index]"

/-- What a node's field holds, in the words of messages. -/
inductive Entries where
  /-- The inputs that a step declares. -/
  | declaredInputs
  /-- The inputs that a step was given. -/
  | boundInputs
  /-- The children of a container. -/
  | children
  /-- The cases of a branch. -/
  | cases
  /-- The instances of a loop. -/
  | instances
  deriving DecidableEq

/-- The name of what a node's field holds. -/
def Entries.name : Entries → String
  | declaredInputs => "declared inputs"
  | boundInputs => "bound inputs"
  | children => "children"
  | cases => "branch cases"
  | instances => "loop instances"

/-- Why a segment cannot be followed. -/
inductive Miss where
  /-- The field holds several entries and no index is given. -/
  | needsIndex (entries : Entries)
  /-- The index is not smaller than the number of entries. -/
  | outOfRange (entries : Entries) (count : Nat)
  /-- The branch has no default. -/
  | noDefault
  /-- A definition has no loop instances. -/
  | onlyInResults
  /-- Nothing lies below the declaration of an input. -/
  | belowBinding
  /-- Nothing lies below the value of an input. -/
  | belowValue
  /-- A node of a definition has no such field. -/
  | notInDefinition (kind : String)
  /-- A node of a result has no such field. -/
  | notInResult (kind : String)
  /-- The segment names an instance of a running loop other than the current one. -/
  | otherInstance (current : Int)
  deriving DecidableEq

/-- The wording of why a segment cannot be followed. -/
def Miss.reason : Miss → String
  | needsIndex entries => s!"requires an index into {entries.name}"
  | outOfRange entries count => s!"is out of range ({entries.name} has {count} entries)"
  | noDefault => "does not exist (branch has no default)"
  | onlyInResults => "refers to loop instances, which only exist in results"
  | belowBinding => "cannot be traversed (target is an input binding)"
  | belowValue => "cannot be traversed (target is a bound input value)"
  | notInDefinition kind => s!"is not an attribute of a {kind} node"
  | notInResult kind => s!"is not an attribute of a {kind} result"
  | otherInstance current =>
    s!"refers to another instance of a running loop (this is instance {current})"

/-- Why an expression addresses nothing. -/
inductive Error where
  /-- The expression is not a path. -/
  | malformed (expression : String) (cause : Malformed)
  /-- A segment of the path cannot be followed. -/
  | notFound (expression : String) (segment : Segment) (position : Nat) (miss : Miss)
  deriving DecidableEq

namespace Error

/-- The reason of an error without the expression. -/
def reason : Error → String
  | malformed _ cause => cause.reason
  | notFound _ _ _ miss => miss.reason

/-- The wording of an error. -/
def message : Error → String
  | malformed expression cause =>
    s!"Malformed path {Text.quoted expression}: {cause.reason}"
  | notFound expression segment position miss =>
    s!"Path not found {Text.quoted expression}: segment {position} " ++
      s!"({Text.quoted segment.text}) {miss.reason}"

end Error

/-! ## Writing -/

/-- The text of segments, each after a point. -/
def formatTail (segments : List Segment) : List Char :=
  segments.flatMap fun segment => '.' :: segment.chars

/-- The text of a path. -/
def formatChars (segments : List Segment) : List Char :=
  '$' :: formatTail segments

/-- The text of a path. -/
def format (segments : List Segment) : String :=
  String.ofList (formatChars segments)

/-- The text of a path with one more segment. -/
def child (parent : String) (segment : Segment) : String :=
  parent ++ "." ++ segment.text

/-! ## Reading -/

/-- The pieces of a text between points. -/
def splitPoints : List Char → List (List Char)
  | [] => [[]]
  | c :: rest =>
    if c = '.' then [] :: splitPoints rest
    else
      match splitPoints rest with
      | [] => [[c]]
      | piece :: pieces => (c :: piece) :: pieces

/-- A text without one line end at its end. -/
def dropLineEnd (s : List Char) : List Char :=
  if s.getLast? = some '\n' then s.dropLast else s

/-- A character that a field may start with. -/
def isFieldStart (c : Char) : Bool :=
  c.isAlpha || c == '_'

/-- The number that decimal digits of any script stand for. -/
def indexValue (digits : List Char) : Nat :=
  digits.foldl (fun n c => 10 * n + (Unicode.digitValue c).getD 0) 0

/-- An index in brackets that ends the text. -/
def parseIndex? : List Char → Option Nat
  | '[' :: rest =>
    let digits := rest.takeWhile Unicode.isDecimalDigit
    if digits.isEmpty then none
    else if rest.dropWhile Unicode.isDecimalDigit = [']'] then some (indexValue digits)
    else none
  | _ => none

/-- A field, perhaps with an index, without a line end. -/
def parseField? : List Char → Option Segment
  | [] => none
  | c :: rest =>
    if isFieldStart c then
      let field := String.ofList (c :: rest.takeWhile Unicode.isWordChar)
      match rest.dropWhile Unicode.isWordChar with
      | [] => some ⟨field, none⟩
      | after => (parseIndex? after).map fun index => ⟨field, some index⟩
    else none

/-- The segment that a piece between points is. -/
def parseSegment? (piece : List Char) : Option Segment :=
  parseField? (dropLineEnd piece)

/-- The segments that pieces are, the first of them being the one at `position`. -/
def parsePieces (position : Nat) : List (List Char) → Except Malformed (List Segment)
  | [] => .ok []
  | piece :: pieces =>
    match parseSegment? piece with
    | none => .error (.segment position (String.ofList piece))
    | some segment =>
      match parsePieces (position + 1) pieces with
      | .error cause => .error cause
      | .ok segments => .ok (segment :: segments)

/-- The segments of an expression. -/
def parseChars : List Char → Except Malformed (List Segment)
  | [] => .error .empty
  | '$' :: [] => .ok []
  | '$' :: '.' :: rest => parsePieces 0 (splitPoints rest)
  | '$' :: _ => .error .noPoint
  | _ => .error .noRoot

/-- The segments of an expression. -/
def parse (expression : String) : Except Error (List Segment) :=
  match parseChars expression.toList with
  | .ok segments => .ok segments
  | .error cause => .error (.malformed expression cause)

/-! ## Following -/

/-- Follows segments one after the other; the first that cannot be followed is reported with its
position. -/
def followFrom {α : Type} (step : α → Segment → Except Miss α) (expression : String)
    (position : Nat) (place : α) : List Segment → Except Error α
  | [] => .ok place
  | segment :: segments =>
    match step place segment with
    | .error miss => .error (.notFound expression segment position miss)
    | .ok next => followFrom step expression (position + 1) next segments

/-- Follows an expression from the root of a tree. -/
def follow {α : Type} (step : α → Segment → Except Miss α) (root : α) (expression : String) :
    Except Error α :=
  match parse expression with
  | .error e => .error e
  | .ok segments => followFrom step expression 0 root segments

/-- The entry of a list that a segment's index names. -/
def pick {α : Type} (items : List α) (segment : Segment) (entries : Entries) : Except Miss α :=
  match segment.index with
  | none => .error (.needsIndex entries)
  | some index =>
    match items[index.toNat]? with
    | none => .error (.outOfRange entries items.length)
    | some item => .ok item

end Path
end Workflow
