import Workflow.Json.Writer
import Workflow.Variables.Basic

/-!
# Templates

A template is a text with placeholders: `@` and the longest run of word characters after it.

* `Template.pieces` takes a text apart and `Template.join` puts it together again.
* `Template.render` puts values in place of the placeholders, from left to right and once. Names in
  scope come before run variables; a placeholder that is neither stays as it is, so that addresses
  of mail survive. A variable with a problem is an error.
-/

namespace Workflow.Template

/-- A part of a template. -/
inductive Piece where
  /-- Characters that stand for themselves. -/
  | literal (text : List Char)
  /-- The name after an `@`. -/
  | placeholder (name : List Char)
  deriving DecidableEq

/-- Puts a character that stands for itself in front of pieces. -/
def consLiteral (c : Char) : List Piece → List Piece
  | .literal text :: pieces => .literal (c :: text) :: pieces
  | pieces => .literal [c] :: pieces

/-- The pieces of a text. -/
def pieces : List Char → List Piece
  | [] => []
  | c :: rest =>
    if c = '@' ∧ rest.takeWhile Unicode.isWordChar ≠ [] then
      .placeholder (rest.takeWhile Unicode.isWordChar) ::
        pieces (rest.dropWhile Unicode.isWordChar)
    else consLiteral c (pieces rest)
termination_by s => s.length
decreasing_by
  · simpa using Nat.lt_succ_of_le (List.dropWhile_sublist _).length_le
  · simp

/-- The characters of a piece. -/
def Piece.chars : Piece → List Char
  | literal text => text
  | placeholder name => '@' :: name

/-- The text that pieces are. -/
def join (pieces : List Piece) : List Char :=
  pieces.flatMap Piece.chars

/-- How a value appears in a text: nothing if it is absent, a text as it is, any other value as
JSON. -/
def valueText : Value → String
  | .null => ""
  | .string s => s
  | v => v.toJson .line

/-- The value of a name: in scope, else of the variables. -/
def lookup (name : String) (vars : Variables) (scope : Fields Value)
    (input : Option String) : Except BindingError Value :=
  match Fields.get? scope name with
  | some value => .ok value
  | none => vars.lookup name input

/-- The text that a piece becomes. -/
def renderPiece (vars : Variables) (scope : Fields Value) (input : Option String) :
    Piece → Except BindingError (List Char)
  | .literal text => .ok text
  | .placeholder name =>
    if Fields.has scope (String.ofList name) || vars.knows (String.ofList name) then
      (lookup (String.ofList name) vars scope input).map fun v => (valueText v).toList
    else .ok ('@' :: name)

/-- The text that pieces become; the first error counts. -/
def renderPieces (vars : Variables) (scope : Fields Value) (input : Option String) :
    List Piece → Except BindingError (List Char)
  | [] => .ok []
  | piece :: pieces =>
    match renderPiece vars scope input piece with
    | .error e => .error e
    | .ok text =>
      match renderPieces vars scope input pieces with
      | .error e => .error e
      | .ok rest => .ok (text ++ rest)

/-- The text that a template becomes. -/
def render (template : String) (vars : Variables) (scope : Fields Value)
    (input : Option String) : Except BindingError String :=
  (renderPieces vars scope input (pieces template.toList)).map String.ofList

end Workflow.Template
