import Workflow.Text.Quoted

/-!
# What is wrong with a document

An `Issue` is a `Problem` at a place of a document. A problem has a code, for programs, and a
message, for people. The place is the list of names and positions that lead to the value in
question; below a value whose kind is chosen by a field, the kind is part of the place.
-/

namespace Workflow.Document

/-- One step from a value of a document to a part of it. -/
inductive Key where
  /-- The field of an object, or the kind that a value was taken for. -/
  | name (name : String)
  /-- An item of a list. -/
  | index (index : Nat)
  deriving DecidableEq

/-- What is wrong with a value. -/
inductive Problem where
  /-- The text is not JSON. -/
  | json
  /-- A required field is absent. -/
  | missing
  /-- A field is not known. -/
  | extra
  /-- An object is needed. -/
  | object
  /-- An object is needed for a record. -/
  | record
  /-- An object or a record of the named type is needed. -/
  | instanceOf (type : String)
  /-- A list is needed. -/
  | list
  /-- A text is needed. -/
  | string
  /-- A longer text is needed. -/
  | tooShort (least : Nat)
  /-- A text of another form is needed. -/
  | pattern (form : String)
  /-- A whole number is needed. -/
  | int
  /-- A text is not a whole number. -/
  | intText
  /-- A whole number is too large. -/
  | intSize
  /-- A number is not whole. -/
  | fractional
  /-- A number is not finite. -/
  | infinite
  /-- A number is needed. -/
  | float
  /-- A text is not a number. -/
  | floatText
  /-- A truth value is needed. -/
  | bool
  /-- A value is not the text or number of a truth value. -/
  | boolText
  /-- A number greater than a bound is needed. -/
  | atMost (bound : Nat)
  /-- A number no smaller than a bound is needed. -/
  | below (bound : Nat)
  /-- A number no greater than a bound is needed. -/
  | above (bound : Nat)
  /-- One of the texts of an enumeration is needed. -/
  | enumeration (allowed : List String)
  /-- One of some literal texts is needed. -/
  | literal (allowed : List String)
  /-- The field that chooses the kind is absent. -/
  | noKind
  /-- The field that chooses the kind holds something else. -/
  | kind (given : String) (allowed : List String)
  /-- A date with a time is needed. -/
  | instant
  /-- A text is not a date with a time. -/
  | instantText (cause : String)
  /-- A text that is a URL is needed. -/
  | url
  /-- A text is not a URL. -/
  | urlText (cause : String)
  /-- A rule of the record is broken. -/
  | rule (message : String)
  deriving DecidableEq

namespace Problem

/-- Texts in quotes with commas between them. -/
def quotedList (texts : List String) : String :=
  ", ".intercalate (texts.map Text.quoted)

/-- Texts in quotes, the last of them after an `or`. -/
def choice (texts : List String) : String :=
  match texts.reverse with
  | [] => ""
  | [text] => Text.quoted text
  | last :: others => quotedList others.reverse ++ " or " ++ Text.quoted last

/-- The code of a problem. -/
def code : Problem → String
  | json => "json_invalid"
  | missing => "missing"
  | extra => "extra_forbidden"
  | object => "dict_type"
  | record => "model_type"
  | instanceOf _ => "model_type"
  | list => "list_type"
  | string => "string_type"
  | tooShort _ => "string_too_short"
  | pattern _ => "string_pattern_mismatch"
  | int => "int_type"
  | intText => "int_parsing"
  | intSize => "int_parsing_size"
  | fractional => "int_from_float"
  | infinite => "finite_number"
  | float => "float_type"
  | floatText => "float_parsing"
  | bool => "bool_type"
  | boolText => "bool_parsing"
  | atMost _ => "greater_than"
  | below _ => "greater_than_equal"
  | above _ => "less_than_equal"
  | enumeration _ => "enum"
  | literal _ => "literal_error"
  | noKind => "union_tag_not_found"
  | kind .. => "union_tag_invalid"
  | instant => "datetime_type"
  | instantText _ => "datetime_from_date_parsing"
  | url => "url_type"
  | urlText _ => "url_parsing"
  | rule _ => "value_error"

/-- The wording of a problem. -/
def message : Problem → String
  | json => "Invalid JSON"
  | missing => "Field required"
  | extra => "Extra inputs are not permitted"
  | object => "Input should be an object"
  | record => "Input should be an object"
  | instanceOf type => s!"Input should be a valid dictionary or instance of {type}"
  | list => "Input should be a valid array"
  | string => "Input should be a valid string"
  | tooShort least =>
    s!"String should have at least {least} character" ++ if least = 1 then "" else "s"
  | pattern form => s!"String should match pattern '{form}'"
  | int => "Input should be a valid integer"
  | intText => "Input should be a valid integer, unable to parse string as an integer"
  | intSize => "Unable to parse input string as an integer, exceeded maximum size"
  | fractional => "Input should be a valid integer, got a number with a fractional part"
  | infinite => "Input should be a finite number"
  | float => "Input should be a valid number"
  | floatText => "Input should be a valid number, unable to parse string as a number"
  | bool => "Input should be a valid boolean"
  | boolText => "Input should be a valid boolean, unable to interpret input"
  | atMost bound => s!"Input should be greater than {bound}"
  | below bound => s!"Input should be greater than or equal to {bound}"
  | above bound => s!"Input should be less than or equal to {bound}"
  | enumeration allowed => s!"Input should be {choice allowed}"
  | literal allowed => s!"Input should be {choice allowed}"
  | noKind => "Unable to extract tag using discriminator 'kind'"
  | kind given allowed =>
    s!"Input tag '{given}' found using 'kind' does not match any of the expected tags: " ++
      quotedList allowed
  | instant => "Input should be a valid datetime"
  | instantText cause => s!"Input should be a valid datetime or date, {cause}"
  | url => "URL input should be a string or URL"
  | urlText cause => s!"Input should be a valid URL, {cause}"
  | rule message => s!"Value error, {message}"

end Problem

/-- A problem at a place of a document. -/
structure Issue where
  /-- The steps from the document to the value in question. -/
  place : List Key
  /-- What is wrong with the value. -/
  problem : Problem
  deriving DecidableEq

/-- The issue as seen from one step further out. -/
def Issue.under (key : Key) (issue : Issue) : Issue :=
  { issue with place := key :: issue.place }

/-- The text of a step of a place. -/
def Key.text : Key → String
  | name s => s
  | index i => toString i

/-- The text of an issue. -/
def Issue.text (issue : Issue) : String :=
  let place := ".".intercalate (issue.place.map Key.text)
  s!"{place}\n  {issue.problem.message} [type={issue.problem.code}]"

/-- The text of all issues of a record of the named type. -/
def report (type : String) (issues : List Issue) : String :=
  let plural := if issues.length = 1 then "" else "s"
  s!"{issues.length} validation error{plural} for {type}" ++
    String.join (issues.map fun issue => "\n" ++ issue.text)

end Workflow.Document
