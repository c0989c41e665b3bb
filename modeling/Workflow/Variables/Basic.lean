import Workflow.Document.Check
import Workflow.Failure
import Workflow.Flow.Basic
import Workflow.Variables.Url

/-!
# Run variables

`Variables.bind` applies the defaults of the declared variables and checks what a run is given
against their types. A variable that is given something its declaration does not admit is
remembered with its problem, so that the failure surfaces on the node that refers to it.

Declarations are told apart by name and by position: the position `i` has the key `vi`, and a
problem found under a key belongs to the last declaration that has this key or this name.
-/

namespace Workflow

open Document

/-- The variables of a run. -/
structure Variables where
  /-- The values by name. -/
  values : Fields Value := []
  /-- What is wrong with the variables that have no value. -/
  problems : Fields String := []
  deriving Inhabited

namespace Variables

/-- The name has a value or a problem. -/
def knows (v : Variables) (name : String) : Bool :=
  Fields.has v.values name || Fields.has v.problems name

/-- The value of a variable. -/
def lookup (v : Variables) (name : String) (input : Option String) : Except BindingError Value :=
  match Fields.get? v.problems name with
  | some problem => .error ⟨input, .badVariable name problem⟩
  | none =>
    match Fields.get? v.values name with
    | some value => .ok value
    | none => .error ⟨input, .unknownVariable name⟩

/-! ## Types -/

/-- The options of an enumeration without repetitions. -/
def distinct (options : List String) : List String :=
  options.foldl (fun seen option => if seen.contains option then seen else seen ++ [option]) []

/-- What is wrong with a value of a type, if anything. Numbers, texts and truth values are not
taken for each other. -/
def typeProblem (declared : Variable) (value : Value) : Option Problem :=
  match declared.type, value with
  | .json, _ => none
  | .string, .string _ => none
  | .string, _ => some .string
  | .number, .number _ => none
  | .number, _ => some .int
  | .boolean, .bool _ => none
  | .boolean, _ => some .bool
  | .enumeration, .string s =>
    if declared.options.contains s then none else some (.literal (distinct declared.options))
  | .enumeration, _ => some (.literal (distinct declared.options))
  | .url, .string s =>
    match Url.check s with
    | .ok () => none
    | .error fault => some (.urlText fault.message)
  | .url, _ => some .url

/-- What is wrong with what a variable is given, if anything. A variable that is not required
admits the absent value. -/
def problem? (declared : Variable) : Option Value → Option Problem
  | none => if declared.required then some .missing else none
  | some value =>
    if value.isNull && !declared.required then none else typeProblem declared value

/-! ## Binding -/

/-- What a variable is given: the supplied value, else the default, else nothing. -/
def given (supplied : Fields Value) (declared : Variable) : Option Value :=
  match Fields.get? supplied declared.name with
  | some value => some value
  | none => if declared.default.isNull then none else some declared.default

/-- The key of a position. -/
def positionKey (position : Nat) : String :=
  s!"v{position}"

/-- The declarations by name and by the key of their position; later ones replace earlier ones. -/
def keyed (declared : List Variable) : Fields Variable :=
  declared.zipIdx.foldl
    (fun keys (declared, position) =>
      Fields.set (Fields.set keys declared.name declared) (positionKey position) declared)
    []

/-- What variables are given by name. A name that is declared more than once is given what its last
declaration that is given anything says. -/
def givenData (supplied : Fields Value) (declared : List Variable) : Fields Value :=
  declared.foldl
    (fun data declared =>
      match given supplied declared with
      | some value => Fields.set data declared.name value
      | none => data)
    []

/-- The wording of a variable's problem. -/
def problemText (declared : Variable) : Problem → String
  | .missing => s!"Required variable {Text.quoted declared.name} has no value and no default"
  | problem =>
    s!"Variable {Text.quoted declared.name} must be of type {declared.type.name}: " ++
      problem.message

/-- The problems of the declarations, by the name that each is remembered under. -/
def findProblems (declared : List Variable) (data : Fields Value) : Fields String :=
  declared.foldl
    (fun problems checked =>
      match problem? checked (Fields.get? data checked.name) with
      | none => problems
      | some problem =>
        match Fields.get? (keyed declared) checked.name with
        | none => problems
        | some owner =>
          if Fields.has problems owner.name then problems
          else Fields.set problems owner.name (problemText owner problem))
    []

/-- The variables of a run that is given `supplied`. -/
def bind (declared : List Variable) (supplied : Fields Value) : Variables :=
  let data := givenData supplied declared
  let problems := findProblems declared data
  let keys := keyed declared
  let passed := supplied.filter fun entry => !Fields.has keys entry.1
  let values := declared.foldl
    (fun values declared =>
      if Fields.has problems declared.name then values
      else Fields.set values declared.name ((Fields.get? data declared.name).getD .null))
    passed
  { values, problems }

/-- Variables that are bound already. -/
def ofValues (values : Fields Value) : Variables :=
  { values }

end Variables
end Workflow
