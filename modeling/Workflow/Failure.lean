import Workflow.Path.Basic
import Workflow.Status
import Workflow.Value.Display

/-!
# Failures

What a failed node records: a kind, a message and details. A failed binding is a `BindingError`,
whose cause decides the message and the details.
-/

namespace Workflow

/-- The kinds of failures. -/
inductive FailureKind where
  /-- An input could not be bound. -/
  | binding
  /-- An agent reported an error. -/
  | executor
  /-- An agent did not answer in time. -/
  | timeout
  /-- No case of a branch matched. -/
  | noBranchMatched
  /-- A child failed. -/
  | childFailed
  /-- The node was stopped. -/
  | cancelled
  deriving DecidableEq, Inhabited

namespace FailureKind

/-- The name of a kind. -/
def name : FailureKind → String
  | binding => "binding"
  | executor => "executor"
  | timeout => "timeout"
  | noBranchMatched => "no_branch_matched"
  | childFailed => "child_failed"
  | cancelled => "cancelled"

/-- All kinds. -/
def all : List FailureKind :=
  [binding, executor, timeout, noBranchMatched, childFailed, cancelled]

/-- The kind that a name stands for. -/
def ofName? (name : String) : Option FailureKind :=
  all.find? fun kind => kind.name == name

end FailureKind

/-- What a failed node records. -/
structure Failure where
  /-- The kind of failure. -/
  kind : FailureKind
  /-- What went wrong, in words. -/
  message : String
  /-- Further values. -/
  details : Fields Value := []
  deriving Inhabited

/-! ## Bindings -/

/-- Why an input could not be bound. -/
inductive BindingCause where
  /-- The variable has neither a value nor a declaration. -/
  | unknownVariable (name : String)
  /-- The variable was given something that its declaration does not admit. -/
  | badVariable (name problem : String)
  /-- There are no results yet. -/
  | noResults (expression : String)
  /-- The path leads nowhere. -/
  | badPath (expression : String) (error : Path.Error)
  /-- The path leads to a node that has not ended. -/
  | notExecuted (expression : String) (status : Status)
  /-- The path leads to a node that has ended without success. -/
  | notSucceeded (expression : String) (status : Status)
  /-- The source of a loop is not a list. -/
  | notAList (typeName : String)

namespace BindingCause

/-- The wording of a cause. -/
def message : BindingCause → String
  | unknownVariable name => s!"Unknown variable {Text.quoted name}"
  | badVariable _ problem => problem
  | noResults expression =>
    s!"Path {Text.quoted expression} cannot be resolved: nothing has executed yet"
  | badPath _ error => error.message
  | notExecuted expression status =>
    s!"Path {Text.quoted expression} refers to a node that has not executed yet " ++
      s!"(status {status.name})"
  | notSucceeded expression status =>
    s!"Path {Text.quoted expression} refers to a node that did not succeed " ++
      s!"(status {status.name})"
  | notAList typeName => s!"Loop source must be a list, got {typeName}"

/-- The variable that a cause is about. -/
def aboutVariable : BindingCause → Option String
  | unknownVariable name => some name
  | badVariable name _ => some name
  | _ => none

/-- The path that a cause is about. -/
def aboutPath : BindingCause → Option String
  | noResults expression => some expression
  | badPath expression _ => some expression
  | notExecuted expression _ => some expression
  | notSucceeded expression _ => some expression
  | _ => none

end BindingCause

/-- An input that could not be bound. -/
structure BindingError where
  /-- The name of the input. -/
  input : Option String
  /-- Why it could not be bound. -/
  cause : BindingCause

namespace BindingError

/-- The wording of the error. -/
def message (e : BindingError) : String :=
  e.cause.message

/-- The details of a failed binding: what is known of input, variable and path, after what is
given. -/
def detailsOf (given : Fields Value) (input variable_ path : Option String) : Fields Value :=
  let add (fields : Fields Value) (name : String) (content : Option String) :=
    match content with
    | some s => Fields.set fields name (.string s)
    | none => fields
  add (add (add given "input" input) "variable" variable_) "path" path

/-- The failure that a node records. -/
def toFailure (e : BindingError) : Failure :=
  ⟨.binding, e.message, detailsOf [] e.input e.cause.aboutVariable e.cause.aboutPath⟩

end BindingError

/-! ## Other failures -/

namespace Failure

/-- An agent reported an error, perhaps with a payload. -/
def executor (message : String) (payload : Value) : Failure :=
  ⟨.executor, message, if payload.isNull then [] else [("payload", payload)]⟩

/-- An agent raised an exception of another class. -/
def foreign (className message : String) : Failure :=
  ⟨.executor, if message.isEmpty then className else message, [("exception", .string className)]⟩

/-- An agent did not answer in time. -/
def timeout (agent : String) (seconds : Number) : Failure :=
  ⟨.timeout,
    s!"Agent {Text.quoted agent} did not finish within {String.ofList seconds.general}s",
    [("timeout_seconds", .number seconds)]⟩

/-- No case of a branch matched a value. -/
def noBranchMatched (value : Value) : Failure :=
  ⟨.noBranchMatched, s!"No branch matched condition value {value.display}", [("value", value)]⟩

/-- The message of a node that the end of the run stopped. -/
def runCancelled : String := "Run cancelled"

/-- The message of a node that the end of its race stopped. -/
def raceLost : String := "Another race candidate succeeded first"

end Failure
end Workflow
