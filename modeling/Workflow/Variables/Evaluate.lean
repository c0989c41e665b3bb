import Workflow.Node.Basic
import Workflow.Path.Localize
import Workflow.Result.Resolve
import Workflow.Variables.Template

/-!
# Values of bindings

`Binding.evaluate` finds the value of a binding from what is known at some point of a run: the
results so far, the run's variables, the names in scope and the loop instances that are running.
A path gives a value only if it leads to a node that succeeded or to an input of a step.

`bindInputs` evaluates the inputs of a node in the order in which they are declared; the first that
has no value is the error.
-/

namespace Workflow

/-- What bindings are evaluated in. -/
structure Surroundings where
  /-- The results so far, if anything has executed. -/
  results : Option Result := none
  /-- The variables of the run. -/
  vars : Variables := {}
  /-- The names of loops and containers around, with their values. -/
  scope : Fields Value := []
  /-- The paths of the loops around, with the index of the running instance. -/
  instances : Fields Int := []
  deriving Inhabited

/-- The value that a node has for others: its output once it has succeeded. -/
def Result.available (r : Result) (expression : String) : Except BindingCause Value :=
  match r.status with
  | .pending => .error (.notExecuted expression .pending)
  | .running => .error (.notExecuted expression .running)
  | .succeeded => .ok r.entry.output
  | status => .error (.notSucceeded expression status)

/-- The value at a path. -/
def Surroundings.valueAt (s : Surroundings) (expression : String) : Except BindingCause Value :=
  match s.results with
  | none => .error (.noResults expression)
  | some results =>
    match Path.localize expression s.instances with
    | .error e => .error (.badPath expression e)
    | .ok path =>
      match results.resolve path with
      | .error e => .error (.badPath expression e)
      | .ok (.value v) => .ok v
      | .ok (.node r) => r.available expression

/-- The value of a binding. -/
def Binding.evaluate (s : Surroundings) (input : Option String) :
    Binding → Except BindingError Value
  | .literal value => .ok value
  | .path expression =>
    match s.valueAt expression with
    | .ok value => .ok value
    | .error cause => .error ⟨input, cause⟩
  | .variable name => Template.lookup name s.vars s.scope input
  | .template text => (Template.render text s.vars s.scope input).map .string

/-- The values of declared inputs. -/
def bindInputs (s : Surroundings) : Fields Binding → Except BindingError (Fields Value)
  | [] => .ok []
  | (name, binding) :: rest =>
    match binding.evaluate s (some name) with
    | .error e => .error e
    | .ok value =>
      match bindInputs s rest with
      | .error e => .error e
      | .ok values => .ok ((name, value) :: values)

end Workflow
