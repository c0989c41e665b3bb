import Workflow.Executor.Basic
import Workflow.Unicode.Uppercase

/-!
# Scripted executors

A script gives agents programs to play, so that a workflow can be rehearsed without any model.

* `Instruction` is one line of a program, `perform` plays a program on the inputs of a call.
* `Plan` chooses the program of a call: always the same, by the value of an input, or by the number
  of calls before.
* `Script.executor` plays the plans of a script.

A program that comes to its end without an answer answers with its inputs. Programs may change
their inputs; what the workflow has recorded of them stays.
-/

namespace Workflow

/-- What a program may raise. -/
inductive Raised where
  /-- An exception that says nothing about nodes. -/
  | foreign (className message : String)
  /-- An error of the executor, perhaps with a payload. -/
  | executor (message : String) (payload : Value)
  /-- A failure of the node with details. -/
  | node (message : String) (details : Fields Value)
  /-- A failed binding. -/
  | binding (message : String) (details : Fields Value) (input variable_ path : Option String)
  /-- A condition that no branch matches. -/
  | noBranchMatched (value : Value)
  deriving Inhabited

/-- The failure that a node records of what a program raises. -/
def Raised.toFailure : Raised → Failure
  | foreign className message => .foreign className message
  | executor message payload => .executor message payload
  | node message details => ⟨.executor, message, details⟩
  | binding message details input variable_ path =>
    ⟨.binding, message, BindingError.detailsOf details input variable_ path⟩
  | noBranchMatched value => .noBranchMatched value

/-- One line of a program. -/
inductive Instruction where
  /-- Waits for a number of milliseconds. -/
  | sleep (time : Number)
  /-- Waits without end. -/
  | hang
  /-- Asks for the end of the run and goes on. -/
  | cancel
  /-- Appends a value to the list that is an input. -/
  | append (input : String) (value : Value)
  /-- Gives an input a value. -/
  | set (input : String) (value : Value)
  /-- Answers with a value. -/
  | return (value : Value)
  /-- Answers with the value of an input. -/
  | input (name : String)
  /-- Answers with the text of an input in capitals. -/
  | upper (name : String)
  /-- Ends with an exception. -/
  | raise (raised : Raised)
  deriving Inhabited

namespace Script

/-! ## Programs -/

/-- An input that a program asks for is not there. -/
def missingInput (name : String) : Failure :=
  .foreign "KeyError" (Text.quoted name)

/-- A value has no operation of a name. -/
def missingOperation (value : Value) (operation : String) : Failure :=
  .foreign "AttributeError" s!"'{value.typeName}' object has no attribute '{operation}'"

/-- The list that is an input, with one more item. -/
def appended (inputs : Fields Value) (name : String) (value : Value) :
    Except Failure (Fields Value) :=
  match Fields.get? inputs name with
  | none => .error (missingInput name)
  | some (.array items) => .ok (Fields.set inputs name (.array (items ++ [value])))
  | some other => .error (missingOperation other "append")

/-- The text of an input in capitals. -/
def capitals (inputs : Fields Value) (name : String) : Except Failure Value :=
  match Fields.get? inputs name with
  | none => .error (missingInput name)
  | some (.string s) => .ok (.string (Unicode.upper s))
  | some other => .error (missingOperation other "upper")

/-- The microseconds of a number of milliseconds. -/
def microseconds (time : Number) : Int :=
  match time.fraction? with
  | some f => (2000 * f.num + f.den) / (2 * f.den)
  | none => 0

/-- What a call that plays a program on its inputs does. -/
def perform (inputs : Fields Value) : List Instruction → Behaviour
  | [] => .immediate (.ok (.object inputs))
  | .sleep time :: rest => (perform inputs rest).after (.pause (microseconds time))
  | .hang :: _ => ⟨[], .never⟩
  | .cancel :: rest => (perform inputs rest).after .cancelRun
  | .append name value :: rest =>
    match appended inputs name value with
    | .ok inputs => perform inputs rest
    | .error failure => .immediate (.error failure)
  | .set name value :: rest => perform (Fields.set inputs name value) rest
  | .return value :: _ => .immediate (.ok value)
  | .input name :: _ =>
    match Fields.get? inputs name with
    | some value => .immediate (.ok value)
    | none => .immediate (.error (missingInput name))
  | .upper name :: _ => .immediate (capitals inputs name)
  | .raise raised :: _ => .immediate (.error raised.toFailure)

/-! ## Plans -/

/-- How the program of a call is chosen. -/
inductive Plan where
  /-- Every call plays the same program. -/
  | always (program : List Instruction)
  /-- The value of an input chooses the program. -/
  | byInput (name : String) (cases : Fields (List Instruction)) (other : List Instruction)
  /-- The first call plays the first program and so on; the last one repeats. -/
  | byTurn (programs : List (List Instruction))
  deriving Inhabited

/-- The program of a call with the given inputs after `earlier` others. -/
def Plan.program (plan : Plan) (earlier : Nat) (inputs : Fields Value) : List Instruction :=
  match plan with
  | always program => program
  | byInput name cases other =>
    (Fields.get? cases ((Fields.get? inputs name).getD .null).plain).getD other
  | byTurn programs => (programs[earlier]?.or programs.getLast?).getD []

/-- The executor that plays the plans of a script. Agents without a plan answer with their
inputs. -/
def executor (plans : Fields Plan) : Executor where
  name := "ScriptedExecutor"
  call agent earlier inputs :=
    perform inputs
      (((Fields.get? plans agent).map fun plan => plan.program earlier inputs).getD [])

end Script
end Workflow
