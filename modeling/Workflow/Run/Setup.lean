import Workflow.Executor.Basic
import Workflow.Node.Basic
import Workflow.Result.Basic
import Workflow.Variables.Basic

/-!
# What a run is given

`Setup` holds what a run is given beside the workflow. From it and from a node's definition follow
the number of children that run at once, the time that a call may take, and whether a step is taken
over from an earlier run.
-/

namespace Workflow

/-- What a run is given beside the workflow. -/
structure Setup where
  /-- What performs the calls of agents. -/
  executor : Executor
  /-- The variables. -/
  vars : Variables := {}
  /-- The number of children of parallel nodes and loops that run at once, if the node does not
  say. -/
  limit : Nat := 4
  /-- The number of seconds after which a call has failed, if the step does not say. -/
  timeout : Option Number := none
  /-- The result of an earlier run whose succeeded steps are not run again. -/
  previous : Option Result := none
  /-- When the run starts, in microseconds. -/
  startAt : Int := 0
  /-- When the run is cancelled; nothing starts if that is not after the start. -/
  cancelAt : Option Int := none
  deriving Inhabited

/-- What an earlier run has recorded of a step, if the step succeeded there: it has the same path
and the same identifier. -/
def Setup.recorded? (setup : Setup) (e : Entry) : Option Entry :=
  match setup.previous.bind fun previous => previous.recorded? e.path with
  | some earlier =>
    if earlier.id = e.id ∧ earlier.status = .succeeded then some earlier else none
  | none => none

/-- The number of seconds after which a step's call has failed. -/
def Setup.timeoutOf (setup : Setup) (own : Option Binary64) : Option Number :=
  match own with
  | some seconds => if (Number.float seconds).isZero then setup.timeout else some (.float seconds)
  | none => setup.timeout

/-- The number of children of a node that may run at once. -/
def Setup.slots (setup : Setup) (work : Work) (count : Nat) : Nat :=
  match work with
  | .race limit => limit.getD (max count 1)
  | .parallel limit => limit.getD setup.limit
  | .loop _ _ _ limit => limit.getD setup.limit
  | _ => 1

/-- The microseconds of a number of seconds, if it is finite: to the nearest, a half upwards. -/
def microseconds? (seconds : Number) : Option Int :=
  seconds.fraction?.map fun f => (2000000 * f.num + f.den) / (2 * f.den)

/-- The details of a timeout count a timeout of zero as the whole number. -/
def timeoutFailure (agent : String) (seconds : Number) : Failure :=
  .timeout agent (if seconds.isZero then .int 0 else seconds)

/-- A condition matches a case: a truth value matches what counts as it, and any other value what
is equal to it and no truth value. -/
def matchesCase (case_ value : Value) : Bool :=
  match case_ with
  | .bool b => value.truthy == b
  | _ =>
    match value with
    | .bool _ => false
    | _ => case_.same value

end Workflow
