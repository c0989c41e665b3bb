import Workflow.Failure

/-!
# Executors

An executor performs the calls of agents. To the workflow a call is opaque: it waits, may ask for
the end of the whole run, and at last answers with a value or a failure, or never answers.

* `Behaviour` is what one call does over time.
* `Executor` says what each call of each agent does.
-/

namespace Workflow

/-- What a call does before it ends. -/
inductive Act where
  /-- Waits for a number of microseconds. -/
  | pause (time : Int)
  /-- Asks for the end of the run. -/
  | cancelRun
  deriving DecidableEq, Inhabited

/-- How a call ends. -/
inductive Ending where
  /-- With an answer. -/
  | answer (outcome : Except Failure Value)
  /-- Not at all. -/
  | never

instance : Inhabited Ending := ⟨.never⟩

/-- What a call does over time. -/
structure Behaviour where
  /-- What it does before it ends, in order. -/
  acts : List Act := []
  /-- How it ends. -/
  ending : Ending
  deriving Inhabited

namespace Behaviour

/-- The call that answers at once. -/
def immediate (outcome : Except Failure Value) : Behaviour :=
  ⟨[], .answer outcome⟩

/-- The behaviour with one more act in front. -/
def after (act : Act) (behaviour : Behaviour) : Behaviour :=
  { behaviour with acts := act :: behaviour.acts }

end Behaviour

/-- What performs the calls of agents. -/
structure Executor where
  /-- The name of the executor's class. -/
  name : String
  /-- What the call of an agent with the given inputs does, if the agent was called `earlier` times
  before in the same run. -/
  call : (agent : String) → (earlier : Nat) → (inputs : Fields Value) → Behaviour

instance : Inhabited Executor := ⟨"", fun _ _ _ => default⟩

end Workflow
