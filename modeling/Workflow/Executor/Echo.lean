import Workflow.Executor.Basic

/-!
# The echo executor

Dry runs call no model: an agent gives back what it was given. A call with a single input answers
with that input's value, any other call with all inputs as an object.
-/

namespace Workflow.Echo

/-- What an agent gives back. -/
def answer : Fields Value → Value
  | [(_, value)] => value
  | inputs => .object inputs

/-- The executor of dry runs. -/
def executor : Executor where
  name := "EchoAgentExecutor"
  call _ _ inputs := .immediate (.ok (answer inputs))

/-- The log's words on a call. -/
def note (agent : String) (inputs : Fields Value) : String :=
  s!"Echoing {inputs.length} inputs for agent: {agent}"

end Workflow.Echo
