import Workflow.Executor.Echo
import Workflow.Flow.Basic
import Workflow.Json.Writer
import Workflow.Settings.Basic

/-!
# Executors that ask a language model

Each call of an agent is one question to a chat service: the agent's instructions, if it has any,
and then its inputs. Agents are found by their names; of two with one name the later counts.

* `Chat.request?` is the question of a call.
* `Chat.executor` asks a service and answers with what it says.
* `Model.executor?` chooses the executor that settings ask for.
-/

namespace Workflow

/-- A question to a chat service. -/
structure ChatRequest where
  /-- The model. -/
  model : String
  /-- The messages, each with the role of its author. -/
  messages : List (String × String)
  /-- The temperature. -/
  temperature : Binary64

/-- What a chat service says. -/
inductive ChatReply where
  /-- An answer, perhaps without a text. -/
  | content (text : Option String)
  /-- An error of the service with its class. -/
  | failed (className message : String)

/-- The agents of a chat with the settings of their model. -/
structure Chat where
  /-- The settings. -/
  model : Model
  /-- The agents by name. -/
  agents : Fields Agent

namespace Chat

/-- The chat of a list of agents. -/
def of (model : Model) (agents : List Agent) : Chat :=
  ⟨model, Fields.ofList (agents.map fun agent => (agent.name, agent))⟩

/-- The inputs of a call as a message: a single text as it is, anything else as JSON. -/
def inputText : Fields Value → String
  | [(_, .string s)] => s
  | inputs => (Value.object inputs).toJson .line

/-- The messages of a call. -/
def messages (agent : Agent) (inputs : Fields Value) : List (String × String) :=
  (if agent.system.isEmpty then [] else [("system", agent.system)]) ++ [("user", inputText inputs)]

/-- The failure of a call of an agent that is not known. -/
def unknownAgent (name : String) : Failure :=
  .executor s!"Unknown agent: {name}" .null

/-- The question of a call. -/
def request? (chat : Chat) (name : String) (inputs : Fields Value) : Except Failure ChatRequest :=
  match Fields.get? chat.agents name with
  | none => .error (unknownAgent name)
  | some agent =>
    .ok ⟨if agent.model.isEmpty then chat.model.name else agent.model, messages agent inputs,
      chat.model.temperature⟩

/-- The outcome of a call that the service has answered. -/
def outcome : ChatReply → Except Failure Value
  | .content text => .ok (.string (text.getD ""))
  | .failed className message =>
    .error (.executor s!"OpenAI request failed: {message}" (.string className))

/-- The executor that asks a service. -/
def executor (chat : Chat) (service : ChatRequest → ChatReply) : Executor where
  name := "OpenAIAgentExecutor"
  call agent _ inputs :=
    .immediate <|
      match chat.request? agent inputs with
      | .ok request => outcome (service request)
      | .error failure => .error failure

end Chat

/-- The settings name a chat service but no key for it. -/
def Model.keyMissing : String := "OpenAI API key is required"

/-- The key of the chat service is given and not empty. -/
def Model.hasKey (m : Model) : Bool :=
  m.key.any fun key => !key.isEmpty

/-- The executor that settings ask for; there is none for a chat service without a key. -/
def Model.executor? (m : Model) (agents : List Agent) (service : ChatRequest → ChatReply) :
    Option Executor :=
  match m.provider with
  | .echo => some Echo.executor
  | .openai => if m.hasKey then some ((Chat.of m agents).executor service) else none

end Workflow
