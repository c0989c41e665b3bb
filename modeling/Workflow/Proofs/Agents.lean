import Workflow.Executor.Chat
import Workflow.Proofs.Fields

/-!
# The agents of a chat

A chat finds the agents of a flow by their names, and so does the flow. Of several agents with one name
the flow has the first in mind and the chat the last; a name that only one agent has is found by both.

* `Flow.lastAgent?` is the last agent of a name, and `Flow.lastAgent?_eq_agent?` says that it is the first
  if no other agent has the name.
* `Executor.Serves` says that an executor puts the questions of an agent to the service.
* `Model.serves_of_executor?` says which agent the calls of a name are served with.
-/

namespace Workflow

/-! ## The first and the last agent -/

namespace Flow

variable {flow : Flow} {name : String}

/-- The last agent of a name. -/
def lastAgent? (flow : Flow) (name : String) : Option Agent :=
  flow.agents.reverse.find? fun agent => agent.name == name

/-- There is a last agent of a name if there is a first. -/
theorem lastAgent?_eq_none_iff : flow.lastAgent? name = none ↔ flow.agent? name = none := by
  rw [lastAgent?, agent?, List.find?_eq_none, List.find?_eq_none]
  simp only [List.mem_reverse]

/-- If all agents of the name are one, the first is the last. -/
theorem lastAgent?_eq_agent? (h : ∀ a ∈ flow.agents, ∀ b ∈ flow.agents,
    a.name = name → b.name = name → a = b) : flow.lastAgent? name = flow.agent? name := by
  cases hlast : flow.lastAgent? name with
  | none => rw [lastAgent?_eq_none_iff.1 hlast]
  | some last =>
    cases hfirst : flow.agent? name with
    | none =>
      rw [lastAgent?_eq_none_iff.2 hfirst] at hlast
      cases hlast
    | some first =>
      rw [h last (List.mem_reverse.1 (List.mem_of_find?_eq_some hlast)) first
        (List.mem_of_find?_eq_some hfirst) (by simpa using List.find?_some hlast)
        (by simpa using List.find?_some hfirst)]

end Flow

/-! ## What calls are served with -/

namespace Chat

variable {m : Model}

/-- The question of a call of an agent. -/
def question (m : Model) (agent : Agent) (inputs : Fields Value) : ChatRequest :=
  ⟨if agent.model.isEmpty then m.name else agent.model, messages agent inputs, m.temperature⟩

theorem request?_of (m : Model) (flow : Flow) (name : String) (inputs : Fields Value) :
    (Chat.of m flow.agents).request? name inputs =
      match flow.lastAgent? name with
      | none => .error (unknownAgent name)
      | some agent => .ok (question m agent inputs) := by
  have hget : Fields.get? (Chat.of m flow.agents).agents name = flow.lastAgent? name := by
    rw [Chat.of, Fields.get?_ofList, ← List.map_reverse, Fields.get?_map]
    exact congrFun Option.map_id _
  rw [request?, hget]
  cases flow.lastAgent? name <;> rfl

/-- Agents are asked the same if they have the same model and the same instructions. -/
theorem question_eq_iff {a b : Agent} (inputs : Fields Value) :
    question m a inputs = question m b inputs ↔
      (if a.model.isEmpty then m.name else a.model) = (if b.model.isEmpty then m.name else b.model) ∧
        a.system = b.system := by
  have hmessages : messages a inputs = messages b inputs ↔ a.system = b.system := by
    rw [messages, messages, List.append_left_inj]
    by_cases ha : a.system = ""
    · by_cases hb : b.system = ""
      · simp [ha, hb]
      · simp [ha, hb, Ne.symm hb]
    · by_cases hb : b.system = "" <;> simp [ha, hb]
  rw [question, question, ChatRequest.mk.injEq, hmessages]
  simp

/-- Failures of the service are not those of agents that are not known. -/
theorem outcome_ne_unknownAgent (reply : ChatReply) (name : String) :
    outcome reply ≠ .error (unknownAgent name) := by
  cases reply with
  | content text => exact nofun
  | failed className message => exact nofun

end Chat

/-- The executor puts the questions of an agent to the service when a name is called. -/
def Executor.Serves (executor : Executor) (m : Model) (service : ChatRequest → ChatReply)
    (name : String) (agent : Agent) : Prop :=
  ∀ earlier inputs, executor.call name earlier inputs =
    .immediate (Chat.outcome (service (Chat.question m agent inputs)))

namespace Model

variable {m : Model} {flow : Flow} {service : ChatRequest → ChatReply} {executor : Executor}

theorem call_of_executor? (hprovider : m.provider = .openai)
    (h : m.executor? flow.agents service = some executor) (name : String) (earlier : Nat)
    (inputs : Fields Value) : executor.call name earlier inputs =
      .immediate (match flow.lastAgent? name with
        | none => .error (Chat.unknownAgent name)
        | some agent => Chat.outcome (service (Chat.question m agent inputs))) := by
  unfold executor? at h
  rw [hprovider] at h
  simp only at h
  split at h
  · cases h
    simp only [Chat.executor, Chat.request?_of]
    cases flow.lastAgent? name <;> rfl
  · cases h

/-- Calls of a name are served with the last agent of the name, and are refused if the flow has no agent
of the name. The last agent is the one that the flow has in mind if no other agent has its name; if not,
the questions are the same if and only if both have the same model and the same instructions. -/
theorem serves_of_executor? (hprovider : m.provider = .openai)
    (h : m.executor? flow.agents service = some executor) (name : String) :
    (∀ agent, flow.lastAgent? name = some agent → executor.Serves m service name agent) ∧
    (∀ earlier inputs, executor.call name earlier inputs =
        .immediate (.error (Chat.unknownAgent name)) ↔ flow.agent? name = none) ∧
    ((∀ a ∈ flow.agents, ∀ b ∈ flow.agents, a.name = name → b.name = name → a = b) →
      flow.lastAgent? name = flow.agent? name) ∧
    ∀ first last, flow.agent? name = some first → flow.lastAgent? name = some last → ∀ inputs,
      Chat.question m last inputs = Chat.question m first inputs ↔
        (if last.model.isEmpty then m.name else last.model) =
            (if first.model.isEmpty then m.name else first.model) ∧
          last.system = first.system := by
  refine ⟨fun agent hagent earlier inputs => ?_, fun earlier inputs => ?_, Flow.lastAgent?_eq_agent?,
    fun first last _ _ inputs => Chat.question_eq_iff inputs⟩
  · rw [call_of_executor? hprovider h, hagent]
  · rw [call_of_executor? hprovider h, ← Flow.lastAgent?_eq_none_iff]
    cases hlast : flow.lastAgent? name with
    | none => simp
    | some agent =>
      refine iff_of_false (fun hcall => ?_) nofun
      rw [Behaviour.immediate, Behaviour.immediate, Behaviour.mk.injEq, Ending.answer.injEq] at hcall
      exact Chat.outcome_ne_unknownAgent _ _ hcall.2

/-- Of two agents with one name the chat asks the second, where the flow has the first in mind. -/
theorem serves_of_executor?_twice :
    let first : Agent := { name := "a", model := "m1", system := "s1" }
    let last : Agent := { name := "a", model := "m2", system := "s2" }
    let flow : Flow := { code := "c", tree := .mk {} .sequence [], agents := [first, last] }
    let m : Model := { provider := .openai, key := some "k" }
    let service : ChatRequest → ChatReply := fun request => .content request.model
    ∃ executor, m.provider = .openai ∧ m.executor? flow.agents service = some executor ∧
      flow.agent? "a" = some first ∧ executor.Serves m service "a" last ∧
      ¬ executor.Serves m service "a" first := by
  intro first last flow m service
  obtain ⟨executor, hexecutor⟩ : ∃ executor, m.executor? flow.agents service = some executor :=
    ⟨_, rfl⟩
  have hlast := (serves_of_executor? rfl hexecutor "a").1 last rfl
  refine ⟨executor, rfl, hexecutor, rfl, hlast, fun hfirst => ?_⟩
  have hcall := (hlast 0 []).symm.trans (hfirst 0 [])
  simp [Behaviour.immediate, Chat.outcome, Chat.question, service, first, last] at hcall

end Model
end Workflow
