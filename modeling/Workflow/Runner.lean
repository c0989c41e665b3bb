import Workflow.Executor.Chat
import Workflow.Flow.Basic
import Workflow.Log.Loggers
import Workflow.Run.Notice

/-!
# Runners

A runner carries settings and runs flows with them: it prepares the flow, binds its variables,
chooses an executor unless it was given one, and executes the workflow.
-/

namespace Workflow

/-- What runs flows. -/
structure Runner where
  /-- The settings. -/
  settings : Settings
  /-- Which records are logged, and how. -/
  logging : Logging
  /-- The executor of all runs, if they are to share one. -/
  executor : Option Executor := none
  deriving Inhabited

/-- Why a flow is not run. -/
inductive RunnerRefusal where
  /-- The workflow is not run. -/
  | refused (cause : Refusal)
  /-- The chat service has no key. -/
  | noKey
  deriving DecidableEq

/-- The wording of a refusal. -/
def RunnerRefusal.message : RunnerRefusal → String
  | refused cause => cause.message
  | noKey => Model.keyMissing

/-- A flow that is to be run, or has been. -/
structure Attempt (α : Type) where
  /-- What was written. -/
  notices : List Notice
  /-- The source of further identifiers. -/
  ids : IdSource
  /-- What came of it. -/
  result : Except RunnerRefusal α

/-- The circumstances of a run. -/
structure Occasion where
  /-- The result of an earlier run. -/
  previous : Option Result := none
  /-- When the run starts, in microseconds. -/
  time : Int := 0
  /-- When the run is cancelled. -/
  cancelAt : Option Int := none
  /-- The chat service. -/
  service : ChatRequest → ChatReply := fun _ => .content none
  deriving Inhabited

namespace Runner

/-- The logger of runners. -/
def logger : String := "agent_flow_engine.core.runner"

/-- The logger of the choice of an executor. -/
def choiceLogger : String := "agent_flow_engine.executors.factory"

/-- The logger of chat executors. -/
def chatLogger : String := "agent_flow_engine.executors.openai_executor"

/-- A record of a runner. -/
def record (logger : String) (level : LogLevel) (message : String) (time : Int)
    (extra : Fields Value) : Notice :=
  .log { logger, level, message, time := Notice.seconds time, extra }

/-- The runner with the given settings; there is none if the log level is not known. -/
def of (settings : Settings) (executor : Option Executor) : Except UnknownLevel Runner := do
  let level := if settings.debug then LogLevel.debug.name else settings.logLevel
  let logging ← Logging.ofNames level settings.logForm.name
  return { settings, logging, executor }

/-- What a new runner writes. -/
def greeting (r : Runner) (time : Int) : Notice :=
  let name := (r.executor.map Executor.name).getD r.settings.model.provider.name
  record logger .info "Flow runner initialized" time [("executor", .string name)]

/-- The flow with an identifier and a label on every node. -/
def prepare (r : Runner) (flow : Flow) (previous : Option Result) (ids : IdSource) :
    Except DuplicateId (Flow × IdSource) :=
  (flow.tree.prepare r.settings.execution.separator previous ids).map fun (tree, ids) =>
    ({ flow with tree }, ids)

/-- What is written about the variables of a run. -/
def variableNotices (vars : Variables) (time : Int) : List Notice :=
  vars.problems.map fun (name, problem) =>
    record logger .warning problem time [("variable", .string name)]

/-- The executor of a run, and what is written about it. -/
def choose (r : Runner) (flow : Flow) (occasion : Occasion) : List Notice × Option Executor :=
  match r.executor with
  | some executor => ([], some executor)
  | none =>
    let model := r.settings.model
    let chosen := record choiceLogger .info
      s!"Creating agent executor: {model.provider.name}" occasion.time []
    let count := (Chat.of model flow.agents).agents.length
    let ready := record chatLogger .info
      s!"OpenAI executor initialized with {count} agents" occasion.time []
    match model.executor? flow.agents occasion.service with
    | none => ([chosen], none)
    | some executor =>
      (if model.provider = .openai then [chosen, ready] else [chosen], some executor)

/-- What a run of the runner is given beside the workflow. -/
def setup (r : Runner) (executor : Executor) (vars : Variables) (occasion : Occasion) :
    Setup where
  executor := executor
  vars := vars
  limit := r.settings.execution.limit
  timeout := r.settings.execution.timeout.map .float
  previous := occasion.previous
  startAt := occasion.time
  cancelAt := occasion.cancelAt

/-- Runs a flow with the supplied variables. -/
def run (r : Runner) (flow : Flow) (supplied : Fields Value) (occasion : Occasion)
    (ids : IdSource) : Attempt State :=
  match r.prepare flow occasion.previous ids with
  | .error cause => ⟨[], ids, .error (.refused (.duplicateId cause))⟩
  | .ok (flow, ids) =>
    let vars := Variables.bind flow.vars supplied
    let bound := variableNotices vars occasion.time
    match r.choose flow occasion with
    | (chosen, none) => ⟨bound ++ chosen, ids, .error .noKey⟩
    | (chosen, some executor) =>
      let started := record logger .info s!"Running flow: {flow.code}" occasion.time []
      let before := bound ++ chosen ++ [started]
      let setup := r.setup executor vars occasion
      match setup.execute flow.tree r.settings.execution.separator ids with
      | .error cause => ⟨before, ids, .error (.refused cause)⟩
      | .ok (s, ids) => ⟨before ++ s.notices setup, ids, .ok s⟩

end Runner
end Workflow
