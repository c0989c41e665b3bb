import Workflow.Executor.Echo
import Workflow.Log.Record
import Workflow.Run.Execute

/-!
# What a run writes

While a run goes on it logs what happens and shows the changes of statuses to those who watch.
`State.notices` reads both off the history of a run, in order.
-/

namespace Workflow

/-- Something that is written while a run goes on. -/
inductive Notice where
  /-- A record for the log. -/
  | log (record : LogRecord)
  /-- A change of a node's status. -/
  | event (event : Event)
  deriving Inhabited

namespace Notice

/-- A number of microseconds as seconds. -/
def seconds (time : Int) : Number :=
  .float (.ofFraction (time < 0) time.natAbs 1000000)

/-- The logger of runs. -/
def runLogger : String := "agent_flow_engine.flows.engine"

/-- The logger of the echo executor. -/
def echoLogger : String := "agent_flow_engine.executors.echo"

/-- A record of a run. -/
def record (level : LogLevel) (message : String) (time : Int) (extra : Fields Value) : Notice :=
  .log { logger := runLogger, level, message, time := seconds time, extra }

/-- What is written when a node changes its status. -/
def ofEvent (e : Event) : List Notice :=
  (if e.status = .failed then
    [record .warning "Node failed" e.time
      [("node_path", .string e.path), ("node_label", .ofString? e.label),
        ("error_kind", .ofString? (e.errorKind.map FailureKind.name)),
        ("error", .string e.message)]]
  else []) ++
  [record .debug "Node transition" e.time
    [("node_path", .string e.path), ("from", .string e.previous.name),
      ("to", .string e.status.name)],
   .event e]

/-- What is written when an agent is called. -/
def ofInvocation (executor : Executor) (c : Invocation) : List Notice :=
  if executor.name = Echo.executor.name then
    [.log
      { logger := echoLogger, level := .debug, message := Echo.note c.agent c.inputs,
        time := seconds c.time }]
  else []

/-- What is written when something happens. -/
def ofOccurrence (executor : Executor) : Occurrence → List Notice
  | .moved e => ofEvent e
  | .called c => ofInvocation executor c

end Notice

/-- What a run has written. -/
def State.notices (s : State) (setup : Setup) : List Notice :=
  let e := s.root.entry
  let root : Value := .ofString? e.id
  [.record .info "Flow run started" setup.startAt
    [("flow_root", root), ("flow_label", .ofString? e.label)]] ++
  s.history.reverse.flatMap (Notice.ofOccurrence setup.executor) ++
  [.record .info "Flow run finished" s.now
    [("flow_root", root), ("run_status", .string s.runStatus.name),
      ("failed_nodes", .strings s.root.toResult.failures)]]

end Workflow
