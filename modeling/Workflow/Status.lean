/-!
# Statuses

A node is pending until it starts to run, is skipped or is cancelled; a running node succeeds,
fails or is cancelled. `Status.canBecome` lists the moves, and a status from which there is none is
terminal.
-/

namespace Workflow

/-- How far a node has come. -/
inductive Status where
  /-- The node has not started. -/
  | pending
  /-- The node has started and not ended. -/
  | running
  /-- The node has ended with an output. -/
  | succeeded
  /-- The node has ended with an error. -/
  | failed
  /-- The node is left out. -/
  | skipped
  /-- The node was stopped, or the run was before the node could start. -/
  | cancelled
  deriving DecidableEq, Inhabited

namespace Status

/-- The name of a status. -/
def name : Status → String
  | pending => "pending"
  | running => "running"
  | succeeded => "succeeded"
  | failed => "failed"
  | skipped => "skipped"
  | cancelled => "cancelled"

/-- All statuses. -/
def all : List Status := [pending, running, succeeded, failed, skipped, cancelled]

/-- The status that a name stands for. -/
def ofName? (name : String) : Option Status :=
  all.find? fun status => status.name == name

/-- The statuses that a status can become. -/
def next : Status → List Status
  | pending => [running, skipped, cancelled]
  | running => [succeeded, failed, cancelled]
  | _ => []

/-- A status can become another one. -/
def canBecome (status target : Status) : Bool :=
  status.next.contains target

/-- A status that cannot become any other. -/
def isTerminal (status : Status) : Bool :=
  status.next.isEmpty

end Status

/-- How a run ended. -/
inductive RunStatus where
  /-- The root succeeded. -/
  | succeeded
  /-- The root did not succeed. -/
  | failed
  /-- The run was cancelled and a node was stopped by that. -/
  | cancelled
  deriving DecidableEq, Inhabited

namespace RunStatus

/-- The name of a run's status. -/
def name : RunStatus → String
  | succeeded => "succeeded"
  | failed => "failed"
  | cancelled => "cancelled"

/-- All statuses of runs. -/
def all : List RunStatus := [succeeded, failed, cancelled]

/-- The status that a name stands for. -/
def ofName? (name : String) : Option RunStatus :=
  all.find? fun status => status.name == name

end RunStatus

/-! ## Moves -/

/-- A move that the table of statuses does not have. -/
structure IllegalMove where
  /-- The status before. -/
  before : Status
  /-- The status that was asked for. -/
  after : Status
  deriving DecidableEq

/-- The wording of an illegal move. -/
def IllegalMove.message (e : IllegalMove) : String :=
  s!"Illegal transition: {e.before.name} -> {e.after.name}"

/-- How far a node has come and since when. -/
structure Progress where
  /-- The status of the node. -/
  status : Status := .pending
  /-- When the node started to run, in microseconds. -/
  started : Option Int := none
  /-- When the node came to its end, in microseconds. -/
  finished : Option Int := none
  deriving DecidableEq, Inhabited

/-- Moves a node to another status: the start and the end of its run are noted. -/
def Progress.move (p : Progress) (target : Status) (now : Int) : Except IllegalMove Progress :=
  if p.status.canBecome target then
    .ok <|
      if target = .running then { p with status := target, started := some now }
      else if target.isTerminal then { p with status := target, finished := some now }
      else { p with status := target }
  else .error ⟨p.status, target⟩

end Workflow
