import Workflow.Run.Context

/-!
# The state of a run

A run has a live tree, a clock, an agenda of what is to be done at this instant, and a history of
what has happened. This module holds the state and how nodes change their status in it; what is
done next is decided elsewhere.

* `State.move` changes one status and records the event.
* `State.succeed`, `State.fail` and `State.stop` bring a running node to its end; `State.leaveOut`
  and `State.settle` end nodes that have not started.
* `State.tellCalls` and `State.cancelRun` stop calls that are under way.

A move that the table of statuses does not have is a fault, after which the run does nothing more.
-/

namespace Workflow

/-- What is to be done at this instant. -/
inductive Task where
  /-- The node starts, unless the run or a race around it is over. -/
  | enter (address : Address)
  /-- The call of the node begins or goes on. -/
  | proceed (address : Address)
  /-- The call of the node has ended, or has to stop. -/
  | wake (address : Address)
  /-- The node has come to its end, and the node above it takes notice. -/
  | report (address : Address)
  /-- All children of the node have come to their ends. -/
  | join (address : Address)
  deriving DecidableEq, Inhabited

/-- The call of an agent as it was made. -/
structure Invocation where
  /-- When the call was made. -/
  time : Int
  /-- The agent. -/
  agent : String
  /-- The inputs in order. -/
  inputs : Fields Value
  deriving Inhabited

/-- Something that has happened. -/
inductive Occurrence where
  /-- A node has changed its status. -/
  | moved (event : Event)
  /-- An agent was called. -/
  | called (invocation : Invocation)
  deriving Inhabited

/-- The event of an occurrence. -/
def Occurrence.event? : Occurrence → Option Event
  | moved event => some event
  | called _ => none

/-- The call of an occurrence. -/
def Occurrence.invocation? : Occurrence → Option Invocation
  | moved _ => none
  | called invocation => some invocation

/-- Something that cannot happen. -/
inductive Fault where
  /-- A status cannot become another. -/
  | illegalMove (move : IllegalMove)
  /-- No child has failed, but the node is to fail because of one. -/
  | noFailedChild
  /-- There is no node at an address. -/
  | noNode (address : Address)
  deriving DecidableEq

/-- The state of a run. -/
structure State where
  /-- The nodes. -/
  root : Live
  /-- The microseconds since the start. -/
  now : Int := 0
  /-- The end of the run has been asked for. -/
  cancelled : Bool := false
  /-- What is to be done at this instant, in order. -/
  agenda : List Task := []
  /-- What has happened, the latest first. -/
  history : List Occurrence := []
  /-- What went wrong with the run itself. -/
  fault : Option Fault := none
  deriving Inhabited

namespace State

/-! ## Reading and changing nodes -/

/-- Changes the state of the node at an address. -/
def modify (s : State) (a : Address) (f : Job → Job) : State :=
  { s with root := s.root.modify f a }

/-- Changes what is recorded of the node at an address. -/
def modifyEntry (s : State) (a : Address) (f : Entry → Entry) : State :=
  s.modify a fun job => { job with entry := f job.entry }

/-- Gives the node at an address another stage. -/
def setStage (s : State) (a : Address) (stage : Stage) : State :=
  s.modify a fun job => { job with stage }

/-- The call that the node at an address waits for. -/
def callAt (s : State) (a : Address) : Option Call :=
  (s.root.at? a).bind fun live => live.job.call?

/-- Stops the run for something that cannot happen. -/
def breakOff (s : State) (fault : Fault) : State :=
  { s with fault := s.fault.or (some fault) }

/-- Puts a task in front of all others. -/
def next (s : State) (task : Task) : State :=
  { s with agenda := task :: s.agenda }

/-- Puts a task behind all others. -/
def later (s : State) (task : Task) : State :=
  { s with agenda := s.agenda ++ [task] }

/-- Notes what has happened. -/
def note (s : State) (occurrence : Occurrence) : State :=
  { s with history := occurrence :: s.history }

/-- The number of calls of an agent so far. -/
def callsOf (s : State) (agent : String) : Nat :=
  s.history.countP fun occurrence => (occurrence.invocation?.map Invocation.agent) == some agent

/-! ## Moves -/

/-- The event of a node that has moved; without a message of its own it has the message of the
node's error. -/
def eventOf (e : Entry) (previous : Status) (now : Int) (message : String) : Event where
  path := e.path
  id := e.id
  kind := e.kind
  label := e.label
  previous := previous
  status := e.status
  time := now
  errorKind := e.error.map Failure.kind
  message := if message.isEmpty then (e.error.map Failure.message).getD "" else message

/-- Moves the node at an address to another status. -/
def move (s : State) (a : Address) (target : Status) (message : String) : State :=
  match s.root.at? a with
  | none => s.breakOff (.noNode a)
  | some live =>
    match live.entry.progress.move target s.now with
    | .error e => s.breakOff (.illegalMove e)
    | .ok progress =>
      let entry := { live.entry with progress }
      (s.modifyEntry a fun _ => entry).note
        (.moved (eventOf entry live.status s.now message))

/-- The addresses of the pending nodes of the tree at an address, every node before its
children. -/
def pendingUnder (s : State) (a : Address) : List Address :=
  match s.root.at? a with
  | none => []
  | some live =>
    ((live.walk a).filter fun node => node.2.status = .pending).map Prod.fst

/-- Moves all pending nodes of the tree at an address. -/
def settle (s : State) (a : Address) (target : Status) : State :=
  (s.pendingUnder a).foldl (fun s b => s.move b target "") s

/-- Ends the node at an address with an output. -/
def succeed (s : State) (a : Address) (output : Value) (message : String) : State :=
  (s.modifyEntry a fun e => { e with output }).move a .succeeded message

/-- Ends the node at an address with a failure; what is pending below it is left out. -/
def fail (s : State) (a : Address) (failure : Failure) : State :=
  ((s.modifyEntry a fun e => { e with error := some failure }).move a .failed "").settle a .skipped

/-- The message of a node that is stopped. -/
def stopMessage (s : State) : String :=
  if s.cancelled then Failure.runCancelled else Failure.raceLost

/-- Stops the running node at an address, because the run was cancelled or because its race was
lost; what is pending below it is stopped or left out as well. -/
def stop (s : State) (a : Address) : State :=
  ((s.modifyEntry a fun e => { e with error := some ⟨.cancelled, s.stopMessage, []⟩ }).move a
    .cancelled "").settle a (if s.cancelled then .cancelled else .skipped)

/-- Ends the pending node at an address and all nodes below it without starting them. -/
def leaveOut (s : State) (a : Address) (target : Status) : State :=
  (s.move a target "").settle a target

/-! ## Calls under way -/

/-- Tells the node at an address once that its call has ended or has to stop. -/
def tell (s : State) (a : Address) : State :=
  match s.callAt a with
  | some call =>
    if call.told then s else (s.setStage a (.calling { call with told := true })).later (.wake a)
  | none => s

/-- The addresses of the nodes of the tree at an address that wait for a call. -/
def callsUnder (s : State) (a : Address) : List Address :=
  match s.root.at? a with
  | none => []
  | some live => ((live.walk a).filter fun node => node.2.call?.isSome).map Prod.fst

/-- Tells all nodes of the tree at an address that their calls have to stop. -/
def tellCalls (s : State) (a : Address) : State :=
  (s.callsUnder a).foldl tell s

/-- Asks for the end of the run. -/
def cancelRun (s : State) : State :=
  if s.cancelled then s else { s with cancelled := true }.tellCalls []

end State
end Workflow
