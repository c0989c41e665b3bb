import Workflow.Run.Setup
import Workflow.Run.State

/-!
# The start and the end of nodes

`State.enter` starts a node: a step takes over what is recorded of it or calls its agent, a sequence
and a branch start one child, and parallel nodes, loops and races start as many as may run at once.

`State.finish` and `State.finishRace` end a node whose children have ended: it is stopped, fails or
succeeds as they did.
-/

namespace Workflow.State

/-- What bindings of the node at an address are evaluated in, given what the node sees. -/
def surroundings (s : State) (setup : Setup) (c : Context) : Surroundings where
  results := some s.root.toResult
  vars := setup.vars
  scope := c.scope
  instances := c.instances

/-- The node at an address has come to its end. -/
def reported (s : State) (a : Address) : State :=
  if a.isEmpty then s else s.next (.report a)

/-! ## The end of containers -/

/-- Fails a node because of its failed children. -/
def failFromKids (s : State) (a : Address) (kids : List Live) : State :=
  let failed := kids.filter fun kid => kid.status = .failed
  match failed with
  | [] => s.breakOff .noFailedChild
  | first :: _ =>
    let reason := (first.entry.error.map Failure.message).getD "failed"
    let label := first.entry.label.getD "None"
    s.fail a
      ⟨.childFailed, s!"{first.entry.path} ({label}) failed: {reason}",
        [("failed", .strings (failed.map fun kid => kid.entry.path))]⟩

/-- Ends a node whose children, as far as they were to run, have ended: it is stopped if they were,
fails if one failed, and else succeeds with the output. -/
def finish (s : State) (a : Address) (kids : List Live) (output : Value) : State :=
  let statuses := kids.map Live.status
  let unfinished := statuses.any fun status => status ≠ .succeeded ∧ status ≠ .failed
  if statuses.contains .cancelled || (s.cancelled && statuses.contains .pending) then s.stop a
  else if (s.root.contextAt a).halted && unfinished && !statuses.contains .failed then s.stop a
  else if statuses.contains .failed then s.failFromKids a kids
  else s.succeed a output ""

/-- The list of the outputs of nodes. -/
def outputs (kids : List Live) : Value :=
  .array (kids.map fun kid => kid.entry.output)

/-- Ends a race whose candidates have ended. -/
def finishRace (s : State) (a : Address) (frame : Frame) (kids : List Live) : State :=
  match frame.winner.bind fun i => kids[i]? with
  | some winner => s.succeed a winner.entry.output s!"won by {winner.entry.path}"
  | none =>
    if s.cancelled || (s.root.contextAt a).halted then s.stop a
    else if kids.isEmpty then s.succeed a .null ""
    else s.failFromKids a kids

/-- All children of the node at an address have come to their ends. -/
def join (s : State) (a : Address) : State :=
  match s.root.at? a with
  | none => s.breakOff (.noNode a)
  | some (.mk job kids) =>
    let s := match job.node.work with
      | .race _ => s.finishRace a (job.frame?.getD {}) kids
      | _ => s.finish a kids (outputs kids)
    s.reported a

/-! ## The start of nodes -/

/-- Starts a step: what an earlier run has recorded is taken over, else the agent is called. -/
def beginStep (s : State) (setup : Setup) (a : Address) (job : Job) (agent : String)
    (own : Option Binary64) (c : Context) : State :=
  match setup.recorded? job.entry with
  | some earlier =>
    ((s.modifyEntry a fun e => { e with inputs := earlier.inputs }).succeed a earlier.output
      "reused from previous run").reported a
  | none =>
    match bindInputs (s.surroundings setup c) job.node.header.inputs with
    | .error e => (s.fail a e.toFailure).reported a
    | .ok inputs =>
      let call : Call := { agent, timeout := setup.timeoutOf own }
      ((s.modifyEntry a fun e => { e with inputs }).setStage a (.calling call)).later (.proceed a)

/-- Lets the children of a node start, as many as may run at once. A node without children ends
right away. -/
def openSlots (s : State) (setup : Setup) (a : Address) (frame : Frame) (work : Work)
    (count : Nat) : State :=
  let begun := min (setup.slots work count) count
  let s := s.setStage a (.hosting { frame with begun, left := count })
  if count = 0 then s.join a
  else { s with agenda := s.agenda ++ (List.range begun).map fun i => .enter (a ++ [i]) }

/-- Starts a sequence with its first child. -/
def beginSequence (s : State) (a : Address) (frame : Frame) (kids : List Live) : State :=
  match kids with
  | [] => (s.finish a [] (outputs [])).reported a
  | _ => (s.setStage a (.hosting { frame with begun := 1 })).next (.enter (a ++ [0]))

/-- Starts a branch with the child that its condition selects. -/
def beginBranch (s : State) (setup : Setup) (a : Address) (c : Context) (condition : Binding)
    (cases : List Value) (kids : List Live) : State :=
  match condition.evaluate (s.surroundings setup c) (some "condition") with
  | .error e => (s.fail a e.toFailure).reported a
  | .ok value =>
    let selected := cases.findIdx fun case_ => matchesCase case_ value
    if selected < kids.length then
      let others := (List.range kids.length).filter fun i => i ≠ selected
      (others.foldl (fun s i => s.settle (a ++ [i]) .skipped) s).next (.enter (a ++ [selected]))
    else (s.fail a (.noBranchMatched value)).reported a

/-- Starts a loop with an instance of its body for every element of its source. -/
def beginLoop (s : State) (setup : Setup) (a : Address) (c : Context) (job : Job)
    (frame : Frame) (source : Binding) : State :=
  match source.evaluate (s.surroundings setup c) (some "source") with
  | .error e => (s.fail a e.toFailure).reported a
  | .ok (.array items) =>
    let instances := Live.instances job.entry.path job.node items.length
    let s := { s with root := s.root.update (fun live => .mk live.job instances) a }
    s.openSlots setup a { frame with source := items } job.node.work items.length
  | .ok other => (s.fail a (BindingError.toFailure ⟨"source", .notAList other.typeName⟩)).reported a

/-- Starts a node that has children. -/
def beginContainer (s : State) (setup : Setup) (a : Address) (job : Job) (kids : List Live)
    (c : Context) : State :=
  match bindInputs (s.surroundings setup c) job.node.header.inputs with
  | .error e => (s.fail a e.toFailure).reported a
  | .ok bound =>
    let frame : Frame := { bound }
    let s := s.setStage a (.hosting frame)
    let c := c.binding bound
    match job.node.work with
    | .sequence => s.beginSequence a frame kids
    | .branch condition cases => s.beginBranch setup a c condition cases kids
    | .loop source .. => s.beginLoop setup a c job frame source
    | work => s.openSlots setup a frame work kids.length

/-- The node at an address starts. Once the run is cancelled it is stopped, and once a race around
it has been won it is left out. -/
def enter (s : State) (setup : Setup) (a : Address) : State :=
  match s.root.at? a with
  | none => s.breakOff (.noNode a)
  | some (.mk job kids) =>
    let c := s.root.contextAt a
    if s.cancelled then (s.leaveOut a .cancelled).reported a
    else if c.halted then (s.leaveOut a .skipped).reported a
    else
      let s := s.move a .running ""
      match job.node.work with
      | .step agent timeout => s.beginStep setup a job agent timeout c
      | _ => s.beginContainer setup a job kids c

end Workflow.State
