import Workflow.Run.Start

/-!
# How a run goes on

`State.step` does the next task of the agenda. When nothing is left to do at an instant, the clock
jumps to the next instant at which a call stops waiting, a call has failed because of its timeout,
or the run is to be cancelled.

What is done without waiting goes to the front of the agenda, what starts beside it to the back, so
that children start in order and a freed slot goes to the next child that waits.
-/

namespace Workflow.State

/-! ## Calls -/

/-- Asks the executor for the call of a node, and sets the call's deadline. -/
def ask (s : State) (setup : Setup) (a : Address) (inputs : Fields Value) (call : Call) : State :=
  let behaviour := setup.executor.call call.agent (s.callsOf call.agent) inputs
  let deadline := (call.timeout.bind microseconds?).map fun time => s.now + max 0 time
  (s.setStage a (.calling { call with
    asked := true, acts := behaviour.acts, ending := behaviour.ending, deadline })).note
    (.called ⟨s.now, call.agent, inputs⟩)

/-- Does the first act of a call, or ends it if there is none. -/
def act (s : State) (a : Address) (call : Call) : State :=
  match call.acts with
  | [] =>
    match call.ending with
    | .answer outcome => (s.setStage a (.calling { call with outcome := some outcome })).tell a
    | .never => s
  | .cancelRun :: acts =>
    ((s.setStage a (.calling { call with acts })).cancelRun).next (.proceed a)
  | .pause time :: acts =>
    if time ≤ 0 then (s.setStage a (.calling { call with acts })).later (.proceed a)
    else s.setStage a (.calling { call with acts, wakeAt := some (s.now + time) })

/-- The call of the node at an address begins or goes on. -/
def proceed (s : State) (setup : Setup) (a : Address) : State :=
  match s.root.at? a with
  | none => s.breakOff (.noNode a)
  | some live =>
    match live.job.call? with
    | none => s
    | some call =>
      if call.outcome.isSome then s
      else if call.asked then s.act a call
      else (s.ask setup a live.entry.inputs call).next (.proceed a)

/-- The call of the node at an address has ended, or has to stop: a call that ended on its own
counts, else the node is stopped. -/
def wake (s : State) (a : Address) : State :=
  match s.callAt a with
  | none => s
  | some call =>
    let s := s.setStage a .idle
    let s := match call.outcome with
      | some (.ok output) => s.succeed a output ""
      | some (.error failure) => s.fail a failure
      | none => s.stop a
    s.reported a

/-! ## Children -/

/-- What a node knows once a child at a position has come to its end: the next child that waits
takes the slot that is free, and the first candidate of a race that succeeds wins it. -/
def nextFrame (job : Job) (frame : Frame) (position : Nat) (kid : Live) : Frame :=
  { frame with
    begun := if frame.begun < job.count frame then frame.begun + 1 else frame.begun
    left := frame.left - 1
    winner :=
      if job.node.kind = .race ∧ kid.status = .succeeded then frame.winner.or (some position)
      else frame.winner }

/-- A child of a node that runs several has come to its end. Once a race is won, the calls of the
other candidates have to stop. -/
def reportOne (s : State) (a : Address) (job : Job) (frame : Frame) (position : Nat)
    (kid : Live) : State :=
  let after := nextFrame job frame position kid
  let s := s.setStage a (.hosting after)
  let s := if frame.begun < job.count frame then s.later (.enter (a ++ [frame.begun])) else s
  let s := if frame.winner.isNone ∧ after.winner.isSome then s.tellCalls a else s
  if frame.left = 1 then s.later (.join a) else s

/-- A child of a sequence has come to its end: the next one starts if it succeeded. -/
def reportNext (s : State) (a : Address) (job : Job) (frame : Frame) (kids : List Live)
    (kid : Live) : State :=
  if kid.status = .succeeded ∧ frame.begun < job.count frame then
    (s.setStage a (.hosting { frame with begun := frame.begun + 1 })).next
      (.enter (a ++ [frame.begun]))
  else (s.finish a kids (outputs kids)).reported a

/-- The child at a position of the node at an address has come to its end. -/
def reportKid (s : State) (a : Address) (position : Nat) : State :=
  match s.root.at? a with
  | none => s.breakOff (.noNode a)
  | some (.mk job kids) =>
    match kids[position]?, job.frame? with
    | some kid, some frame =>
      match job.node.work with
      | .sequence => s.reportNext a job frame kids kid
      | .branch .. => (s.finish a [kid] kid.entry.output).reported a
      | _ => s.reportOne a job frame position kid
    | _, _ => s.breakOff (.noNode (a ++ [position]))

/-- The node at an address has come to its end, and the node above it takes notice. -/
def report (s : State) (a : Address) : State :=
  match a.getLast? with
  | some position => s.reportKid a.dropLast position
  | none => s

/-! ## The clock -/

/-- The instants at which a call goes on by itself. -/
def callTimes (call : Call) : List Int :=
  if call.outcome.isSome then [] else call.deadline.toList ++ call.wakeAt.toList

/-- The instants at which something happens by itself. -/
def times (s : State) (setup : Setup) : List Int :=
  (s.root.walk []).flatMap (fun node => (node.2.call?.map callTimes).getD []) ++
    (if s.cancelled then [] else setup.cancelAt.toList)

/-- What the call of a node does at an instant. A timeout comes before what the call does at the
same instant. -/
def fire (s : State) (a : Address) : State :=
  match s.callAt a with
  | none => s
  | some call =>
    if call.outcome.isSome then s
    else if call.deadline.any (· ≤ s.now) then
      let failure := timeoutFailure call.agent (call.timeout.getD (.int 0))
      (s.setStage a (.calling
        { call with wakeAt := none, deadline := none, outcome := some (.error failure) })).tell a
    else if call.wakeAt.any (· ≤ s.now) then
      (s.setStage a (.calling { call with wakeAt := none })).later (.proceed a)
    else s

/-- Lets the clock jump to an instant. -/
def jump (s : State) (setup : Setup) (time : Int) : State :=
  let s := { s with now := max s.now time }
  let s := (s.callsUnder []).foldl fire s
  if setup.cancelAt.any (· ≤ s.now) then s.cancelRun else s

/-! ## Steps -/

/-- Does a task. -/
def perform (s : State) (setup : Setup) : Task → State
  | .enter a => s.enter setup a
  | .proceed a => s.proceed setup a
  | .wake a => s.wake a
  | .report a => s.report a
  | .join a => s.join a

/-- The run goes on by one step; nothing if there is nothing left to do. -/
def step (s : State) (setup : Setup) : Option State :=
  if s.fault.isSome then none
  else
    match s.agenda with
    | task :: agenda => some ({ s with agenda }.perform setup task)
    | [] =>
      if s.root.status.isTerminal then none
      else (s.times setup).min?.map fun time => s.jump setup time

/-- The state of a workflow that has not started. -/
def start (setup : Setup) (tree : Node) : State where
  root := .ofNode Path.root tree
  now := setup.startAt
  cancelled := setup.cancelAt.any (· ≤ setup.startAt)
  agenda := [.enter []]

/-! ## What a step does -/

section Step

variable {s t : State} {setup : Setup} {task : Task} {rest : List Task}

/-- The first task of the agenda is done next. -/
theorem step_of_cons (hfault : s.fault = none) (hagenda : s.agenda = task :: rest) :
    s.step setup = some (({ s with agenda := rest } : State).perform setup task) := by
  simp [step, hfault, hagenda]

/-- The clock jumps to the first instant at which something happens by itself. -/
theorem step_of_nil (hfault : s.fault = none) (hagenda : s.agenda = [])
    (hroot : ¬ s.root.status.isTerminal) :
    s.step setup = (s.times setup).min?.map fun time => s.jump setup time := by
  simp [step, hfault, hagenda, hroot]

/-- A step does the first task of the agenda, or lets time pass if there is none. -/
theorem step_cases (h : s.step setup = some t) :
    (∃ task rest, s.agenda = task :: rest ∧
      t = ({ s with agenda := rest } : State).perform setup task) ∨
    (s.agenda = [] ∧ ¬ s.root.status.isTerminal ∧
      ∃ time, (s.times setup).min? = some time ∧ t = s.jump setup time) := by
  unfold step at h
  split at h
  · cases h
  · split at h
    · rename_i task rest hagenda
      exact .inl ⟨task, rest, hagenda, (Option.some.inj h).symm⟩
    · rename_i hagenda
      split at h
      · cases h
      · rename_i hroot
        obtain ⟨time, htime, rfl⟩ := Option.map_eq_some_iff.1 h
        exact .inr ⟨hagenda, hroot, time, htime, rfl⟩

/-- Only a sound run goes on. -/
theorem fault_of_step (h : s.step setup = some t) : s.fault = none := by
  cases hfault : s.fault with
  | none => rfl
  | some fault => simp [step, hfault] at h

/-- A step does the first task of the agenda if there is one. -/
theorem eq_perform_of_step (h : s.step setup = some t) (hagenda : s.agenda = task :: rest) :
    t = ({ s with agenda := rest } : State).perform setup task := by
  rw [step_of_cons (fault_of_step h) hagenda] at h
  exact (Option.some.inj h).symm

/-- When nothing is left to do at an instant, the clock jumps to the first instant at which
something happens by itself. -/
theorem eq_jump_of_step (h : s.step setup = some t) (hagenda : s.agenda = []) :
    ∃ time, (s.times setup).min? = some time ∧ t = s.jump setup time := by
  rcases step_cases h with ⟨task, rest, hcons, _⟩ | ⟨_, _, hjump⟩
  · rw [hagenda] at hcons
    cases hcons
  · exact hjump

/-- A run that does nothing more has nothing left to do, and it has come to its end, or nothing
happens by itself. -/
theorem step_eq_none_iff (hfault : s.fault = none) : s.step setup = none ↔
    s.agenda = [] ∧ (s.root.status.isTerminal ∨ s.times setup = []) := by
  cases hagenda : s.agenda with
  | cons task rest => simp [step_of_cons hfault hagenda]
  | nil =>
    by_cases hroot : s.root.status.isTerminal
    · simp [step, hfault, hagenda, hroot]
    · simp [step, hfault, hagenda, hroot, List.min?_eq_none_iff]

end Step

end Workflow.State
