import Mathlib.Logic.Relation
import Workflow.Proofs.Run.Opening
import Workflow.Proofs.Run.View

/-!
# The changes that a run is made of

Every step of a run is a chain of small changes. While a step is done, a node may be *in hand*: it
has been taken from the agenda, or has just started or come to its end, and is given back when its
children, its call or the node above it go on.

* `State.Change` lists the changes, each with what holds when it is made.
* `State.Reached` says that a state, with a node in hand or none, comes about by changes from the
  start of a run. Whatever every change keeps holds of all reached states.

All changes of a step serve one purpose, `Doing`.
-/

namespace Workflow

/-- The children of nodes of the kind run at once. -/
def Kind.isGroup : Kind → Bool
  | .parallel => true
  | .race => true
  | .loop => true
  | _ => false

/-- The number of children that a node has. -/
def Job.arity (job : Job) : Nat :=
  match job.node.work with
  | .loop .. => ((job.frame?.map Frame.source).getD []).length
  | _ => job.node.children.length

/-- The candidate that has won the race that the node is. -/
def Job.winner (job : Job) : Option Nat :=
  job.frame?.bind Frame.winner

/-- What a node with children knows that its children see: the values of its own inputs, and the
elements of a loop's source. -/
def Frame.notes (frame : Frame) : Fields Value × List Value :=
  (frame.bound, frame.source)

/-- The node that a task is about. -/
def Task.address : Task → Address
  | .enter a => a
  | .proceed a => a
  | .wake a => a
  | .report a => a
  | .join a => a

/-- The task is to begin or to go on with a call. -/
def Task.isProceed : Task → Bool
  | .proceed _ => true
  | _ => false

/-- What a step of a run does. -/
inductive Doing where
  /-- A node starts. If it is a container, it opens like this. -/
  | start (a : Address) (opening : Opening)
  /-- Calls go on, or time passes. -/
  | call
  /-- Nodes end, and the nodes above them take notice. -/
  | finish

/-- The container at an address has the children that it is to run, and the others are skipped. -/
def Opening.Fits (s : State) (a : Address) (job : Job) : Opening → Prop
  | refused _ => False
  | all => job.node.kind ≠ .branch ∧ job.node.kind ≠ .loop
  | chosen k => job.node.kind = .branch ∧ k < job.arity ∧
    ∀ j, j < job.arity → j ≠ k → s.statusAt (a ++ [j]) = some .skipped
  | items elements => job.node.kind = .loop ∧ job.arity = elements.length

namespace Doing

variable {s : State} {a : Address} {job : Job}

/-- If a container starts, its children fit how it opens. -/
def Fits (doing : Doing) (s : State) (a : Address) (job : Job) : Prop :=
  ∀ b o, doing = .start b o → job.node.kind ≠ .step → o.Fits s a job

theorem fits_finish : finish.Fits s a job := by
  rintro b o ⟨⟩

theorem fits_of_step (doing : Doing) (h : job.node.kind = .step) : doing.Fits s a job :=
  fun _ _ _ hkind => absurd h hkind

theorem fits_all {b : Address} (hbranch : job.node.kind ≠ .branch)
    (hloop : job.node.kind ≠ .loop) : (start b .all).Fits s a job := by
  rintro c o ⟨⟩ _
  exact ⟨hbranch, hloop⟩

end Doing

namespace State

/-- What the next step of a run does. -/
def doing (s : State) (setup : Setup) : Doing :=
  match s.agenda with
  | .enter a :: _ => .start a (s.openingAt setup a)
  | .wake _ :: _ => .finish
  | .report _ :: _ => .finish
  | .join _ :: _ => .finish
  | _ => .call

/-! ## Why nodes end as they do -/

/-- A node with the children may succeed with the output and the message. A step that an earlier
run has recorded takes over what is recorded. -/
def Earned (setup : Setup) (job : Job) (kids : List Live) (output : Value) (message : String) :
    Prop :=
  match job.node.work with
  | .step .. => ∀ earlier, setup.recorded? job.entry = some earlier →
      job.entry.inputs = earlier.inputs ∧ output = earlier.output
  | .branch .. => ∃ (i : Nat) (kid : Live), kids[i]? = some kid ∧ kid.status = .succeeded ∧
      output = kid.entry.output ∧
      ∀ (j : Nat) (other : Live), j ≠ i → kids[j]? = some other → other.status = .skipped
  | .race _ => (∃ (i : Nat) (kid : Live), job.winner = some i ∧ kids[i]? = some kid ∧
      kid.status = .succeeded ∧ output = kid.entry.output ∧ message = s!"won by {kid.entry.path}") ∨
      (kids = [] ∧ output = .null)
  | _ => (∀ kid ∈ kids, Live.status kid = .succeeded) ∧ output = outputs kids

/-- A call may come to the failure. -/
def Attributed (setup : Setup) (failure : Failure) : Prop :=
  (∃ agent earlier inputs,
    (setup.executor.call agent earlier inputs).ending = .answer (.error failure)) ∨
  ∃ agent seconds, failure = timeoutFailure agent seconds

/-- The failure is about the start of a container, none of whose children has started. -/
def Rejected (job : Job) (kids : List Live) (failure : Failure) : Prop :=
  (failure.kind = .binding ∨
    (job.node.kind = .branch ∧ ∃ value, failure = .noBranchMatched value)) ∧
  ∀ kid ∈ kids, Live.status kid = .pending

/-- The failure of a node because of its failed children, the first of them being `first`. -/
def childFailure (first : Live) (failed : List Live) : Failure :=
  let reason := (first.entry.error.map Failure.message).getD "failed"
  let label := first.entry.label.getD "None"
  ⟨.childFailed, s!"{first.entry.path} ({label}) failed: {reason}",
    [("failed", .strings (failed.map fun kid => kid.entry.path))]⟩

/-- The failure is that of the failed children of a container whose children have ended. -/
structure Blamed (job : Job) (kids : List Live) (failure : Failure) : Prop where
  /-- The failure names all failed children. -/
  failure_eq : ∃ first rest, (kids.filter fun kid => kid.status = .failed) = first :: rest ∧
    failure = childFailure first (first :: rest)
  /-- The children of a node that runs several have ended. -/
  group : job.node.kind.isGroup = true → ∀ kid ∈ kids, (Live.status kid).isTerminal
  /-- A sequence stops at the child that failed. -/
  sequence : job.node.kind = .sequence → ∃ k : Nat,
    (∀ (j : Nat) (kid : Live), j < k → kids[j]? = some kid → kid.status = .succeeded) ∧
      ∀ (j : Nat) (kid : Live), k < j → kids[j]? = some kid → kid.status = .pending
  /-- A race fails if all candidates do. -/
  race : job.node.kind = .race → job.winner = none ∧ ∀ kid ∈ kids, Live.status kid = .failed

/-- A node with the children may fail with the failure. -/
inductive Failing (setup : Setup) (doing : Doing) (s : State) (a : Address) (job : Job)
    (kids : List Live) (failure : Failure) : Prop
  /-- The inputs of a step could not be bound. -/
  | unbound : job.node.kind = .step → setup.recorded? job.entry = none →
      failure.kind = .binding → Failing setup doing s a job kids failure
  /-- The call of a step has failed. -/
  | called : job.node.kind = .step → setup.recorded? job.entry = none →
      Attributed setup failure → Failing setup doing s a job kids failure
  /-- A container could not start. -/
  | rejected : job.node.kind ≠ .step → doing = .start a (.refused failure) →
      Rejected job kids failure → Failing setup doing s a job kids failure
  /-- Children of a container have failed. -/
  | blamed : job.node.kind ≠ .step → doing.Fits s a job → Blamed job kids failure →
      Failing setup doing s a job kids failure

/-- A node with the children may be stopped. -/
structure Stopped (setup : Setup) (s : State) (a : Address) (job : Job) (kids : List Live) :
    Prop where
  /-- The run was cancelled, or a race around the node has been won. -/
  cause : s.cancelled = true ∨ s.Halted a
  /-- A step that an earlier run has recorded is not stopped. -/
  step : job.node.kind = .step → setup.recorded? job.entry = none
  /-- A container that is no race is not stopped once its children have succeeded, and not because
  of a race if a child has failed. -/
  container : job.node.kind ≠ .step → job.node.kind ≠ .race →
    (∃ kid ∈ kids, Live.status kid ≠ .succeeded) ∧
      ((∃ kid ∈ kids, Live.status kid = .cancelled) ∨ s.cancelled = true ∨
        ∀ kid ∈ kids, Live.status kid ≠ .failed)
  /-- A branch is not stopped once its chosen child has succeeded. -/
  branch : job.node.kind = .branch → ∀ kid ∈ kids, Live.status kid ≠ .succeeded
  /-- A race that has been won is not stopped. -/
  race : job.node.kind = .race → job.winner = none ∧ kids ≠ [] ∧
    ∀ kid ∈ kids, Live.status kid ≠ .succeeded

/-- A pending node below the node in hand may be left without a start. -/
inductive Omitted (s : State) (a : Address) : Address → Status → Prop
  /-- The run was cancelled before the node in hand could start. -/
  | cancelled : s.cancelled = true → Omitted s a a .cancelled
  /-- A race was won before the node in hand could start. -/
  | lost : s.cancelled = false → s.Halted a → Omitted s a a .skipped
  /-- The node in hand has failed. -/
  | failed {b : Address} : b ≠ a → s.statusAt a = some .failed → Omitted s a b .skipped
  /-- The node in hand was stopped or left out. -/
  | stopped {b : Address} {status : Status} : b ≠ a → s.statusAt a = some status →
      status = .cancelled ∨ status = .skipped →
      Omitted s a b (if s.cancelled then .cancelled else .skipped)
  /-- The node in hand is a branch whose condition selects another child. -/
  | notChosen {job : Job} {i : Nat} {c : Address} : s.jobAt a = some job →
      job.status = .running → job.node.kind = .branch → Omitted s a (a ++ i :: c) .skipped

/-! ## Changes -/

/-- The state after a node that runs several children has counted that the child at a position has
ended. The child that waits first takes the slot. -/
def counted (s : State) (rest : List Task) (a : Address) (job : Job) (frame : Frame) (i : Nat)
    (kid : Live) : State :=
  let t := ({ s with agenda := rest } : State).setStage a (.hosting (nextFrame job frame i kid))
  if frame.begun < job.arity then t.later (.enter (a ++ [frame.begun])) else t

/-- A change of a run in which the first node is in hand before and the second one after. -/
inductive Change (setup : Setup) (doing : Doing) :
    State → Option Address → State → Option Address → Prop
  /-- The node that is to start is taken from the agenda. -/
  | takeEnter {s : State} {a : Address} {o : Opening} {rest : List Task} :
      s.agenda = .enter a :: rest → doing = .start a o →
      Change setup doing s none { s with agenda := rest } (some a)
  /-- The node in hand starts. -/
  | begin {s : State} {a : Address} {o : Opening} : s.statusAt a = some .pending →
      s.cancelled = false → ¬ s.Halted a → doing = .start a o →
      Change setup doing s (some a) (s.move a .running "") (some a)
  /-- A pending node is left without a start; what lies above it is left first. -/
  | leave {s : State} {a b : Address} {target : Status} : a <+: b →
      s.statusAt b = some .pending → Omitted s a b target →
      (∀ p i, b = p ++ [i] → b ≠ a → s.statusAt p ≠ some .pending) →
      Change setup doing s (some a) (s.move b target "") (some a)
  /-- The step in hand is given its inputs. -/
  | bindStep {s : State} {a : Address} {job : Job} (inputs : Fields Value) :
      s.jobAt a = some job → job.status = .running → job.node.kind = .step →
      (∀ earlier, setup.recorded? job.entry = some earlier → inputs = earlier.inputs) →
      (∃ o, doing = .start a o) →
      Change setup doing s (some a) (s.modifyEntry a fun e => { e with inputs }) (some a)
  /-- The node in hand succeeds. -/
  | succeed {s : State} {a : Address} {job : Job} {kids : List Live} {output : Value}
      {message : String} : s.root.at? a = some (.mk job kids) → job.status = .running →
      doing.Fits s a job → Earned setup job kids output message →
      Change setup doing s (some a) (s.succeed a output message) (some a)
  /-- The node in hand fails. -/
  | fail {s : State} {a : Address} {job : Job} {kids : List Live} {failure : Failure} :
      s.root.at? a = some (.mk job kids) → job.status = .running →
      Failing setup doing s a job kids failure →
      Change setup doing s (some a)
        ((s.modifyEntry a fun e => { e with error := some failure }).move a .failed "") (some a)
  /-- The node in hand is stopped. -/
  | stop {s : State} {a : Address} {job : Job} {kids : List Live} :
      s.root.at? a = some (.mk job kids) → job.status = .running →
      doing.Fits s a job → Stopped setup s a job kids →
      Change setup doing s (some a)
        ((s.modifyEntry a fun e =>
          { e with error := some ⟨.cancelled, s.stopMessage, []⟩ }).move a .cancelled "") (some a)
  /-- The node in hand has ended, and the node above it is to take notice. -/
  | release {s : State} {a : Address} {status : Status} : s.statusAt a = some status →
      status.isTerminal → (∀ b, a <+: b → s.statusAt b ≠ some .pending) →
      Change setup doing s (some a) (s.reported a) none
  /-- The container in hand notes what it knows about its children. -/
  | host {s : State} {a : Address} {job : Job} (frame : Frame) : s.jobAt a = some job →
      job.status = .running → job.node.kind ≠ .step → frame.winner = job.winner →
      ({ job with stage := .hosting frame } : Job).arity = job.arity →
      (∃ o, doing = .start a o) ∨ (∃ old, job.frame? = some old ∧ frame.notes = old.notes) →
      Change setup doing s (some a) (s.setStage a (.hosting frame)) (some a)
  /-- The loop in hand gets an instance for every element of its source. -/
  | expand {s : State} {a : Address} {job : Job} (frame : Frame) : s.jobAt a = some job →
      job.status = .running → job.node.kind = .loop → job.arity = 0 → job.winner = none →
      frame.winner = none → doing = .start a (.items frame.source) →
      Change setup doing s (some a)
        (({ s with root := s.root.update (fun live => .mk live.job
          (Live.instances job.entry.path job.node frame.source.length)) a }).setStage a
            (.hosting frame)) (some a)
  /-- The step in hand is going to call its agent. -/
  | callOut {s : State} {a : Address} {job : Job} (agent : String) (own : Option Binary64) :
      s.jobAt a = some job → job.status = .running → job.node.kind = .step →
      job.stage = .idle → setup.recorded? job.entry = none → s.cancelled = false →
      job.node.work = .step agent own → (∃ o, doing = .start a o) →
      Change setup doing s (some a)
        ((s.setStage a (.calling { agent, timeout := setup.timeoutOf own })).later (.proceed a))
        none
  /-- The sequence in hand lets its next child start. -/
  | enterNext {s : State} {a : Address} {job : Job} {frame : Frame} {k : Nat} :
      s.jobAt a = some job → job.status = .running → job.node.kind = .sequence →
      doing.Fits s a job → job.frame? = some frame → frame.begun = k + 1 → k < job.arity →
      (∀ j, j < k → s.statusAt (a ++ [j]) = some .succeeded) →
      (∀ j, k ≤ j → j < job.arity → s.statusAt (a ++ [j]) = some .pending) →
      Change setup doing s (some a) (s.next (.enter (a ++ [k]))) none
  /-- The branch in hand lets the child start that its condition selects. -/
  | enterChosen {s : State} {a : Address} {job : Job} {frame : Frame} {k : Nat} :
      s.jobAt a = some job → job.status = .running → job.node.kind = .branch →
      doing = .start a (.chosen k) → job.frame? = some frame → k < job.arity →
      s.statusAt (a ++ [k]) = some .pending →
      (∀ b, a <+: b → b ≠ a → ¬ (a ++ [k]) <+: b → s.statusAt b ≠ some .pending) →
      (∀ j, j < job.arity → j ≠ k → s.statusAt (a ++ [j]) = some .skipped) →
      Change setup doing s (some a) (s.next (.enter (a ++ [k]))) none
  /-- The node in hand lets as many children start as may run at once. -/
  | fill {s : State} {a : Address} {job : Job} {frame : Frame} : s.jobAt a = some job →
      job.status = .running → job.node.kind.isGroup = true → doing.Fits s a job →
      job.frame? = some frame →
      frame.begun = min (setup.slots job.node.work job.arity) job.arity →
      frame.left = job.arity → 0 < job.arity →
      (∀ j, j < job.arity → s.statusAt (a ++ [j]) = some .pending) →
      Change setup doing s (some a)
        { s with agenda := s.agenda ++ (List.range frame.begun).map fun i => .enter (a ++ [i]) }
        none
  /-- All children of the node in hand have come to their ends. -/
  | gather {s : State} {a : Address} {job : Job} {frame : Frame} : s.jobAt a = some job →
      job.status = .running → job.node.kind.isGroup = true → doing.Fits s a job →
      job.frame? = some frame →
      frame.begun = job.arity → frame.left = 0 → 0 < job.arity →
      (∀ j, j < job.arity → ∃ status, s.statusAt (a ++ [j]) = some status ∧ status.isTerminal) →
      Change setup doing s (some a) (s.later (.join a)) none
  /-- The child of a sequence or a branch has come to its end, and its parent is taken up. -/
  | takeReport {s : State} {a : Address} {i : Nat} {job : Job} {rest : List Task} :
      s.agenda = .report (a ++ [i]) :: rest → s.jobAt a = some job →
      job.node.kind = .sequence ∨ job.node.kind = .branch → doing = .finish →
      Change setup doing s none { s with agenda := rest } (some a)
  /-- A child of a node that runs several has come to its end, and the next one may start. -/
  | count {s : State} {a : Address} {i : Nat} {job : Job} {frame : Frame} {kid : Live}
      {rest : List Task} : s.agenda = .report (a ++ [i]) :: rest → s.jobAt a = some job →
      job.node.kind.isGroup = true → job.frame? = some frame →
      s.root.at? (a ++ [i]) = some kid → doing = .finish →
      Change setup doing s none (s.counted rest a job frame i kid)
        (if frame.left = 1 then some a else none)
  /-- The node whose children have come to their ends is taken from the agenda. -/
  | takeJoin {s : State} {a : Address} {rest : List Task} : s.agenda = .join a :: rest →
      doing = .finish → Change setup doing s none { s with agenda := rest } (some a)
  /-- The step whose call has ended or has to stop is taken from the agenda. -/
  | takeWake {s : State} {a : Address} {call : Call} {rest : List Task} :
      s.agenda = .wake a :: rest → s.callAt a = some call → doing = .finish →
      Change setup doing s none (({ s with agenda := rest }).setStage a .idle) (some a)
  /-- Nothing is left to do for a call. -/
  | dropProceed {s : State} {a : Address} {rest : List Task} : s.agenda = .proceed a :: rest →
      (∀ call, s.callAt a = some call → call.outcome.isSome ∨
        (call.asked = true ∧ call.acts = [] ∧ call.ending = .never)) → doing = .call →
      Change setup doing s none { s with agenda := rest } none
  /-- The executor is asked. -/
  | ask {s : State} {a : Address} {call : Call} (inputs : Fields Value) : s.callAt a = some call →
      call.asked = false → call.outcome = none → .proceed a ∈ s.agenda → doing = .call →
      Change setup doing s none (s.ask setup a inputs call) none
  /-- A call goes on. -/
  | goOn {s : State} {a : Address} {call : Call} (acts : List Act) (wakeAt : Option Int)
      (agenda : List Task) : s.callAt a = some call → call.outcome = none →
      agenda.filter (fun task => !task.isProceed) =
        s.agenda.filter (fun task => !task.isProceed) →
      (∀ b, b ≠ a → (.proceed b ∈ agenda ↔ .proceed b ∈ s.agenda)) →
      (.proceed a ∈ agenda ∨ wakeAt.isSome) → doing = .call →
      Change setup doing s none
        (({ s with agenda } : State).setStage a (.calling { call with acts, wakeAt })) none
  /-- A call has ended. -/
  | answer {s : State} {a : Address} {call : Call} (outcome : Except Failure Value)
      (wakeAt deadline : Option Int) (agenda : List Task) :
      s.callAt a = some call → call.outcome = none →
      (call.asked = true ∧ call.ending = .answer outcome) ∨
        (∃ seconds, outcome = .error (timeoutFailure call.agent seconds)) →
      agenda = s.agenda ∨ s.agenda = .proceed a :: agenda → doing = .call →
      Change setup doing s none
        ((({ s with agenda } : State).setStage a
          (.calling { call with outcome := some outcome, wakeAt, deadline })).tell a) none
  /-- A call is told to stop. -/
  | tell {s : State} {hand : Option Address} {a : Address} : s.cancelled = true ∨ s.Halted a →
      Change setup doing s hand (s.tell a) hand
  /-- The end of the run is asked for. -/
  | cancelRun {s : State} : doing = .call → Change setup doing s none s.cancelRun none
  /-- Time passes. -/
  | tick {s : State} {now : Int} : s.now ≤ now → doing = .call →
      Change setup doing s none { s with now := now } none

/-- One change, the node in hand being a part of the state. -/
def ChangeOf (setup : Setup) (doing : Doing) (x y : State × Option Address) : Prop :=
  Change setup doing x.1 x.2 y.1 y.2

/-- A chain of changes. -/
def Changes (setup : Setup) (doing : Doing) (s : State) (hand : Option Address)
    (t : State) (after : Option Address) : Prop :=
  Relation.ReflTransGen (ChangeOf setup doing) (s, hand) (t, after)

/-- A state, with a node in hand or none, that a run of the tree can be in. -/
inductive Reached (setup : Setup) (tree : Node) : State → Option Address → Prop
  /-- A run starts without a node in hand. -/
  | start : Reached setup tree (start setup tree) none
  /-- A run goes on by a change. -/
  | change {s t : State} {hand after : Option Address} {doing : Doing} :
      Reached setup tree s hand → Change setup doing s hand t after →
      Reached setup tree t after

theorem Changes.refl {setup : Setup} {doing : Doing} (s : State)
    (hand : Option Address) : Changes setup doing s hand s hand :=
  Relation.ReflTransGen.refl

theorem Changes.single {setup : Setup} {doing : Doing} {s t : State}
    {hand after : Option Address} (h : Change setup doing s hand t after) :
    Changes setup doing s hand t after :=
  Relation.ReflTransGen.single h

theorem Changes.trans {setup : Setup} {doing : Doing} {s t u : State}
    {hand between after : Option Address} (h : Changes setup doing s hand t between)
    (h' : Changes setup doing t between u after) : Changes setup doing s hand u after :=
  Relation.ReflTransGen.trans h h'

/-- What every change of a chain keeps, the chain keeps. -/
theorem Changes.induction {setup : Setup} {doing : Doing} {s t : State}
    {hand after : Option Address} {P : State → Option Address → Prop}
    (h : Changes setup doing s hand t after) (hs : P s hand)
    (hchange : ∀ u v between next, P u between → Change setup doing u between v next →
      P v next) : P t after := by
  have key : ∀ x y, Relation.ReflTransGen (ChangeOf setup doing) x y → P x.1 x.2 →
      P y.1 y.2 := by
    intro x y hxy hx
    induction hxy with
    | refl => exact hx
    | tail _ hlast ih => exact hchange _ _ _ _ ih hlast
  exact key _ _ h hs

theorem Reached.changes {setup : Setup} {tree : Node} {s t : State}
    {hand after : Option Address} {doing : Doing} (h : Reached setup tree s hand)
    (hchanges : Changes setup doing s hand t after) : Reached setup tree t after :=
  hchanges.induction h fun _ _ _ _ hu hchange => .change hu hchange

/-- What every change of a run keeps, a chain of changes of a run keeps. -/
theorem Reached.changes_induction {setup : Setup} {tree : Node} {s t : State}
    {hand after : Option Address} {doing : Doing} {P : State → Option Address → Prop}
    (h : Reached setup tree s hand) (hchanges : Changes setup doing s hand t after) (hs : P s hand)
    (hchange : ∀ u v between next, Reached setup tree u between →
      Change setup doing u between v next → P u between → P v next) : P t after :=
  (hchanges.induction (P := fun u between => Reached setup tree u between ∧ P u between) ⟨h, hs⟩
    fun u v between next ⟨hu, hbefore⟩ hlast =>
      ⟨hu.change hlast, hchange u v between next hu hlast hbefore⟩).2

end State
end Workflow
