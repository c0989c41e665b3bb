import Workflow.Proofs.Live.View
import Workflow.Run.Start

/-!
# How containers open

When a container starts, its inputs, and its condition or source, decide which of its children are
to run, or that it cannot start.

* `State.opening` evaluates them, and `State.openingAt` does so for the node at an address that
  starts.
-/

namespace Workflow

/-- What a container does when it starts. -/
inductive Opening where
  /-- It cannot start. -/
  | refused (failure : Failure)
  /-- All its children are to run. -/
  | all
  /-- The child at a position is to run. -/
  | chosen (position : Nat)
  /-- An instance of its body is to run for every element. -/
  | items (elements : List Value)
  deriving Inhabited

namespace State

/-- How a branch with a number of children opens. -/
def branchOpening (s : State) (setup : Setup) (c : Context) (condition : Binding)
    (cases : List Value) (count : Nat) : Opening :=
  match condition.evaluate (s.surroundings setup c) (some "condition") with
  | .error e => .refused e.toFailure
  | .ok value =>
    let selected := cases.findIdx fun case_ => matchesCase case_ value
    if selected < count then .chosen selected else .refused (.noBranchMatched value)

/-- How a loop opens. -/
def loopOpening (s : State) (setup : Setup) (c : Context) (source : Binding) : Opening :=
  match source.evaluate (s.surroundings setup c) (some "source") with
  | .error e => .refused e.toFailure
  | .ok (.array elements) => .items elements
  | .ok other => .refused (BindingError.toFailure ⟨"source", .notAList other.typeName⟩)

/-- How a node with a number of children opens if it sees what the context says. -/
def opening (s : State) (setup : Setup) (c : Context) (node : Node) (count : Nat) : Opening :=
  match bindInputs (s.surroundings setup c) node.header.inputs with
  | .error e => .refused e.toFailure
  | .ok bound =>
    match node.work with
    | .branch condition cases => s.branchOpening setup (c.binding bound) condition cases count
    | .loop source .. => s.loopOpening setup (c.binding bound) source
    | _ => .all

/-- How the node at an address opens if it starts now. -/
def openingAt (s : State) (setup : Setup) (a : Address) : Opening :=
  match s.root.at? a with
  | none => .all
  | some (.mk job kids) =>
    (s.move a .running "").opening setup (s.root.contextAt a) job.node kids.length

end State

/-! ## What bindings see -/

/-- The result as it stands does not tell what nodes wait for. -/
theorem Live.toResult_modify {f : Job → Job} (hnode : ∀ job, (f job).node = job.node)
    (hentry : ∀ job, (f job).entry = job.entry) : (a : Address) → ∀ live : Live,
    (live.modify f a).toResult = live.toResult
  | [] => by
    rintro ⟨job, kids⟩
    rw [modify, update]
    · rw [onJob, toResult, toResult, hnode, hentry]
  | i :: a => by
    rintro ⟨job, kids⟩
    have hkids : toResults (kids.modify i fun kid => kid.update (onJob f) a) = toResults kids := by
      induction kids generalizing i with
      | nil => simp
      | cons kid kids ih =>
        cases i with
        | zero =>
          rw [List.modify_zero_cons, toResults, toResults]
          exact congrArg (· :: toResults kids) (toResult_modify hnode hentry a kid)
        | succ i => rw [List.modify_succ_cons, toResults, toResults, ih]
    rw [modify, update, toResult, toResult, hkids]

namespace State

section Stage

variable (s : State) (setup : Setup) (a : Address) (stage : Stage) (c : Context)

theorem surroundings_setStage :
    (s.setStage a stage).surroundings setup c = s.surroundings setup c := by
  rw [surroundings, surroundings]
  have hsame := Live.toResult_modify (f := fun job => { job with stage }) (fun _ => rfl)
    (fun _ => rfl) a s.root
  congr 2

theorem branchOpening_setStage (condition : Binding) (cases : List Value) (count : Nat) :
    (s.setStage a stage).branchOpening setup c condition cases count =
      s.branchOpening setup c condition cases count := by
  rw [branchOpening, branchOpening, surroundings_setStage]

theorem loopOpening_setStage (source : Binding) :
    (s.setStage a stage).loopOpening setup c source = s.loopOpening setup c source := by
  rw [loopOpening, loopOpening, surroundings_setStage]

end Stage

/-- How a node opens depends on the nodes only. -/
theorem opening_congr {s t : State} (h : t.root = s.root) (setup : Setup) (c : Context)
    (node : Node) (count : Nat) :
    t.opening setup c node count = s.opening setup c node count := by
  simp only [opening, branchOpening, loopOpening, surroundings, h]

end State
end Workflow
