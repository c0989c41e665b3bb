import Workflow.Failure

/-!
# Results

What a run leaves behind: a tree with an entry for every node.

* `Entry` is what is recorded of one node, `Result` the tree.
* `Result.walk` lists a tree, every node before its children, its default and its items.
* `Event` is one change of a node's status, `RunResult` the tree of a run with all its events.
-/

namespace Workflow

/-- What is recorded of one node. -/
structure Entry where
  /-- The path of the node. -/
  path : String
  /-- The identifier of the node. -/
  id : Option String
  /-- The kind of the node. -/
  kind : String
  /-- The label of the node. -/
  label : Option String
  /-- How far the node has come, and since when. -/
  progress : Progress := {}
  /-- The output of a node that succeeded. -/
  output : Value := .null
  /-- The error of a node that failed or was stopped. -/
  error : Option Failure := none
  /-- The inputs that a step was given, in order. -/
  inputs : Fields Value := []
  deriving Inhabited

/-- The status of the node. -/
def Entry.status (e : Entry) : Status :=
  e.progress.status

/-- The entries of a node and of everything below it. -/
inductive Result where
  /-- A node with its children, its default and its loop instances. -/
  | mk (entry : Entry) (children : List Result) (default : Option Result) (items : List Result)
  deriving Inhabited

namespace Result

/-- What is recorded of the root. -/
def entry : Result → Entry
  | mk entry _ _ _ => entry

/-- The children of the root. -/
def children : Result → List Result
  | mk _ children _ _ => children

/-- The default of the root. -/
def default? : Result → Option Result
  | mk _ _ default _ => default

/-- The loop instances of the root. -/
def items : Result → List Result
  | mk _ _ _ items => items

/-- The status of the root. -/
def status (r : Result) : Status :=
  r.entry.status

/-- The root succeeded. -/
def succeeded (r : Result) : Bool :=
  r.status = .succeeded

mutual

/-- The tree and all trees below it, every node before its children, its default and its items. -/
def walk : Result → List Result
  | mk entry children default items =>
    mk entry children default items ::
      (walkList children ++ walkDefault default ++ walkList items)

/-- The trees of a list and all trees below them. -/
def walkList : List Result → List Result
  | [] => []
  | r :: rs => walk r ++ walkList rs

/-- The tree of a default and all trees below it. -/
def walkDefault : Option Result → List Result
  | none => []
  | some r => walk r

end

/-- The paths of the failed nodes in walking order. -/
def failures (r : Result) : List String :=
  (r.walk.filter fun node => node.status = .failed).map fun node => node.entry.path

/-- What is recorded at a path; of several nodes with one path the last counts. -/
def recorded? (r : Result) (path : String) : Option Entry :=
  ((r.walk.map entry).reverse.find? fun entry => entry.path == path)

end Result

/-! ## Runs -/

/-- A change of a node's status. -/
structure Event where
  /-- The path of the node. -/
  path : String
  /-- The identifier of the node. -/
  id : Option String
  /-- The kind of the node. -/
  kind : String
  /-- The label of the node. -/
  label : Option String
  /-- The status before. -/
  previous : Status
  /-- The status after. -/
  status : Status
  /-- When the change happened, in microseconds. -/
  time : Int
  /-- The kind of the node's error. -/
  errorKind : Option FailureKind := none
  /-- A word on the change; the message of the node's error if there is no other. -/
  message : String := ""
  deriving Inhabited

/-- What a run leaves behind. -/
structure RunResult where
  /-- How the run ended. -/
  status : RunStatus
  /-- The entries of all nodes. -/
  tree : Result
  /-- The changes of statuses in the order in which they happened. -/
  trace : List Event := []
  deriving Inhabited

/-- The output of the run. -/
def RunResult.output (r : RunResult) : Value :=
  r.tree.entry.output

end Workflow
