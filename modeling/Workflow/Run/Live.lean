import Workflow.Executor.Basic
import Workflow.Node.Basic
import Workflow.Result.Basic

/-!
# Live trees

While a workflow runs, every node has an entry that changes and a stage that says what the node
waits for. The live tree is laid out like the result that it becomes.

* `Live.ofNode` is the tree before the run: every node is pending, and loops have no instances yet.
* `Live.toResult` is the result as it stands.
* `Live.at?`, `Live.update` and `Live.walk` reach the nodes of a tree by their addresses.

The address of a node lists the positions of the children that lead to it from the root. The
children of a branch are its cases and then its default, the children of a loop its instances.
-/

namespace Workflow

/-! ## Stages -/

/-- A call of an agent that is under way. -/
structure Call where
  /-- The agent. -/
  agent : String
  /-- The number of seconds after which the call has failed. -/
  timeout : Option Number
  /-- The executor has been asked. -/
  asked : Bool := false
  /-- What the call still does. -/
  acts : List Act := []
  /-- How the call ends after that. -/
  ending : Ending := .never
  /-- When the call stops waiting. -/
  wakeAt : Option Int := none
  /-- When the call has failed. -/
  deadline : Option Int := none
  /-- How the call has ended. -/
  outcome : Option (Except Failure Value) := none
  /-- The node has been told that the call has ended or has to stop. -/
  told : Bool := false
  deriving Inhabited

/-- What a running node with children knows. -/
structure Frame where
  /-- The values of the node's own inputs. -/
  bound : Fields Value := []
  /-- The elements of a loop's source. -/
  source : List Value := []
  /-- The number of children that have been asked to start. -/
  begun : Nat := 0
  /-- The number of children that have not come to their ends. -/
  left : Nat := 0
  /-- The child that has won a race. -/
  winner : Option Nat := none
  deriving Inhabited

/-- What a node waits for. -/
inductive Stage where
  /-- Nothing: it has not started, or it has ended without children. -/
  | idle
  /-- A call of its agent. -/
  | calling (call : Call)
  /-- Its children. -/
  | hosting (frame : Frame)
  deriving Inhabited

/-- The state of one node. -/
structure Job where
  /-- The node. -/
  node : Node
  /-- What is recorded of it. -/
  entry : Entry
  /-- What it waits for. -/
  stage : Stage := .idle
  deriving Inhabited

/-- The status of the node. -/
def Job.status (job : Job) : Status :=
  job.entry.status

/-- The call that the node waits for. -/
def Job.call? (job : Job) : Option Call :=
  match job.stage with
  | .calling call => some call
  | _ => none

/-- What the node knows if it has children to run. -/
def Job.frame? (job : Job) : Option Frame :=
  match job.stage with
  | .hosting frame => some frame
  | _ => none

/-- The number of children that the node may have to run. -/
def Job.count (job : Job) (frame : Frame) : Nat :=
  match job.node.kind with
  | .loop => frame.source.length
  | _ => job.node.children.length

/-- The positions that lead from the root to a node. -/
abbrev Address := List Nat

/-- A tree of nodes with their states. -/
inductive Live where
  /-- A node with its children. -/
  | mk (job : Job) (kids : List Live)
  deriving Inhabited

namespace Live

/-- The state of the root. -/
def job : Live → Job
  | mk job _ => job

/-- The children of the root. -/
def kids : Live → List Live
  | mk _ kids => kids

/-- What is recorded of the root. -/
def entry (live : Live) : Entry :=
  live.job.entry

/-- The status of the root. -/
def status (live : Live) : Status :=
  live.entry.status

/-! ## The tree before the run -/

/-- The segment that leads from a node to one of its children. -/
def kidSegment (work : Work) (position : Nat) : Segment :=
  match work with
  | .branch _ cases =>
    if position < cases.length then ⟨Path.childField, some position⟩
    else ⟨Path.defaultField, none⟩
  | .loop .. => ⟨Path.instanceField, some position⟩
  | _ => ⟨Path.childField, some position⟩

/-- The state of a node that has not started. -/
def pendingJob (path : String) (node : Node) : Job :=
  { node, entry := { path, id := node.id, kind := node.kind.name, label := node.label } }

mutual

/-- The tree of a node that has not started. -/
def ofNode (path : String) : Node → Live
  | .mk header work children =>
    mk (pendingJob path (.mk header work children))
      (match work with
        | .loop .. => []
        | _ => ofNodes path work 0 children)

/-- The trees of children that have not started, the first of them at `position`. -/
def ofNodes (path : String) (work : Work) (position : Nat) : List Node → List Live
  | [] => []
  | node :: nodes =>
    ofNode (Path.child path (kidSegment work position)) node ::
      ofNodes path work (position + 1) nodes

end

/-- The instances of a loop that have not started. -/
def instances (path : String) (node : Node) (count : Nat) : List Live :=
  match node.children with
  | body :: _ =>
    (List.range count).map fun i => ofNode (Path.child path (kidSegment node.work i)) body
  | [] => []

/-! ## The result as it stands -/

mutual

/-- The result as it stands. -/
def toResult : Live → Result
  | mk job kids =>
    match job.node.work with
    | .loop .. => .mk job.entry [] none (toResults kids)
    | .branch _ cases =>
      .mk job.entry ((toResults kids).take cases.length) (toResults kids)[cases.length]? []
    | _ => .mk job.entry (toResults kids) none []

/-- The results of several trees. -/
def toResults : List Live → List Result
  | [] => []
  | kid :: kids => toResult kid :: toResults kids

end

/-! ## Addresses -/

/-- The tree at an address. -/
def at? : Live → Address → Option Live
  | live, [] => some live
  | mk _ kids, i :: address =>
    match kids[i]? with
    | some kid => kid.at? address
    | none => none

/-- Changes the tree at an address. -/
def update (f : Live → Live) : Live → Address → Live
  | live, [] => f live
  | mk job kids, i :: address => mk job (kids.modify i fun kid => update f kid address)

/-- Changes the state of the root. -/
def onJob (f : Job → Job) : Live → Live
  | mk job kids => mk (f job) kids

/-- Changes the state of the node at an address. -/
def modify (f : Job → Job) (live : Live) (address : Address) : Live :=
  live.update (onJob f) address

mutual

/-- All nodes of the tree at an address, every node before its children. -/
def walk (address : Address) : Live → List (Address × Job)
  | mk job kids => (address, job) :: walkKids address 0 kids

/-- All nodes of the children of the tree at an address, the first child being at `position`. -/
def walkKids (address : Address) (position : Nat) : List Live → List (Address × Job)
  | [] => []
  | kid :: kids => walk (address ++ [position]) kid ++ walkKids address (position + 1) kids

end

end Live
end Workflow
