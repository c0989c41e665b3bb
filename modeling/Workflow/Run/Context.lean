import Workflow.Run.Live
import Workflow.Variables.Evaluate

/-!
# What a node sees

A node sees the inputs of the containers around it, the item and index of every loop that it runs
in, and whether a race around it has been won. `Live.contextAt` collects this on the way from the
root to the node.
-/

namespace Workflow

/-- What a node sees of the nodes around it. -/
structure Context where
  /-- The inputs of containers and the names of loops, inner ones in place of outer ones. -/
  scope : Fields Value := []
  /-- The paths of loops with the index of the instance that runs. -/
  instances : Fields Int := []
  /-- A race has been won, so that nothing more may start. -/
  halted : Bool := false
  deriving Inhabited

/-- The names that a loop gives to its instance at a position. -/
def Work.instanceNames (work : Work) (source : List Value) (position : Nat) : Fields Value :=
  match work with
  | .loop _ itemName indexName _ =>
    let item := [(itemName, source[position]?.getD .null)]
    match indexName with
    | some name => if name.isEmpty then item else Fields.set item name (.nat position)
    | none => item
  | _ => []

namespace Context

/-- What a node with own inputs sees after they are bound. -/
def binding (c : Context) (bound : Fields Value) : Context :=
  { c with scope := Fields.update c.scope bound }

/-- What the child of a node at a position sees. -/
def below (c : Context) (job : Job) (position : Nat) : Context :=
  match job.frame? with
  | none => c
  | some frame =>
    let c := c.binding frame.bound
    { scope := Fields.update c.scope (job.node.work.instanceNames frame.source position)
      instances :=
        match job.node.kind with
        | .loop => Fields.set c.instances job.entry.path position
        | _ => c.instances
      halted := c.halted || frame.winner.isSome }

end Context

namespace Live

/-- What the node at an address sees, if the root sees `c`. -/
def contextFrom (c : Context) : Live → Address → Context
  | _, [] => c
  | mk job kids, i :: address =>
    match kids[i]? with
    | some kid => contextFrom (c.below job i) kid address
    | none => c

/-- What the node at an address sees. -/
def contextAt (live : Live) (address : Address) : Context :=
  contextFrom {} live address

end Live
end Workflow
