import Workflow.Node.Basic

/-!
# Labels

The label of a step is the chain of the steps that it lies under, itself at the end, joined by a
separator. Other nodes are labelled with the chain that they lie under; where there is none, with
their own name or kind.

A step in the sense of the chain is an ancestor that calls an agent; since steps have no children,
a chain is as long as one step.
-/

namespace Workflow

/-- The separator of labels unless another is set. -/
def defaultSeparator : String := " > "

/-- The first text unless it is absent or empty, else the second. -/
def orElseText (first : Option String) (second : String) : String :=
  match first with
  | some s => if s.isEmpty then second else s
  | none => second

namespace Node

/-- The chain below a node. -/
def lineageBelow (lineage : List String) (header : Header) : Work → List String
  | .step agent _ => lineage ++ [orElseText header.name agent]
  | _ => lineage

/-- The label of a node, given the chain below it. -/
def labelFor (separator : String) (lineage : List String) (header : Header) (work : Work) :
    String :=
  if lineage.isEmpty then orElseText header.name work.kind.name
  else separator.intercalate lineage

mutual

/-- Labels a tree that lies under a chain of steps. -/
def labelUnder (separator : String) (lineage : List String) : Node → Node
  | mk header work children =>
    let below := lineageBelow lineage header work
    mk { header with label := some (labelFor separator below header work) } work
      (labelListUnder separator below children)

/-- Labels several trees that lie under a chain of steps. -/
def labelListUnder (separator : String) (lineage : List String) : List Node → List Node
  | [] => []
  | node :: nodes => labelUnder separator lineage node :: labelListUnder separator lineage nodes

end

/-- The tree with a label on every node. -/
def deriveLabels (tree : Node) (separator : String) : Node :=
  labelUnder separator [] tree

end Node
end Workflow
