import Workflow.Value.Basic

/-!
# Workflow definitions

A workflow is a tree of nodes. A step calls one agent; the other kinds of nodes say how their
children run.

* `Binding` says where an input's value comes from.
* `Work` is what a node does, `Header` what all kinds of nodes carry, and `Node` the tree.
* `Node.WellFormed` says that every node has as many children as its work needs.

The children of a branch are the nodes of its cases, in order, and after them its default if it has
one. The only child of a loop is its body.
-/

namespace Workflow

/-! ## Bindings -/

/-- Where the value of an input comes from. -/
inductive Binding where
  /-- The value stands in the definition. -/
  | literal (value : Value)
  /-- The value is the output of the node at a path, or a step's input. -/
  | path (expression : String)
  /-- The value is that of a variable. -/
  | variable (name : String)
  /-- The value is a text in which variables are put in place of placeholders. -/
  | template (text : String)
  deriving Inhabited

namespace Binding

/-- The names of the kinds of bindings. -/
def kinds : List String := ["literal", "path", "var", "template"]

/-- The name of a binding's kind. -/
def kind : Binding → String
  | .literal _ => "literal"
  | .path _ => "path"
  | .variable _ => "var"
  | .template _ => "template"

end Binding

/-! ## Nodes -/

/-- What all kinds of nodes carry. -/
structure Header where
  /-- A stable identifier, given once. -/
  id : Option String := none
  /-- A name that replaces the agent's in labels. -/
  name : Option String := none
  /-- The label, derived from the steps above. -/
  label : Option String := none
  /-- The declared inputs in order. -/
  inputs : Fields Binding := []
  /-- Fields that editors attach; they are carried along untouched. -/
  extra : Fields Value := []
  deriving Inhabited

/-- What a node does. -/
inductive Work where
  /-- Calls an agent, and gives up after `timeout` seconds. -/
  | step (agent : String) (timeout : Option Binary64)
  /-- Runs the children one after the other and stops at the first that does not succeed. -/
  | sequence
  /-- Runs the children concurrently, at most `limit` of them at once. -/
  | parallel (limit : Option Nat)
  /-- Runs the children concurrently until one succeeds. -/
  | race (limit : Option Nat)
  /-- Runs the child of the first case that matches the condition, else the default. -/
  | branch (condition : Binding) (cases : List Value)
  /-- Runs one instance of the body for every element of the source. -/
  | loop (source : Binding) (itemName : String) (indexName : Option String) (limit : Option Nat)
  deriving Inhabited

/-- A kind of node. -/
inductive Kind where
  /-- A call of an agent. -/
  | step
  /-- Children one after the other. -/
  | sequence
  /-- Children at once. -/
  | parallel
  /-- Children at once until one succeeds. -/
  | race
  /-- One child of several. -/
  | branch
  /-- One child many times. -/
  | loop
  deriving DecidableEq

namespace Kind

/-- The name of a kind. -/
def name : Kind → String
  | step => "step"
  | sequence => "sequence"
  | parallel => "parallel"
  | race => "race"
  | branch => "branch"
  | loop => "loop"

/-- All kinds. -/
def all : List Kind := [step, sequence, parallel, race, branch, loop]

/-- The kind that a name stands for. -/
def ofName? (name : String) : Option Kind :=
  all.find? fun kind => kind.name == name

end Kind

/-- The kind of a node that does the work. -/
def Work.kind : Work → Kind
  | step .. => .step
  | sequence => .sequence
  | parallel _ => .parallel
  | race _ => .race
  | branch .. => .branch
  | loop .. => .loop

/-- A node with everything below it. -/
inductive Node where
  /-- A node with its children in order. -/
  | mk (header : Header) (work : Work) (children : List Node)
  deriving Inhabited

namespace Node

/-- What the node carries. -/
def header : Node → Header
  | mk header _ _ => header

/-- What the node does. -/
def work : Node → Work
  | mk _ work _ => work

/-- The children of the node in order. -/
def children : Node → List Node
  | mk _ _ children => children

/-- The kind of the node. -/
def kind (node : Node) : Kind :=
  node.work.kind

/-- The identifier of the node. -/
def id (node : Node) : Option String :=
  node.header.id

/-- The label of the node. -/
def label (node : Node) : Option String :=
  node.header.label

/-- The node with other children. -/
def withChildren : Node → List Node → Node
  | mk header work _, children => mk header work children

mutual

/-- The node and all nodes below it, every node before its children. -/
def walk : Node → List Node
  | mk header work children => mk header work children :: walkList children

/-- The nodes of several trees. -/
def walkList : List Node → List Node
  | [] => []
  | node :: nodes => walk node ++ walkList nodes

end

/-- The identifiers in the tree, every node before its children. -/
def ids (node : Node) : List String :=
  node.walk.filterMap Node.id

/-! ## Well-formedness -/

/-- The number of children that a node's work needs. -/
def Fits : Work → Nat → Prop
  | .step .., count => count = 0
  | .branch _ cases, count => count = cases.length ∨ count = cases.length + 1
  | .loop .., count => count = 1
  | _, _ => True

mutual

/-- Every node of the tree has as many children as its work needs. -/
def WellFormed : Node → Prop
  | mk _ work children => Fits work children.length ∧ AllWellFormed children

/-- All the trees are well-formed. -/
def AllWellFormed : List Node → Prop
  | [] => True
  | node :: nodes => WellFormed node ∧ AllWellFormed nodes

end

end Node
end Workflow
