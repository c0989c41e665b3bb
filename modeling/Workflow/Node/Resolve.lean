import Workflow.Node.Basic
import Workflow.Path.Basic

/-!
# Paths in definitions

`Node.resolve` follows a path expression from the root of a definition to a node or to the binding
of a step's input.

* `input[i]` is the `i`-th child of a sequence, parallel node or race, the node of the `i`-th case
  of a branch, or the `i`-th input of a step;
* `input` is the body of a loop;
* `default` is the default of a branch.
-/

namespace Workflow

/-- A place in a definition. -/
inductive Place where
  /-- A node. -/
  | node (node : Node)
  /-- The binding of an input. -/
  | binding (binding : Binding)
  deriving Inhabited

namespace Node

/-- Where one segment leads from a node. -/
def descend (node : Node) (segment : Segment) : Except Path.Miss Place :=
  let absent := Except.error (.notInDefinition node.kind.name)
  match node.work with
  | .step .. =>
    if segment.field = Path.childField then
      (Path.pick (Fields.contents node.header.inputs) segment .declaredInputs).map .binding
    else absent
  | .branch _ cases =>
    if segment.field = Path.childField then
      (Path.pick (node.children.take cases.length) segment .cases).map .node
    else if segment.field = Path.defaultField ∧ segment.index = none then
      match node.children[cases.length]? with
      | some other => .ok (.node other)
      | none => .error .noDefault
    else absent
  | .loop .. =>
    if segment.field = Path.childField ∧ segment.index = none then
      match node.children.head? with
      | some body => .ok (.node body)
      | none => absent
    else if segment.field = Path.instanceField then .error .onlyInResults
    else absent
  | _ =>
    if segment.field = Path.childField then
      (Path.pick node.children segment .children).map .node
    else absent

end Node

/-- Where one segment leads from a place. -/
def Place.descend : Place → Segment → Except Path.Miss Place
  | node n, segment => n.descend segment
  | binding _, _ => .error .belowBinding

/-- The node or binding that an expression addresses. -/
def Node.resolve (tree : Node) (expression : String) : Except Path.Error Place :=
  Path.follow Place.descend (.node tree) expression

end Workflow
