import Workflow.Node.Basic
import Workflow.Result.Basic

/-!
# Paths in results

`Result.resolve` follows a path expression from the root of a result to a node or to an input that
a step was given. Loops have their instances under `item[i]`; apart from that the segments are
those of definitions.
-/

namespace Workflow

/-- A place in a result. -/
inductive Target where
  /-- A node. -/
  | node (result : Result)
  /-- The value of an input. -/
  | value (value : Value)
  deriving Inhabited

namespace Result

/-- Where one segment leads from a node. -/
def descend (r : Result) (segment : Segment) : Except Path.Miss Target :=
  let kind := r.entry.kind
  if kind = Kind.step.name then
    if segment.field = Path.childField then
      (Path.pick (Fields.contents r.entry.inputs) segment .boundInputs).map .value
    else .error (.notInResult kind)
  else if kind = Kind.loop.name then
    if segment.field = Path.instanceField then
      (Path.pick r.items segment .instances).map .node
    else .error (.notInResult kind)
  else if segment.field = Path.childField then
    (Path.pick r.children segment .children).map .node
  else if segment.field = Path.defaultField ∧ segment.index = none ∧ kind = Kind.branch.name then
    match r.default? with
    | some other => .ok (.node other)
    | none => .error .noDefault
  else .error (.notInResult kind)

end Result

/-- Where one segment leads from a place. -/
def Target.descend : Target → Segment → Except Path.Miss Target
  | node r, segment => r.descend segment
  | value _, _ => .error .belowValue

/-- The node or value that an expression addresses. -/
def Result.resolve (tree : Result) (expression : String) : Except Path.Error Target :=
  Path.follow Target.descend (.node tree) expression

end Workflow
