import Workflow.Document.Check
import Workflow.Node.Basic

/-!
# Definitions from documents

`Node.check` reads a definition from a document. The field `kind` chooses the record that a
binding or a node is. Bindings and cases admit only the fields that they know; a node keeps the
fields that it does not know.
-/

namespace Workflow

open Document

/-! ## Bindings -/

/-- The check of a record with one required text and no other field. -/
def Binding.textField (fields : Fields Value) (name : String) (make : String → Binding) :
    Checked Binding :=
  ((Checked.pure make).and (required fields name text)).also (noOthers fields ["kind", name])

/-- The check of a binding of a kind. -/
def Binding.checkKind (kind : String) (fields : Fields Value) : Option (Checked Binding) :=
  match kind with
  | "literal" =>
    some <| ((Checked.pure Binding.literal).and (optional fields "value" .null any)).also
      (noOthers fields ["kind", "value"])
  | "path" => some (textField fields "path" .path)
  | "var" => some (textField fields "name" .variable)
  | "template" => some (textField fields "template" .template)
  | _ => none

/-- The check of a binding. -/
def Binding.check : Check Binding :=
  kindOf Binding.kinds Binding.checkKind

/-! ## Nodes -/

/-- The fields that all kinds of nodes know. -/
def Header.fieldNames : List String := ["id", "name", "label", "inputs", "kind"]

/-- The check of the fields that all kinds of nodes know. `known` are the fields of the kind. -/
def Header.check (fields : Fields Value) (known : List String) : Checked Header :=
  (Checked.pure fun id name label inputs =>
      { id, name, label, inputs, extra := otherFields fields (fieldNames ++ known) : Header })
    |>.and (optional fields "id" none (nullable text))
    |>.and (optional fields "name" none (nullable text))
    |>.and (optional fields "label" none (nullable text))
    |>.and (optional fields "inputs" [] (fieldsOf Binding.check))

/-- The check of the limit on concurrency. -/
def Work.checkLimit (fields : Fields Value) : Checked (Option Nat) :=
  optional fields "max_concurrency" none (nullable positiveInt)

namespace Node

/-- The check of a case of a branch, given the check of nodes. -/
def checkCase (node : Check Node) : Check (Value × Node) :=
  recordOf fun fields =>
    ((Checked.pure Prod.mk).and (required fields "when" any)
      |>.and (required fields "node" node)).also (noOthers fields ["when", "node"])

/-- The check of a node that has children, given the check of nodes. -/
def checkGroup (node : Check Node) (fields : Fields Value) (known : List String)
    (work : Checked Work) : Checked Node :=
  (Checked.pure fun header children work => mk header work children)
    |>.and (Header.check fields known)
    |>.and (optional fields "children" [] (listOf node))
    |>.and work

/-- The check of a step. -/
def checkStep (fields : Fields Value) : Checked Node :=
  (Checked.pure fun header agent timeout => mk header (.step agent timeout) [])
    |>.and (Header.check fields ["agent", "timeout_seconds"])
    |>.and (required fields "agent" someText)
    |>.and (optional fields "timeout_seconds" none (nullable positiveFloat))

/-- The check of a branch, given the check of nodes. -/
def checkBranch (node : Check Node) (fields : Fields Value) : Checked Node :=
  (Checked.pure fun header condition cases (other : Option Node) =>
      mk header (.branch condition (cases.map Prod.fst)) (cases.map Prod.snd ++ other.toList))
    |>.and (Header.check fields ["condition", "children", "default"])
    |>.and (required fields "condition" Binding.check)
    |>.and (optional fields "children" [] (listOf (checkCase node)))
    |>.and (optional fields "default" none (nullable node))

/-- The check of a loop, given the check of nodes. -/
def checkLoop (node : Check Node) (fields : Fields Value) : Checked Node :=
  (Checked.pure fun header source body itemName indexName limit =>
      mk header (.loop source itemName indexName limit) [body])
    |>.and (Header.check fields ["source", "body", "item_name", "index_name", "max_concurrency"])
    |>.and (required fields "source" Binding.check)
    |>.and (required fields "body" node)
    |>.and (optional fields "item_name" "item" text)
    |>.and (optional fields "index_name" (some "index") (nullable text))
    |>.and (Work.checkLimit fields)

/-- The check of a node of a kind, given the check of nodes. -/
def checkKind (node : Check Node) (kind : String) (fields : Fields Value) :
    Option (Checked Node) :=
  (Kind.ofName? kind).map fun
    | .step => checkStep fields
    | .sequence => checkGroup node fields ["children"] (.ok .sequence)
    | .parallel =>
      checkGroup node fields ["children", "max_concurrency"]
        (Checked.map Work.parallel (Work.checkLimit fields))
    | .race =>
      checkGroup node fields ["children", "max_concurrency"]
        (Checked.map Work.race (Work.checkLimit fields))
    | .branch => checkBranch node fields
    | .loop => checkLoop node fields

/-- The check of a node in a document no deeper than a bound. -/
def checkWithin : Nat → Check Node
  | 0, _ => .fail .object
  | bound + 1, v => kindOf (Kind.all.map Kind.name) (checkKind (checkWithin bound)) v

/-- The check of a node. -/
def check : Check Node := fun v =>
  checkWithin (v.depth + 1) v

end Node
end Workflow
