import Workflow.Node.Resolve

/-!
# Definitions as documents

`Node.toValue` writes a definition as the document that it is read from. Every field is written,
those with their default included; with `sparse` set, fields of nodes, cases and bindings whose
value is absent are left out, while absent values inside a literal or an attached field stay.
-/

namespace Workflow

/-- The fields of a record, without the absent ones if it is sparse. -/
def recordFields (sparse : Bool) (fields : Fields Value) : Fields Value :=
  if sparse then fields.filter fun field => !field.2.isNull else fields

/-- The document of a record. -/
def recordValue (sparse : Bool) (fields : Fields Value) : Value :=
  .object (recordFields sparse fields)

/-- The document of a binding. -/
def Binding.toValue (sparse : Bool) (b : Binding) : Value :=
  recordValue sparse <| ("kind", .string b.kind) ::
    match b with
    | .literal value => [("value", value)]
    | .path expression => [("path", .string expression)]
    | .variable name => [("name", .string name)]
    | .template text => [("template", .string text)]

/-- The document of the declared inputs. -/
def Binding.inputsValue (sparse : Bool) (inputs : Fields Binding) : Value :=
  .object (inputs.map fun input => (input.1, input.2.toValue sparse))

/-- The document of a limit on concurrency. -/
def limitValue : Option Nat → Value
  | some n => .nat n
  | none => .null

/-- The fields of a node's work, given the documents of its children. -/
def Work.toFields (sparse : Bool) (children : List Value) : Work → Fields Value
  | step agent timeout =>
    [("agent", .string agent), ("timeout_seconds", (timeout.map Value.float).getD .null)]
  | sequence => [("children", .array children)]
  | parallel limit => [("children", .array children), ("max_concurrency", limitValue limit)]
  | race limit => [("children", .array children), ("max_concurrency", limitValue limit)]
  | branch condition cases =>
    [("condition", condition.toValue sparse),
     ("children", .array <| (cases.zip children).map fun (value, node) =>
        recordValue sparse [("when", value), ("node", node)]),
     ("default", children[cases.length]?.getD .null)]
  | loop source itemName indexName limit =>
    [("source", source.toValue sparse), ("body", children.head?.getD .null),
     ("item_name", .string itemName), ("index_name", .ofString? indexName),
     ("max_concurrency", limitValue limit)]

/-- The fields of a node before those of its work. -/
def Header.toFields (sparse : Bool) (h : Header) : Fields Value :=
  [("id", .ofString? h.id), ("name", .ofString? h.name), ("label", .ofString? h.label),
   ("inputs", Binding.inputsValue sparse h.inputs)]

namespace Node

mutual

/-- The document of a definition. -/
def toValue (sparse : Bool) : Node → Value
  | mk header work children =>
    recordValue sparse <| header.toFields sparse ++ ("kind", .string work.kind.name) ::
      work.toFields sparse (listToValues sparse children) ++ header.extra

/-- The documents of several definitions. -/
def listToValues (sparse : Bool) : List Node → List Value
  | [] => []
  | node :: nodes => toValue sparse node :: listToValues sparse nodes

end

end Node

/-- The document of a place in a definition. -/
def Place.toValue (sparse : Bool) : Place → Value
  | node n => n.toValue sparse
  | binding b => b.toValue sparse

end Workflow
