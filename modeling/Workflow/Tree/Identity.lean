import Workflow.Node.Basic
import Workflow.Result.Basic
import Workflow.Text.Quoted

/-!
# Identifiers

* `Node.assignIds` gives every node without an identifier a fresh one, children before their
  parents, unless two nodes carry the same identifier already.
* `Node.adoptIds` copies identifiers from an earlier result onto nodes at the same position.

Fresh identifiers are drawn from a source one after the other; one that is taken is passed over.
-/

namespace Workflow

/-! ## Sources -/

/-- A source of identifiers with the number of those that are drawn already. -/
structure IdSource where
  /-- The identifier that a draw gives. -/
  draw : Nat → String
  /-- The number of draws so far. -/
  drawn : Nat := 0

namespace IdSource

/-- The source that counts on from a number, each identifier having thirty-two hexadecimal
digits. -/
def countingFrom (start : Nat) : IdSource where
  draw n := String.ofList (Text.hexDigits 32 (start + n))

/-- The source that counts from one. -/
def counting : IdSource :=
  countingFrom 1

/-- Draws until an identifier is not taken, at most `tries` times beyond the first. -/
def freshWithin (source : IdSource) (taken : List String) : Nat → String × IdSource
  | 0 => (source.draw source.drawn, { source with drawn := source.drawn + 1 })
  | tries + 1 =>
    let id := source.draw source.drawn
    let rest := { source with drawn := source.drawn + 1 }
    if taken.contains id then rest.freshWithin taken tries else (id, rest)

/-- Draws an identifier that is not taken. -/
def fresh (source : IdSource) (taken : List String) : String × IdSource :=
  source.freshWithin taken taken.length

end IdSource

/-! ## Duplicates -/

/-- Two nodes of a tree carry the same identifier. -/
structure DuplicateId where
  /-- The identifier. -/
  id : String
  deriving DecidableEq

/-- The wording of the error. -/
def DuplicateId.message (e : DuplicateId) : String :=
  s!"Duplicate node id {Text.quoted e.id}"

/-- The first text of a list that is among those seen before it. -/
def firstRepeat (seen : List String) : List String → Option String
  | [] => none
  | id :: ids => if seen.contains id then some id else firstRepeat (id :: seen) ids

namespace Node

/-- Nothing if all identifiers of the tree are distinct, else the first that comes again. -/
def checkIds (tree : Node) : Except DuplicateId Unit :=
  match firstRepeat [] tree.ids with
  | some id => .error ⟨id⟩
  | none => .ok ()

/-! ## Assignment -/

mutual

/-- Gives fresh identifiers to the nodes of a tree that have none, children first. What is returned
beside the tree is the source and the identifiers that are taken. -/
def assignFrom (source : IdSource) (taken : List String) :
    Node → Node × IdSource × List String
  | mk header work children =>
    match assignListFrom source taken children with
    | (children, source, taken) =>
      match header.id with
      | some _ => (mk header work children, source, taken)
      | none =>
        match source.fresh taken with
        | (id, source) => (mk { header with id := some id } work children, source, id :: taken)

/-- Gives fresh identifiers to the nodes of several trees that have none. -/
def assignListFrom (source : IdSource) (taken : List String) :
    List Node → List Node × IdSource × List String
  | [] => ([], source, taken)
  | node :: nodes =>
    match assignFrom source taken node with
    | (node, source, taken) =>
      match assignListFrom source taken nodes with
      | (nodes, source, taken) => (node :: nodes, source, taken)

end

/-- The tree with an identifier on every node. -/
def assignIds (tree : Node) (source : IdSource) : Except DuplicateId (Node × IdSource) :=
  match tree.checkIds with
  | .error e => .error e
  | .ok () =>
    match assignFrom source tree.ids tree with
    | (tree, source, _) => .ok (tree, source)

/-! ## Adoption -/

/-- What an earlier result recorded for the children of a node. -/
def counterparts (work : Work) (r : Result) : List (Option Result) :=
  match work with
  | .loop .. => [r.items.head?]
  | .branch _ cases =>
    let recorded := (r.children.take cases.length).map some
    recorded ++ List.replicate (cases.length - recorded.length) none ++ [r.default?]
  | _ => r.children.map some

/-- A result fits a node: it is of the same kind and, if the node is a labelled step, has the same
label. -/
def fitsResult (header : Header) (work : Work) (r : Result) : Bool :=
  r.entry.kind == work.kind.name &&
    !(work.kind == .step && header.label.isSome && header.label != r.entry.label)

mutual

/-- Copies identifiers from a result onto nodes that have none, children first. -/
def adoptFrom (taken : List String) : Node → Option Result → Node × List String
  | mk header work children, none => (mk header work children, taken)
  | mk header work children, some r =>
    if !fitsResult header work r then (mk header work children, taken)
    else
      match adoptListFrom taken children (counterparts work r) with
      | (children, taken) =>
        match header.id, r.entry.id with
        | none, some id =>
          if taken.contains id then (mk header work children, taken)
          else (mk { header with id := some id } work children, id :: taken)
        | _, _ => (mk header work children, taken)

/-- Copies identifiers onto the nodes of several trees from the results at the same places. -/
def adoptListFrom (taken : List String) :
    List Node → List (Option Result) → List Node × List String
  | [], _ => ([], taken)
  | node :: nodes, results =>
    match adoptFrom taken node results.head?.join with
    | (node, taken) =>
      match adoptListFrom taken nodes results.tail with
      | (nodes, taken) => (node :: nodes, taken)

end

/-- The tree with the identifiers that an earlier result recorded at the same positions. -/
def adoptIds (tree : Node) (previous : Result) : Except DuplicateId Node :=
  match tree.checkIds with
  | .error e => .error e
  | .ok () => .ok (adoptFrom tree.ids tree (some previous)).1

/-- The identifiers and labels of a tree, every node before its children. -/
def marks (tree : Node) : List (Option String × Option String) :=
  tree.walk.map fun node => (node.id, node.label)

end Node
end Workflow
