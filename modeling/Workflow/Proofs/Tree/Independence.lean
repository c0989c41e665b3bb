import Workflow.Proofs.Tree.Limits

/-!
# Bindings between concurrent children

The children of a parallel node run at once. What one of them reads of another depends on how far the
other has come, unless no binding below the one names a place below the other.

* `Node.route` is the place that a path names, as far as the definition has it.
* `Node.Independent` says that no binding of a tree crosses from one child of a parallel node to
  another.

Neither labels and identifiers nor limits matter to this.
-/

namespace Workflow

/-- The expression of a binding, if it is a path. -/
def Binding.expression? : Binding → Option String
  | .path expression => some expression
  | _ => none

namespace Node

variable {tree tree' node node' : Node} {r : Header → Header → Prop} {segments : List Segment}
  {place other : List Nat}

/-- The path expressions in the bindings of a node. -/
def expressions (node : Node) : List String :=
  (node.header.inputs.map Prod.snd ++ node.work.binding?.toList).filterMap Binding.expression?

/-- The position of the child that a segment names. The instances of a loop are named by its body. -/
def childNamed (node : Node) (segment : Segment) : Option Nat :=
  match node.work with
  | .step .. => none
  | .loop .. =>
    if (segment.field = Path.childField ∧ segment.index = none) ∨
        (segment.field = Path.instanceField ∧ segment.index ≠ none) then some 0
    else none
  | .branch _ cases =>
    if segment.field = Path.childField then
      (segment.index.map Int.toNat).filter (· < cases.length)
    else if segment.field = Path.defaultField ∧ segment.index = none then some cases.length
    else none
  | _ => if segment.field = Path.childField then segment.index.map Int.toNat else none

/-- The place that the segments name, as far as there are nodes. -/
def route : Node → List Segment → List Nat
  | _, [] => []
  | node, segment :: segments =>
    match node.childNamed segment with
    | none => []
    | some i =>
      match node.children[i]? with
      | none => []
      | some child => i :: child.route segments

/-- The places lie below different children of a parallel node. -/
def Crosses (tree : Node) (place other : List Nat) : Prop :=
  ∃ above i j below below' node, place = above ++ i :: below ∧ other = above ++ j :: below' ∧
    i ≠ j ∧ tree.at? above = some node ∧ node.kind = .parallel

/-- No path in a binding of a node leads to another child of a parallel node that the node lies
below. -/
def Independent (tree : Node) : Prop :=
  ∀ place node expression segments, tree.at? place = some node → expression ∈ node.expressions →
    Path.parse expression = .ok segments → ¬ tree.Crosses place (tree.route segments)

theorem mem_walk_of_at? {tree node : Node} {place : List Nat} (h : tree.at? place = some node) :
    node ∈ tree.walk := by
  induction place generalizing tree with
  | nil =>
    rw [at?_nil, Option.some.injEq] at h
    rw [h]
    exact mem_walk_self _
  | cons i place ih =>
    rw [at?_cons] at h
    obtain ⟨child, hchild, hnode⟩ := Option.bind_eq_some_iff.1 h
    exact mem_walk_of_mem_children (List.mem_of_getElem? hchild) (ih hnode)

/-- In a tree whose bindings are no paths none crosses. -/
theorem Independent.of_expressions (h : ∀ node ∈ tree.walk, node.expressions = []) :
    tree.Independent := by
  intro place node expression segments hnode hmem
  rw [h node (mem_walk_of_at? hnode)] at hmem
  cases hmem

/-! ## Labels, identifiers and limits -/

theorem Related.route (h : Related r tree tree') (segments : List Segment) :
    tree'.route segments = tree.route segments := by
  induction segments generalizing tree tree' with
  | nil => rw [Node.route, Node.route]
  | cons segment segments ih =>
    have hnamed : tree'.childNamed segment = tree.childNamed segment := by
      rw [childNamed, childNamed, h.work]
    rw [Node.route, Node.route, hnamed]
    cases tree.childNamed segment with
    | none => rfl
    | some i =>
      simp only
      cases hchild : tree.children[i]? with
      | none =>
        have hchild' : tree'.children[i]? = none := by
          rw [List.getElem?_eq_none_iff] at hchild ⊢
          rwa [h.length_children]
        rw [hchild']
      | some child =>
        obtain ⟨child', hchild', hrelated⟩ := h.child hchild
        rw [hchild']
        exact congrArg (i :: ·) (ih hrelated)

/-- Headers do not matter to whether bindings cross, as long as they have the same inputs. -/
theorem Related.independent (h : Related r tree tree')
    (hr : ∀ header header', r header header' → header'.inputs = header.inputs)
    (htree : tree.Independent) : tree'.Independent := by
  rintro place node' expression segments hnode' hmem hparse
    ⟨above, i, j, below, below', group', hplace, hother, hij, hgroup', hkind⟩
  obtain ⟨node, hnode, hrelated⟩ := h.at?' hnode'
  obtain ⟨group, hgroup, hrelatedGroup⟩ := h.at?' hgroup'
  refine htree place node expression segments hnode ?_ hparse
    ⟨above, i, j, below, below', group, hplace, ?_, hij, hgroup, ?_⟩
  · rwa [expressions, hr _ _ hrelated.header, hrelated.work] at hmem
  · rw [← h.route]
    exact hother
  · rw [← hrelatedGroup.kind]
    exact hkind

/-- No binding crosses in the tree that is run if none does in the given one. -/
theorem Independent.prepare {separator : String} {previous : Option Result} {ids rest : IdSource}
    (htree : tree.Independent) (h : tree.prepare separator previous ids = .ok (tree', rest)) :
    tree'.Independent :=
  (related_inputs_of_prepare h).independent (fun _ _ hinputs => hinputs) htree

theorem childNamed_withLimits (f : Option Nat → Option Nat) (node : Node) (segment : Segment) :
    (node.withLimits f).childNamed segment = node.childNamed segment := by
  rw [childNamed, childNamed, work_withLimits]
  cases node.work <;> rfl

theorem route_withLimits (f : Option Nat → Option Nat) (tree : Node) (segments : List Segment) :
    (tree.withLimits f).route segments = tree.route segments := by
  induction segments generalizing tree with
  | nil => rw [route, route]
  | cons segment segments ih =>
    rw [route, route, childNamed_withLimits]
    cases tree.childNamed segment with
    | none => rfl
    | some i =>
      simp only [children_withLimits, List.getElem?_map]
      cases tree.children[i]? with
      | none => rfl
      | some child => exact congrArg (i :: ·) (ih child)

theorem expressions_withLimits (f : Option Nat → Option Nat) (node : Node) :
    (node.withLimits f).expressions = node.expressions := by
  rw [expressions, expressions, header_withLimits, work_withLimits]
  cases node.work <;> rfl

/-- Limits do not matter to whether bindings cross. -/
theorem Independent.withLimits (f : Option Nat → Option Nat) (h : tree.Independent) :
    (tree.withLimits f).Independent := by
  rintro place node' expression segments hnode' hmem hparse
    ⟨above, i, j, below, below', group', hplace, hother, hij, hgroup', hkind⟩
  rw [at?_withLimits] at hnode' hgroup'
  obtain ⟨node, hnode, rfl⟩ := Option.map_eq_some_iff.1 hnode'
  obtain ⟨group, hgroup, rfl⟩ := Option.map_eq_some_iff.1 hgroup'
  rw [expressions_withLimits] at hmem
  rw [route_withLimits] at hother
  rw [kind_withLimits] at hkind
  exact h place node expression segments hnode hmem hparse
    ⟨above, i, j, below, below', group, hplace, hother, hij, hgroup, hkind⟩

end Node
end Workflow
