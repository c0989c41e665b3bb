import Workflow.Proofs.Run.Shape
import Workflow.Proofs.Tree.Related

/-!
# Places in a definition

The place of a node lists the positions of the children that lead to it in the definition. All
instances of the body of a loop have one place.

* `Node.at?` is the definition at a place, and `Node.placeOf` the place of the node at an address.
* `Live.Runs` says that a live tree runs a definition, and `Live.Runs.at?` that its nodes are defined
  at their places.

The place of a node is the address of the node in the first instances of all loops around it.
-/

namespace Workflow

namespace Node

variable {r : Header → Header → Prop} {tree tree' : Node}

/-- The definition at a place. -/
def at? : Node → List Nat → Option Node
  | node, [] => some node
  | node, i :: place =>
    match node.children[i]? with
    | some child => child.at? place
    | none => none

/-- The position in the definition of the child at a position; a loop has one body. -/
def childPosition (node : Node) (i : Nat) : Nat :=
  match node.kind with
  | .loop => 0
  | _ => i

/-- The place of the node at an address. -/
def placeOf : Node → Address → List Nat
  | _, [] => []
  | node, i :: a =>
    node.childPosition i ::
      match node.children[node.childPosition i]? with
      | some child => child.placeOf a
      | none => a

theorem at?_nil (node : Node) : node.at? [] = some node := by
  rw [at?]

theorem at?_cons (node : Node) (i : Nat) (place : List Nat) :
    node.at? (i :: place) = node.children[i]?.bind fun child => child.at? place := by
  rw [at?]
  cases node.children[i]? <;> rfl

theorem kidAt_eq (node : Node) (i : Nat) : node.kidAt i = node.children[node.childPosition i]? := by
  by_cases hkind : node.kind = .loop
  · rw [kidAt_of_kind_eq hkind, childPosition, hkind]
    exact List.head?_eq_getElem?
  · rw [kidAt_of_kind_ne hkind, childPosition]
    split
    · rename_i hloop
      exact absurd hloop hkind
    · rfl

theorem placeOf_cons {node child : Node} {i : Nat} (h : node.kidAt i = some child) (a : Address) :
    node.placeOf (i :: a) = node.childPosition i :: child.placeOf a := by
  rw [kidAt_eq] at h
  rw [placeOf, h]

theorem at?_placeOf_cons {node child : Node} {i : Nat} (h : node.kidAt i = some child)
    (a : Address) : node.at? (node.placeOf (i :: a)) = child.at? (child.placeOf a) := by
  rw [placeOf_cons h, at?_cons, ← kidAt_eq, h, Option.bind_some]

theorem at?_append (tree : Node) (place other : List Nat) :
    tree.at? (place ++ other) = (tree.at? place).bind fun node => node.at? other := by
  induction place generalizing tree with
  | nil => rw [List.nil_append, at?_nil, Option.bind_some]
  | cons i place ih =>
    rw [List.cons_append, at?_cons, at?_cons, Option.bind_assoc]
    exact congrArg _ (funext fun child => ih child)

/-- The place goes on from that of a node above. -/
theorem placeOf_append {node : Node} {a : Address} (h : tree.at? (tree.placeOf a) = some node)
    (b : Address) : tree.placeOf (a ++ b) = tree.placeOf a ++ node.placeOf b := by
  induction a generalizing tree with
  | nil =>
    cases h
    rfl
  | cons i a ih =>
    cases hchild : tree.kidAt i with
    | some child =>
      rw [at?_placeOf_cons hchild] at h
      rw [List.cons_append, placeOf_cons hchild, placeOf_cons hchild, ih h, List.cons_append]
    | none =>
      rw [kidAt_eq] at hchild
      rw [placeOf, at?_cons, hchild] at h
      cases h

theorem childPosition_of_kind_ne {node : Node} (h : node.kind ≠ .loop) (i : Nat) :
    node.childPosition i = i := by
  unfold childPosition
  split
  · contradiction
  · rfl

theorem childPosition_of_loop {node : Node} (h : node.kind = .loop) (i : Nat) :
    node.childPosition i = 0 := by
  rw [childPosition, h]

namespace Related

/-- The definition at a place is related to the one at the same place. -/
theorem at? {place : List Nat} {node : Node} (h : Related r tree tree')
    (hnode : tree.at? place = some node) :
    ∃ node', tree'.at? place = some node' ∧ Related r node node' := by
  induction place generalizing tree tree' with
  | nil =>
    rw [at?_nil, Option.some.injEq] at hnode
    exact ⟨tree', at?_nil tree', hnode ▸ h⟩
  | cons i place ih =>
    rw [at?_cons] at hnode
    obtain ⟨child, hchild, hnode⟩ := Option.bind_eq_some_iff.1 hnode
    obtain ⟨child', hchild', hrelated⟩ := h.child hchild
    obtain ⟨node', hnode', hrelated'⟩ := ih hrelated hnode
    exact ⟨node', by rw [at?_cons, hchild', Option.bind_some, hnode'], hrelated'⟩

theorem at?' {place : List Nat} {node' : Node} (h : Related r tree tree')
    (hnode' : tree'.at? place = some node') :
    ∃ node, tree.at? place = some node ∧ Related r node node' := by
  induction place generalizing tree tree' with
  | nil =>
    rw [at?_nil, Option.some.injEq] at hnode'
    exact ⟨tree, at?_nil tree, hnode' ▸ h⟩
  | cons i place ih =>
    rw [at?_cons] at hnode'
    obtain ⟨child', hchild', hnode'⟩ := Option.bind_eq_some_iff.1 hnode'
    obtain ⟨child, hchild, hrelated⟩ := h.child' hchild'
    obtain ⟨node, hnode, hrelated'⟩ := ih hrelated hnode'
    exact ⟨node, by rw [at?_cons, hchild, Option.bind_some, hnode], hrelated'⟩

/-- Headers do not matter to places. -/
theorem placeOf (h : Related r tree tree') (a : Address) : tree'.placeOf a = tree.placeOf a := by
  induction a generalizing tree tree' with
  | nil => rfl
  | cons i a ih =>
    have hposition : tree'.childPosition i = tree.childPosition i := by
      rw [childPosition, h.kind, childPosition]
    rw [Node.placeOf, Node.placeOf, hposition]
    cases hchild : tree.children[tree.childPosition i]? with
    | some child =>
      obtain ⟨child', hchild', hrelated⟩ := h.child hchild
      simp only [hchild', ih hrelated]
    | none =>
      have hchild' : tree'.children[tree.childPosition i]? = none := by
        rw [List.getElem?_eq_none_iff] at hchild ⊢
        rwa [h.length_children]
      simp only [hchild']

end Related
end Node

namespace Live

/-- The tree runs the definition: its nodes are about the definitions at their places. -/
inductive Runs : Node → Live → Prop
  | mk {node : Node} {job : Job} {kids : List Live} :
    job.entry.id = node.id → job.entry.kind = node.kind.name → job.entry.label = node.label →
    job.node = node → (node.kind ≠ .loop → kids.length = node.children.length) →
    (∀ (i : Nat) (kid : Live), kids[i]? = some kid → (node.kidAt i).isSome) →
    (∀ (i : Nat) (kid : Live) (child : Node), kids[i]? = some kid → node.kidAt i = some child →
      Runs child kid) →
    Runs node (mk job kids)

/-- A node of a live tree is defined at its place. -/
theorem Runs.at? {node : Node} {live kid : Live} {a : Address} (h : Runs node live)
    (hkid : live.at? a = some kid) :
    ∃ node', node.at? (node.placeOf a) = some node' ∧ Runs node' kid := by
  induction a generalizing node live with
  | nil =>
    rw [Live.at?_nil, Option.some.injEq] at hkid
    exact ⟨node, Node.at?_nil node, hkid ▸ h⟩
  | cons i a ih =>
    cases h with
    | mk hid hkind hlabel hnode hlength hsome hkids =>
      rw [Live.at?_cons] at hkid
      obtain ⟨next, hnext, hkid⟩ := Option.bind_eq_some_iff.1 hkid
      obtain ⟨child, hchild⟩ := Option.isSome_iff_exists.1 (hsome i next hnext)
      obtain ⟨node', hnode', hruns'⟩ := ih (hkids i next child hnext hchild) hkid
      exact ⟨node', by rw [Node.at?_placeOf_cons hchild, hnode'], hruns'⟩

theorem Runs.job {node : Node} {live : Live} (h : Runs node live) :
    live.job.node = node ∧ live.job.entry.id = node.id := by
  cases h with
  | mk hid hkind hlabel hnode => exact ⟨hnode, hid⟩

end Live

namespace State

/-- The part at an address runs the definition of its root. -/
theorem Shape.runs_at {tree : Node} {s : State} (h : Shape tree s) (live : Live) : ∀ a,
    s.root.at? a = some live → Live.Runs live.job.node live := by
  induction live using Live.ind with
  | mk job kids ih =>
    intro a hlive
    have hjob := jobAt_of_at? hlive
    obtain ⟨hid, hkind, hlabel⟩ := h.entry a job hjob
    have hat {i : Nat} {kid : Live} (hkid : kids[i]? = some kid) :
        s.root.at? (a ++ [i]) = some kid := by rw [Live.at?_concat hlive, hkid]
    have hdefined {i : Nat} {kid : Live} (hkid : kids[i]? = some kid) :
        job.node.kidAt i = some kid.job.node :=
      (h.kid a i job kid.job hjob (Live.jobAt_of_at? (hat hkid))).1
    refine .mk hid hkind hlabel rfl (fun hloop => ?_) (fun i kid hkid => ?_)
      fun i kid child hkid hchild => ?_
    · rw [h.length_kids hlive]
      exact Job.arity_of_kind_ne hloop
    · change (job.node.kidAt i).isSome
      rw [hdefined hkid]
      rfl
    · change job.node.kidAt i = some child at hchild
      rw [hdefined hkid, Option.some.injEq] at hchild
      exact hchild ▸ ih kid (List.mem_of_getElem? hkid) (a ++ [i]) (hat hkid)

/-- The tree of a run runs its definition. -/
theorem Shape.runs {tree : Node} {s : State} (h : Shape tree s) : Live.Runs tree s.root := by
  obtain ⟨job, hjob, hnode, _⟩ := h.root
  have hruns := h.runs_at s.root [] (Live.at?_nil _)
  obtain ⟨kids, hkids⟩ := at?_of_jobAt hjob
  rw [Live.at?_nil, Option.some.injEq] at hkids
  rw [hkids] at hruns ⊢
  exact hnode ▸ hruns

end State
end Workflow
