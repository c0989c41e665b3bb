import Workflow.Node.Basic

/-!
# Sound definitions

A definition is sound if every node has as many children as its work needs and no limit on
concurrency is zero. The check of documents lets no other definitions through.
-/

namespace Workflow

/-- The limit on the number of children that run at once, if the work has one of its own. -/
def Work.limit : Work → Option Nat
  | .parallel limit => limit
  | .race limit => limit
  | .loop _ _ _ limit => limit
  | _ => none

/-- The binding that decides which children of a branch or a loop run. -/
def Work.binding? : Work → Option Binding
  | .branch condition _ => some condition
  | .loop source .. => some source
  | _ => none

/-- A step calls an agent. -/
theorem Work.exists_agent {work : Work} (h : work.kind = .step) :
    ∃ agent own, work = .step agent own := by
  cases work with
  | step agent own => exact ⟨agent, own, rfl⟩
  | _ => cases h

namespace Node

/-- Every node of the tree has as many children as its work needs and lets at least one of them
run. -/
def Sound (tree : Node) : Prop :=
  ∀ node ∈ tree.walk, Fits node.work node.children.length ∧ node.work.limit ≠ some 0

/-- What holds of a definition if it holds of its children holds of all definitions. -/
@[elab_as_elim]
theorem ind {motive : Node → Prop} (mk : ∀ header work children,
    (∀ child ∈ children, motive child) → motive (mk header work children)) (node : Node) :
    motive node :=
  @Node.rec motive (fun children => ∀ child ∈ children, motive child) mk (List.forall_mem_nil _)
    (fun _ _ hchild hchildren => List.forall_mem_cons.2 ⟨hchild, hchildren⟩) node

theorem mem_walk_self (node : Node) : node ∈ node.walk := by
  obtain ⟨header, work, children⟩ := node
  rw [walk]
  exact List.mem_cons_self

theorem walkList_eq_flatMap (nodes : List Node) : walkList nodes = nodes.flatMap walk := by
  induction nodes with
  | nil => rfl
  | cons node nodes ih => rw [walkList, ih, List.flatMap_cons]

theorem mem_walk_mk_iff {header : Header} {work : Work} {children : List Node} {node : Node} :
    node ∈ (mk header work children).walk ↔
      node = mk header work children ∨ ∃ child ∈ children, node ∈ child.walk := by
  rw [walk, List.mem_cons, walkList_eq_flatMap, List.mem_flatMap]

theorem mem_walk_of_mem_children {tree child node : Node} (hchild : child ∈ tree.children)
    (hnode : node ∈ child.walk) : node ∈ tree.walk := by
  obtain ⟨header, work, children⟩ := tree
  exact mem_walk_mk_iff.2 (.inr ⟨child, hchild, hnode⟩)

namespace Sound

variable {tree child : Node}

theorem fits (h : tree.Sound) : Fits tree.work tree.children.length :=
  (h tree tree.mem_walk_self).1

theorem limit (h : tree.Sound) : tree.work.limit ≠ some 0 :=
  (h tree tree.mem_walk_self).2

theorem of_mem_children (h : tree.Sound) (hchild : child ∈ tree.children) : child.Sound :=
  fun node hnode => h node (mem_walk_of_mem_children hchild hnode)

/-- A step has no children. -/
theorem children_eq_nil (h : tree.Sound) (hkind : tree.kind = .step) : tree.children = [] := by
  have hfits := h.fits
  cases hwork : tree.work with
  | step agent timeout =>
    rw [hwork] at hfits
    exact List.length_eq_zero_iff.1 hfits
  | _ => rw [kind, hwork] at hkind; cases hkind

/-- A loop has a body. -/
theorem exists_body (h : tree.Sound) (hkind : tree.kind = .loop) :
    ∃ body, tree.children = [body] := by
  have hfits := h.fits
  cases hwork : tree.work with
  | loop source itemName indexName limit =>
    rw [hwork] at hfits
    exact List.length_eq_one_iff.1 hfits
  | _ => rw [kind, hwork] at hkind; cases hkind

end Sound

/-- The definition of the child at a position; every instance of a loop is defined by the body. -/
def kidAt (node : Node) (i : Nat) : Option Node :=
  match node.work with
  | .loop .. => node.children.head?
  | _ => node.children[i]?

theorem kidAt_of_kind_ne {node : Node} (h : node.kind ≠ .loop) (i : Nat) :
    node.kidAt i = node.children[i]? := by
  unfold kidAt
  split
  · rename_i hwork
    rw [kind, hwork] at h
    exact absurd rfl h
  · rfl

theorem kidAt_of_kind_eq {node : Node} (h : node.kind = .loop) (i : Nat) :
    node.kidAt i = node.children.head? := by
  cases hwork : node.work with
  | loop source itemName indexName limit => rw [kidAt, hwork]
  | _ => rw [kind, hwork] at h; cases h

theorem mem_children_of_kidAt {node kid : Node} {i : Nat} (h : node.kidAt i = some kid) :
    kid ∈ node.children := by
  by_cases hkind : node.kind = .loop
  · rw [kidAt_of_kind_eq hkind] at h
    exact List.mem_of_mem_head? h
  · rw [kidAt_of_kind_ne hkind] at h
    exact List.mem_of_getElem? h

end Node
end Workflow
