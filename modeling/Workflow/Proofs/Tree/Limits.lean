import Workflow.Proofs.Tree.Place

/-!
# Trees with other limits

How many children of a node may run at once is a part of its work. Trees that differ only in this are
prepared alike.

* `Node.withLimits` gives every node another limit, and `Node.unlimited` takes all limits away.
* `Node.prepare_withLimits` says that identifiers and labels do not depend on limits.
* `Node.at?_unlimited` says that trees without limits have the same places.
-/

namespace Workflow

/-- The work with another limit, if it is work that may have one. -/
def Work.withLimit (f : Option Nat → Option Nat) : Work → Work
  | .parallel limit => .parallel (f limit)
  | .race limit => .race (f limit)
  | .loop source itemName indexName limit => .loop source itemName indexName (f limit)
  | work => work

/-- The work without a limit. -/
def Work.unlimited (work : Work) : Work :=
  work.withLimit fun _ => none

namespace Work

variable {f g : Option Nat → Option Nat} {work work' : Work}

@[simp] theorem kind_withLimit (f : Option Nat → Option Nat) (work : Work) :
    (work.withLimit f).kind = work.kind := by
  cases work <;> rfl

theorem withLimit_withLimit (f g : Option Nat → Option Nat) (work : Work) :
    (work.withLimit f).withLimit g = work.withLimit fun limit => g (f limit) := by
  cases work <;> rfl

@[simp] theorem unlimited_withLimit (f : Option Nat → Option Nat) (work : Work) :
    (work.withLimit f).unlimited = work.unlimited :=
  withLimit_withLimit ..

theorem kind_eq_of_unlimited (h : work'.unlimited = work.unlimited) : work'.kind = work.kind := by
  rw [← kind_withLimit (fun _ => none) work', ← kind_withLimit (fun _ => none) work]
  exact congrArg Work.kind h

/-- A limit that is not zero remains so. -/
theorem limit_withLimit (hf : ∀ limit, f limit ≠ some 0) (h : work.limit ≠ some 0) :
    (work.withLimit f).limit ≠ some 0 := by
  cases work with
  | parallel limit => exact hf limit
  | race limit => exact hf limit
  | loop source itemName indexName limit => exact hf limit
  | _ => exact h

end Work

namespace Node

variable {f g : Option Nat → Option Nat} {tree tree' : Node}

mutual

/-- The tree with other limits. -/
def withLimits (f : Option Nat → Option Nat) : Node → Node
  | mk header work children => mk header (work.withLimit f) (withLimitsList f children)

/-- The trees with other limits. -/
def withLimitsList (f : Option Nat → Option Nat) : List Node → List Node
  | [] => []
  | node :: nodes => withLimits f node :: withLimitsList f nodes

end

/-- The tree without limits. -/
def unlimited (tree : Node) : Node :=
  tree.withLimits fun _ => none

theorem withLimitsList_eq_map (f : Option Nat → Option Nat) (nodes : List Node) :
    withLimitsList f nodes = nodes.map (withLimits f) := by
  induction nodes with
  | nil => rfl
  | cons node nodes ih => rw [withLimitsList, ih, List.map_cons]

@[simp] theorem header_withLimits (f : Option Nat → Option Nat) (node : Node) :
    (node.withLimits f).header = node.header := by
  cases node
  rfl

@[simp] theorem work_withLimits (f : Option Nat → Option Nat) (node : Node) :
    (node.withLimits f).work = node.work.withLimit f := by
  cases node
  rfl

@[simp] theorem kind_withLimits (f : Option Nat → Option Nat) (node : Node) :
    (node.withLimits f).kind = node.kind := by
  rw [kind, work_withLimits, Work.kind_withLimit, kind]

@[simp] theorem children_withLimits (f : Option Nat → Option Nat) (node : Node) :
    (node.withLimits f).children = node.children.map (withLimits f) := by
  cases node
  exact withLimitsList_eq_map f _

mutual

theorem withLimits_withLimits (f g : Option Nat → Option Nat) : (node : Node) →
    (node.withLimits f).withLimits g = node.withLimits fun limit => g (f limit)
  | mk header work children => by
    rw [withLimits, withLimits, withLimits, Work.withLimit_withLimit,
      withLimitsList_withLimitsList f g children]

theorem withLimitsList_withLimitsList (f g : Option Nat → Option Nat) : (nodes : List Node) →
    withLimitsList g (withLimitsList f nodes) = withLimitsList (fun limit => g (f limit)) nodes
  | [] => rfl
  | node :: nodes => by
    rw [withLimitsList, withLimitsList, withLimitsList, withLimits_withLimits f g node,
      withLimitsList_withLimitsList f g nodes]

end

@[simp] theorem unlimited_withLimits (f : Option Nat → Option Nat) (tree : Node) :
    (tree.withLimits f).unlimited = tree.unlimited :=
  withLimits_withLimits ..

/-! ## Preparation -/

mutual

theorem walk_withLimits (f : Option Nat → Option Nat) : (node : Node) →
    (node.withLimits f).walk = node.walk.map (withLimits f)
  | mk header work children => by
    rw [withLimits, walk, walk, List.map_cons, withLimits, walkList_withLimits f children]

theorem walkList_withLimits (f : Option Nat → Option Nat) : (nodes : List Node) →
    walkList (withLimitsList f nodes) = (walkList nodes).map (withLimits f)
  | [] => rfl
  | node :: nodes => by
    rw [withLimitsList, walkList, walkList, List.map_append, walk_withLimits f node,
      walkList_withLimits f nodes]

end

theorem ids_withLimits (f : Option Nat → Option Nat) (tree : Node) :
    (tree.withLimits f).ids = tree.ids := by
  rw [ids, ids, walk_withLimits, List.filterMap_map]
  congr 1
  funext node
  exact congrArg Header.id (header_withLimits f node)

theorem checkIds_withLimits (f : Option Nat → Option Nat) (tree : Node) :
    (tree.withLimits f).checkIds = tree.checkIds := by
  rw [checkIds, checkIds, ids_withLimits]

mutual

theorem labelUnder_withLimits (f : Option Nat → Option Nat) (separator : String) : (node : Node) →
    ∀ lineage, labelUnder separator lineage (node.withLimits f) =
      (labelUnder separator lineage node).withLimits f
  | mk header work children => by
    intro lineage
    have hbelow : lineageBelow lineage header (work.withLimit f) =
        lineageBelow lineage header work := by
      cases work <;> rfl
    have hlabel (below : List String) : labelFor separator below header (work.withLimit f) =
        labelFor separator below header work := by
      rw [labelFor, labelFor, Work.kind_withLimit]
    rw [withLimits, labelUnder, labelUnder, withLimits]
    simp only [hbelow, hlabel]
    rw [labelListUnder_withLimits f separator children]

theorem labelListUnder_withLimits (f : Option Nat → Option Nat) (separator : String) :
    (nodes : List Node) → ∀ lineage, labelListUnder separator lineage (withLimitsList f nodes) =
      withLimitsList f (labelListUnder separator lineage nodes)
  | [] => fun _ => rfl
  | node :: nodes => by
    intro lineage
    rw [withLimitsList, labelListUnder, labelListUnder, withLimitsList,
      labelUnder_withLimits f separator node, labelListUnder_withLimits f separator nodes]

end

theorem deriveLabels_withLimits (f : Option Nat → Option Nat) (tree : Node) (separator : String) :
    (tree.withLimits f).deriveLabels separator = (tree.deriveLabels separator).withLimits f :=
  labelUnder_withLimits f separator tree []

mutual

theorem assignFrom_withLimits (f : Option Nat → Option Nat) : (node : Node) → ∀ source taken,
    assignFrom source taken (node.withLimits f) =
      ((assignFrom source taken node).1.withLimits f, (assignFrom source taken node).2)
  | mk header work children => by
    intro source taken
    rw [withLimits, assignFrom, assignFrom, assignListFrom_withLimits f children]
    generalize assignListFrom source taken children = assigned
    obtain ⟨kids, source, taken⟩ := assigned
    cases hid : header.id <;> simp [withLimits]

theorem assignListFrom_withLimits (f : Option Nat → Option Nat) : (nodes : List Node) →
    ∀ source taken, assignListFrom source taken (withLimitsList f nodes) =
      (withLimitsList f (assignListFrom source taken nodes).1, (assignListFrom source taken nodes).2)
  | [] => fun _ _ => rfl
  | node :: nodes => by
    intro source taken
    rw [withLimitsList, assignListFrom, assignListFrom, assignFrom_withLimits f node]
    generalize assignFrom source taken node = assigned
    obtain ⟨first, source, taken⟩ := assigned
    simp only
    rw [assignListFrom_withLimits f nodes]
    rfl

end

theorem counterparts_withLimit (f : Option Nat → Option Nat) (work : Work) (r : Result) :
    counterparts (work.withLimit f) r = counterparts work r := by
  cases work <;> rfl

theorem fitsResult_withLimit (f : Option Nat → Option Nat) (header : Header) (work : Work)
    (r : Result) : fitsResult header (work.withLimit f) r = fitsResult header work r := by
  rw [fitsResult, fitsResult, Work.kind_withLimit]

mutual

theorem adoptFrom_withLimits (f : Option Nat → Option Nat) : (node : Node) → ∀ taken result,
    adoptFrom taken (node.withLimits f) result =
      ((adoptFrom taken node result).1.withLimits f, (adoptFrom taken node result).2)
  | mk header work children => by
    intro taken result
    cases result with
    | none => rw [withLimits, adoptFrom, adoptFrom, withLimits]
    | some r =>
      rw [withLimits, adoptFrom, adoptFrom, fitsResult_withLimit, counterparts_withLimit,
        adoptListFrom_withLimits f children]
      generalize adoptListFrom taken children (counterparts work r) = adopted
      obtain ⟨kids, taken⟩ := adopted
      split
      · rw [withLimits]
      · cases hid : header.id <;> cases hrecorded : r.entry.id <;> simp only [withLimits]
        split <;> rw [withLimits]

theorem adoptListFrom_withLimits (f : Option Nat → Option Nat) : (nodes : List Node) →
    ∀ taken results, adoptListFrom taken (withLimitsList f nodes) results =
      (withLimitsList f (adoptListFrom taken nodes results).1, (adoptListFrom taken nodes results).2)
  | [] => fun _ _ => by
    rw [withLimitsList, adoptListFrom]
    rfl
  | node :: nodes => by
    intro taken results
    rw [withLimitsList, adoptListFrom, adoptListFrom, adoptFrom_withLimits f node]
    generalize adoptFrom taken node results.head?.join = adopted
    obtain ⟨first, taken⟩ := adopted
    simp only
    rw [adoptListFrom_withLimits f nodes]
    rfl

end

theorem assignIds_withLimits (f : Option Nat → Option Nat) (tree : Node) (source : IdSource) :
    (tree.withLimits f).assignIds source =
      (tree.assignIds source).map fun assigned => (assigned.1.withLimits f, assigned.2) := by
  rw [assignIds, assignIds, checkIds_withLimits, ids_withLimits, assignFrom_withLimits]
  split <;> rfl

theorem adoptIds_withLimits (f : Option Nat → Option Nat) (tree : Node) (previous : Result) :
    (tree.withLimits f).adoptIds previous =
      (tree.adoptIds previous).map fun adopted => adopted.withLimits f := by
  rw [adoptIds, adoptIds, checkIds_withLimits, ids_withLimits, adoptFrom_withLimits]
  split <;> rfl

/-- Identifiers and labels do not depend on limits. -/
theorem prepare_withLimits (f : Option Nat → Option Nat) {separator : String}
    {previous : Option Result} {ids rest : IdSource} {prepared : Node}
    (h : tree.prepare separator previous ids = .ok (prepared, rest)) :
    (tree.withLimits f).prepare separator previous ids = .ok (prepared.withLimits f, rest) := by
  have hassign (tree : Node)
      (h : (tree.assignIds ids >>= fun drawn => .ok (drawn.1.deriveLabels separator, drawn.2)) =
        .ok (prepared, rest)) :
      ((tree.withLimits f).assignIds ids >>= fun drawn =>
        .ok (drawn.1.deriveLabels separator, drawn.2)) = .ok (prepared.withLimits f, rest) := by
    rw [assignIds_withLimits]
    cases hassigned : tree.assignIds ids with
    | error cause => rw [hassigned] at h; cases h
    | ok assigned =>
      rw [hassigned] at h
      cases h
      exact congrArg (fun node => Except.ok (node, assigned.2))
        (deriveLabels_withLimits f assigned.1 separator)
  unfold prepare at h ⊢
  cases previous with
  | none => exact hassign tree h
  | some result =>
    simp only at h ⊢
    rw [deriveLabels_withLimits, adoptIds_withLimits]
    cases hadopted : (tree.deriveLabels separator).adoptIds result with
    | error cause => rw [hadopted] at h; cases h
    | ok adopted =>
      rw [hadopted] at h
      exact hassign adopted h

/-- A tree with other limits is sound unless one of them is zero. -/
theorem Sound.withLimits (h : tree.Sound) (hf : ∀ limit, f limit ≠ some 0) :
    (tree.withLimits f).Sound := by
  intro node hnode
  rw [walk_withLimits, List.mem_map] at hnode
  obtain ⟨node, hnode, rfl⟩ := hnode
  obtain ⟨hfits, hlimit⟩ := h node hnode
  rw [work_withLimits, children_withLimits, List.length_map]
  refine ⟨?_, Work.limit_withLimit hf hlimit⟩
  cases hwork : node.work <;> rw [hwork] at hfits <;> exact hfits

/-! ## Places -/

theorem at?_withLimits (f : Option Nat → Option Nat) (place : List Nat) (tree : Node) :
    (tree.withLimits f).at? place = (tree.at? place).map (Node.withLimits f) := by
  induction place generalizing tree with
  | nil => rw [at?_nil, at?_nil, Option.map_some]
  | cons i place ih =>
    rw [at?_cons, at?_cons, children_withLimits, List.getElem?_map, Option.map_bind,
      Option.bind_map]
    congr 1
    funext child
    exact ih child

theorem childPosition_withLimits (f : Option Nat → Option Nat) (node : Node) (i : Nat) :
    (node.withLimits f).childPosition i = node.childPosition i := by
  rw [childPosition, kind_withLimits, childPosition]

theorem placeOf_withLimits (f : Option Nat → Option Nat) (a : Address) (tree : Node) :
    (tree.withLimits f).placeOf a = tree.placeOf a := by
  induction a generalizing tree with
  | nil => rfl
  | cons i a ih =>
    rw [placeOf, placeOf, childPosition_withLimits, children_withLimits, List.getElem?_map]
    cases tree.children[tree.childPosition i]? with
    | none => rfl
    | some child => exact congrArg _ (ih child)

end Node
end Workflow
