import Workflow.Proofs.Tree.Distinct

/-!
# Trees that are prepared

A tree that every pass of the preparation leaves as it is has an identifier on every node, all of them
distinct, and its labels are those that are derived.

* `Node.Annotated` says so of a tree.
* `Node.annotated_of_prepare` says that preparation makes such trees, and `Node.Annotated.prepare` that
  it leaves them as they are, whatever they are resumed from.
* `Node.related_of_prepare` says that it changes nothing but labels and missing identifiers.
-/

namespace Workflow

/-- The headers differ at most in their labels and in their identifiers, and an identifier is kept. -/
def Header.Marked (header header' : Header) : Prop :=
  header' = { header with id := header'.id, label := header'.label } ∧
    (header.id.isSome → header'.id = header.id)

theorem Header.Marked.of_labelled {header between header' : Header} (h : Labelled header between)
    (h' : Identified between header') : Marked header header' := by
  have hid := h.id
  refine ⟨?_, fun hsome => ?_⟩
  · rw [h'.1, h]
  · rw [h'.2 (by rw [hid]; exact hsome), hid]

namespace Node

variable {tree tree' : Node} {separator : String} {previous : Option Result} {ids rest : IdSource}

/-- The tree is as preparation leaves it. -/
structure Annotated (separator : String) (tree : Node) : Prop where
  /-- Every node has an identifier. -/
  identified : ∀ node ∈ tree.walk, node.id.isSome
  /-- No two nodes have one identifier. -/
  distinct : tree.ids.Nodup
  /-- The labels are those that are derived. -/
  labelled : tree.deriveLabels separator = tree

/-! ## Passes that leave a tree as it is -/

mutual

/-- Where every node has an identifier none is drawn. -/
theorem assignFrom_of_identified : (node : Node) → ∀ (source : IdSource) (taken : List String),
    (∀ below ∈ node.walk, below.id.isSome) → assignFrom source taken node = (node, source, taken)
  | mk header work children => by
    intro source taken hids
    have hself := hids _ (mem_walk_self _)
    have hchildren := assignListFrom_of_identified children source taken fun child hchild below hbelow =>
      hids below (mem_walk_mk_iff.2 (.inr ⟨child, hchild, hbelow⟩))
    obtain ⟨id, hid⟩ := Option.isSome_iff_exists.1 hself
    change header.id = some id at hid
    rw [assignFrom, hchildren]
    simp only [hid]

theorem assignListFrom_of_identified : (nodes : List Node) → ∀ (source : IdSource)
    (taken : List String), (∀ node ∈ nodes, ∀ below ∈ node.walk, below.id.isSome) →
    assignListFrom source taken nodes = (nodes, source, taken)
  | [] => fun _ _ _ => by rw [assignListFrom]
  | node :: nodes => by
    intro source taken hids
    rw [List.forall_mem_cons] at hids
    rw [assignListFrom, assignFrom_of_identified node source taken hids.1]
    simp only
    rw [assignListFrom_of_identified nodes source taken hids.2]

end

mutual

/-- Where every node has an identifier none is taken over. -/
theorem adoptFrom_of_identified : (node : Node) → ∀ (taken : List String) (result : Option Result),
    (∀ below ∈ node.walk, below.id.isSome) → adoptFrom taken node result = (node, taken)
  | mk header work children => by
    intro taken result hids
    have hself := hids _ (mem_walk_self _)
    obtain ⟨id, hid⟩ := Option.isSome_iff_exists.1 hself
    change header.id = some id at hid
    cases result with
    | none => rw [adoptFrom]
    | some result =>
      have hchildren := adoptListFrom_of_identified children taken (counterparts work result)
        fun child hchild below hbelow =>
          hids below (mem_walk_mk_iff.2 (.inr ⟨child, hchild, hbelow⟩))
      rw [adoptFrom]
      split
      · rfl
      · rw [hchildren]
        simp only [hid]

theorem adoptListFrom_of_identified : (nodes : List Node) → ∀ (taken : List String)
    (results : List (Option Result)), (∀ node ∈ nodes, ∀ below ∈ node.walk, below.id.isSome) →
    adoptListFrom taken nodes results = (nodes, taken)
  | [] => fun _ _ _ => by rw [adoptListFrom]
  | node :: nodes => by
    intro taken results hids
    rw [List.forall_mem_cons] at hids
    rw [adoptListFrom, adoptFrom_of_identified node taken _ hids.1]
    simp only
    rw [adoptListFrom_of_identified nodes taken _ hids.2]

end

/-- A tree that is prepared is left as it is, whatever it is resumed from, and no identifier is
drawn. -/
theorem Annotated.prepare (h : tree.Annotated separator) (previous : Option Result)
    (ids : IdSource) : tree.prepare separator previous ids = .ok (tree, ids) := by
  have hassign : tree.assignIds ids = .ok (tree, ids) := by
    rw [assignIds_of_nodup h.distinct, assignFrom_of_identified tree ids _ h.identified]
  cases previous with
  | none =>
    unfold Node.prepare
    simp only [bind, Except.bind, pure, Except.pure, hassign, h.labelled]
  | some result =>
    have hadopt : tree.adoptIds result = .ok tree := by
      rw [adoptIds, checkIds_eq_ok_iff.2 h.distinct]
      simp only
      rw [adoptFrom_of_identified tree _ _ h.identified]
    unfold Node.prepare
    simp only [bind, Except.bind, pure, Except.pure, h.labelled, hadopt, hassign]

/-! ## What preparation makes of a tree -/

/-- Every node has an identifier once those that are missing have been drawn. -/
theorem identified_of_prepare (h : tree.prepare separator previous ids = .ok (tree', rest)) :
    ∀ node ∈ tree'.walk, node.id.isSome := by
  obtain ⟨assigned, hassigned, rfl⟩ := prepare_eq h
  intro node' hnode'
  obtain ⟨node, hnode, _, hlabelled⟩ :=
    (related_labelUnder separator assigned []).exists_mem_walk hnode'
  obtain ⟨first, _, _, hdrawn⟩ := (related_assignIds hassigned).exists_mem_walk hnode
  rw [Node.id, hlabelled.id]
  cases hid : first.header.id with
  | some id => rw [hdrawn.1.2 (by rw [hid]; rfl), hid]; rfl
  | none =>
    obtain ⟨n, hn⟩ := hdrawn.2 hid
    rw [hn]
    rfl

/-- A tree that has been prepared is as preparation leaves it. -/
theorem annotated_of_prepare (hids : Function.Injective ids.draw)
    (h : tree.prepare separator previous ids = .ok (tree', rest)) : tree'.Annotated separator where
  identified := identified_of_prepare h
  distinct := nodup_prepare hids h
  labelled := by
    obtain ⟨assigned, _, rfl⟩ := prepare_eq h
    exact labelUnder_labelUnder separator assigned []

/-- Preparation changes nothing but labels and identifiers that are missing. -/
theorem related_of_prepare (h : tree.prepare separator previous ids = .ok (tree', rest)) :
    Related Header.Marked tree tree' :=
  (related_labelUnder separator tree []).trans (related_prepare h)
    fun _ _ _ => Header.Marked.of_labelled

end Node
end Workflow
