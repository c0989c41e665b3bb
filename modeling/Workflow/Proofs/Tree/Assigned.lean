import Workflow.Proofs.Tree.Annotated

/-!
# Trees that are given identifiers

A tree is refused if two of its nodes carry one identifier. Every other tree gets an identifier on
every node and is left as it is otherwise.

* `IdSource.fresh_eq` says that the first identifier is drawn that is not taken.
* `Node.keepIds` takes identifiers off a tree again.
* `Node.Completed` says what is made of a tree, and `Node.assigns_of_injective` that this is so if no
  identifier is drawn twice.
-/

namespace Workflow

/-! ## Draws -/

namespace IdSource

/-- Draws end with one that is not taken or with the last try, and all before it are taken. -/
theorem freshWithin_eq (source : IdSource) (taken : List String) (tries : Nat) :
    ∃ k ≤ tries, source.freshWithin taken tries =
        (source.draw (source.drawn + k), { source with drawn := source.drawn + k + 1 }) ∧
      ∀ j < k, source.draw (source.drawn + j) ∈ taken := by
  induction tries generalizing source with
  | zero => exact ⟨0, Nat.le_refl 0, rfl, nofun⟩
  | succ tries ih =>
    rw [freshWithin]
    split
    · rename_i hfirst
      obtain ⟨k, hk, heq, hbefore⟩ := ih { source with drawn := source.drawn + 1 }
      simp only [Nat.add_assoc, Nat.add_comm 1] at heq hbefore
      refine ⟨k + 1, Nat.succ_le_succ hk, heq, fun j hj => ?_⟩
      cases j with
      | zero => exact List.contains_iff_mem.1 hfirst
      | succ j => exact hbefore j (Nat.lt_of_succ_lt_succ hj)
    · exact ⟨0, Nat.zero_le _, rfl, nofun⟩

/-- The first draw is given that is not taken; at most as many are passed over as are taken. -/
theorem fresh_eq {source : IdSource} (hsource : Function.Injective source.draw)
    (taken : List String) : ∃ k ≤ taken.length, source.fresh taken =
        (source.draw (source.drawn + k), { source with drawn := source.drawn + k + 1 }) ∧
      source.draw (source.drawn + k) ∉ taken ∧ ∀ j < k, source.draw (source.drawn + j) ∈ taken := by
  obtain ⟨k, hk, heq, hbefore⟩ := source.freshWithin_eq taken taken.length
  have hfree := fresh_not_mem hsource taken
  rw [fresh, heq] at hfree
  exact ⟨k, hk, heq, hfree, hbefore⟩

end IdSource

namespace Header

/-- The headers differ at most in their identifiers: one that is there is kept, and one that was missing
has been drawn and was not taken. -/
def Supplied (draw : Nat → String) (taken : List String) (header header' : Header) : Prop :=
  Identified header header' ∧
    (header.id = none → ∃ n, header'.id = some (draw n) ∧ draw n ∉ taken)

/-- A header is had back without an identifier that was not taken. -/
theorem Supplied.filter_id {draw : Nat → String} {taken : List String}
    {header header' : Header} (h : Supplied draw taken header header')
    (hsub : header.id.toList ⊆ taken) :
    { header' with id := header'.id.filter taken.contains } = header := by
  have hid : header'.id.filter taken.contains = header.id := by
    cases hid : header.id with
    | none =>
      obtain ⟨n, hn, hfree⟩ := h.2 hid
      rw [hn, Option.filter_some, if_neg (by simpa using hfree)]
    | some id =>
      have hmem : id ∈ taken := hsub (by simp [hid])
      rw [h.1.2 (by rw [hid]; rfl), hid, Option.filter_some, if_pos (by simpa using hmem)]
  rw [hid, h.1.1]

end Header

namespace Node

variable {tree tree' : Node} {taken : List String} {source : IdSource}

/-! ## Assignment -/

mutual

/-- Nodes without an identifier get one that was not taken, and what was taken stays so. -/
theorem supplied_assignFrom : (node : Node) → ∀ source taken, Function.Injective source.draw →
    Related (Header.Supplied source.draw taken) node (assignFrom source taken node).1 ∧
      taken ⊆ (assignFrom source taken node).2.2
  | mk header work children => by
    intro source taken hsource
    obtain ⟨⟨hlength, hkids⟩, hsub⟩ := supplied_assignListFrom children source taken hsource
    have hdraw := (related_assignListFrom children source taken).2
    rw [assignFrom]
    split
    rename_i kids rest taken' heq
    rw [heq] at hlength hkids hsub hdraw
    split
    · rename_i id hid
      refine ⟨.mk ⟨.refl header, fun hnone => ?_⟩ hlength hkids, hsub⟩
      rw [hid] at hnone
      cases hnone
    · rename_i hnone
      obtain ⟨k, -, hfresh, hfree, -⟩ := IdSource.fresh_eq (hdraw ▸ hsource) taken'
      rw [hfresh]
      rw [hdraw] at hfree ⊢
      exact ⟨.mk ⟨.of_none hnone _, fun _ => ⟨_, rfl, fun hmem => hfree (hsub hmem)⟩⟩ hlength hkids,
        fun _ hid => List.mem_cons_of_mem _ (hsub hid)⟩

theorem supplied_assignListFrom : (nodes : List Node) → ∀ source taken,
    Function.Injective source.draw →
    RelatedList (Header.Supplied source.draw taken) nodes (assignListFrom source taken nodes).1 ∧
      taken ⊆ (assignListFrom source taken nodes).2.2
  | [] => fun _ _ _ => ⟨.nil, fun _ hid => hid⟩
  | node :: nodes => by
    intro source taken hsource
    obtain ⟨hnode, hsub⟩ := supplied_assignFrom node source taken hsource
    have hdraw := (related_assignFrom node source taken).2
    rw [assignListFrom]
    split
    rename_i first between taken' heq
    rw [heq] at hnode hsub hdraw
    obtain ⟨hnodes, hsub'⟩ := supplied_assignListFrom nodes between taken' (hdraw ▸ hsource)
    split
    rename_i others rest taken'' heq'
    rw [heq'] at hnodes hsub'
    rw [hdraw] at hnodes
    refine ⟨.cons hnode ⟨hnodes.1, fun i other other' hother hother' => ?_⟩,
      fun _ hid => hsub' (hsub hid)⟩
    exact (hnodes.2 i other other' hother hother').mono fun _ _ h =>
      ⟨h.1, fun hnone => (h.2 hnone).imp fun _ hn => ⟨hn.1, fun hmem => hn.2 (hsub hmem)⟩⟩

end

/-! ## Taking identifiers off again -/

mutual

/-- The tree with no other identifiers than the given ones. -/
def keepIds (kept : List String) : Node → Node
  | mk header work children =>
    mk { header with id := header.id.filter kept.contains } work (keepIdsList kept children)

/-- The trees with no other identifiers than the given ones. -/
def keepIdsList (kept : List String) : List Node → List Node
  | [] => []
  | node :: nodes => keepIds kept node :: keepIdsList kept nodes

end

theorem keepIdsList_eq_map (kept : List String) (nodes : List Node) :
    keepIdsList kept nodes = nodes.map (keepIds kept) := by
  induction nodes with
  | nil => rw [keepIdsList, List.map_nil]
  | cons node nodes ih => rw [keepIdsList, ih, List.map_cons]

/-- The tree is had back without the identifiers that were not taken. -/
theorem keepIds_of_supplied {draw : Nat → String}
    (h : Related (Header.Supplied draw taken) tree tree') (hsub : tree.ids ⊆ taken) :
    tree'.keepIds taken = tree := by
  induction h with
  | @mk header header' work children children' hheader hlength hkids ih =>
    rw [ids_mk] at hsub
    rw [keepIds, hheader.filter_id fun _ hid => hsub (List.mem_append_left _ hid),
      keepIdsList_eq_map]
    congr 1
    refine List.ext_getElem? fun i => ?_
    rw [List.getElem?_map]
    cases hchild : children[i]? with
    | none =>
      rw [List.getElem?_eq_none (hlength ▸ List.getElem?_eq_none_iff.1 hchild), Option.map_none]
    | some child =>
      have hlt : i < children'.length := hlength ▸ (List.getElem?_eq_some_iff.1 hchild).1
      have hchild' := List.getElem?_eq_getElem hlt
      rw [hchild', Option.map_some, ih i child _ hchild hchild' fun id hid => hsub ?_]
      exact List.mem_append_right _
        (List.mem_flatMap.2 ⟨child, List.mem_of_getElem? hchild, hid⟩)

/-! ## What is made of a tree -/

/-- What a tree is once every node has an identifier. -/
structure Completed (source : IdSource) (tree tree' : Node) : Prop where
  /-- Every node has an identifier. -/
  identified : ∀ node ∈ tree'.walk, node.id.isSome
  /-- No two nodes have one identifier. -/
  distinct : tree'.ids.Nodup
  /-- Nodes at the same places do the same work and have the same headers but for identifiers that were
  missing; these have been drawn, and the tree had none of them. -/
  supplied : Related (Header.Supplied source.draw tree.ids) tree tree'
  /-- Without the identifiers that the tree did not have it is the tree that it was. -/
  kept : tree'.keepIds tree.ids = tree
  /-- It is left as it is from then on, and no identifier is drawn. -/
  assigned : ∀ source', tree'.assignIds source' = .ok (tree', source')

/-- Which trees are given identifiers, and what is made of them. -/
structure Assigns (source : IdSource) (tree : Node) : Prop where
  /-- A tree is refused if and only if two of its nodes carry one identifier. -/
  refused_iff : (∃ cause, tree.assignIds source = .error cause) ↔ ¬ tree.ids.Nodup
  /-- The identifier that is named is carried by two nodes. -/
  repeated : ∀ cause, tree.assignIds source = .error cause → 2 ≤ tree.ids.count cause.id
  /-- Every other tree is completed. -/
  completed : tree.ids.Nodup →
    ∃ tree' rest, tree.assignIds source = .ok (tree', rest) ∧ Completed source tree tree'

/-- A tree that gets what it lacks is completed. -/
theorem completed_assignFrom (hsource : Function.Injective source.draw) (hnodup : tree.ids.Nodup) :
    Completed source tree (assignFrom source tree.ids tree).1 := by
  have hsupplied := (supplied_assignFrom tree source tree.ids hsource).1
  have hdistinct : (assignFrom source tree.ids tree).1.ids.Nodup :=
    (extends_assignFrom tree source tree.ids hsource hnodup fun _ hid => hid).nodup
  have hidentified : ∀ node ∈ (assignFrom source tree.ids tree).1.walk, node.id.isSome := by
    intro node hnode
    obtain ⟨first, _, _, hheader⟩ := hsupplied.exists_mem_walk hnode
    rw [Node.id]
    cases hid : first.header.id with
    | some id => rw [hheader.1.2 (by rw [hid]; rfl), hid]; rfl
    | none =>
      obtain ⟨n, hn, _⟩ := hheader.2 hid
      rw [hn]
      rfl
  refine ⟨hidentified, hdistinct, hsupplied, keepIds_of_supplied hsupplied fun _ hid => hid,
    fun source' => ?_⟩
  rw [assignIds_of_nodup hdistinct, assignFrom_of_identified _ source' _ hidentified]

/-- Every tree is refused or completed, if no identifier is drawn twice. -/
theorem assigns_of_injective (hsource : Function.Injective source.draw) (tree : Node) :
    Assigns source tree := by
  have hrefused {cause : DuplicateId} (h : tree.assignIds source = .error cause) :
      tree.checkIds = .error cause := by
    unfold assignIds at h
    split at h
    · rename_i hcheck
      rw [hcheck, ← Except.error.inj h]
    · cases h
  refine ⟨⟨?_, fun hrepeat => ?_⟩, fun cause h => count_of_checkIds (hrefused h), fun hnodup => ?_⟩
  · rintro ⟨cause, h⟩ hnodup
    rw [assignIds_of_nodup hnodup] at h
    cases h
  · cases h : tree.assignIds source with
    | error cause => exact ⟨cause, rfl⟩
    | ok assigned => exact absurd (nodup_of_assignIds h) hrepeat
  · exact ⟨_, _, assignIds_of_nodup hnodup source, completed_assignFrom hsource hnodup⟩

/-- The first identifier of the source that counts is that of the second step already. -/
theorem assigns_of_injective_sequence : Function.Injective IdSource.counting.draw ∧
    Assigns IdSource.counting (.mk {} .sequence [.mk {} (.step "first" none) [],
      .mk { id := some "00000000000000000000000000000001" } (.step "second" none) []]) :=
  ⟨IdSource.draw_countingFrom_injective 1,
    assigns_of_injective (IdSource.draw_countingFrom_injective 1) _⟩

/-- The identifier that is there already is passed over. -/
example : ((assignFrom .counting ["00000000000000000000000000000001"] (.mk {} .sequence
    [.mk {} (.step "first" none) [],
      .mk { id := some "00000000000000000000000000000001" } (.step "second" none) []])).1.ids) =
    ["00000000000000000000000000000003", "00000000000000000000000000000002",
      "00000000000000000000000000000001"] := by
  decide +kernel

end Node
end Workflow
