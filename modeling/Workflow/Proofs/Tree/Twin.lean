import Workflow.Proofs.Tree.Independence
import Workflow.Proofs.Tree.Route

/-!
# Trees that do the same

Identifiers and limits do not matter to what comes of the nodes of a tree. Trees that differ in nothing
else have the same places, paths and bindings.

* `Node.Twin` says that two trees differ in nothing else.
* `Node.Twin.at?` and `Node.Twin.segmentsTo` say that they have the same places and paths.
* `State.Shape.twin` says that nodes at one address of their runs are twins.
-/

namespace Workflow

/-! ## Work without limits -/

namespace Work

variable {work work' : Work}

theorem layout_unlimited (work : Work) : work.unlimited.layout = work.layout := by
  cases work <;> rfl

theorem instanceNames_unlimited (work : Work) : work.unlimited.instanceNames = work.instanceNames := by
  cases work <;> rfl

theorem kidSegment_unlimited (work : Work) (i : Nat) :
    Live.kidSegment work.unlimited i = Live.kidSegment work i := by
  cases work <;> rfl

/-- Work other than that of groups has no limit. -/
theorem unlimited_of_not_group (h : work.kind.isGroup = false) : work.unlimited = work := by
  cases work with
  | step => rfl
  | sequence => rfl
  | branch => rfl
  | parallel => cases h
  | race => cases h
  | loop => cases h

end Work

/-- The headers agree in the inputs and in the label. -/
def Header.Twin (header header' : Header) : Prop :=
  header'.inputs = header.inputs ∧ header'.label = header.label

namespace Node

variable {tree tree' tree'' node : Node} {place : List Nat} {r : Header → Header → Prop}

/-- The trees differ at most in identifiers, names, what editors attach, and limits. -/
def Twin (tree tree' : Node) : Prop :=
  Related Header.Twin tree.unlimited tree'.unlimited

theorem Related.withLimits (h : Related r tree tree') (f : Option Nat → Option Nat) :
    Related r (tree.withLimits f) (tree'.withLimits f) := by
  induction h with
  | @mk header header' work children children' hheader hlength _ ih =>
    rw [Node.withLimits, Node.withLimits, withLimitsList_eq_map, withLimitsList_eq_map]
    refine .mk hheader (by simp [hlength]) fun i child child' hchild hchild' => ?_
    rw [List.getElem?_map, Option.map_eq_some_iff] at hchild hchild'
    obtain ⟨child, hchild, rfl⟩ := hchild
    obtain ⟨child', hchild', rfl⟩ := hchild'
    exact ih i child child' hchild hchild'

namespace Twin

theorem refl (tree : Node) : Twin tree tree :=
  Related.refl (fun _ => ⟨rfl, rfl⟩) _

theorem symm (h : Twin tree tree') : Twin tree' tree := by
  refine Related.mono (r := fun header header' => Header.Twin header' header) ?_
    fun header header' hheader => ⟨hheader.1.symm, hheader.2.symm⟩
  unfold Twin at h
  generalize tree.unlimited = first at h
  generalize tree'.unlimited = second at h
  induction h with
  | mk hheader hlength _ ih =>
    exact .mk hheader hlength.symm fun i child child' hchild hchild' => ih i child' child hchild' hchild

theorem trans (h : Twin tree tree') (h' : Twin tree' tree'') : Twin tree tree'' :=
  Related.trans h h' fun _ _ _ hfirst hsecond =>
    ⟨hsecond.1.trans hfirst.1, hsecond.2.trans hfirst.2⟩

theorem of_related (h : Related Header.Identified tree tree') : Twin tree tree' := by
  refine (h.withLimits _).mono fun header header' hheader => ?_
  rw [hheader.1]
  exact ⟨rfl, rfl⟩

theorem withLimits (f : Option Nat → Option Nat) (tree : Node) : Twin tree (tree.withLimits f) := by
  unfold Twin
  rw [unlimited_withLimits]
  exact refl tree

/-! ## What twins share -/

theorem inputs (h : Twin tree tree') : tree'.header.inputs = tree.header.inputs := by
  have := (Related.header h).1
  rwa [unlimited, unlimited, header_withLimits, header_withLimits] at this

theorem label (h : Twin tree tree') : tree'.label = tree.label := by
  have := (Related.header h).2
  rwa [unlimited, unlimited, header_withLimits, header_withLimits] at this

theorem work (h : Twin tree tree') : tree'.work.unlimited = tree.work.unlimited := by
  have := Related.work h
  rwa [unlimited, unlimited, work_withLimits, work_withLimits] at this

theorem kind (h : Twin tree tree') : tree'.kind = tree.kind :=
  Work.kind_eq_of_unlimited h.work

theorem layout (h : Twin tree tree') : tree'.work.layout = tree.work.layout := by
  rw [← Work.layout_unlimited, h.work, Work.layout_unlimited]

theorem instanceNames (h : Twin tree tree') :
    tree'.work.instanceNames = tree.work.instanceNames := by
  rw [← Work.instanceNames_unlimited, h.work, Work.instanceNames_unlimited]

theorem kidSegment (h : Twin tree tree') (i : Nat) :
    Live.kidSegment tree'.work i = Live.kidSegment tree.work i := by
  rw [← Work.kidSegment_unlimited, h.work, Work.kidSegment_unlimited]

/-- Nodes that are no groups do the same work. -/
theorem work_eq (h : Twin tree tree') (hkind : tree.kind.isGroup = false) : tree'.work = tree.work := by
  have hwork : tree.work.unlimited = tree.work := Work.unlimited_of_not_group hkind
  rw [← hwork, ← h.work]
  refine (Work.unlimited_of_not_group ?_).symm
  rw [← h.kind] at hkind
  exact hkind

/-- Loops differ in their limits only. -/
theorem exists_loop {source : Binding} {itemName : String} {indexName : Option String}
    {limit : Option Nat} (h : Twin tree tree')
    (hwork : tree.work = .loop source itemName indexName limit) :
    ∃ limit', tree'.work = .loop source itemName indexName limit' := by
  have hsame := h.work
  rw [hwork] at hsame
  cases hwork' : tree'.work with
  | loop source' itemName' indexName' limit' =>
    rw [hwork'] at hsame
    cases hsame
    exact ⟨limit', rfl⟩
  | _ => rw [hwork'] at hsame; cases hsame

theorem length_children (h : Twin tree tree') : tree'.children.length = tree.children.length := by
  have := Related.length_children h
  simpa [unlimited] using this

theorem child {i : Nat} (h : Twin tree tree') (hnode : tree.children[i]? = some node) :
    ∃ node', tree'.children[i]? = some node' ∧ Twin node node' := by
  have hfirst : tree.unlimited.children[i]? = some node.unlimited := by
    rw [unlimited, children_withLimits, List.getElem?_map, hnode]
    rfl
  obtain ⟨other, hother, hrelated⟩ := Related.child h hfirst
  rw [unlimited, children_withLimits, List.getElem?_map, Option.map_eq_some_iff] at hother
  obtain ⟨node', hnode', rfl⟩ := hother
  exact ⟨node', hnode', hrelated⟩

theorem kidAt {i : Nat} (h : Twin tree tree') (hnode : tree.kidAt i = some node) :
    ∃ node', tree'.kidAt i = some node' ∧ Twin node node' := by
  rw [kidAt_eq] at hnode ⊢
  rw [childPosition, h.kind]
  exact h.child hnode

/-! ## Places and paths -/

theorem at? (h : Twin tree tree') (hnode : tree.at? place = some node) :
    ∃ node', tree'.at? place = some node' ∧ Twin node node' := by
  have hfirst : tree.unlimited.at? place = some node.unlimited := by
    rw [unlimited, at?_withLimits, hnode]
    rfl
  obtain ⟨other, hother, hrelated⟩ := Related.at? h hfirst
  rw [unlimited, at?_withLimits, Option.map_eq_some_iff] at hother
  obtain ⟨node', hnode', rfl⟩ := hother
  exact ⟨node', hnode', hrelated⟩

theorem placeOf (h : Twin tree tree') (a : Address) : tree'.placeOf a = tree.placeOf a := by
  have := Related.placeOf h a
  rwa [unlimited, unlimited, placeOf_withLimits, placeOf_withLimits] at this

/-- Nodes at one address have one path. -/
theorem segmentsTo (h : Twin tree tree') (a : Address) : tree'.segmentsTo a = tree.segmentsTo a := by
  induction a generalizing tree tree' with
  | nil => rw [Node.segmentsTo, Node.segmentsTo]
  | cons i a ih =>
    rw [Node.segmentsTo, Node.segmentsTo, h.kidSegment]
    cases hchild : tree.kidAt i with
    | some child =>
      obtain ⟨child', hchild', htwin⟩ := h.kidAt hchild
      rw [hchild']
      exact congrArg (_ :: ·) (ih htwin)
    | none =>
      have hchild' : tree'.kidAt i = none := by
        by_contra hsome
        obtain ⟨child', hchild'⟩ := Option.ne_none_iff_exists'.1 hsome
        obtain ⟨child, hsome, _⟩ := h.symm.kidAt hchild'
        rw [hchild] at hsome
        cases hsome
      rw [hchild']

/-- Whether bindings cross does not depend on identifiers and limits. -/
theorem independent (h : Twin tree tree') (htree : tree.Independent) : tree'.Independent := by
  have hunlimited : tree'.unlimited.Independent :=
    Related.independent h (fun _ _ hheader => hheader.1) (htree.withLimits _)
  rintro place node expression segments hnode hmem hparse
    ⟨above, i, j, below, below', group, hplace, hother, hij, hgroup, hkind⟩
  refine hunlimited place node.unlimited expression segments ?_ ?_ hparse
    ⟨above, i, j, below, below', group.unlimited, hplace, ?_, hij, ?_, ?_⟩
  · rw [unlimited, at?_withLimits, hnode]
    rfl
  · rw [unlimited, expressions_withLimits]
    exact hmem
  · rw [unlimited, route_withLimits]
    exact hother
  · rw [unlimited, at?_withLimits, hgroup]
    rfl
  · rw [unlimited, kind_withLimits]
    exact hkind

end Twin

end Node

/-! ## Nodes of two runs -/

namespace State

variable {tree tree' : Node} {s s' : State} {a b : Address} {job job' : Job}

/-- Nodes at one address of runs of twins are twins. -/
theorem Shape.twin (h : Shape tree s) (h' : Shape tree' s') (htwin : tree.Twin tree')
    (hjob : s.jobAt a = some job) (hjob' : s'.jobAt a = some job') : job.node.Twin job'.node := by
  obtain ⟨node', hnode', hnodes⟩ := htwin.at? (h.at?_placeOf hjob)
  rw [← htwin.placeOf, h'.at?_placeOf hjob', Option.some.injEq] at hnode'
  rwa [hnode']

theorem Shape.twin_path (h : Shape tree s) (h' : Shape tree' s') (htwin : tree.Twin tree')
    (hjob : s.jobAt a = some job) (hjob' : s'.jobAt a = some job') :
    job'.entry.path = job.entry.path := by
  rw [h'.path_eq_format hjob', h.path_eq_format hjob, htwin.segmentsTo]

end State
end Workflow
