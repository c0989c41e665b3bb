import Workflow.Proofs.Node.Sound
import Workflow.Run.Execute

/-!
# Trees that differ in their headers

Labels and identifiers are put into the headers of nodes and change nothing else.

* `Node.Related` says that the nodes at the same places of two trees do the same work and have
  headers in a relation.
* `Node.related_labelUnder`, `Node.related_assignFrom` and `Node.related_adoptFrom` say which
  headers change how, and `Node.related_prepare` what the preparation of a run changes.
-/

namespace Workflow

namespace IdSource

/-- What is drawn within some tries is one of the draws of the source. -/
theorem exists_draw_freshWithin (source : IdSource) (taken : List String) (tries : Nat) :
    ∃ n, (source.freshWithin taken tries).1 = source.draw n := by
  induction tries generalizing source with
  | zero => exact ⟨_, rfl⟩
  | succ tries ih =>
    rw [freshWithin]
    split
    · exact ih { source with drawn := source.drawn + 1 }
    · exact ⟨_, rfl⟩

theorem exists_draw_fresh (source : IdSource) (taken : List String) :
    ∃ n, (source.fresh taken).1 = source.draw n :=
  source.exists_draw_freshWithin taken taken.length

/-- Draws leave what the source gives. -/
theorem draw_freshWithin (source : IdSource) (taken : List String) (tries : Nat) :
    (source.freshWithin taken tries).2.draw = source.draw := by
  induction tries generalizing source with
  | zero => rfl
  | succ tries ih =>
    rw [freshWithin]
    split
    · exact ih { source with drawn := source.drawn + 1 }
    · rfl

theorem draw_fresh (source : IdSource) (taken : List String) :
    (source.fresh taken).2.draw = source.draw :=
  source.draw_freshWithin taken taken.length

end IdSource

namespace Header

/-- The headers differ at most in their labels. -/
def Labelled (header header' : Header) : Prop :=
  header' = { header with label := header'.label }

theorem Labelled.id {header header' : Header} (h : Labelled header header') :
    header'.id = header.id := by
  rw [h]

/-- The headers differ at most in their identifiers, and an identifier is kept. -/
def Identified (header header' : Header) : Prop :=
  header' = { header with id := header'.id } ∧ (header.id.isSome → header'.id = header.id)

theorem Identified.refl (header : Header) : Identified header header :=
  ⟨rfl, fun _ => rfl⟩

theorem Identified.trans {first second third : Header} (h : Identified first second)
    (h' : Identified second third) : Identified first third := by
  refine ⟨?_, fun hsome => ?_⟩
  · rw [h'.1, h.1]
  · have hid := h.2 hsome
    rw [h'.2 (by rw [hid]; exact hsome), hid]

theorem Identified.of_none {header : Header} (h : header.id = none) (id : Option String) :
    Identified header { header with id } :=
  ⟨rfl, fun hsome => by rw [h] at hsome; cases hsome⟩

/-- The headers differ at most in their identifiers, and an identifier that was missing has been
drawn. -/
def Drawn (draw : Nat → String) (header header' : Header) : Prop :=
  Identified header header' ∧ (header.id = none → ∃ n, header'.id = some (draw n))

theorem Drawn.of_some {draw : Nat → String} {header : Header} {id : String}
    (h : header.id = some id) : Drawn draw header header :=
  ⟨.refl header, fun hnone => by rw [h] at hnone; cases hnone⟩

end Header

namespace Node

variable {r r' : Header → Header → Prop} {tree tree' tree'' : Node}

/-- The nodes of two trees do the same work at the same places and have headers in a relation. -/
inductive Related (r : Header → Header → Prop) : Node → Node → Prop
  | mk {header header' : Header} {work : Work} {children children' : List Node} :
    r header header' → children'.length = children.length →
    (∀ (i : Nat) (child child' : Node), children[i]? = some child →
      children'[i]? = some child' → Related r child child') →
    Related r (mk header work children) (mk header' work children')

namespace Related

theorem header (h : Related r tree tree') : r tree.header tree'.header := by
  cases h with
  | mk hheader => exact hheader

theorem work (h : Related r tree tree') : tree'.work = tree.work := by
  cases h
  rfl

theorem kind (h : Related r tree tree') : tree'.kind = tree.kind := by
  rw [Node.kind, h.work, Node.kind]

theorem length_children (h : Related r tree tree') :
    tree'.children.length = tree.children.length := by
  cases h with
  | mk _ hlength => exact hlength

/-- The child at a place is related to the child at the same place. -/
theorem child {i : Nat} {node : Node} (h : Related r tree tree')
    (hnode : tree.children[i]? = some node) :
    ∃ node', tree'.children[i]? = some node' ∧ Related r node node' := by
  cases h with
  | @mk _ _ _ children children' _ hlength hkids =>
    have hlt : i < children'.length := by
      rw [hlength]
      exact (List.getElem?_eq_some_iff.1 hnode).1
    have hnode' := List.getElem?_eq_getElem hlt
    exact ⟨_, hnode', hkids i node _ hnode hnode'⟩

theorem child' {i : Nat} {node' : Node} (h : Related r tree tree')
    (hnode : tree'.children[i]? = some node') :
    ∃ node, tree.children[i]? = some node ∧ Related r node node' := by
  cases h with
  | @mk _ _ _ children children' _ hlength hkids =>
    have hlt : i < children.length := by
      rw [← hlength]
      exact (List.getElem?_eq_some_iff.1 hnode).1
    have hnode' := List.getElem?_eq_getElem hlt
    exact ⟨_, hnode', hkids i _ node' hnode' hnode⟩

theorem refl (hr : ∀ header, r header header) (tree : Node) : Related r tree tree := by
  induction tree using Node.ind with
  | mk header work children ih =>
    refine .mk (hr header) rfl fun i child child' hchild hchild' => ?_
    rw [hchild, Option.some.injEq] at hchild'
    rw [← hchild']
    exact ih child (List.mem_of_getElem? hchild)

theorem mono (h : Related r tree tree')
    (hr : ∀ header header', r header header' → r' header header') : Related r' tree tree' := by
  induction h with
  | mk hheader hlength _ ih =>
    exact .mk (hr _ _ hheader) hlength fun i child child' hchild hchild' =>
      ih i child child' hchild hchild'

theorem trans {r'' : Header → Header → Prop} (h : Related r tree tree')
    (h' : Related r' tree' tree'')
    (hr : ∀ first second third, r first second → r' second third → r'' first third) :
    Related r'' tree tree'' := by
  induction h generalizing tree'' with
  | @mk header header' work children children' hheader hlength hkids ih =>
    cases h' with
    | @mk _ _ _ _ children'' hheader' hlength' hkids' =>
      refine .mk (hr _ _ _ hheader hheader') (hlength'.trans hlength)
        fun i child child'' hchild hchild'' => ?_
      have hlt : i < children'.length := by
        rw [← hlength']
        exact (List.getElem?_eq_some_iff.1 hchild'').1
      have hchild' := List.getElem?_eq_getElem hlt
      exact ih i child _ hchild hchild' (hkids' i _ child'' hchild' hchild'')

/-- A tree is sound if its root and the trees of its children are. -/
theorem sound_mk_iff {header : Header} {work : Work} {children : List Node} :
    (Node.mk header work children).Sound ↔
      (Fits work children.length ∧ work.limit ≠ some 0) ∧ ∀ child ∈ children, child.Sound := by
  constructor
  · intro h
    exact ⟨⟨h.fits, h.limit⟩, fun child hchild => h.of_mem_children hchild⟩
  · rintro ⟨hroot, hchildren⟩ node hnode
    rcases mem_walk_mk_iff.1 hnode with rfl | ⟨child, hchild, hnode⟩
    · exact hroot
    · exact hchildren child hchild node hnode

/-- Headers do not matter to whether a tree is sound. -/
theorem sound (h : Related r tree tree') (htree : tree.Sound) : tree'.Sound := by
  induction h with
  | @mk header header' work children children' _ hlength hkids ih =>
    rw [sound_mk_iff] at htree
    rw [sound_mk_iff, hlength]
    refine ⟨htree.1, fun child' hchild' => ?_⟩
    obtain ⟨i, hi⟩ := List.getElem?_of_mem hchild'
    have hlt : i < children.length := by
      rw [← hlength]
      exact (List.getElem?_eq_some_iff.1 hi).1
    have hchild := List.getElem?_eq_getElem hlt
    exact ih i _ child' hchild hi (htree.2 _ (List.mem_of_getElem? hchild))

/-- Every node of one tree does the work of a node of the other one, and their headers are related. -/
theorem exists_mem_walk (h : Related r tree tree') {node' : Node} (hnode' : node' ∈ tree'.walk) :
    ∃ node ∈ tree.walk, node'.work = node.work ∧ r node.header node'.header := by
  induction h with
  | @mk header header' work children children' hheader hlength hkids ih =>
    rcases mem_walk_mk_iff.1 hnode' with rfl | ⟨child', hchild', hnode'⟩
    · exact ⟨_, mem_walk_self _, rfl, hheader⟩
    · obtain ⟨i, hi⟩ := List.getElem?_of_mem hchild'
      have hlt : i < children.length := by
        rw [← hlength]
        exact (List.getElem?_eq_some_iff.1 hi).1
      have hchild := List.getElem?_eq_getElem hlt
      obtain ⟨node, hnode, hboth⟩ := ih i _ child' hchild hi hnode'
      exact ⟨node, mem_walk_mk_iff.2 (.inr ⟨_, List.mem_of_getElem? hchild, hnode⟩), hboth⟩

end Related

/-- The trees of two lists are related place by place. -/
def RelatedList (r : Header → Header → Prop) (nodes nodes' : List Node) : Prop :=
  nodes'.length = nodes.length ∧ ∀ (i : Nat) (node node' : Node), nodes[i]? = some node →
    nodes'[i]? = some node' → Related r node node'

theorem RelatedList.nil : RelatedList r [] [] :=
  ⟨rfl, fun _ _ _ hnode => by cases hnode⟩

theorem RelatedList.cons {node node' : Node} {nodes nodes' : List Node} (h : Related r node node')
    (h' : RelatedList r nodes nodes') : RelatedList r (node :: nodes) (node' :: nodes') := by
  refine ⟨congrArg (· + 1) h'.1, fun i first second hfirst hsecond => ?_⟩
  cases i with
  | zero =>
    rw [List.getElem?_cons_zero, Option.some.injEq] at hfirst hsecond
    rw [← hfirst, ← hsecond]
    exact h
  | succ i =>
    rw [List.getElem?_cons_succ] at hfirst hsecond
    exact h'.2 i first second hfirst hsecond

theorem RelatedList.of_cons {node node' : Node} {nodes nodes' : List Node}
    (h : RelatedList r (node :: nodes) (node' :: nodes')) :
    Related r node node' ∧ RelatedList r nodes nodes' :=
  ⟨h.2 0 node node' rfl rfl, Nat.succ.inj h.1, fun i => h.2 (i + 1)⟩

theorem Related.kids (h : Related r tree tree') : RelatedList r tree.children tree'.children := by
  cases h with
  | mk _ hlength hkids => exact ⟨hlength, hkids⟩

/-! ## Labels -/

mutual

/-- Labels change nothing but labels. -/
theorem related_labelUnder (separator : String) : (node : Node) → ∀ lineage,
    Related Header.Labelled node (labelUnder separator lineage node)
  | mk header work children => by
    intro lineage
    obtain ⟨hlength, hkids⟩ := related_labelListUnder separator children
      (lineageBelow lineage header work)
    rw [labelUnder]
    exact .mk rfl hlength hkids

theorem related_labelListUnder (separator : String) : (nodes : List Node) → ∀ lineage,
    RelatedList Header.Labelled nodes (labelListUnder separator lineage nodes)
  | [] => fun _ => .nil
  | node :: nodes => fun lineage =>
    .cons (related_labelUnder separator node lineage) (related_labelListUnder separator nodes lineage)

end

mutual

/-- Labels do not depend on identifiers. -/
theorem Related.labelUnder (separator : String) : (tree : Node) → ∀ tree' lineage,
    Related Header.Identified tree tree' →
    Related Header.Identified (labelUnder separator lineage tree)
      (labelUnder separator lineage tree')
  | .mk header work children => by
    rintro _ lineage (@⟨_, header', _, _, children', hheader, hlength, hkids⟩)
    have hname : header'.name = header.name := by rw [hheader.1]
    have hbelow : lineageBelow lineage header' work = lineageBelow lineage header work := by
      cases work <;> simp [lineageBelow, hname]
    obtain ⟨hlength', hkids'⟩ := RelatedList.labelListUnder separator children children'
      (lineageBelow lineage header work) ⟨hlength, hkids⟩
    rw [Node.labelUnder, Node.labelUnder, hbelow]
    refine .mk ⟨?_, hheader.2⟩ hlength' hkids'
    rw [labelFor, labelFor, hname, hheader.1]

theorem RelatedList.labelListUnder (separator : String) : (nodes : List Node) → ∀ nodes' lineage,
    RelatedList Header.Identified nodes nodes' →
    RelatedList Header.Identified (labelListUnder separator lineage nodes)
      (labelListUnder separator lineage nodes')
  | [] => by
    rintro nodes' lineage ⟨hlength, _⟩
    rw [List.length_eq_zero_iff.1 hlength]
    exact .nil
  | node :: nodes => by
    rintro nodes' lineage ⟨hlength, hkids⟩
    cases nodes' with
    | nil => cases hlength
    | cons node' nodes' =>
      obtain ⟨hnode, hnodes⟩ := RelatedList.of_cons ⟨hlength, hkids⟩
      exact .cons (Related.labelUnder separator node node' lineage hnode)
        (RelatedList.labelListUnder separator nodes nodes' lineage hnodes)

end

mutual

theorem labelUnder_labelUnder (separator : String) : (node : Node) → ∀ lineage,
    labelUnder separator lineage (labelUnder separator lineage node) =
      labelUnder separator lineage node
  | mk header work children => by
    intro lineage
    have hbelow (label : Option String) : lineageBelow lineage { header with label } work =
        lineageBelow lineage header work := by
      cases work <;> rfl
    rw [labelUnder, labelUnder]
    simp only [hbelow]
    rw [labelListUnder_labelListUnder]
    rfl

theorem labelListUnder_labelListUnder (separator : String) : (nodes : List Node) → ∀ lineage,
    labelListUnder separator lineage (labelListUnder separator lineage nodes) =
      labelListUnder separator lineage nodes
  | [] => fun _ => rfl
  | node :: nodes => by
    intro lineage
    rw [labelListUnder, labelListUnder, labelUnder_labelUnder, labelListUnder_labelListUnder]

end

/-! ## Identifiers -/

mutual

/-- Nodes that have an identifier keep it when the others draw one. -/
theorem related_assignFrom : (node : Node) → ∀ source taken,
    Related (Header.Drawn source.draw) node (assignFrom source taken node).1 ∧
      (assignFrom source taken node).2.1.draw = source.draw
  | mk header work children => by
    intro source taken
    obtain ⟨⟨hlength, hkids⟩, hdraw⟩ := related_assignListFrom children source taken
    rw [assignFrom]
    split
    rename_i kids rest taken' heq
    rw [heq] at hlength hkids hdraw
    split
    · rename_i id hid
      exact ⟨.mk (.of_some hid) hlength hkids, hdraw⟩
    · rename_i hnone
      obtain ⟨n, hn⟩ := rest.exists_draw_fresh taken'
      rw [hdraw] at hn
      exact ⟨.mk ⟨.of_none hnone _, fun _ => ⟨n, congrArg some hn⟩⟩ hlength hkids,
        (rest.draw_fresh taken').trans hdraw⟩

theorem related_assignListFrom : (nodes : List Node) → ∀ source taken,
    RelatedList (Header.Drawn source.draw) nodes (assignListFrom source taken nodes).1 ∧
      (assignListFrom source taken nodes).2.1.draw = source.draw
  | [] => fun _ _ => ⟨.nil, rfl⟩
  | node :: nodes => by
    intro source taken
    obtain ⟨hnode, hdraw⟩ := related_assignFrom node source taken
    rw [assignListFrom]
    split
    rename_i first between taken' heq
    obtain ⟨hnodes, hdraw'⟩ := related_assignListFrom nodes between taken'
    split
    rename_i others rest taken'' heq'
    rw [heq] at hnode hdraw
    rw [heq'] at hnodes hdraw'
    rw [hdraw] at hnodes
    exact ⟨.cons hnode hnodes, hdraw'.trans hdraw⟩

end

mutual

/-- Nodes that have an identifier keep it when others take one over. -/
theorem related_adoptFrom : (node : Node) → ∀ taken result,
    Related Header.Identified node (adoptFrom taken node result).1
  | mk header work children => by
    intro taken result
    have hself := Related.refl Header.Identified.refl (mk header work children)
    cases result with
    | none =>
      rw [adoptFrom]
      exact hself
    | some result =>
      rw [adoptFrom]
      split
      · exact hself
      · obtain ⟨hlength, hkids⟩ := related_adoptListFrom children taken (counterparts work result)
        split
        rename_i kids taken heq
        rw [heq] at hlength hkids
        split
        · rename_i hnone _
          split
          · exact .mk (.refl header) hlength hkids
          · exact .mk (.of_none hnone _) hlength hkids
        · exact .mk (.refl header) hlength hkids

theorem related_adoptListFrom : (nodes : List Node) → ∀ taken results,
    RelatedList Header.Identified nodes (adoptListFrom taken nodes results).1
  | [] => fun _ _ => by
    rw [adoptListFrom]
    exact .nil
  | node :: nodes => by
    intro taken results
    have hnode := related_adoptFrom node taken results.head?.join
    rw [adoptListFrom]
    split
    rename_i first taken heq
    have hnodes := related_adoptListFrom nodes taken results.tail
    split
    rename_i others taken heq'
    rw [heq] at hnode
    rw [heq'] at hnodes
    exact .cons hnode hnodes

end

/-! ## Preparation -/

theorem related_assignIds {ids rest : IdSource} (h : tree.assignIds ids = .ok (tree', rest)) :
    Related (Header.Drawn ids.draw) tree tree' := by
  unfold assignIds at h
  split at h
  · cases h
  · split at h
    rename_i assigned source taken heq
    rw [Except.ok.injEq, Prod.mk.injEq] at h
    have hassigned := (related_assignFrom tree ids tree.ids).1
    rw [heq] at hassigned
    rw [← h.1]
    exact hassigned

/-- The tree with the identifiers that an earlier result recorded, if there is one. -/
def recovered (tree : Node) (separator : String) : Option Result → Node
  | none => tree
  | some result =>
    (adoptFrom (tree.deriveLabels separator).ids (tree.deriveLabels separator) (some result)).1

/-- Identifiers are recovered first, then drawn, and labels are derived at the end. -/
theorem prepare_eq {separator : String} {previous : Option Result} {ids rest : IdSource}
    (h : tree.prepare separator previous ids = .ok (tree', rest)) :
    ∃ assigned, (tree.recovered separator previous).assignIds ids = .ok (assigned, rest) ∧
      tree' = assigned.deriveLabels separator := by
  unfold prepare at h
  cases previous with
  | none =>
    simp only [bind, Except.bind, pure, Except.pure] at h
    split at h
    · cases h
    · rename_i assigned hassigned
      rw [Except.ok.injEq, Prod.mk.injEq] at h
      exact ⟨assigned.1, by rw [← h.2]; exact hassigned, h.1.symm⟩
  | some result =>
    simp only [bind, Except.bind, pure, Except.pure] at h
    split at h
    · cases h
    · rename_i adopted hadopted
      split at h
      · cases h
      · rename_i assigned hassigned
        rw [Except.ok.injEq, Prod.mk.injEq] at h
        refine ⟨assigned.1, ?_, h.1.symm⟩
        unfold adoptIds at hadopted
        split at hadopted
        · cases hadopted
        · rw [Except.ok.injEq] at hadopted
          rw [recovered, hadopted, ← h.2]
          exact hassigned

/-- The tree with the identifiers that are recovered is the given one but for its labels. -/
theorem related_recovered (separator : String) (previous : Option Result) :
    Related Header.Identified (tree.deriveLabels separator)
      ((tree.recovered separator previous).deriveLabels separator) := by
  cases previous with
  | none => exact .refl Header.Identified.refl _
  | some result =>
    have hrelated := (related_adoptFrom (tree.deriveLabels separator)
      (tree.deriveLabels separator).ids (some result)).labelUnder separator _ _ []
    rwa [deriveLabels, labelUnder_labelUnder] at hrelated

/-- The tree that is run is the given one with labels and with more identifiers. -/
theorem related_prepare {separator : String} {previous : Option Result} {ids rest : IdSource}
    (h : tree.prepare separator previous ids = .ok (tree', rest)) :
    Related Header.Identified (tree.deriveLabels separator) tree' := by
  obtain ⟨assigned, hassigned, rfl⟩ := prepare_eq h
  have hdrawn := (related_assignIds hassigned).mono fun _ _ h => h.1
  exact (related_recovered separator previous).trans (hdrawn.labelUnder separator _ _ [])
    fun _ _ _ => Header.Identified.trans

/-- The tree that is run has the inputs of the given one. -/
theorem related_inputs_of_prepare {separator : String} {previous : Option Result} {ids rest : IdSource}
    (h : tree.prepare separator previous ids = .ok (tree', rest)) :
    Related (fun header header' => header'.inputs = header.inputs) tree tree' := by
  refine (related_labelUnder separator tree []).trans (related_prepare h) ?_
  intro first second third hlabelled hidentified
  rw [hidentified.1, hlabelled]

/-- The tree that is run has no races if the given one has none. -/
theorem kind_ne_race_of_prepare {separator : String} {previous : Option Result} {ids rest : IdSource}
    (hrace : ∀ node ∈ tree.walk, node.kind ≠ .race)
    (h : tree.prepare separator previous ids = .ok (tree', rest)) :
    ∀ node ∈ tree'.walk, node.kind ≠ .race := by
  intro node' hnode'
  obtain ⟨node, hnode, hwork, _⟩ := (related_inputs_of_prepare h).exists_mem_walk hnode'
  rw [kind, hwork]
  exact hrace node hnode

/-- The tree that is run is sound if the given one is. -/
theorem Sound.prepare {separator : String} {previous : Option Result} {ids rest : IdSource}
    (htree : tree.Sound) (h : tree.prepare separator previous ids = .ok (tree', rest)) :
    tree'.Sound :=
  (related_prepare h).sound ((related_labelUnder separator tree []).sound htree)

end Node
end Workflow
