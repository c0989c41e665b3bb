import Workflow.Proofs.Live.Result
import Workflow.Proofs.Tree.Distinct
import Workflow.Proofs.Tree.Place

/-!
# Identifiers that are recovered

A tree that takes over identifiers from the result of an earlier run gets those that the nodes had
there, as far as the result has an entry at their places. Only the first instance of a loop is at
the place of the body.

* `Node.Recovers` compares a tree with the one that was run, place by place.
* `Node.recovers_adoptFrom` says what is recovered from a live tree.
-/

namespace Workflow

namespace Live

variable {node target : Node} {job : Job} {kids : List Live}

/-- A tree, if there is one, has a node at the place. -/
def Recorded (live? : Option Live) (place : List Nat) : Prop :=
  (live?.bind fun live => live.at? place).isSome

theorem recorded_cons (i : Nat) (place : List Nat) :
    Recorded (some (mk job kids)) (i :: place) ↔ Recorded kids[i]? place := by
  rw [Recorded, Recorded, Option.bind_some, at?_cons]

/-- What a result records for the children of a node is what has become of them. -/
theorem getElem?_counterparts (hnode : node.Sound) (h : Runs node (mk job kids)) {i : Nat}
    (hi : i < node.children.length) :
    (Node.counterparts node.work (mk job kids).toResult)[i]?.join = kids[i]?.map toResult := by
  have hfits := hnode.fits
  cases h with
  | mk _ _ _ hjob hlength _ =>
    have hkids (work : Work) (hwork : node.work = work) (hloop : work.kind ≠ .loop) :
        kids.length = node.children.length := by
      refine hlength ?_
      rwa [Node.kind, hwork]
    rw [toResult, hjob]
    cases hwork : node.work with
    | loop source itemName indexName limit =>
      rw [hwork] at hfits
      have hzero : i = 0 := by
        change node.children.length = 1 at hfits
        omega
      simp only [Node.counterparts, Result.items, toResults_eq_map]
      rw [hzero, List.getElem?_cons_zero, Option.join_some, List.head?_eq_getElem?,
        List.getElem?_map]
    | branch condition cases_ =>
      have hcount := hkids _ hwork Kind.noConfusion
      rw [hwork] at hfits
      simp only [Node.counterparts, Result.children, Result.default?, toResults_eq_map]
      change node.children.length = cases_.length ∨
        node.children.length = cases_.length + 1 at hfits
      have htake : (((kids.map toResult).take cases_.length).take cases_.length).length =
          cases_.length := by
        rw [List.length_take, List.length_take, List.length_map]
        omega
      rw [List.length_map, htake, Nat.sub_self, List.replicate_zero, List.append_nil]
      rcases Nat.lt_or_ge i cases_.length with hlt | hge
      · rw [List.getElem?_append_left (by rw [List.length_map, htake]; exact hlt),
          List.getElem?_map, List.take_take, Nat.min_self, List.getElem?_take_of_lt hlt,
          List.getElem?_map, Option.map_map]
        cases kids[i]? <;> rfl
      · have heq : i = cases_.length := by omega
        rw [heq, List.getElem?_append_right (Nat.le_of_eq (by rw [List.length_map, htake])),
          List.length_map, htake, Nat.sub_self, List.getElem?_cons_zero, Option.join_some,
          List.getElem?_map]
    | _ =>
      simp only [Node.counterparts, Result.children, toResults_eq_map]
      rw [List.getElem?_map, List.getElem?_map, Option.map_map]
      cases kids[i]? <;> rfl

end Live

namespace Node

variable {node target node' : Node} {recorded : List Nat → Prop}

/-- A child of the definition defines the child at its position. -/
theorem Sound.kidAt_eq {child : Node} {i : Nat} (hnode : node.Sound)
    (hchild : node.children[i]? = some child) : node.kidAt i = some child := by
  by_cases hkind : node.kind = .loop
  · obtain ⟨body, hbody⟩ := hnode.exists_body hkind
    rw [kidAt_of_kind_eq hkind, hbody]
    rw [hbody] at hchild
    rw [List.mem_singleton.1 (List.mem_of_getElem? hchild)]
    rfl
  · rw [kidAt_of_kind_ne hkind, hchild]

/-- The result of a tree that was run fits the given one. -/
theorem fitsResult_toResult {header : Header} {work : Work} {children : List Node} {live : Live}
    (h : Related Header.Identified (mk header work children) target)
    (hlive : Live.Runs target live) : fitsResult header work live.toResult = true := by
  have hheader : target.header = { header with id := target.header.id } := h.header.1
  have hkind : target.kind = work.kind := h.kind
  rw [fitsResult, Live.entry_toResult]
  cases hlive with
  | mk _ hkindName hlabel _ _ _ =>
    have hsame : header.label = target.label := by rw [Node.label, hheader]
    simp only [Live.entry, Live.job, hkindName, hlabel, hkind, hsame]
    simp

/-- The tree has the identifier of the other tree where it had it before and where something is
recorded, and no identifier elsewhere. -/
def Recovers (recorded : List Nat → Prop) (node target node' : Node) : Prop :=
  ∀ place x y, node.at? place = some x → target.at? place = some y →
    ∃ x', node'.at? place = some x' ∧ (x.id.isSome ∨ recorded place → x'.id = y.id) ∧
      (x.id = none → ¬ recorded place → x'.id = none)

/-- Where nothing is recorded a tree stays as it is. -/
theorem Recovers.refl (h : Related Header.Identified node target)
    (hnot : ∀ place, ¬ recorded place) : Recovers recorded node target node := by
  intro place x y hx hy
  obtain ⟨y', hy', hrelated⟩ := h.at? hx
  rw [hy, Option.some.injEq] at hy'
  subst hy'
  refine ⟨x, hx, fun hor => ?_, fun hnone _ => hnone⟩
  exact (hrelated.header.2 (hor.resolve_right (hnot place))).symm

/-- A tree recovers what its root and its children do. -/
theorem Recovers.mk {header header' targetHeader : Header} {work : Work}
    {children children' targetChildren : List Node} {job : Job} {kids : List Live}
    (hroot : header'.id = targetHeader.id)
    (hkids : ∀ (i : Nat) (child target : Node), children[i]? = some child →
      targetChildren[i]? = some target → ∃ child', children'[i]? = some child' ∧
        Recovers (Live.Recorded kids[i]?) child target child') :
    Recovers (Live.Recorded (some (.mk job kids))) (mk header work children)
      (mk targetHeader work targetChildren) (mk header' work children') := by
  intro place x y hx hy
  cases place with
  | nil =>
    rw [at?_nil, Option.some.injEq] at hx hy
    subst hx hy
    exact ⟨_, at?_nil _, fun _ => hroot, fun _ hnot => absurd rfl hnot⟩
  | cons i place =>
    rw [at?_cons] at hx hy
    obtain ⟨child, hchild, hx⟩ := Option.bind_eq_some_iff.1 hx
    obtain ⟨below, hbelow, hy⟩ := Option.bind_eq_some_iff.1 hy
    obtain ⟨child', hchild', hrecovers⟩ := hkids i child below hchild hbelow
    obtain ⟨x', hx', hsame, hnone⟩ := hrecovers place x y hx hy
    rw [Live.recorded_cons]
    refine ⟨x', ?_, hsame, hnone⟩
    rw [at?_cons]
    change (children'[i]?.bind fun child => child.at? place) = some x'
    rw [hchild', Option.bind_some, hx']

section Root

variable {header targetHeader : Header} {work : Work} {children targetChildren : List Node}
  {taken : List String}

/-- What is taken and belongs to a child of the other tree belongs to a child of this one. -/
theorem mem_children_of_taken (hheader : header.Identified targetHeader)
    (hnodup : (mk targetHeader work targetChildren).ids.Nodup)
    (htaken : ∀ id ∈ taken, id ∈ (mk targetHeader work targetChildren).ids →
      id ∈ (mk header work children).ids) {id : String} (hid : id ∈ taken)
    (hmem : id ∈ targetChildren.flatMap ids) : id ∈ children.flatMap ids := by
  simp only [ids_mk] at hnodup htaken
  obtain ⟨_, _, hdisjoint⟩ := List.nodup_append.1 hnodup
  refine (List.mem_append.1 (htaken id hid (List.mem_append_right _ hmem))).resolve_left ?_
  intro hself
  rw [Option.mem_toList] at hself
  have hsame := hheader.2 (by rw [hself]; rfl)
  exact hdisjoint id (by rw [hsame, hself]; exact List.mem_cons_self) id hmem rfl

/-- The identifier of a root is not taken by its children where it is missing here. -/
theorem not_mem_of_root {id : String} {taken' : List String}
    (hlist : RelatedList Header.Identified children targetChildren)
    (hnodup : (mk targetHeader work targetChildren).ids.Nodup)
    (htaken : ∀ id ∈ taken, id ∈ (mk targetHeader work targetChildren).ids →
      id ∈ (mk header work children).ids)
    (htaken' : ∀ id ∈ taken', id ∈ taken ∨ id ∈ targetChildren.flatMap ids)
    (hnone : header.id = none) (hid : targetHeader.id = some id) : id ∉ taken' := by
  simp only [ids_mk] at hnodup htaken
  obtain ⟨_, _, hdisjoint⟩ := List.nodup_append.1 hnodup
  have hself : id ∈ targetHeader.id.toList := by rw [hid]; exact List.mem_cons_self
  intro hmem
  have hbelow : id ∈ targetChildren.flatMap ids := by
    refine (htaken' id hmem).elim (fun hbefore => ?_) fun hbelow => hbelow
    have := htaken id hbefore (List.mem_append_left _ hself)
    rw [hnone, Option.toList_none, List.nil_append] at this
    exact RelatedList.ids_subset hlist this
  exact hdisjoint id hself id hbelow rfl

/-- After its children a root takes over the identifier that is recorded for it. -/
theorem recovers_root {job : Job} {kids : List Live}
    (hrelated : Related Header.Identified (mk header work children)
      (mk targetHeader work targetChildren))
    (hruns : Live.Runs (mk targetHeader work targetChildren) (.mk job kids))
    (hnodup : (mk targetHeader work targetChildren).ids.Nodup)
    (htaken : ∀ id ∈ taken, id ∈ (mk targetHeader work targetChildren).ids →
      id ∈ (mk header work children).ids)
    (htaken' : ∀ id ∈ (adoptListFrom taken children
        (counterparts work (Live.mk job kids).toResult)).2,
      id ∈ taken ∨ id ∈ targetChildren.flatMap ids)
    (hkids : ∀ (i : Nat) (child target : Node), children[i]? = some child →
      targetChildren[i]? = some target → ∃ child',
        (adoptListFrom taken children
          (counterparts work (Live.mk job kids).toResult)).1[i]? = some child' ∧
        Recovers (Live.Recorded kids[i]?) child target child') :
    (∀ id ∈ (adoptFrom taken (mk header work children) (some (Live.mk job kids).toResult)).2,
      id ∈ taken ∨ id ∈ (mk targetHeader work targetChildren).ids) ∧
    Recovers (Live.Recorded (some (.mk job kids))) (mk header work children)
      (mk targetHeader work targetChildren)
      (adoptFrom taken (mk header work children) (some (Live.mk job kids).toResult)).1 := by
  have hheader : header.Identified targetHeader := hrelated.header
  have hentry : (Live.mk job kids).toResult.entry.id = targetHeader.id := by
    rw [Live.entry_toResult]
    exact hruns.job.2
  rw [adoptFrom, fitsResult_toResult hrelated hruns, hentry, ids_mk]
  split
  · contradiction
  split
  rename_i children' taken' heq
  rw [heq] at htaken' hkids
  have hold : ∀ id ∈ taken', id ∈ taken ∨
      id ∈ targetHeader.id.toList ++ targetChildren.flatMap ids :=
    fun id hid => (htaken' id hid).imp_right (List.mem_append_right _)
  split
  · rename_i id hnone hid
    have hfree := not_mem_of_root hrelated.kids hnodup htaken htaken' hnone hid
    rw [if_neg (by rwa [List.contains_iff_mem])]
    refine ⟨fun other hother => ?_, .mk hid.symm hkids⟩
    rcases List.mem_cons.1 hother with rfl | hother
    · exact .inr (List.mem_append_left _ (by rw [hid]; exact List.mem_cons_self))
    · exact hold other hother
  · rename_i hsome
    refine ⟨hold, .mk ?_ hkids⟩
    cases hself : header.id with
    | some id => rw [hheader.2 (by rw [hself]; rfl), hself]
    | none =>
      cases hother : targetHeader.id with
      | some id => exact absurd hother (hsome id hself)
      | none => rfl

end Root

mutual

/-- A tree recovers from the result of a run of another tree, with whose identifiers none is in
conflict that is taken already. -/
theorem recovers_adoptFrom : (node : Node) → ∀ (target : Node) (taken : List String)
    (live? : Option Live), Related Header.Identified node target → target.Sound →
    target.ids.Nodup → (∀ live, live? = some live → Live.Runs target live) →
    (∀ id ∈ taken, id ∈ target.ids → id ∈ node.ids) →
    (∀ id ∈ (adoptFrom taken node (live?.map Live.toResult)).2, id ∈ taken ∨ id ∈ target.ids) ∧
      Recovers (Live.Recorded live?) node target
        (adoptFrom taken node (live?.map Live.toResult)).1
  | mk header work children => by
    intro target taken live? hrelated hsound hnodup hlive htaken
    cases live? with
    | none =>
      rw [Option.map_none, adoptFrom]
      exact ⟨fun _ hid => .inl hid, .refl hrelated fun _ => Bool.false_ne_true⟩
    | some live =>
      have hruns := hlive live rfl
      obtain ⟨job, kids⟩ := live
      obtain ⟨targetHeader, targetWork, targetChildren⟩ := target
      have hwork : targetWork = work := hrelated.work
      subst hwork
      have hnodupKids : (targetChildren.flatMap ids).Nodup := by
        rw [ids_mk] at hnodup
        exact (List.nodup_append.1 hnodup).2.1
      obtain ⟨htaken', hrecovers⟩ := recovers_adoptListFrom children targetChildren taken
        (counterparts targetWork (Live.mk job kids).toResult) (fun i => kids[i]?)
        hrelated.kids (fun child hchild => hsound.of_mem_children hchild) hnodupKids
        (fun i child hchild live hkid => by
          cases hruns with
          | mk _ _ _ _ _ _ hkids => exact hkids i live child hkid (hsound.kidAt_eq hchild))
        (fun i hi => by
          have hi' : i < (Node.mk targetHeader targetWork targetChildren).children.length := by
            rw [hrelated.length_children]
            exact hi
          exact Live.getElem?_counterparts hsound hruns hi')
        (fun _ hid => mem_children_of_taken hrelated.header hnodup htaken hid)
      exact recovers_root hrelated hruns hnodup htaken htaken' hrecovers

/-- Trees recover from the results at their places. -/
theorem recovers_adoptListFrom : (nodes : List Node) → ∀ (targets : List Node)
    (taken : List String) (results : List (Option Result)) (lives : Nat → Option Live),
    RelatedList Header.Identified nodes targets → (∀ target ∈ targets, target.Sound) →
    (targets.flatMap ids).Nodup →
    (∀ (i : Nat) (target : Node), targets[i]? = some target →
      ∀ live, lives i = some live → Live.Runs target live) →
    (∀ i, i < nodes.length → results[i]?.join = (lives i).map Live.toResult) →
    (∀ id ∈ taken, id ∈ targets.flatMap ids → id ∈ nodes.flatMap ids) →
    (∀ id ∈ (adoptListFrom taken nodes results).2, id ∈ taken ∨ id ∈ targets.flatMap ids) ∧
      ∀ (i : Nat) (node target : Node), nodes[i]? = some node → targets[i]? = some target →
        ∃ node', (adoptListFrom taken nodes results).1[i]? = some node' ∧
          Recovers (Live.Recorded (lives i)) node target node'
  | [] => by
    intro targets taken results lives _ _ _ _ _ _
    rw [adoptListFrom]
    exact ⟨fun _ hid => .inl hid, fun i node target hnode => by cases hnode⟩
  | node :: nodes => by
    intro targets taken results lives hrelated hsound hnodup hlives hresults htaken
    cases targets with
    | nil => cases hrelated.1
    | cons target targets =>
      obtain ⟨hhead, htail⟩ := hrelated.of_cons
      have hsub := RelatedList.ids_subset htail
      rw [List.flatMap_cons] at hnodup htaken
      rw [List.flatMap_cons] at htaken
      obtain ⟨hnodupHead, hnodupTail, hdisjoint⟩ := List.nodup_append.1 hnodup
      have hresult : results.head?.join = (lives 0).map Live.toResult := by
        rw [List.head?_eq_getElem?]
        exact hresults 0 (Nat.succ_pos _)
      obtain ⟨htaken', hrecovers⟩ := recovers_adoptFrom node target taken (lives 0) hhead
        (hsound target List.mem_cons_self) hnodupHead (hlives 0 target rfl) (fun id hid hmem => by
          refine (List.mem_append.1 (htaken id hid (List.mem_append_left _ hmem))).resolve_right ?_
          exact fun hother => hdisjoint id hmem id (hsub hother) rfl)
      rw [adoptListFrom, hresult, List.flatMap_cons]
      split
      rename_i first between heq
      rw [heq] at htaken' hrecovers
      obtain ⟨htaken'', hothers⟩ := recovers_adoptListFrom nodes targets between results.tail
        (fun i => lives (i + 1)) htail
        (fun child hchild => hsound child (List.mem_cons_of_mem _ hchild)) hnodupTail
        (fun i child hchild => hlives (i + 1) child hchild)
        (fun i hi => by
          rw [List.getElem?_tail]
          exact hresults (i + 1) (Nat.succ_lt_succ hi))
        (fun id hid hmem => by
          -- an identifier of the others is not one of the first
          have hbefore := (htaken' id hid).resolve_right fun hfirst => hdisjoint id hfirst id hmem rfl
          refine (List.mem_append.1
            (htaken id hbefore (List.mem_append_right _ hmem))).resolve_left fun hfirst => ?_
          exact hdisjoint id (hhead.ids_subset (fun _ _ h => h.2) hfirst) id hmem rfl)
      split
      rename_i others rest heq'
      rw [heq'] at htaken'' hothers
      refine ⟨fun id hid => ?_, fun i child below hchild hbelow => ?_⟩
      · rcases htaken'' id hid with hid | hid
        · exact (htaken' id hid).imp_right (List.mem_append_left _)
        · exact .inr (List.mem_append_right _ hid)
      · cases i with
        | zero =>
          rw [List.getElem?_cons_zero, Option.some.injEq] at hchild hbelow
          subst hchild hbelow
          exact ⟨first, rfl, hrecovers⟩
        | succ i => exact hothers i child below hchild hbelow

end

/-! ## The tree that is run -/

section Prepared

variable {tree first second x y z : Node} {separator : String} {previous : Option Result}
  {ids ids' rest rest' : IdSource} {place : List Nat} {live : Live}

/-- A node of the tree that is run has the identifier that is recovered, else one that is drawn. -/
theorem id_of_prepare (h : tree.prepare separator previous ids = .ok (second, rest))
    (hz : second.at? place = some z) :
    ∃ x, (tree.recovered separator previous).at? place = some x ∧
      (x.id.isSome → z.id = x.id) ∧ (x.id = none → ∃ n, z.id = some (ids.draw n)) := by
  obtain ⟨assigned, hassigned, rfl⟩ := prepare_eq h
  obtain ⟨y, hy, hlabelled⟩ := (related_labelUnder separator assigned []).at?' hz
  obtain ⟨x, hx, hdrawn⟩ := (related_assignIds hassigned).at?' hy
  have hid : z.id = y.id := hlabelled.header.id
  rw [hid]
  exact ⟨x, hx, hdrawn.header.1.2, hdrawn.header.2⟩

/-- Every node of the tree that is run has an identifier. -/
theorem isSome_id_of_prepare (h : tree.prepare separator previous ids = .ok (second, rest))
    (hz : second.at? place = some z) : z.id.isSome := by
  obtain ⟨x, _, hsome, hnone⟩ := id_of_prepare h hz
  cases hid : x.id with
  | some id => rw [hsome (by rw [hid]; rfl), hid]; rfl
  | none =>
    obtain ⟨n, hn⟩ := hnone hid
    rw [hn]
    rfl

/-- A tree that is run again on the result of an earlier run gets the identifiers of that run back
where the definition has one and where the result has an entry at the place. Elsewhere it draws
anew. -/
theorem id_of_resume (htree : tree.Sound) (hids : Function.Injective ids.draw)
    (hfirst : tree.prepare separator previous ids = .ok (first, rest))
    (hlive : Live.Runs first live)
    (hsecond : tree.prepare separator (some live.toResult) ids' = .ok (second, rest'))
    (hx : tree.at? place = some x) (hy : first.at? place = some y)
    (hz : second.at? place = some z) :
    (x.id.isSome ∨ Live.Recorded (some live) place → z.id = y.id) ∧
      (x.id = none → ¬ Live.Recorded (some live) place → ∃ n, z.id = some (ids'.draw n)) := by
  obtain ⟨labelled, hlabelled, hsame⟩ := (related_labelUnder separator tree []).at? hx
  have hid : labelled.id = x.id := hsame.header.id
  have hrecovers := (recovers_adoptFrom (tree.deriveLabels separator) first
    (tree.deriveLabels separator).ids (some live) (related_prepare hfirst) (htree.prepare hfirst)
    (nodup_prepare hids hfirst) (fun other hother => Option.some.inj hother ▸ hlive)
    fun _ hid _ => hid).2
  obtain ⟨x', hx', hfound, hmissing⟩ := hrecovers place labelled y hlabelled hy
  obtain ⟨x'', hx'', hkept, hdrawn⟩ := id_of_prepare hsecond hz
  have heq : x'' = x' := by
    rw [recovered] at hx''
    exact Option.some.inj (hx''.symm.trans hx')
  subst heq
  rw [hid] at hfound hmissing
  refine ⟨fun hor => ?_, fun hnone hnot => hdrawn (hmissing hnone hnot)⟩
  have hboth := hfound hor
  rw [hkept (by rw [hboth]; exact isSome_id_of_prepare hfirst hy), hboth]

end Prepared

end Node
end Workflow
