import Workflow.Proofs.Tree.Annotated
import Workflow.Proofs.Tree.Place

/-!
# Trees that take over identifiers

A tree takes over identifiers from a result, whatever that result is: of the same tree, of another one
or of none. Nothing but missing identifiers is filled in, and none is used twice.

* `Node.Counterpart` says what a result has at the position of a node, as far as the two agree on the
  way there.
* `Node.Filled` says what is made of one tree when others have taken identifiers already, and
  `Node.filled_adoptFrom` that this is made of it.
* `Node.Adopts` says what is made of a whole tree, and `Node.adopts_adoptIds` that this is made of every
  tree with distinct identifiers.
-/

namespace Workflow

/-- What a result has at the position of a child of a node that does the work: children by their index,
after those of a branch its default, and of a loop the first instance. -/
def Result.beside? (r : Result) (work : Work) (i : Nat) : Option Result :=
  match work with
  | .loop .. => if i = 0 then r.items.head? else none
  | .branch _ cases =>
    if i < cases.length then r.children[i]? else if i = cases.length then r.default? else none
  | _ => r.children[i]?

namespace Node

variable {tree node node' child : Node} {header : Header} {work : Work} {children children' : List Node}
  {r other : Result} {result : Option Result} {results : List (Option Result)}
  {taken taken' : List String} {place : List Nat} {i : Nat} {id : String}

/-! ## Positions in results -/

/-- The result is one of a node like this one: it is of the same kind, and if the node is a step with a
label it has the same label. -/
structure Resembles (node : Node) (r : Result) : Prop where
  kind : r.entry.kind = node.kind.name
  label : node.kind = .step → ∀ label, node.label = some label → r.entry.label = some label

/-- The result has the other one at the place of the tree: children by their index, the default and the
first instance of a loop are followed, and all the way the results are of nodes like those of the
tree. -/
inductive Counterpart : Node → Result → List Nat → Result → Prop where
  /-- The result itself is at the root. -/
  | here {node : Node} {r : Result} (hlike : node.Resembles r) : Counterpart node r [] r
  /-- At the place of a child is what the result beside the child has. -/
  | under {node child : Node} {r next other : Result} {i : Nat} {place : List Nat}
    (hlike : node.Resembles r) (hchild : node.children[i]? = some child)
    (hnext : r.beside? node.work i = some next) (hbelow : Counterpart child next place other) :
    Counterpart node r (i :: place) other

theorem fitsResult_eq_true_iff :
    fitsResult header work r = true ↔ (mk header work children).Resembles r := by
  unfold fitsResult
  constructor
  · intro h
    simp only [Bool.and_eq_true, beq_iff_eq, Bool.not_eq_true', Bool.and_eq_false_iff,
      beq_eq_false_iff_ne, bne_eq_false_iff_eq, ne_eq] at h
    obtain ⟨hkind, hlabel⟩ := h
    refine ⟨hkind, fun hstep label hsome => ?_⟩
    change header.label = some label at hsome
    change work.kind = .step at hstep
    rcases hlabel with (hother | hnone) | hsame
    · exact absurd hstep hother
    · rw [hsome] at hnone
      cases hnone
    · rw [← hsame, hsome]
  · rintro ⟨hkind, hlabel⟩
    change r.entry.kind = work.kind.name at hkind
    change work.kind = .step → ∀ label, header.label = some label → _ at hlabel
    rw [hkind]
    cases hsome : header.label with
    | none => simp
    | some label =>
      by_cases hstep : work.kind = .step
      · simp [hlabel hstep label hsome]
      · simp [hstep]

/-- What stands in the list of counterparts is what the result has at the position. -/
theorem join_getElem?_counterparts (work : Work) (r : Result) (i : Nat) :
    (counterparts work r)[i]?.join = r.beside? work i := by
  have hmap (l : List Result) : (l.map some)[i]?.join = l[i]? := by
    rw [List.getElem?_map]
    cases l[i]? <;> rfl
  cases work with
  | loop source itemName indexName limit =>
    show [r.items.head?][i]?.join = if i = 0 then r.items.head? else none
    cases i with
    | zero => rfl
    | succ i => rfl
  | branch condition cases =>
    show ((r.children.take cases.length).map some ++
        List.replicate (cases.length - ((r.children.take cases.length).map some).length) none ++
        [r.default?])[i]?.join =
      if i < cases.length then r.children[i]? else if i = cases.length then r.default? else none
    have hlength : ((r.children.take cases.length).map some ++ List.replicate
        (cases.length - ((r.children.take cases.length).map some).length)
        (none : Option Result)).length = cases.length := by
      simp only [List.length_append, List.length_map, List.length_take, List.length_replicate]
      omega
    by_cases hlt : i < cases.length
    · rw [List.getElem?_append_left (by omega), if_pos hlt]
      by_cases hchild : i < r.children.length
      · rw [List.getElem?_append_left (by simp; omega), hmap, List.getElem?_take_of_lt hlt]
      · rw [List.getElem?_append_right (by simp; omega), List.getElem?_eq_none (Nat.not_lt.1 hchild),
          List.getElem?_replicate]
        split <;> rfl
    · rw [List.getElem?_append_right (by omega), hlength, if_neg hlt]
      by_cases heq : i = cases.length
      · simp [heq]
      · rw [if_neg heq, List.getElem?_eq_none (by simp; omega)]
        rfl
  | _ => exact hmap r.children

/-! ## What is filled in -/

/-- What becomes of a tree when identifiers are taken over from the result, if there is one, and the
given ones are taken in the end. -/
structure Filled (taken : List String) (result : Option Result) (node node' : Node) : Prop where
  /-- An identifier that was missing is recorded at the place. -/
  recorded : ∀ place x x' id, node.at? place = some x → node'.at? place = some x' → x.id = none →
    x'.id = some id → ∃ r other, result = some r ∧ Counterpart node r place other ∧
      other.entry.id = some id
  /-- Where an identifier is missing none is recorded, or it is taken. -/
  missing : ∀ place x' r other id, node'.at? place = some x' → x'.id = none → result = some r →
    Counterpart node r place other → other.entry.id = some id → id ∈ taken
  /-- Nothing more is taken over later. -/
  again : ∀ taken', taken ⊆ taken' → adoptFrom taken' node' result = (node', taken')

/-- What is filled in is so when more identifiers are taken. -/
theorem Filled.mono (h : Filled taken result node node') (hsub : taken ⊆ taken') :
    Filled taken' result node node' :=
  ⟨h.recorded, fun place x' r other id hx' hnone hr hother hid =>
    hsub (h.missing place x' r other id hx' hnone hr hother hid),
    fun _ hsub' => h.again _ fun _ hid => hsub' (hsub hid)⟩

/-- A tree without a result that resembles it stays as it is. -/
theorem Filled.refl (hnot : ∀ r, result = some r → ¬ node.Resembles r) :
    Filled taken result node node := by
  have hno {r other : Result} {place : List Nat} (hr : result = some r) :
      ¬ Counterpart node r place other := by
    intro hother
    cases hother with
    | here hlike => exact hnot r hr hlike
    | under hlike => exact hnot r hr hlike
  refine ⟨fun place x x' id hx hx' hnone hsome => ?_, fun place x' r other id _ _ hr hother => ?_,
    fun taken' _ => ?_⟩
  · rw [hx, Option.some.injEq] at hx'
    rw [hx', hsome] at hnone
    cases hnone
  · exact absurd hother (hno hr)
  · obtain ⟨header, work, children⟩ := node
    cases result with
    | none => rw [adoptFrom]
    | some r =>
      have hfits : fitsResult header work r = false := by
        rw [Bool.eq_false_iff]
        intro hfits
        exact hnot r rfl (fitsResult_eq_true_iff.1 hfits)
      rw [adoptFrom, hfits]
      rfl

/-- Trees that are left as they are one after the other are left so together. -/
theorem adoptListFrom_of_again (h : ∀ (i : Nat) (child : Node), children[i]? = some child →
    adoptFrom taken child results[i]?.join = (child, taken)) :
    adoptListFrom taken children results = (children, taken) := by
  induction children generalizing results with
  | nil => rw [adoptListFrom]
  | cons child children ih =>
    have hfirst : adoptFrom taken child results.head?.join = (child, taken) := by
      rw [List.head?_eq_getElem?]
      exact h 0 child rfl
    have hrest : adoptListFrom taken children results.tail = (children, taken) := by
      apply ih
      intro i other hother
      rw [List.getElem?_tail]
      exact h (i + 1) other hother
    rw [adoptListFrom, hfirst]
    simp only
    rw [hrest]

/-- A node takes over what is recorded of it after its children have done so, unless it has an
identifier or that is taken. -/
theorem Filled.parent {header' : Header} (hlike : (Node.mk header work children).Resembles r)
    (hlabel : header'.label = header.label)
    (hkids : ∀ (i : Nat) (child child' : Node), children[i]? = some child → children'[i]? = some child' →
      Filled taken (r.beside? work i) child child')
    (hlength : children'.length = children.length)
    (hrecorded : ∀ id, header.id = none → header'.id = some id → r.entry.id = some id)
    (hmissing : ∀ id, header'.id = none → r.entry.id = some id → id ∈ taken) :
    Filled taken (some r) (.mk header work children) (.mk header' work children') := by
  have hchild {i : Nat} {child' : Node} (hchild' : children'[i]? = some child') :
      ∃ child, children[i]? = some child ∧ Filled taken (r.beside? work i) child child' := by
    have hlt : i < children.length := hlength ▸ (List.getElem?_eq_some_iff.1 hchild').1
    exact ⟨_, List.getElem?_eq_getElem hlt, hkids i _ child' (List.getElem?_eq_getElem hlt) hchild'⟩
  refine ⟨?_, ?_, ?_⟩
  · intro place x x' id hx hx' hnone hsome
    cases place with
    | nil =>
      rw [at?_nil, Option.some.injEq] at hx hx'
      subst hx hx'
      exact ⟨r, r, rfl, .here hlike, hrecorded id hnone hsome⟩
    | cons i place =>
      rw [at?_cons] at hx hx'
      obtain ⟨child, hfirst, hx⟩ := Option.bind_eq_some_iff.1 hx
      obtain ⟨child', hfirst', hx'⟩ := Option.bind_eq_some_iff.1 hx'
      obtain ⟨next, other, hnext, hother, hid⟩ :=
        (hkids i child child' hfirst hfirst').recorded place x x' id hx hx' hnone hsome
      exact ⟨r, other, rfl, .under hlike hfirst hnext hother, hid⟩
  · intro place x' r' other id hx' hnone hr hother hid
    obtain rfl := Option.some.inj hr
    cases hother with
    | here =>
      rw [at?_nil, Option.some.injEq] at hx'
      subst hx'
      exact hmissing id hnone hid
    | @under _ child _ next _ i place _ hfirst hnext hbelow =>
      rw [at?_cons] at hx'
      obtain ⟨child', hfirst', hx'⟩ := Option.bind_eq_some_iff.1 hx'
      exact (hkids i child child' hfirst hfirst').missing place x' next other id hx' hnone hnext hbelow
        hid
  · intro taken' hsub
    have hfits : fitsResult header' work r = true := by
      unfold fitsResult
      rw [hlabel]
      exact fitsResult_eq_true_iff.2 hlike
    have hlist : adoptListFrom taken' children' (counterparts work r) = (children', taken') := by
      apply adoptListFrom_of_again
      intro i child' hchild'
      obtain ⟨child, _, hfilled⟩ := hchild hchild'
      rw [join_getElem?_counterparts]
      exact hfilled.again taken' hsub
    rw [adoptFrom, hfits, hlist]
    simp only [Bool.not_true, Bool.false_eq_true, if_false]
    split
    · rename_i id hnone hid
      rw [if_pos (List.contains_iff_mem.2 (hsub (hmissing id hnone hid)))]
    · rfl

/-- What is taken stays so, and what is taken then was so before or is in the tree. -/
structure Grows (taken taken' after : List String) : Prop where
  old : taken ⊆ taken'
  new : ∀ id ∈ taken', id ∈ taken ∨ id ∈ after

theorem Grows.refl (taken after : List String) : Grows taken taken after :=
  ⟨fun _ hid => hid, fun _ hid => .inl hid⟩

mutual

/-- Identifiers are filled in from whatever result there is. -/
theorem filled_adoptFrom : (node : Node) → ∀ taken result,
    Grows taken (adoptFrom taken node result).2 (adoptFrom taken node result).1.ids ∧
      Filled (adoptFrom taken node result).2 result node (adoptFrom taken node result).1
  | mk header work children => by
    intro taken result
    cases result with
    | none =>
      rw [adoptFrom]
      exact ⟨.refl _ _, .refl nofun⟩
    | some r =>
      rw [adoptFrom]
      split
      · rename_i hnot
        refine ⟨.refl _ _, .refl ?_⟩
        rintro _ ⟨⟩ hlike
        rw [fitsResult_eq_true_iff.2 hlike] at hnot
        cases hnot
      · rename_i hfits
        have hlike : (mk header work children).Resembles r := by
          rw [Bool.not_eq_true', Bool.not_eq_false] at hfits
          exact fitsResult_eq_true_iff.1 hfits
        obtain ⟨hgrows, hkids⟩ := filled_adoptListFrom children taken (counterparts work r)
        have hlength := (related_adoptListFrom children taken (counterparts work r)).1
        simp only [join_getElem?_counterparts] at hkids
        split
        rename_i kids taken' heq
        rw [heq] at hgrows hkids hlength
        simp only at hgrows hkids hlength
        split
        · rename_i id hnone hid
          split
          · -- what is recorded of the node is taken
            rename_i hmem
            rw [List.contains_iff_mem] at hmem
            refine ⟨⟨hgrows.old, fun id' hid' => ?_⟩, .parent hlike rfl hkids hlength ?_ ?_⟩
            · rw [ids_mk]
              exact (hgrows.new id' hid').imp_right (List.mem_append_right _)
            · intro id' hnone' hsome
              rw [hnone'] at hsome
              cases hsome
            · intro id' _ hid'
              rw [hid, Option.some.injEq] at hid'
              exact hid' ▸ hmem
          · -- the node takes it over
            refine ⟨⟨fun id' hid' => List.mem_cons_of_mem _ (hgrows.old hid'), fun id' hid' => ?_⟩,
              .parent hlike rfl (fun i child child' hchild hchild' => (hkids i child child' hchild
                hchild').mono fun _ hmem => List.mem_cons_of_mem _ hmem) hlength ?_ nofun⟩
            · rw [ids_mk]
              rcases List.mem_cons.1 hid' with rfl | hid'
              · exact .inr (List.mem_append_left _ (by simp))
              · exact (hgrows.new id' hid').imp_right (List.mem_append_right _)
            · intro id' _ hsome
              rw [hid]
              exact hsome
        · -- the node has an identifier, or none is recorded of it
          rename_i hnot
          refine ⟨⟨hgrows.old, fun id' hid' => ?_⟩, .parent hlike rfl hkids hlength ?_ ?_⟩
          · rw [ids_mk]
            exact (hgrows.new id' hid').imp_right (List.mem_append_right _)
          · intro id' hnone' hsome
            rw [hnone'] at hsome
            cases hsome
          · intro id' hnone' hid'
            exact absurd hid' (hnot id' hnone')

theorem filled_adoptListFrom : (nodes : List Node) → ∀ taken results,
    Grows taken (adoptListFrom taken nodes results).2
        ((adoptListFrom taken nodes results).1.flatMap ids) ∧
      ∀ (i : Nat) (node node' : Node), nodes[i]? = some node →
        (adoptListFrom taken nodes results).1[i]? = some node' →
        Filled (adoptListFrom taken nodes results).2 results[i]?.join node node'
  | [] => by
    intro taken results
    rw [adoptListFrom]
    exact ⟨.refl _ _, nofun⟩
  | first :: nodes => by
    intro taken results
    obtain ⟨hgrows, hfirst⟩ := filled_adoptFrom first taken results.head?.join
    rw [adoptListFrom]
    split
    rename_i first' between heq
    rw [heq] at hgrows hfirst
    obtain ⟨hgrows', hrest⟩ := filled_adoptListFrom nodes between results.tail
    split
    rename_i others taken' heq'
    rw [heq'] at hgrows' hrest
    simp only at hgrows hfirst hgrows' hrest
    refine ⟨⟨fun id hid => hgrows'.old (hgrows.old hid), fun id hid => ?_⟩, ?_⟩
    · rw [List.flatMap_cons]
      rcases hgrows'.new id hid with hid | hid
      · exact (hgrows.new id hid).imp_right (List.mem_append_left _)
      · exact .inr (List.mem_append_right _ hid)
    · intro i node node' hnode hnode'
      cases i with
      | zero =>
        rw [List.getElem?_cons_zero, Option.some.injEq] at hnode hnode'
        subst hnode hnode'
        rw [← List.head?_eq_getElem?]
        exact hfirst.mono hgrows'.old
      | succ i =>
        rw [List.getElem?_cons_succ] at hnode hnode'
        rw [← List.getElem?_tail]
        exact hrest i node node' hnode hnode'

end

/-! ## Whole trees -/

/-- What becomes of a tree that takes over identifiers from a result. -/
structure Adopts (tree : Node) (previous : Result) (tree' : Node) : Prop where
  /-- No two nodes have one identifier. -/
  distinct : tree'.ids.Nodup
  /-- Nodes at the same places do the same work and have the same headers but for identifiers that were
  missing. -/
  kept : Related Header.Identified tree tree'
  /-- An identifier that is filled in is recorded at the place in the result. -/
  recorded : ∀ place x x' id, tree.at? place = some x → tree'.at? place = some x' → x.id = none →
    x'.id = some id → ∃ other, Counterpart tree previous place other ∧ other.entry.id = some id
  /-- An identifier that is recorded at the place of a node is left out only if the node has one or
  another node of the tree has this one. -/
  missing : ∀ place x' other id, tree'.at? place = some x' → x'.id = none →
    Counterpart tree previous place other → other.entry.id = some id → id ∈ tree'.ids
  /-- The tree can be given the identifiers that are still missing. -/
  assigned : ∀ source, ∃ completed rest, tree'.assignIds source = .ok (completed, rest)
  /-- Taking over identifiers from the same result again changes nothing. -/
  again : tree'.adoptIds previous = .ok tree'

/-- A tree with distinct identifiers takes over those that are recorded at the places of nodes without
one, each once, from whatever result; apart from that it stays as it is. -/
theorem adopts_adoptIds (previous : Result) (hnodup : tree.ids.Nodup) :
    ∃ tree', tree.adoptIds previous = .ok tree' ∧ Adopts tree previous tree' := by
  set tree' := (adoptFrom tree.ids tree (some previous)).1 with htree'
  have hadopts : tree.adoptIds previous = .ok tree' := by
    rw [adoptIds, checkIds_eq_ok_iff.2 hnodup]
  have hdistinct : tree'.ids.Nodup := (extends_adoptFrom tree tree.ids (some previous) hnodup
    fun _ hid => hid).nodup
  have hrelated : Related Header.Identified tree tree' := related_adoptFrom tree tree.ids (some previous)
  obtain ⟨hgrows, hfilled⟩ := filled_adoptFrom tree tree.ids (some previous)
  rw [← htree'] at hgrows hfilled
  -- whatever is taken in the end is in the tree
  have hmem : (adoptFrom tree.ids tree (some previous)).2 ⊆ tree'.ids := by
    intro id hid
    rcases hgrows.new id hid with hid | hid
    · exact hrelated.ids_subset (fun _ _ hheader => hheader.2) hid
    · exact hid
  refine ⟨tree', hadopts, hdistinct, hrelated, ?_, ?_, fun source => ?_, ?_⟩
  · intro place x x' id hx hx' hnone hsome
    obtain ⟨r, other, hr, hother, hid⟩ := hfilled.recorded place x x' id hx hx' hnone hsome
    obtain rfl := Option.some.inj hr
    exact ⟨other, hother, hid⟩
  · intro place x' other id hx' hnone hother hid
    exact hmem (hfilled.missing place x' previous other id hx' hnone rfl hother hid)
  · exact ⟨_, _, assignIds_of_nodup hdistinct source⟩
  · rw [adoptIds, checkIds_eq_ok_iff.2 hdistinct]
    simp only
    rw [hfilled.again tree'.ids hmem]

/-- Of two children without identifiers, of which one identifier is recorded, the first takes it over. -/
theorem adopts_adoptIds_repeated :
    (Node.mk {} .sequence [.mk {} (.step "first" none) [], .mk {} (.step "second" none) []]).ids.Nodup ∧
    ∃ tree', (Node.mk {} .sequence
        [.mk {} (.step "first" none) [], .mk {} (.step "second" none) []]).adoptIds
      (.mk ⟨"$", none, "sequence", none, {}, .null, none, []⟩
        [.mk ⟨"$.input[0]", some "a", "step", none, {}, .null, none, []⟩ [] none [],
          .mk ⟨"$.input[1]", some "a", "step", none, {}, .null, none, []⟩ [] none []] none []) =
        .ok tree' ∧
      Adopts (.mk {} .sequence [.mk {} (.step "first" none) [], .mk {} (.step "second" none) []])
        (.mk ⟨"$", none, "sequence", none, {}, .null, none, []⟩
          [.mk ⟨"$.input[0]", some "a", "step", none, {}, .null, none, []⟩ [] none [],
            .mk ⟨"$.input[1]", some "a", "step", none, {}, .null, none, []⟩ [] none []] none [])
        tree' :=
  ⟨by decide, adopts_adoptIds _ (by decide)⟩

end Node
end Workflow
