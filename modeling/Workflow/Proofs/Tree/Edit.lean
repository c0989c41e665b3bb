import Workflow.Proofs.Tree.Route
import Workflow.Proofs.Tree.Independence

/-!
# Paths in edited definitions

A node of a definition may be replaced. Paths that lead elsewhere lead where they led before, and paths
through the replaced node go on in the new one.

* `Path.append` is the path that goes on from the end of a path as another does from the root, and
  `Path.Error.below` is what becomes of an error there.
* `Node.put` is the definition with another node at the end of a path.
* `Node.resolve_put` says what paths lead to in it, that paths are followed one part after the other,
  and which segment is reported if a path leads nowhere.
-/

namespace Workflow

namespace Path

variable {α : Type} {step : α → Segment → Except Miss α} {place next : α} {segments before : List Segment}
  {segment : Segment} {miss : Miss} {expression expression' : String} {position : Nat}

/-! ## Paths that go on -/

/-- The path that goes on from the end of a path as another does from the root. -/
def append (path rest : String) : String :=
  path ++ String.ofList rest.toList.tail

/-- The error of a path that goes on after `count` segments, as the whole expression has it. -/
def Error.below (expression : String) (count : Nat) : Error → Error
  | malformed part cause => malformed part cause
  | notFound _ segment position miss => notFound expression segment (count + position) miss

theorem parse_append {path rest : String} (hpath : parse path = .ok before)
    (hrest : parse rest = .ok segments) : parse (append path rest) = .ok (before ++ segments) := by
  obtain ⟨pieces, hpieces, htext⟩ := parse_eq_ok_iff.1 hpath
  obtain ⟨more, hmore, hmoreText⟩ := parse_eq_ok_iff.1 hrest
  refine parse_eq_ok_iff.2 ⟨pieces ++ more, List.rel_append hpieces hmore, ?_⟩
  rw [append, String.toList_append, String.toList_ofList, htext, hmoreText]
  simp

/-! ## Following -/

/-- The expression and the number of segments before matter to errors only. -/
theorem followFrom_below (expression expression' : String) (count position : Nat) (place : α)
    (segments : List Segment) :
    followFrom step expression (count + position) place segments =
      (followFrom step expression' position place segments).mapError
        (Error.below expression count) := by
  induction segments generalizing position place with
  | nil => rfl
  | cons segment segments ih =>
    rw [followFrom, followFrom]
    cases step place segment with
    | error miss => rfl
    | ok next => exact ih (position + 1) next

theorem followFrom_ok (h : followFrom step expression position place segments = .ok next)
    (expression' : String) (position' : Nat) :
    followFrom step expression' position' place segments = .ok next := by
  have hzero : followFrom step expression 0 place segments = .ok next := by
    have hbelow : followFrom step expression (position + 0) place segments = _ :=
      followFrom_below expression expression position 0 place segments
    rw [Nat.add_zero, h] at hbelow
    cases hfound : followFrom step expression 0 place segments with
    | error e => rw [hfound] at hbelow; cases hbelow
    | ok found => rw [hfound] at hbelow; exact hbelow.symm
  rw [← Nat.add_zero position', followFrom_below expression' expression, hzero]
  rfl

/-- Segments are followed one part after the other. -/
theorem followFrom_append (h : followFrom step expression position place before = .ok next)
    (segments : List Segment) :
    followFrom step expression position place (before ++ segments) =
      followFrom step expression (position + before.length) next segments := by
  induction before generalizing position place with
  | nil =>
    cases h
    rfl
  | cons segment before ih =>
    rw [followFrom] at h
    rw [List.cons_append, followFrom]
    cases hstep : step place segment with
    | error miss => rw [hstep] at h; cases h
    | ok middle =>
      rw [hstep] at h
      rw [List.length_cons, Nat.add_comm before.length, ← Nat.add_assoc]
      exact ih h

/-- The segment that is reported is the first that cannot be followed. -/
theorem followFrom_eq_notFound_iff {reported : String} {found : Nat} :
    followFrom step expression position place segments =
        .error (.notFound reported segment found miss) ↔
      reported = expression ∧ ∃ before after next, segments = before ++ segment :: after ∧
        found = position + before.length ∧
        followFrom step expression position place before = .ok next ∧
        step next segment = .error miss := by
  constructor
  · intro h
    induction segments generalizing position place with
    | nil => cases h
    | cons first segments ih =>
      rw [followFrom] at h
      cases hstep : step place first with
      | error reason =>
        rw [hstep] at h
        cases h
        exact ⟨rfl, [], segments, place, rfl, rfl, rfl, hstep⟩
      | ok middle =>
        rw [hstep] at h
        obtain ⟨hreported, before, after, next, hsegments, hfound, hnext, hmiss⟩ := ih h
        refine ⟨hreported, first :: before, after, next, ?_, ?_, ?_, hmiss⟩
        · rw [hsegments, List.cons_append]
        · rw [hfound, List.length_cons]
          omega
        · rw [followFrom, hstep]
          exact hnext
  · rintro ⟨rfl, before, after, next, rfl, rfl, hnext, hmiss⟩
    rw [followFrom_append hnext, followFrom, hmiss]

end Path

namespace Node

variable {tree node child new : Node} {segment other : Segment} {i : Nat} {children : List Node}
  {expression : String} {position : Nat} {segments others : List Segment}

/-! ## One segment -/

/-- From a node and from the node with other children a segment leads to the children at one position,
or it leads to no child and to the same. -/
inductive Leads (node : Node) (children : List Node) (segment : Segment) : Prop
  | child {child child' : Node} (i : Nat) : segment = node.childSegment i →
      node.childNamed segment = some i → node.children[i]? = some child →
      children[i]? = some child' → node.descend segment = .ok (.node child) →
      (node.withChildren children).descend segment = .ok (.node child') → Leads node children segment
  | same : (∀ child, node.descend segment ≠ .ok (.node child)) →
      (node.withChildren children).descend segment = node.descend segment →
      Leads node children segment

/-- A segment with an index picks one of several children. -/
theorem Leads.pick (items items' : List Node) (entries : Path.Entries) (hproper : segment.Proper)
    (hlength : items'.length = items.length)
    (hdescend : node.descend segment = (Path.pick items segment entries).map .node)
    (hdescend' : (node.withChildren children).descend segment =
      (Path.pick items' segment entries).map .node)
    (hitems : ∀ (i : Nat) child, segment.index = some (i : Int) → items[i]? = some child →
      segment = node.childSegment i ∧ node.childNamed segment = some i ∧
        node.children[i]? = some child)
    (hitems' : ∀ (i : Nat) child, items'[i]? = some child → children[i]? = some child) :
    node.Leads children segment := by
  rcases Path.pick_cases segment entries hlength with
    ⟨miss, hmiss, hmiss'⟩ | ⟨index, kid, kid', hindex, hkid, hkid', hpick, hpick'⟩
  · rw [hmiss] at hdescend
    rw [hmiss'] at hdescend'
    refine .same (fun child hok => ?_) (hdescend'.trans hdescend.symm)
    rw [hdescend] at hok
    cases hok
  · obtain ⟨i, rfl⟩ := hproper.index index hindex
    obtain ⟨hsegment, hnamed, hchild⟩ := hitems i kid hindex hkid
    rw [hpick] at hdescend
    rw [hpick'] at hdescend'
    exact .child i hsegment hnamed hchild (hitems' i kid' hkid') hdescend hdescend'

/-- A segment without an index leads to the child at one position. -/
theorem Leads.one (i : Nat) (miss : Path.Miss) (hlength : children.length = node.children.length)
    (hsegment : segment = node.childSegment i) (hnamed : node.childNamed segment = some i)
    (hdescend : ∀ children', (node.withChildren children').descend segment =
      match children'[i]? with
      | some child => .ok (.node child)
      | none => .error miss) : node.Leads children segment := by
  have hself : node.withChildren node.children = node := by
    obtain ⟨header, work, kids⟩ := node
    rfl
  have hhere := hdescend node.children
  have hthere := hdescend children
  rw [hself] at hhere
  cases hchild : node.children[i]? with
  | none =>
    have hnone : children[i]? = none := by
      rw [List.getElem?_eq_none_iff] at hchild ⊢
      rwa [hlength]
    rw [hchild] at hhere
    rw [hnone] at hthere
    refine .same (fun child hok => ?_) (hthere.trans hhere.symm)
    rw [hhere] at hok
    cases hok
  | some child =>
    have hlt : i < children.length := hlength ▸ (List.getElem?_eq_some_iff.1 hchild).1
    have hsome := List.getElem?_eq_getElem hlt
    rw [hchild] at hhere
    rw [hsome] at hthere
    exact .child i hsegment hnamed hchild hsome hhere hthere

theorem Leads.miss (miss : Path.Miss) (h : node.descend segment = .error miss)
    (h' : (node.withChildren children).descend segment = .error miss) :
    node.Leads children segment :=
  .same (fun child hok => by rw [h] at hok; cases hok) (h'.trans h.symm)

theorem eq_childSegment (hindex : segment.index = some (i : Int))
    (hfield : segment.field = Path.childField) : segment = ⟨Path.childField, some (i : Int)⟩ := by
  rw [← hfield, ← hindex]

variable {header : Header} {kids : List Node}

/-- No segment leads from a step to a node. -/
theorem leads_step (agent : String) (timeout : Option Binary64) :
    (Node.mk header (.step agent timeout) kids).Leads children segment := by
  refine .same (fun child hok => ?_) rfl
  simp only [descend, work] at hok
  split at hok
  · cases hpick : Path.pick (Fields.contents header.inputs) segment .declaredInputs with
    | error miss => rw [Node.header, hpick] at hok; cases hok
    | ok binding => rw [Node.header, hpick] at hok; cases hok
  · cases hok

/-- The children of a branch are those of its cases, and then the default. -/
theorem leads_branch (condition : Binding) (cases : List Value)
    (hlength : children.length = kids.length) (hproper : segment.Proper) :
    (Node.mk header (.branch condition cases) kids).Leads children segment := by
  by_cases hfield : segment.field = Path.childField
  · refine .pick (kids.take cases.length) (children.take cases.length) .cases hproper ?_ ?_ ?_
      (fun i child hindex hchild => ?_) (fun i child hchild => ?_)
    · rw [List.length_take, List.length_take, hlength]
    · simp [descend, work, hfield, Node.children]
    · simp [descend, work, withChildren, hfield, Node.children]
    · rw [List.getElem?_take] at hchild
      split at hchild
      · rename_i hlt
        refine ⟨?_, ?_, hchild⟩
        · rw [eq_childSegment hindex hfield, childSegment]
          simp [kind, work, Work.kind, Live.kidSegment, hlt]
        · simp [childNamed, work, hfield, hindex, Option.filter, hlt]
      · cases hchild
    · rw [List.getElem?_take] at hchild
      split at hchild
      · exact hchild
      · cases hchild
  · by_cases hdefault : segment.field = Path.defaultField ∧ segment.index = none
    · obtain ⟨field, index⟩ := segment
      obtain ⟨rfl, rfl⟩ := hdefault
      refine .one cases.length .noDefault hlength ?_ ?_ fun children' => ?_
      · simp [childSegment, kind, work, Work.kind, Live.kidSegment]
      · simp [childNamed, work, hfield]
      · cases hchild : children'[cases.length]? <;>
          simp [descend, work, withChildren, hfield, Node.children, hchild]
    · exact .miss (.notInDefinition Kind.branch.name)
        (by simp [descend, work, hfield, hdefault, kind, Work.kind])
        (by simp [descend, work, withChildren, hfield, hdefault, kind, Work.kind])

/-- The body of a loop is its only child, whose segment has no index. -/
theorem leads_loop (source : Binding) (itemName : String) (indexName : Option String)
    (limit : Option Nat) (hlength : children.length = kids.length) :
    (Node.mk header (.loop source itemName indexName limit) kids).Leads children segment := by
  by_cases hbody : segment.field = Path.childField ∧ segment.index = none
  · obtain ⟨field, index⟩ := segment
    obtain ⟨rfl, rfl⟩ := hbody
    refine .one 0 (.notInDefinition Kind.loop.name) hlength rfl ?_ fun children' => ?_
    · simp [childNamed, work]
    · cases hchild : children'[0]? <;>
        simp [descend, work, withChildren, Node.children, List.head?_eq_getElem?, kind, Work.kind,
          hchild]
  · by_cases hinstance : segment.field = Path.instanceField
    · exact .miss .onlyInResults
        (by simp only [descend, work, if_neg hbody, if_pos hinstance])
        (by simp only [descend, work, withChildren, if_neg hbody, if_pos hinstance])
    · exact .miss (.notInDefinition Kind.loop.name)
        (by simp [descend, work, hbody, hinstance, kind, Work.kind])
        (by simp [descend, work, withChildren, hbody, hinstance, kind, Work.kind])

/-- What a segment leads to stands at the position of a child, or has nothing to do with children. -/
theorem leads (children : List Node) (hlength : children.length = node.children.length)
    (hproper : segment.Proper) :
    node.Leads children segment := by
  obtain ⟨header, work, kids⟩ := node
  cases work with
  | step agent timeout => exact leads_step agent timeout
  | branch condition cases => exact leads_branch condition cases hlength hproper
  | loop source itemName indexName limit =>
    exact leads_loop source itemName indexName limit hlength
  | _ =>
    by_cases hfield : segment.field = Path.childField
    · refine .pick kids children .children hproper hlength ?_ ?_
        (fun i child hindex hchild => ⟨?_, ?_, hchild⟩) (fun i child hchild => hchild)
      · simp [descend, work, hfield, Node.children]
      · simp [descend, work, withChildren, hfield, Node.children]
      · rw [eq_childSegment hindex hfield]
        rfl
      · simp [childNamed, work, hfield, hindex]
    · exact .miss (.notInDefinition _) (by simp only [descend, work, if_neg hfield]; rfl)
        (by simp only [descend, work, withChildren, if_neg hfield]; rfl)

/-- A segment that leads to a node is the segment of a child. -/
theorem exists_child_of_descend (hproper : segment.Proper)
    (h : node.descend segment = .ok (.node child)) : ∃ i, segment = node.childSegment i ∧
      node.childNamed segment = some i ∧ node.children[i]? = some child := by
  cases leads node.children rfl hproper with
  | same hno => exact absurd h (hno child)
  | child i hsegment hnamed hchild _ hdescend =>
    rw [h, Except.ok.injEq, Place.node.injEq] at hdescend
    exact ⟨i, hsegment, hnamed, hdescend ▸ hchild⟩

/-! ## Replacing a node -/

/-- The definition with another node at the end of the segments. The nodes above keep what they are and
their other children. -/
def put : Node → List Segment → Node → Node
  | _, [], new => new
  | node, segment :: segments, new =>
    match node.childNamed segment with
    | none => node
    | some i =>
      match node.children[i]? with
      | none => node
      | some child => node.withChildren (node.children.set i (child.put segments new))

theorem put_cons (hnamed : node.childNamed segment = some i) (hchild : node.children[i]? = some child)
    (segments : List Segment) (new : Node) :
    node.put (segment :: segments) new =
      node.withChildren (node.children.set i (child.put segments new)) := by
  rw [put, hnamed]
  simp only [hchild]

/-- The segment that led to a child leads to what takes its place. -/
theorem descend_put (hproper : segment.Proper) (h : node.descend segment = .ok (.node child))
    (segments : List Segment) (new : Node) :
    (node.put (segment :: segments) new).descend segment = .ok (.node (child.put segments new)) := by
  obtain ⟨i, -, hnamed, hchild⟩ := exists_child_of_descend hproper h
  rw [put_cons hnamed hchild]
  cases leads (node.children.set i (child.put segments new)) List.length_set hproper with
  | same hno => exact absurd h (hno child)
  | child j _ hnamed' _ hset _ hdescend =>
    obtain rfl : i = j := by rwa [hnamed, Option.some.injEq] at hnamed'
    rw [List.getElem?_set_self (List.getElem?_eq_some_iff.1 hchild).1, Option.some.injEq] at hset
    rw [hdescend, hset]

/-- Other segments lead where they led. -/
theorem descend_put_of_ne (hproper : segment.Proper) (h : node.descend segment = .ok (.node child))
    (hother : other.Proper) (hne : other ≠ segment) (segments : List Segment) (new : Node) :
    (node.put (segment :: segments) new).descend other = node.descend other := by
  obtain ⟨i, hsegment, hnamed, hchild⟩ := exists_child_of_descend hproper h
  rw [put_cons hnamed hchild]
  cases leads (node.children.set i (child.put segments new)) List.length_set hother with
  | same _ hsame => exact hsame
  | child j hsegment' _ hget hset hdescend hdescend' =>
    have hij : i ≠ j := by
      rintro rfl
      exact hne (hsegment'.trans hsegment.symm)
    rw [List.getElem?_set_ne hij, hget, Option.some.injEq] at hset
    rw [hdescend', hdescend, hset]

/-! ## Paths in the edited definition -/

/-- On the way to a node every segment leads to a node. -/
theorem followFrom_cons (h : Path.followFrom Place.descend expression position (.node tree)
    (segment :: segments) = .ok (.node node)) : ∃ child, tree.descend segment = .ok (.node child) ∧
      Path.followFrom Place.descend expression (position + 1) (.node child) segments =
        .ok (.node node) := by
  rw [Path.followFrom, Place.descend] at h
  cases hdescend : tree.descend segment with
  | error miss => rw [hdescend] at h; cases h
  | ok next =>
    rw [hdescend] at h
    cases next with
    | node child => exact ⟨child, rfl, h⟩
    | binding binding => cases segments <;> cases h

/-- Segments that led to the replaced node lead to the new one. -/
theorem followFrom_put (hproper : ∀ segment ∈ segments, Segment.Proper segment)
    (h : Path.followFrom Place.descend expression position (.node tree) segments = .ok (.node node))
    (new : Node) :
    Path.followFrom Place.descend expression position (.node (tree.put segments new)) segments =
      .ok (.node new) := by
  induction segments generalizing tree position with
  | nil => rfl
  | cons segment segments ih =>
    obtain ⟨hfirst, hrest⟩ := List.forall_mem_cons.1 hproper
    obtain ⟨child, hchild, hbelow⟩ := followFrom_cons h
    rw [Path.followFrom, Place.descend, descend_put hfirst hchild]
    exact ih hrest hbelow

/-- Segments that neither end above the replaced node nor go through it lead where they led. -/
theorem followFrom_put_of_not_prefix {expression' : String} {position' : Nat}
    (hproper : ∀ segment ∈ segments, Segment.Proper segment)
    (hothers : ∀ segment ∈ others, Segment.Proper segment)
    (h : Path.followFrom Place.descend expression position (.node tree) segments = .ok (.node node))
    (habove : ¬ others <+: segments) (hbelow : ¬ segments <+: others) (new : Node) :
    Path.followFrom Place.descend expression' position' (.node (tree.put segments new)) others =
      Path.followFrom Place.descend expression' position' (.node tree) others := by
  induction segments generalizing tree position others position' with
  | nil => exact absurd List.nil_prefix hbelow
  | cons segment segments ih =>
    cases others with
    | nil => exact absurd List.nil_prefix habove
    | cons other others =>
      obtain ⟨hfirst, hrest⟩ := List.forall_mem_cons.1 hproper
      obtain ⟨hother, hothers⟩ := List.forall_mem_cons.1 hothers
      obtain ⟨child, hchild, hnode⟩ := followFrom_cons h
      rw [Path.followFrom, Path.followFrom, Place.descend, Place.descend]
      by_cases hsame : other = segment
      · subst hsame
        rw [List.prefix_cons_inj] at habove hbelow
        rw [descend_put hfirst hchild, hchild]
        exact ih hrest hothers hnode habove hbelow
      · rw [descend_put_of_ne hfirst hchild hother hsame]

theorem resolve_eq (h : Path.parse expression = .ok segments) (tree : Node) :
    tree.resolve expression =
      Path.followFrom Place.descend expression 0 (.node tree) segments := by
  rw [resolve, Path.follow, h]

/-- A path that goes on from a node leads where the rest leads from there. -/
theorem resolve_of_append {path rest : String} (hpath : Path.parse path = .ok segments)
    (hnode : tree.resolve path = .ok (.node node)) (hrest : Path.parse rest = .ok others)
    (hwhole : Path.parse expression = .ok (segments ++ others)) :
    tree.resolve expression =
      (node.resolve rest).mapError (Path.Error.below expression segments.length) := by
  rw [resolve_eq hpath] at hnode
  rw [resolve_eq hwhole, resolve_eq hrest,
    Path.followFrom_append (Path.followFrom_ok hnode expression 0), Nat.zero_add]
  exact Path.followFrom_below expression rest segments.length 0 (Place.node node) others

/-- The first segment that cannot be followed is reported. -/
theorem resolve_eq_notFound_iff {reported : String} {miss : Path.Miss} :
    tree.resolve expression = .error (.notFound reported segment position miss) ↔
      reported = expression ∧ ∃ before after place,
        Path.parse expression = .ok (before ++ segment :: after) ∧ position = before.length ∧
        tree.resolve (Path.format before) = .ok place ∧ place.descend segment = .error miss := by
  cases hparse : Path.parse expression with
  | error e =>
    rw [Path.parse] at hparse
    split at hparse
    · cases hparse
    · cases hparse
      simp [resolve, Path.follow, Path.parse, *]
  | ok segments =>
    rw [resolve_eq hparse, Path.followFrom_eq_notFound_iff]
    refine and_congr_right fun _ => exists_congr fun before => exists_congr fun after =>
      exists_congr fun place => ?_
    rw [Except.ok.injEq, Nat.zero_add]
    refine and_congr_right fun hsegments => and_congr_right fun _ => and_congr_left fun _ => ?_
    have hproper := Path.proper_of_parse hparse
    rw [resolve_eq (Path.parse_format fun segment hmem => hproper segment
      (hsegments ▸ List.mem_append_left _ hmem))]
    exact ⟨fun h => Path.followFrom_ok h _ _, fun h => Path.followFrom_ok h _ _⟩

/-- A node of a definition may be replaced: paths that lead elsewhere lead where they led, with the same
errors, and a path that goes on from the node leads where the rest of it leads in the new node, as it led
where the rest led in the old one. An error tells the first segment that cannot be followed. -/
theorem resolve_put {path : String} (hpath : Path.parse path = .ok segments)
    (hnode : tree.resolve path = .ok (.node node)) (new : Node) :
    (∀ other, (∀ others, Path.parse other = .ok others →
        ¬ others <+: segments ∧ ¬ segments <+: others) →
      (tree.put segments new).resolve other = tree.resolve other) ∧
    (∀ rest others, Path.parse rest = .ok others →
      Path.parse (Path.append path rest) = .ok (segments ++ others) ∧
      ∀ whole, Path.parse whole = .ok (segments ++ others) →
        (tree.put segments new).resolve whole =
            (new.resolve rest).mapError (Path.Error.below whole segments.length) ∧
          tree.resolve whole =
            (node.resolve rest).mapError (Path.Error.below whole segments.length)) ∧
    ∀ (tree : Node) whole reported segment position miss,
      tree.resolve whole = .error (.notFound reported segment position miss) ↔
        reported = whole ∧ ∃ before after place,
          Path.parse whole = .ok (before ++ segment :: after) ∧ position = before.length ∧
          tree.resolve (Path.format before) = .ok place ∧ place.descend segment = .error miss := by
  have hproper := Path.proper_of_parse hpath
  have hfollow := hnode
  rw [resolve_eq hpath] at hfollow
  refine ⟨fun other hother => ?_, fun rest others hrest => ⟨Path.parse_append hpath hrest,
    fun whole hwhole => ⟨?_, resolve_of_append hpath hnode hrest hwhole⟩⟩,
    fun _ _ _ _ _ _ => resolve_eq_notFound_iff⟩
  · cases hparse : Path.parse other with
    | error e => rw [resolve, resolve, Path.follow, Path.follow, hparse]
    | ok others =>
      obtain ⟨habove, hbelow⟩ := hother others hparse
      rw [resolve_eq hparse, resolve_eq hparse]
      exact followFrom_put_of_not_prefix hproper (Path.proper_of_parse hparse) hfollow habove hbelow
        new
  · refine resolve_of_append hpath ?_ hrest hwhole
    rw [resolve_eq hpath]
    exact followFrom_put hproper hfollow new

/-- The default of a branch is replaced by a step. -/
theorem resolve_put_default :
    let step (agent : String) : Node := .mk { inputs := [("x", .literal (.int 1))] } (.step agent none) []
    let branch : Node := .mk {} (.branch (.variable "v") [.int 0]) [step "a", .mk {} .sequence []]
    let tree : Node := .mk {} .sequence [step "b", branch]
    let segments : List Segment := [⟨"input", some 1⟩, ⟨"default", none⟩]
    Path.parse "$.input[1].default" = .ok segments ∧
      tree.resolve "$.input[1].default" = .ok (.node (.mk {} .sequence [])) ∧
      (tree.put segments (step "c")).resolve "$.input[1].input[0]" = tree.resolve "$.input[1].input[0]" ∧
      (tree.put segments (step "c")).resolve "$.input[1].default.input[7]" =
        .error (.notFound "$.input[1].default.input[7]" ⟨"input", some 7⟩ 2
          (.outOfRange .declaredInputs 1)) := by
  intro step branch tree segments
  have hpath : Path.parse "$.input[1].default" = .ok segments := by decide +kernel
  have hother : Path.parse "$.input[1].input[0]" = .ok [⟨"input", some 1⟩, ⟨"input", some 0⟩] := by
    decide +kernel
  have hrest : Path.parse "$.input[7]" = .ok [⟨"input", some 7⟩] := by decide +kernel
  have hnode : tree.resolve "$.input[1].default" = .ok (.node (.mk {} .sequence [])) := by
    rw [resolve_eq hpath]
    rfl
  obtain ⟨helsewhere, hbelow, -⟩ := resolve_put hpath hnode (step "c")
  obtain ⟨hwhole, hresolve⟩ := hbelow "$.input[7]" _ hrest
  refine ⟨hpath, hnode, helsewhere _ ?_, ?_⟩
  · intro others hothers
    rw [hother] at hothers
    cases hothers
    decide
  · have hedited := (hresolve _ hwhole).1
    rw [resolve_eq hrest] at hedited
    exact hedited

end Node
end Workflow
