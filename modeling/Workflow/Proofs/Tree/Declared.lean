import Workflow.Proofs.Tree.Route

/-!
# Paths of results as definitions write them

A path of a result leads to a place of the definition once every `item[i]` in it is written `input`.

* `Path.declared` writes a path so.
* `Node.declared_segmentsTo` says that the path of the node at an address becomes the path of its place.
* `Node.OutsideLoops` says that a place lies below no loop. `Live.Runs.exists_of_outside` says that such
  a place is an address of the run, and `Node.eq_of_declared` that it is the only one.
-/

namespace Workflow

/-! ## Writing -/

/-- The segment as definitions write it: the body of a loop stands for all instances. -/
def Segment.declared (segment : Segment) : Segment :=
  if segment.field = Path.instanceField ∧ segment.index ≠ none then ⟨Path.childField, none⟩
  else segment

/-- The path with every `item[i]` written `input`. -/
def Path.declared (expression : String) : String :=
  match parse expression with
  | .ok segments => format (segments.map Segment.declared)
  | .error _ => expression

theorem Path.declared_of_parse {expression : String} {segments : List Segment}
    (h : parse expression = .ok segments) :
    declared expression = format (segments.map Segment.declared) := by
  rw [declared, h]

namespace Segment

theorem declared_instance (i : Nat) :
    declared ⟨Path.instanceField, some (i : Int)⟩ = ⟨Path.childField, none⟩ :=
  if_pos ⟨rfl, Option.some_ne_none _⟩

theorem declared_of_field_ne {segment : Segment} (h : segment.field ≠ Path.instanceField) :
    segment.declared = segment :=
  if_neg fun hinstance => h hinstance.1

end Segment

theorem Live.declared_kidSegment {work : Work} (h : work.kind ≠ .loop) (i : Nat) :
    (kidSegment work i).declared = kidSegment work i := by
  have hchild : Path.childField ≠ Path.instanceField := by decide
  have hdefault : Path.defaultField ≠ Path.instanceField := by decide
  cases work with
  | loop source itemName indexName limit => exact absurd rfl h
  | branch condition cases =>
    apply Segment.declared_of_field_ne
    rw [kidSegment]
    split
    · exact hchild
    · exact hdefault
  | _ => exact Segment.declared_of_field_ne hchild

namespace Node

variable {tree node target child : Node} {a b : Address} {i : Nat} {place : List Nat}

theorem declared_kidSegment (node : Node) (i : Nat) :
    (Live.kidSegment node.work i).declared = node.childSegment (node.childPosition i) := by
  by_cases hkind : node.kind = .loop
  · rw [childSegment_of_loop hkind, Live.kidSegment_of_loop hkind, Segment.declared_instance]
  · rw [childSegment_of_kind_ne hkind, childPosition_of_kind_ne hkind,
      Live.declared_kidSegment hkind]

/-- The path of a node becomes that of its place. -/
theorem declared_segmentsTo (tree : Node) (a : Address) :
    (tree.segmentsTo a).map Segment.declared = tree.definedSegments (tree.placeOf a) := by
  induction a generalizing tree with
  | nil => rfl
  | cons i a ih =>
    rw [segmentsTo, placeOf, definedSegments, List.map_cons, declared_kidSegment, kidAt_eq]
    cases tree.children[tree.childPosition i]? with
    | none => rfl
    | some child => exact congrArg _ (ih child)

/-! ## Places below no loop -/

/-- The place lies below no loop. -/
def OutsideLoops (tree : Node) (place : List Nat) : Prop :=
  ∀ above below node, place = above ++ below → below ≠ [] → tree.at? above = some node →
    node.kind ≠ .loop

namespace OutsideLoops

theorem kind_ne (h : tree.OutsideLoops (i :: place)) : tree.kind ≠ .loop :=
  h [] (i :: place) tree rfl (List.cons_ne_nil _ _) (at?_nil tree)

theorem tail (h : tree.OutsideLoops (i :: place)) (hchild : tree.children[i]? = some child) :
    child.OutsideLoops place := by
  intro above below node hplace hbelow hnode
  refine h (i :: above) below node (congrArg _ hplace) hbelow ?_
  rw [at?_cons, hchild, Option.bind_some, hnode]

end OutsideLoops

/-- A place below no loop is the place of one address only. -/
theorem eq_of_declared (hsound : tree.Sound) (houtside : tree.OutsideLoops place)
    (htarget : tree.at? place = some target) (hb : (tree.at? (tree.placeOf b)).isSome)
    (h : tree.definedSegments (tree.placeOf b) = tree.definedSegments place) : b = place := by
  induction place generalizing tree b with
  | nil =>
    cases b with
    | nil => rfl
    | cons j b => rw [placeOf] at h; cases h
  | cons i place ih =>
    have hkind := houtside.kind_ne
    cases b with
    | nil => cases h
    | cons j b =>
      rw [placeOf, childPosition_of_kind_ne hkind, at?_cons] at hb
      rw [at?_cons] at htarget
      obtain ⟨child, hchild, hbelow⟩ := Option.bind_eq_some_iff.1 htarget
      obtain ⟨node, hnode⟩ := Option.isSome_iff_exists.1 hb
      obtain ⟨other, hother, hnode⟩ := Option.bind_eq_some_iff.1 hnode
      simp only [hother] at hnode
      rw [placeOf, childPosition_of_kind_ne hkind, hother, definedSegments_cons hother,
        definedSegments_cons hchild, List.cons.injEq] at h
      obtain ⟨hhead, htail⟩ := h
      have hji : j = i := by
        rw [childSegment_of_kind_ne hkind, childSegment_of_kind_ne hkind] at hhead
        refine Live.kidSegment_inj (fun condition cases_ hbranch => ?_) (congrArg Segment.chars hhead)
        have hfits := hsound.fits
        rw [hbranch] at hfits
        have hj := (List.getElem?_eq_some_iff.1 hother).1
        have hi := (List.getElem?_eq_some_iff.1 hchild).1
        rcases hfits with hfits | hfits <;> omega
      subst hji
      rw [hchild, Option.some.injEq] at hother
      subst hother
      exact congrArg _ (ih (hsound.of_mem_children (List.mem_of_getElem? hchild))
        (houtside.tail hchild) hbelow (by rw [hnode]; rfl) htail)

end Node

/-- A place below no loop is an address of the run. -/
theorem Live.Runs.exists_of_outside {node target : Node} {live : Live} {place : List Nat}
    (h : Runs node live) (houtside : node.OutsideLoops place)
    (htarget : node.at? place = some target) :
    (∃ kid, live.at? place = some kid ∧ Runs target kid) ∧ node.placeOf place = place ∧
      node.segmentsTo place = node.definedSegments place := by
  induction place generalizing node live with
  | nil =>
    rw [Node.at?_nil, Option.some.injEq] at htarget
    exact ⟨⟨live, at?_nil live, htarget ▸ h⟩, rfl, rfl⟩
  | cons i place ih =>
    have hkind := houtside.kind_ne
    rw [Node.at?_cons] at htarget
    obtain ⟨child, hchild, htarget⟩ := Option.bind_eq_some_iff.1 htarget
    have hkidAt : node.kidAt i = some child := by rw [Node.kidAt_of_kind_ne hkind, hchild]
    cases h with
    | @mk _ job kids hid hkindName hlabel hnode hlength hsome hkids =>
      have hlt : i < kids.length := by
        rw [hlength hkind]
        exact (List.getElem?_eq_some_iff.1 hchild).1
      have hkid := List.getElem?_eq_getElem hlt
      obtain ⟨⟨kid, hat, hruns⟩, hplace, hsegments⟩ :=
        ih (hkids i _ child hkid hkidAt) (houtside.tail hchild) htarget
      refine ⟨⟨kid, ?_, hruns⟩, ?_, ?_⟩
      · rw [at?_cons, hkid, Option.bind_some, hat]
      · rw [Node.placeOf_cons hkidAt, Node.childPosition_of_kind_ne hkind, hplace]
      · rw [Node.segmentsTo_cons hkidAt, Node.definedSegments_cons hchild,
          Node.childSegment_of_kind_ne hkind, hsegments]

end Workflow
