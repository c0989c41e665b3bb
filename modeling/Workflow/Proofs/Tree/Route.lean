import Workflow.Node.Resolve
import Workflow.Proofs.Live.Reading
import Workflow.Proofs.Path.Localized
import Workflow.Proofs.Run.Paths

/-!
# The paths of places

In a definition the body of a loop is written `input`, in a result its instances are written `item[i]`.
Apart from that a node has one path.

* `Node.segmentsTo` is the path of the node at an address, as results write it, and
  `State.Shape.path_eq_format` says that this is the path that is recorded.
* `Node.definedPath` is the path of the node at a place, as definitions write it, and
  `Node.resolve_definedPath` that it leads there.
-/

namespace Workflow

/-! ## Segments -/

namespace Segment

theorem proper_childField (i : Nat) : Proper ⟨Path.childField, some (i : Int)⟩ := by
  have hfield : Path.childField.toList = ['i', 'n', 'p', 'u', 't'] := by simp [Path.childField]
  refine ⟨Path.exists_field hfield rfl, ?_⟩
  rintro _ ⟨⟩
  exact ⟨i, rfl⟩

theorem proper_body : Proper ⟨Path.childField, none⟩ :=
  ⟨(proper_childField 0).field, nofun⟩

theorem proper_default : Proper ⟨Path.defaultField, none⟩ := by
  have hfield : Path.defaultField.toList = ['d', 'e', 'f', 'a', 'u', 'l', 't'] := by
    simp [Path.defaultField]
  exact ⟨Path.exists_field hfield rfl, nofun⟩

end Segment

/-- The segments that lead to children are as they are read from texts. -/
theorem Live.proper_kidSegment (work : Work) (i : Nat) : (kidSegment work i).Proper := by
  cases work with
  | branch condition cases =>
    rw [kidSegment]
    split
    · exact Segment.proper_childField i
    · exact Segment.proper_default
  | loop source itemName indexName limit => exact Path.proper_instance i
  | _ => exact Segment.proper_childField i

theorem Live.kidSegment_of_loop {work : Work} (h : work.kind = .loop) (i : Nat) :
    kidSegment work i = ⟨Path.instanceField, some i⟩ := by
  cases work with
  | loop source itemName indexName limit => rfl
  | _ => cases h

namespace Node

variable {tree node child : Node} {a b : Address} {i : Nat} {place : List Nat}

/-! ## Paths in results -/

/-- The segments that lead to the node at an address in a result. -/
def segmentsTo : Node → Address → List Segment
  | _, [] => []
  | node, i :: a =>
    Live.kidSegment node.work i ::
      match node.kidAt i with
      | some child => child.segmentsTo a
      | none => []

theorem segmentsTo_cons (h : node.kidAt i = some child) (a : Address) :
    node.segmentsTo (i :: a) = Live.kidSegment node.work i :: child.segmentsTo a := by
  rw [segmentsTo, h]

theorem proper_segmentsTo (node : Node) (a : Address) :
    ∀ segment ∈ node.segmentsTo a, segment.Proper := by
  induction a generalizing node with
  | nil => nofun
  | cons i a ih =>
    rw [segmentsTo]
    refine List.forall_mem_cons.2 ⟨Live.proper_kidSegment _ _, ?_⟩
    cases node.kidAt i with
    | some child => exact ih child
    | none => nofun

/-- The segments go on from those of a node above. -/
theorem segmentsTo_append (h : tree.at? (tree.placeOf a) = some node) (b : Address) :
    tree.segmentsTo (a ++ b) = tree.segmentsTo a ++ node.segmentsTo b := by
  induction a generalizing tree with
  | nil =>
    cases h
    rfl
  | cons i a ih =>
    cases hchild : tree.kidAt i with
    | some child =>
      rw [at?_placeOf_cons hchild] at h
      rw [List.cons_append, segmentsTo_cons hchild, segmentsTo_cons hchild, ih h, List.cons_append]
    | none =>
      rw [kidAt_eq] at hchild
      rw [placeOf, at?_cons, hchild] at h
      cases h

/-! ## Paths in definitions -/

/-- The segment that leads to a child in a definition. -/
def childSegment (node : Node) (i : Nat) : Segment :=
  match node.kind with
  | .loop => ⟨Path.childField, none⟩
  | _ => Live.kidSegment node.work i

/-- The segments that lead to a place in a definition. -/
def definedSegments : Node → List Nat → List Segment
  | _, [] => []
  | node, i :: place =>
    node.childSegment i ::
      match node.children[i]? with
      | some child => child.definedSegments place
      | none => []

/-- The path of a place in a definition. -/
def definedPath (tree : Node) (place : List Nat) : String :=
  Path.format (tree.definedSegments place)

theorem childSegment_of_loop (h : node.kind = .loop) (i : Nat) :
    node.childSegment i = ⟨Path.childField, none⟩ := by
  rw [childSegment, h]

theorem childSegment_of_kind_ne (h : node.kind ≠ .loop) (i : Nat) :
    node.childSegment i = Live.kidSegment node.work i := by
  unfold childSegment
  split
  · contradiction
  · rfl

theorem definedSegments_cons (h : node.children[i]? = some child) (place : List Nat) :
    node.definedSegments (i :: place) = node.childSegment i :: child.definedSegments place := by
  rw [definedSegments, h]

theorem proper_definedSegments (node : Node) (place : List Nat) :
    ∀ segment ∈ node.definedSegments place, segment.Proper := by
  induction place generalizing node with
  | nil => nofun
  | cons i place ih =>
    rw [definedSegments]
    refine List.forall_mem_cons.2 ⟨?_, ?_⟩
    · by_cases hkind : node.kind = .loop
      · rw [childSegment_of_loop hkind]
        exact Segment.proper_body
      · rw [childSegment_of_kind_ne hkind]
        exact Live.proper_kidSegment _ _
    · cases node.children[i]? with
      | some child => exact ih child
      | none => nofun

theorem parse_definedPath (tree : Node) (place : List Nat) :
    Path.parse (tree.definedPath place) = .ok (tree.definedSegments place) :=
  Path.parse_format (tree.proper_definedSegments place)

/-- The segment of a child leads to it. -/
theorem descend_childSegment (h : node.Sound) (hchild : node.children[i]? = some child) :
    node.descend (node.childSegment i) = .ok (.node child) := by
  have hlt : i < node.children.length := (List.getElem?_eq_some_iff.1 hchild).1
  have hfits := h.fits
  have hpick (entries : Path.Entries) :
      Path.pick node.children ⟨Path.childField, some (i : Int)⟩ entries = .ok child := by
    simp only [Path.pick, Int.toNat_natCast, hchild]
  cases hwork : node.work with
  | step agent timeout =>
    rw [hwork] at hfits
    rw [show node.children.length = 0 from hfits] at hlt
    exact absurd hlt (Nat.not_lt_zero i)
  | loop source itemName indexName limit =>
    rw [hwork] at hfits
    rw [show node.children.length = 1 from hfits, Nat.lt_one_iff] at hlt
    subst hlt
    rw [childSegment_of_loop (by rw [kind, hwork]; rfl), descend, hwork]
    rw [List.head?_eq_getElem?, hchild]
    simp
  | branch condition cases =>
    rw [hwork] at hfits
    rw [childSegment_of_kind_ne (by simp [kind, hwork, Work.kind]), descend, hwork]
    simp only [Live.kidSegment]
    split
    · rename_i hcase
      simp only [if_true, Path.pick, Int.toNat_natCast, List.getElem?_take_of_lt hcase, hchild]
      rfl
    · rename_i hdefault
      have hi : cases.length = i := by
        rcases hfits with hfits | hfits <;> omega
      have hfield : ¬ Path.defaultField = Path.childField := by decide
      simp only [if_neg hfield, and_self, if_true, hi, hchild]
  | _ =>
    rw [childSegment_of_kind_ne (by simp [kind, hwork, Work.kind]), descend, hwork]
    simp only [Live.kidSegment, if_true, hpick]
    rfl

/-- The path of a place leads to the node there. -/
theorem resolve_definedPath (h : tree.Sound) (hnode : tree.at? place = some node) :
    tree.resolve (tree.definedPath place) = .ok (.node node) := by
  rw [resolve, Path.follow, parse_definedPath]
  simp only
  generalize tree.definedPath place = expression, 0 = position
  induction place generalizing tree position with
  | nil =>
    cases hnode
    rfl
  | cons i place ih =>
    rw [at?_cons] at hnode
    obtain ⟨child, hchild, hnode⟩ := Option.bind_eq_some_iff.1 hnode
    rw [definedSegments_cons hchild, Path.followFrom, Place.descend, descend_childSegment h hchild]
    exact ih (h.of_mem_children (List.mem_of_getElem? hchild)) hnode (position + 1)

end Node

/-! ## What paths lead past -/

/-- The segment that names a child is the one that leads to it. -/
theorem Segment.Proper.eq_kidSegment {segment : Segment} {work : Work} {i : Nat}
    (h : segment.Proper) (hnamed : work.kidNamed segment = some i) :
    segment = Live.kidSegment work i := by
  obtain ⟨field, index⟩ := segment
  have hindex := h.index
  simp only at hindex
  have heq (hi : index.map Int.toNat = some i) : index = some (i : Int) := by
    obtain ⟨j, rfl, hj⟩ := Option.map_eq_some_iff.1 hi
    obtain ⟨n, rfl⟩ := hindex j rfl
    rw [← hj, Int.toNat_natCast]
  cases work with
  | step agent timeout => cases hnamed
  | loop source itemName indexName limit =>
    simp only [Work.kidNamed, Work.layout, Work.kind] at hnamed
    split at hnamed
    · rename_i hfield
      rw [Live.kidSegment, hfield, heq hnamed]
    · cases hnamed
  | branch condition cases =>
    simp only [Work.kidNamed, Work.layout] at hnamed
    split at hnamed
    · rename_i hfield
      rw [Option.filter_eq_some_iff, decide_eq_true_eq] at hnamed
      simp only [Live.kidSegment]
      rw [if_pos hnamed.2, hfield, heq hnamed.1]
    · split at hnamed
      · rename_i hdefault
        cases hnamed
        simp only [Live.kidSegment, lt_irrefl, if_false]
        rw [hdefault.1, hdefault.2]
      · cases hnamed
  | _ =>
    simp only [Work.kidNamed, Work.layout, Work.kind] at hnamed
    split at hnamed
    · rename_i hfield
      rw [hfield, heq hnamed]
      rfl
    · cases hnamed

/-- The nodes that segments lead past have these segments for their paths. -/
theorem Live.Runs.segmentsTo_trail {node : Node} {live : Live} (h : Runs node live)
    {segments : List Segment} (hproper : ∀ segment ∈ segments, segment.Proper) :
    node.segmentsTo (live.trail segments) <+: segments := by
  induction segments generalizing node live with
  | nil =>
    obtain ⟨job, kids⟩ := live
    exact List.nil_prefix
  | cons segment segments ih =>
    obtain ⟨hfirst, hrest⟩ := List.forall_mem_cons.1 hproper
    cases h with
    | @mk _ job kids hid hkind hlabel hnode hlength hsome hkids =>
      rw [trail]
      cases hnamed : job.node.work.kidNamed segment with
      | none => exact List.nil_prefix
      | some i =>
        rw [Option.bind_some]
        cases hkid : kids[i]? with
        | none => exact List.nil_prefix
        | some kid =>
          obtain ⟨child, hchild⟩ := Option.isSome_iff_exists.1 (hsome i kid hkid)
          simp only [Option.map_some]
          rw [Node.segmentsTo_cons hchild, hfirst.eq_kidSegment hnamed, hnode]
          exact (List.prefix_cons_inj _).2 (ih (hkids i kid child hkid hchild) hrest)

/-! ## Paths of nodes of a run -/

namespace State.Shape

variable {tree : Node} {s : State} {a : Address} {job : Job}

/-- A node is defined at its place. -/
theorem at?_placeOf (h : Shape tree s) (hjob : s.jobAt a = some job) :
    tree.at? (tree.placeOf a) = some job.node := by
  obtain ⟨kids, hkids⟩ := State.at?_of_jobAt hjob
  obtain ⟨node, hnode, hruns⟩ := h.runs.at? hkids
  rw [hnode, show job.node = node from hruns.job.1]

theorem placeOf_concat (h : Shape tree s) (hjob : s.jobAt a = some job) (i : Nat) :
    tree.placeOf (a ++ [i]) = tree.placeOf a ++ [job.node.childPosition i] := by
  rw [Node.placeOf_append (h.at?_placeOf hjob), Node.placeOf]
  cases job.node.children[job.node.childPosition i]? <;> rfl

theorem segmentsTo_concat (h : Shape tree s) (hjob : s.jobAt a = some job) (i : Nat) :
    tree.segmentsTo (a ++ [i]) = tree.segmentsTo a ++ [Live.kidSegment job.node.work i] := by
  rw [Node.segmentsTo_append (h.at?_placeOf hjob), Node.segmentsTo]
  cases job.node.kidAt i <;> rfl

/-- The path that is recorded of a node is written from the segments that lead to it. -/
theorem path_eq_format (h : Shape tree s) (hjob : s.jobAt a = some job) :
    job.entry.path = Path.format (tree.segmentsTo a) := by
  induction a using List.reverseRecOn generalizing job with
  | nil =>
    obtain ⟨root, hroot, _, hpath⟩ := h.root
    rw [hroot, Option.some.injEq] at hjob
    rw [← hjob, hpath, Node.segmentsTo]
    exact String.toList_injective (by decide)
  | append_singleton a i ih =>
    obtain ⟨above, habove, _, hpath⟩ := h.above hjob
    rw [hpath, ih habove, Path.child_format, h.segmentsTo_concat habove]

theorem parse_path (h : Shape tree s) (hjob : s.jobAt a = some job) :
    Path.parse job.entry.path = .ok (tree.segmentsTo a) := by
  rw [h.path_eq_format hjob]
  exact Path.parse_format (tree.proper_segmentsTo a)

theorem length_segmentsTo (h : Shape tree s) (hjob : s.jobAt a = some job) :
    (tree.segmentsTo a).length = a.length := by
  induction a using List.reverseRecOn generalizing job with
  | nil => rfl
  | append_singleton a i ih =>
    obtain ⟨above, habove, _⟩ := h.above hjob
    rw [h.segmentsTo_concat habove, List.length_append, ih habove, List.length_append]
    rfl

/-- The nodes whose paths go on from that of a loop by the segment of an instance lie in the instance. -/
theorem prefix_of_segmentsTo {b : Address} {below : Job} {i : Nat} {segments : List Segment}
    (h : Shape tree s) (hjob : s.jobAt a = some job) (hkind : job.node.kind = .loop)
    (hbelow : s.jobAt b = some below)
    (hsegments : tree.segmentsTo b = tree.segmentsTo a ++ ⟨Path.instanceField, some i⟩ :: segments) :
    a ++ [i] <+: b := by
  have hlength := congrArg List.length hsegments
  rw [h.length_segmentsTo hbelow, List.length_append, h.length_segmentsTo hjob, List.length_cons]
    at hlength
  -- the node as far above as the loop has the path of the loop
  obtain ⟨c, j, d, rfl, hc⟩ : ∃ c j d, b = c ++ j :: d ∧ c.length = a.length := by
    refine ⟨b.take a.length, b[a.length], b.drop (a.length + 1), ?_, ?_⟩
    · rw [List.getElem_cons_drop, List.take_append_drop]
    · rw [List.length_take]
      omega
  obtain ⟨above, habove⟩ := jobAt_of_append hbelow
  rw [Node.segmentsTo_append (h.at?_placeOf habove), Node.segmentsTo] at hsegments
  obtain ⟨hsame, hrest⟩ := List.append_inj hsegments (by
    rw [h.length_segmentsTo habove, h.length_segmentsTo hjob, hc])
  have hca : c = a := h.path_inj habove hjob (by rw [h.path_eq_format habove, hsame, h.path_eq_format hjob])
  subst hca
  rw [hjob, Option.some.injEq] at habove
  subst habove
  rw [Live.kidSegment_of_loop hkind, List.cons.injEq, Segment.mk.injEq, Option.some.injEq] at hrest
  have hij : j = i := Int.ofNat_inj.1 hrest.1.2
  rw [hij]
  exact ⟨d, by rw [List.append_assoc]; rfl⟩

end State.Shape
end Workflow
