import Workflow.Node.Resolve
import Workflow.Proofs.Live.Reading
import Workflow.Proofs.Tree.Route

/-!
# Following paths in live trees

The segments that lead to the nodes of a live tree lead to the same nodes in the result that the tree
becomes.

* `Live.descend_of_kidNamed` says that the segment that names a child leads to it, and
  `Live.exists_of_descend` that no segment leads to anything else.
* `Live.Runs.followFrom_segmentsTo` follows a whole path.
* `Live.Runs.entries_walk` says that a walk of the result is a walk of the tree.
-/

namespace Workflow

namespace Live

variable {live kid : Live} {node : Node} {segment : Segment} {work : Work} {i : Nat} {a : Address}

/-! ## One segment -/

/-- The segment of a child names it, as far as a branch has room for it. -/
theorem kidNamed_kidSegment (hkind : work.kind ≠ .step)
    (hroom : ∀ condition cases, work = .branch condition cases → i ≤ cases.length) :
    work.kidNamed (kidSegment work i) = some i := by
  have hfield : ¬ Path.defaultField = Path.childField := by decide
  cases work with
  | step agent own => exact absurd rfl hkind
  | branch condition cases =>
    have hi := hroom condition cases rfl
    by_cases hlt : i < cases.length
    · rw [kidSegment, if_pos hlt]
      simp [Work.kidNamed, Work.layout, hlt]
    · rw [kidSegment, if_neg hlt]
      simp only [Work.kidNamed, Work.layout, hfield, if_false, and_self, if_true]
      exact congrArg some (Nat.le_antisymm (Nat.le_of_not_lt hlt) hi)
  | _ => simp [Work.kidNamed, Work.layout, Work.kind, kidSegment]

/-- The segment that names a child leads to it. -/
theorem descend_of_kidNamed (hkind : live.entry.kind = live.job.node.kind.name)
    (hnamed : live.job.node.work.kidNamed segment = some i) (hkid : live.kids[i]? = some kid) :
    live.toResult.descend segment = .ok (.node kid.toResult) := by
  obtain ⟨job, kids⟩ := live
  change job.entry.kind = job.node.work.kind.name at hkind
  change job.node.work.kidNamed segment = some i at hnamed
  change kids[i]? = some kid at hkid
  have hfields : ¬ Path.defaultField = Path.childField := by decide
  have hpick (entries : Path.Entries) {all : List Result} (hall : all[i]? = some kid.toResult)
      (hindex : segment.index.map Int.toNat = some i) :
      Path.pick all segment entries = .ok kid.toResult := by
    obtain ⟨index, hsome, hi⟩ := Option.map_eq_some_iff.1 hindex
    simp only [Path.pick, hsome, hi, hall]
  have hmap : (kids.map toResult)[i]? = some kid.toResult := by rw [List.getElem?_map, hkid]; rfl
  rw [toResult_eq, Result.descend]
  cases hwork : job.node.work with
  | step agent own =>
    rw [hwork] at hnamed
    cases hnamed
  | branch condition cases =>
    rw [hwork] at hkind hnamed
    simp only [Work.kidNamed, Work.layout] at hnamed
    simp only [Work.layout, Result.entry, Result.children, Result.default?, hkind, Work.kind]
    split at hnamed
    · rename_i hfield
      rw [Option.filter_eq_some_iff, decide_eq_true_eq] at hnamed
      have htake : ((kids.map toResult).take cases.length)[i]? = some kid.toResult := by
        rw [List.getElem?_take_of_lt hnamed.2, hmap]
      simp [Kind.name, hfield, hpick .children htake hnamed.1, Except.map]
    · split at hnamed
      · rename_i hdefault
        cases hnamed
        simp [Kind.name, hfields, hdefault, hkid]
      · cases hnamed
  | loop source itemName indexName limit =>
    rw [hwork] at hkind hnamed
    simp only [Work.kidNamed, Work.layout, Work.kind] at hnamed
    split at hnamed
    · rename_i hfield
      simp [Work.layout, Result.entry, Result.items, hkind, Work.kind, Kind.name, hfield,
        hpick .instances hmap hnamed, Except.map]
    · cases hnamed
  | _ =>
    rw [hwork] at hkind hnamed
    simp only [Work.kidNamed, Work.layout, Work.kind] at hnamed
    split at hnamed
    · rename_i hfield
      simp [Work.layout, Result.entry, Result.children, hkind, Work.kind, Kind.name, hfield,
        hpick .children hmap hnamed, Except.map]
    · cases hnamed

/-- Where a segment leads to a node, it names a child. -/
theorem exists_of_descend {r : Result} (hkind : live.entry.kind = live.job.node.kind.name)
    (h : live.toResult.descend segment = .ok (.node r)) : ∃ i kid,
      live.job.node.work.kidNamed segment = some i ∧ live.kids[i]? = some kid ∧ r = kid.toResult := by
  cases (⟨.refl live.job, rfl⟩ : Alike live live).leads hkind segment with
  | @child kid _ i hnamed hkid _ hdescend =>
    rw [hdescend, Except.ok.injEq, Target.node.injEq] at h
    exact ⟨i, kid, hnamed, hkid, h.symm⟩
  | value v hvalue => rw [hvalue] at h; cases h
  | missed miss hmiss => rw [hmiss] at h; cases h

/-! ## Whole paths -/

namespace Runs

theorem kind (h : Runs node live) : live.entry.kind = live.job.node.kind.name := by
  cases h with
  | mk hid hkind hlabel hnode => exact hkind.trans (congrArg (fun n : Node => n.kind.name) hnode).symm

/-- The child at a position runs the child of the definition. -/
theorem exists_child (h : Runs node live) (hkid : live.kids[i]? = some kid) :
    ∃ child, node.kidAt i = some child ∧ Runs child kid := by
  cases h with
  | mk hid hkind hlabel hnode hlength hsome hkids =>
    obtain ⟨child, hchild⟩ := Option.isSome_iff_exists.1 (hsome i kid hkid)
    exact ⟨child, hchild, hkids i kid child hkid hchild⟩

/-- A branch has a child for every case and perhaps one more. -/
theorem le_of_branch (h : Runs node live) (hsound : node.Sound) {condition : Binding}
    {cases_ : List Value} (hwork : node.work = .branch condition cases_) :
    live.kids.length ≤ cases_.length + 1 := by
  have hfits := hsound.fits
  have hkind : node.kind ≠ .loop := by
    rw [Node.kind, hwork]
    simp [Work.kind]
  rw [hwork] at hfits
  cases h with
  | @mk _ job kids hid _ hlabel hnode hlength =>
    change kids.length ≤ _
    rw [hlength hkind]
    rcases hfits with hfits | hfits <;> omega

/-- The segment that leads to a child of a definition names the child of the tree that runs it. -/
theorem kidNamed (h : Runs node live) (hsound : node.Sound) (hkid : live.kids[i]? = some kid) :
    live.job.node.work.kidNamed (kidSegment node.work i) = some i := by
  obtain ⟨child, hchild, _⟩ := h.exists_child hkid
  rw [h.job.1]
  refine kidNamed_kidSegment (fun hstep => ?_) fun condition cases_ hbranch => ?_
  · have hmem := Node.mem_children_of_kidAt hchild
    rw [hsound.children_eq_nil hstep] at hmem
    cases hmem
  · have hlt := (List.getElem?_eq_some_iff.1 hkid).1
    have hle := h.le_of_branch hsound hbranch
    omega

/-- The segments of a node lead to it. -/
theorem followFrom_segmentsTo (h : Runs node live) (hsound : node.Sound)
    (hkid : live.at? a = some kid) (expression : String) (position : Nat) :
    Path.followFrom Target.descend expression position (.node live.toResult) (node.segmentsTo a) =
      .ok (.node kid.toResult) := by
  induction a generalizing node live position with
  | nil =>
    rw [at?_nil, Option.some.injEq] at hkid
    rw [hkid]
    rfl
  | cons i a ih =>
    obtain ⟨job, kids⟩ := live
    rw [at?_cons] at hkid
    obtain ⟨next, hnext, hkid⟩ := Option.bind_eq_some_iff.1 hkid
    obtain ⟨child, hchild, hruns⟩ := h.exists_child hnext
    rw [Node.segmentsTo_cons hchild, Path.followFrom, Target.descend,
      descend_of_kidNamed h.kind (h.kidNamed hsound hnext) hnext]
    exact ih hruns (hsound.of_mem_children (Node.mem_children_of_kidAt hchild)) hkid (position + 1)

/-! ## Walks -/

/-- A walk of the result lists the entries of the tree in the order of a walk of the tree. -/
theorem entries_walk (h : Runs node live) (hsound : node.Sound) (a : Address) :
    live.toResult.walk.map Result.entry = (live.walk a).map fun n => n.2.entry := by
  induction live using Live.ind generalizing node a with
  | mk job kids ih =>
    have hkids : (Live.mk job kids).toResult.kids = kids.map toResult := by
      have hnode : job.node = node := h.job.1
      rw [kids_toResult, hnode]
      split
      · rename_i condition cases_ hwork
        have hle : kids.length ≤ cases_.length + 1 := h.le_of_branch hsound hwork
        rw [List.take_of_length_le (by rwa [List.length_map])]
      · rfl
    have hbelow (position : Nat) : ∀ below, (∀ kid ∈ below, kid ∈ kids) →
        (below.map toResult).flatMap (fun r => r.walk.map Result.entry) =
          (walkKids a position below).map fun n => n.2.entry := by
      intro below
      induction below generalizing position with
      | nil => exact fun _ => rfl
      | cons kid below ihKids =>
        intro hmem
        obtain ⟨hkid, hrest⟩ := List.forall_mem_cons.1 hmem
        obtain ⟨i, hi⟩ := List.getElem?_of_mem hkid
        obtain ⟨child, hchild, hruns⟩ := h.exists_child hi
        rw [walkKids, List.map_append, ← ihKids (position + 1) hrest, List.map_cons,
          List.flatMap_cons]
        rw [ih kid hkid hruns (hsound.of_mem_children (Node.mem_children_of_kidAt hchild))]
    rw [Result.walk_eq, Result.descendants_eq_flatMap, hkids, walk, List.map_cons, List.map_cons,
      entry_toResult, List.map_flatMap, hbelow 0 kids fun _ hkid => hkid]
    rfl

end Runs
end Live
end Workflow
