import Mathlib.Data.List.Induction
import Workflow.Proofs.Path.Child
import Workflow.Proofs.Tree.Place

/-!
# Paths of nodes

No two nodes of a run have one path. Nodes of two runs of a tree that have one path have one address.
-/

namespace Workflow.State

variable {tree tree' : Node} {s s' : State} {a b : Address} {job job' : Job}
  {r : Header → Header → Prop}

/-- A branch has a child for every case and perhaps one more. -/
theorem Shape.le_of_branch (h : Shape tree s) (hjob : s.jobAt a = some job)
    {condition : Binding} {cases_ : List Value} (hwork : job.node.work = .branch condition cases_) :
    job.arity ≤ cases_.length + 1 := by
  have hkind : job.node.kind ≠ .loop := by
    rw [Node.kind, hwork]
    simp [Work.kind]
  have hfits := (h.sound a job hjob).fits
  rw [hwork] at hfits
  rw [Job.arity_of_kind_ne hkind]
  rcases hfits with hfits | hfits
  · exact hfits ▸ Nat.le_succ _
  · exact Nat.le_of_eq hfits

/-- Below the root a path goes on after that of the node above. -/
theorem Shape.above {i : Nat} {kid : Job} (h : Shape tree s) (hkid : s.jobAt (a ++ [i]) = some kid) :
    ∃ above, s.jobAt a = some above ∧ i < above.arity ∧
      kid.entry.path = Path.child above.entry.path (Live.kidSegment above.node.work i) := by
  obtain ⟨above, habove⟩ := jobAt_of_append hkid
  exact ⟨above, habove, (h.arity a i above habove).1 (by rw [hkid]; rfl),
    (h.kid a i above kid habove hkid).2⟩

/-- What is at an address of runs of one tree is one node. -/
theorem Shape.node_eq (h : Shape tree s) (h' : Shape tree s') (hjob : s.jobAt a = some job)
    (hjob' : s'.jobAt a = some job') : job'.node = job.node := by
  obtain ⟨kids, hkids⟩ := at?_of_jobAt hjob
  obtain ⟨kids', hkids'⟩ := at?_of_jobAt hjob'
  obtain ⟨node, hnode, hruns⟩ := h.runs.at? hkids
  obtain ⟨node', hnode', hruns'⟩ := h'.runs.at? hkids'
  rw [hnode, Option.some.injEq] at hnode'
  have hsame : job.node = node := hruns.job.1
  have hsame' : job'.node = node' := hruns'.job.1
  rw [hsame, hsame', hnode']

theorem Shape.path_eq (h : Shape tree s) (h' : Shape tree s') (hjob : s.jobAt a = some job)
    (hjob' : s'.jobAt a = some job') : job'.entry.path = job.entry.path := by
  induction a using List.reverseRecOn generalizing job job' with
  | nil =>
    obtain ⟨root, hroot, _, hpath⟩ := h.root
    obtain ⟨root', hroot', _, hpath'⟩ := h'.root
    rw [hroot, Option.some.injEq] at hjob
    rw [hroot', Option.some.injEq] at hjob'
    rw [← hjob, ← hjob', hpath, hpath']
  | append_singleton a i ih =>
    obtain ⟨above, habove, _, hpath⟩ := h.above hjob
    obtain ⟨above', habove', _, hpath'⟩ := h'.above hjob'
    rw [hpath, hpath', ih habove habove', h.node_eq h' habove habove']

/-- Nodes at one address of runs of related trees are defined by related definitions. -/
theorem Shape.related (h : Shape tree s) (h' : Shape tree' s') (htrees : Node.Related r tree tree')
    (hjob : s.jobAt a = some job) (hjob' : s'.jobAt a = some job') :
    Node.Related r job.node job'.node := by
  obtain ⟨kids, hkids⟩ := at?_of_jobAt hjob
  obtain ⟨kids', hkids'⟩ := at?_of_jobAt hjob'
  obtain ⟨node, hnode, hruns⟩ := h.runs.at? hkids
  obtain ⟨node', hnode', hruns'⟩ := h'.runs.at? hkids'
  obtain ⟨other, hother, hrelated⟩ := htrees.at? hnode
  rw [htrees.placeOf, hother, Option.some.injEq] at hnode'
  have hsame : job.node = node := hruns.job.1
  have hsame' : job'.node = node' := hruns'.job.1
  rw [hsame, hsame', ← hnode']
  exact hrelated

/-- Nodes with one path are at one address, also in different runs of a tree. -/
theorem Shape.address_inj (h : Shape tree s) (h' : Shape tree' s')
    (htrees : Node.Related r tree tree') (ha : s.jobAt a = some job) (hb : s'.jobAt b = some job')
    (hpath : job.entry.path = job'.entry.path) : a = b := by
  obtain ⟨root, hroot, _, hrootPath⟩ := h.root
  obtain ⟨root', hroot', _, hrootPath'⟩ := h'.root
  induction a using List.reverseRecOn generalizing b job job' with
  | nil =>
    rw [hroot, Option.some.injEq] at ha
    subst ha
    rcases List.eq_nil_or_concat b with rfl | ⟨b, j, rfl⟩
    · rfl
    · rw [List.concat_eq_append] at hb
      obtain ⟨above, _, _, hpath'⟩ := h'.above hb
      rw [hrootPath, hpath'] at hpath
      exact absurd hpath.symm (Path.child_ne_root _ _)
  | append_singleton a i ih =>
    obtain ⟨above, habove, hi, hpathA⟩ := h.above ha
    rcases List.eq_nil_or_concat b with rfl | ⟨b, j, rfl⟩
    · rw [hroot', Option.some.injEq] at hb
      subst hb
      rw [hrootPath', hpathA] at hpath
      exact absurd hpath (Path.child_ne_root _ _)
    · rw [List.concat_eq_append] at hb ⊢
      obtain ⟨above', habove', hj, hpathB⟩ := h'.above hb
      rw [hpathA, hpathB] at hpath
      obtain ⟨hparent, hsegment⟩ := Path.child_inj hpath
      have heq := ih habove habove' hparent
      subst heq
      have hwork := (h.related h' htrees habove habove').work
      rw [hwork] at hsegment
      have hij : i = j := by
        refine Live.kidSegment_inj (fun condition cases_ hbranch => ?_) hsegment
        have hle := h.le_of_branch habove hbranch
        have hle' := h'.le_of_branch habove' (hwork.trans hbranch)
        omega
      rw [hij]

/-- Nodes with one path are at one address in all states of a tree. -/
theorem Shape.address_eq (h : Shape tree s) (h' : Shape tree s') (ha : s.jobAt a = some job)
    (hb : s'.jobAt b = some job') (hpath : job.entry.path = job'.entry.path) : a = b :=
  h.address_inj h' (.refl (fun header => (rfl : header = header)) tree) ha hb hpath

/-- Nodes with one path are one node. -/
theorem Shape.path_inj (h : Shape tree s) (ha : s.jobAt a = some job) (hb : s.jobAt b = some job')
    (hpath : job.entry.path = job'.entry.path) : a = b :=
  h.address_eq h ha hb hpath

end Workflow.State
