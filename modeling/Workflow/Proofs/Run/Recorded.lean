import Workflow.Proofs.Live.Result
import Workflow.Proofs.Run.Paths

/-!
# What a result records

The result of a run has an entry for every node, and it is found by the path of the node.

* `State.exists_node` and `State.Shape.exists_result` relate the parts of the result to the nodes.
* `State.Shape.recorded?_toResult` says what is recorded at a path.
-/

namespace Workflow.State

variable {tree : Node} {s : State}

/-- Every part of the result is a node of the run, and what lies below it there lies below it. -/
theorem exists_node {n : Result} (hn : n ∈ s.root.toResult.walk) :
    ∃ a job, s.jobAt a = some job ∧ n.entry = job.entry ∧ n.status = job.status ∧
      ∀ below ∈ n.descendants, ∃ c job', c ≠ [] ∧ s.jobAt (a ++ c) = some job' ∧
        below.entry = job'.entry := by
  obtain ⟨a, ⟨job, kids⟩, hkid, rfl⟩ := Live.mem_walk_toResult s.root n hn
  refine ⟨a, job, jobAt_of_at? hkid, Live.entry_toResult _, Live.status_toResult _,
    fun below hbelow => ?_⟩
  obtain ⟨c, ⟨job', kids'⟩, hc, hkid', rfl⟩ := Live.mem_descendants_toResult hbelow
  refine ⟨c, job', hc, ?_, Live.entry_toResult _⟩
  have hat : s.root.at? (a ++ c) = some (.mk job' kids') := by
    rw [Live.at?_append, hkid, Option.bind_some, hkid']
  exact jobAt_of_at? hat

/-- Every node of the run is in the result. -/
theorem Shape.exists_result (h : Shape tree s) {a : Address} {job : Job}
    (hjob : s.jobAt a = some job) : ∃ n ∈ s.root.toResult.walk, n.entry = job.entry := by
  obtain ⟨kids, hkids⟩ := at?_of_jobAt hjob
  refine ⟨_, Live.toResult_mem_walk a s.root (.mk job kids) ?_ hkids, Live.entry_toResult _⟩
  intro b other kids' condition cases_ hb hwork
  rw [h.length_kids hb]
  exact h.le_of_branch (jobAt_of_at? hb) hwork

/-- At the path of a node its entry is recorded. -/
theorem Shape.recorded?_toResult (h : Shape tree s) {a : Address} {job : Job}
    (hjob : s.jobAt a = some job) :
    s.root.toResult.recorded? job.entry.path = some job.entry := by
  obtain ⟨n, hn, hentry⟩ := h.exists_result hjob
  have hmem : job.entry ∈ (s.root.toResult.walk.map Result.entry).reverse :=
    List.mem_reverse.2 (List.mem_map.2 ⟨n, hn, hentry⟩)
  have hsome : (s.root.toResult.recorded? job.entry.path).isSome :=
    List.find?_isSome.2 ⟨job.entry, hmem, beq_self_eq_true _⟩
  obtain ⟨e, he⟩ := Option.isSome_iff_exists.1 hsome
  obtain ⟨n', hn', rfl⟩ := List.mem_map.1 (List.mem_reverse.1 (List.mem_of_find?_eq_some he))
  have hfound := List.find?_some he
  have hpath : n'.entry.path = job.entry.path := eq_of_beq hfound
  obtain ⟨b, job', hjob', hentry', _⟩ := exists_node hn'
  have hab : a = b := h.path_inj hjob hjob' (by rw [← hentry', hpath])
  subst hab
  rw [hjob, Option.some.injEq] at hjob'
  rw [he, hentry', hjob']

/-- What the result of one run records at the path of a node of another run is the entry of the node at
the same address. -/
theorem Shape.exists_of_recorded {tree' : Node} {s' : State} {r : Header → Header → Prop}
    {a : Address} {job : Job} {e : Entry} (h : Shape tree s) (h' : Shape tree' s')
    (htrees : Node.Related r tree tree') (hjob : s'.jobAt a = some job)
    (hrecorded : s.root.toResult.recorded? job.entry.path = some e) :
    ∃ old, s.jobAt a = some old ∧ old.entry = e ∧ old.entry.path = job.entry.path := by
  obtain ⟨n, hn, hpath⟩ : ∃ n ∈ s.root.toResult.walk, n.entry.path = job.entry.path := by
    have hfound := List.mem_of_find?_eq_some hrecorded
    obtain ⟨n, hn, rfl⟩ := List.mem_map.1 (List.mem_reverse.1 hfound)
    have hpath := List.find?_some hrecorded
    exact ⟨n, hn, eq_of_beq hpath⟩
  obtain ⟨b, old, hold, hentry, _⟩ := exists_node hn
  rw [hentry] at hpath
  have hba : b = a := h.address_inj h' htrees hold hjob hpath
  subst hba
  refine ⟨old, hold, ?_, hpath⟩
  have hsame := h.recorded?_toResult hold
  rw [hpath] at hsame
  exact Option.some.inj (hsame.symm.trans hrecorded)

/-- What a run on the result of an earlier one finds recorded of a node. -/
theorem Shape.recorded?_of_previous (h : Shape tree s) {setup : Setup} {a : Address} {job : Job}
    {e : Entry} (hprevious : setup.previous = some s.root.toResult) (hjob : s.jobAt a = some job)
    (hpath : e.path = job.entry.path) :
    setup.recorded? e =
      if job.entry.id = e.id ∧ job.status = .succeeded then some job.entry else none := by
  have hrecorded : (some s.root.toResult).bind (fun previous => previous.recorded? e.path) =
      some job.entry := by
    rw [Option.bind_some, hpath]
    exact h.recorded?_toResult hjob
  rw [Setup.recorded?, hprevious, hrecorded]
  rfl

end Workflow.State
