import Workflow.Proofs.Live.View
import Workflow.Proofs.Node.Sound

/-!
# Trees before the run

In the tree of a node that has not started every node is pending and waits for nothing, and its
children are the trees of its definition's children.
-/

namespace Workflow.Live

/-- The children of a tree that has not started. -/
theorem getElem?_ofNodes (path : String) (work : Work) (position : Nat) (nodes : List Node)
    (i : Nat) : (ofNodes path work position nodes)[i]? =
      nodes[i]?.map fun node => ofNode (Path.child path (kidSegment work (position + i))) node := by
  induction nodes generalizing position i with
  | nil => rfl
  | cons node nodes ih =>
    rw [ofNodes]
    cases i with
    | zero => rfl
    | succ i =>
      rw [List.getElem?_cons_succ, List.getElem?_cons_succ, ih, Nat.add_right_comm, Nat.add_assoc]

@[simp] theorem job_ofNode (path : String) (node : Node) :
    (ofNode path node).job = pendingJob path node := by
  obtain ⟨header, work, children⟩ := node
  cases work <;> rfl

/-- A loop that has not started has no instances, and the children of another node are those of
its definition. -/
theorem getElem?_kids_ofNode (path : String) (node : Node) (i : Nat) :
    (ofNode path node).kids[i]? =
      if node.kind = .loop then none
      else node.children[i]?.map fun child =>
        ofNode (Path.child path (kidSegment node.work i)) child := by
  obtain ⟨header, work, children⟩ := node
  have hkids : (ofNodes path work 0 children)[i]? = children[i]?.map fun child =>
      ofNode (Path.child path (kidSegment work i)) child := by
    rw [getElem?_ofNodes, Nat.zero_add]
  cases work with
  | loop source itemName indexName limit => rfl
  | _ => exact hkids

/-- Every tree below a tree that has not started has not started. -/
theorem at?_ofNode {path : String} {node : Node} {a : Address} {live : Live}
    (h : (ofNode path node).at? a = some live) :
    ∃ path' node', live = ofNode path' node' ∧ node'.walk ⊆ node.walk := by
  induction a generalizing path node with
  | nil =>
    rw [at?_nil, Option.some.injEq] at h
    exact ⟨path, node, h.symm, fun _ hmem => hmem⟩
  | cons i a ih =>
    have hkids : (ofNode path node) = mk (ofNode path node).job (ofNode path node).kids := by
      cases ofNode path node; rfl
    rw [hkids, at?_cons, getElem?_kids_ofNode] at h
    split at h
    · cases h
    · obtain ⟨kid, hkid, hlive⟩ := Option.bind_eq_some_iff.1 h
      obtain ⟨child, hchild, rfl⟩ := Option.map_eq_some_iff.1 hkid
      obtain ⟨path', node', heq, hsub⟩ := ih hlive
      exact ⟨path', node', heq, fun _ hmem =>
        Node.mem_walk_of_mem_children (List.mem_of_getElem? hchild) (hsub hmem)⟩

theorem jobAt_ofNode {path : String} {node : Node} {a : Address} {job : Job}
    (h : (ofNode path node).jobAt a = some job) :
    ∃ path' node', job = pendingJob path' node' ∧ node'.walk ⊆ node.walk := by
  obtain ⟨kids, hkids⟩ := at?_of_jobAt h
  obtain ⟨path', node', hlive, hsub⟩ := at?_ofNode hkids
  refine ⟨path', node', ?_, hsub⟩
  rw [← job_ofNode, ← hlive]
  rfl

/-- A child below a tree that has not started is the child of the definition. -/
theorem jobAt_ofNode_concat {path : String} {node : Node} {a : Address} {job : Job}
    (h : (ofNode path node).jobAt a = some job) (i : Nat) :
    (ofNode path node).jobAt (a ++ [i]) =
      if job.node.kind = .loop then none
      else job.node.children[i]?.map fun child =>
        pendingJob (Path.child job.entry.path (kidSegment job.node.work i)) child := by
  obtain ⟨kids, hkids⟩ := at?_of_jobAt h
  obtain ⟨path', node', hlive, _⟩ := at?_ofNode hkids
  have hjob : job = pendingJob path' node' := by rw [← job_ofNode, ← hlive]; rfl
  have hkids' : kids = (ofNode path' node').kids := by rw [← hlive]; rfl
  rw [jobAt_concat hkids, hkids', getElem?_kids_ofNode, hjob]
  change Option.map Live.job (if node'.kind = .loop then none else _) =
    if node'.kind = .loop then none else _
  split
  · rfl
  · rw [Option.map_map]
    exact Option.map_congr fun child _ => job_ofNode ..

/-- A loop has as many instances as its source has elements. -/
theorem getElem?_instances (path : String) {node body : Node} {rest : List Node}
    (h : node.children = body :: rest) (count i : Nat) :
    (instances path node count)[i]? =
      if i < count then some (ofNode (Path.child path (kidSegment node.work i)) body)
      else none := by
  rw [instances, h]
  simp only [List.getElem?_map]
  by_cases hi : i < count
  · rw [List.getElem?_range hi, if_pos hi]; rfl
  · rw [List.getElem?_eq_none (by simpa using hi), if_neg hi]; rfl

end Workflow.Live
