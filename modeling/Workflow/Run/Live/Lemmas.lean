import Workflow.Run.Live

/-!
# Laws of live trees

What a change at one address does to the nodes of the tree, and where the nodes of `Live.walk` lie.

* `Live.at?_modify_self` and `Live.job_at?_modify_ne` say which node a change reaches.
* `Live.at?_of_mem_walk` says that the addresses of `Live.walk` lead to its nodes.
-/

namespace Workflow.Live

/-! ## Changes at an address -/

/-- A change reaches the node at its address. -/
theorem at?_update_self (f : Live → Live) {live kid : Live} {a : Address}
    (h : live.at? a = some kid) : (live.update f a).at? a = some (f kid) := by
  induction a generalizing live with
  | nil => simpa [at?, update] using congrArg (Option.map f) h
  | cons i a ih =>
    obtain ⟨job, kids⟩ := live
    simp only [at?] at h
    split at h
    · rename_i next hnext
      simp [at?, update, hnext, ih h]
    · simp at h

/-- A change of a node's state reaches the node at its address. -/
theorem at?_modify_self (f : Job → Job) {live kid : Live} {a : Address}
    (h : live.at? a = some kid) :
    (live.modify f a).at? a = some (.mk (f kid.job) kid.kids) := by
  obtain ⟨job, kids⟩ := kid
  exact at?_update_self _ h

/-- A change of a node's state does not reach the nodes at other addresses. -/
theorem job_at?_modify_ne (f : Job → Job) {live : Live} {a b : Address} (h : a ≠ b) :
    ((live.modify f a).at? b).map job = (live.at? b).map job := by
  induction a generalizing live b with
  | nil =>
    obtain ⟨job, kids⟩ := live
    cases b with
    | nil => exact absurd rfl h
    | cons j b => rfl
  | cons i a ih =>
    obtain ⟨job, kids⟩ := live
    cases b with
    | nil => rfl
    | cons j b =>
      simp only [modify, update, at?, List.getElem?_modify]
      by_cases hij : i = j
      · subst hij
        cases hkid : kids[i]? with
        | none => simp
        | some kid => simpa [hkid, modify] using @ih kid b fun hab => h (by rw [hab])
      · simp [hij]

/-- At an address without a node there is nothing to change. -/
theorem update_of_at?_eq_none (f : Live → Live) {live : Live} {a : Address}
    (h : live.at? a = none) : live.update f a = live := by
  induction a generalizing live with
  | nil => simp [at?] at h
  | cons i a ih =>
    obtain ⟨job, kids⟩ := live
    simp only [at?] at h
    simp only [update, mk.injEq, true_and]
    refine List.ext_getElem? fun j => ?_
    rw [List.getElem?_modify]
    by_cases hij : i = j
    · subst hij
      cases hkid : kids[i]? with
      | none => rfl
      | some kid =>
        simp only [hkid] at h
        simp [ih h]
    · simp [hij]

/-! ## The nodes of a tree -/

mutual

/-- The addresses of a walk lead to its nodes. -/
theorem walk_at? (a : Address) : (live : Live) → ∀ node ∈ live.walk a,
    ∃ b kid, node.1 = a ++ b ∧ live.at? b = some kid ∧ kid.job = node.2
  | mk job kids => by
    intro node hnode
    rw [walk, List.mem_cons] at hnode
    rcases hnode with rfl | hnode
    · exact ⟨[], mk job kids, by simp, rfl, rfl⟩
    · obtain ⟨i, b, kid, next, hb, hi, hkid, hjob⟩ := walkKids_at? a 0 kids node hnode
      refine ⟨i :: b, kid, by simpa using hb, ?_, hjob⟩
      simpa [at?, hi] using hkid

/-- The addresses of the walks of several trees lead to their nodes. -/
theorem walkKids_at? (a : Address) (position : Nat) : (kids : List Live) →
    ∀ node ∈ walkKids a position kids, ∃ i b kid next, node.1 = a ++ (position + i) :: b ∧
      kids[i]? = some next ∧ next.at? b = some kid ∧ kid.job = node.2
  | [] => by simp [walkKids]
  | kid :: kids => by
    intro node hnode
    rw [walkKids, List.mem_append] at hnode
    rcases hnode with hnode | hnode
    · obtain ⟨b, below, hb, hbelow, hjob⟩ := walk_at? (a ++ [position]) kid node hnode
      exact ⟨0, b, below, kid, by simpa using hb, rfl, hbelow, hjob⟩
    · obtain ⟨i, b, below, next, hb, hi, hbelow, hjob⟩ :=
        walkKids_at? a (position + 1) kids node hnode
      refine ⟨i + 1, b, below, next, ?_, by simpa using hi, hbelow, hjob⟩
      rw [hb, Nat.add_right_comm, Nat.add_assoc]

end

/-- The addresses of the walk of a whole tree lead to its nodes. -/
theorem at?_of_mem_walk {live : Live} {a : Address} {job : Job}
    (h : (a, job) ∈ live.walk []) : ∃ kid, live.at? a = some kid ∧ kid.job = job := by
  obtain ⟨b, kid, hb, hkid, hjob⟩ := walk_at? [] live (a, job) h
  rw [List.nil_append] at hb
  exact ⟨kid, by rw [← hkid, ← hb], hjob⟩

end Workflow.Live
