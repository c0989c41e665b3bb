import Workflow.Proofs.Live.View

/-!
# Results as they stand

The result that a live tree becomes is laid out like the tree.

* `Result.descendants` lists what lies below the root of a result.
* `Live.mem_walk_toResult` and `Live.mem_descendants_toResult` find the parts of the result in the tree.
-/

namespace Workflow

namespace Result

/-- The trees right below the root: the children, the default and the items. -/
def kids (r : Result) : List Result :=
  r.children ++ r.default?.toList ++ r.items

/-- All trees below the root, every node before its children, its default and its items. -/
def descendants (r : Result) : List Result :=
  walkList r.children ++ walkDefault r.default? ++ walkList r.items

theorem walk_eq (r : Result) : r.walk = r :: r.descendants := by
  obtain ⟨entry, children, default, items⟩ := r
  rfl

theorem walkList_eq_flatMap (rs : List Result) : walkList rs = rs.flatMap walk := by
  induction rs with
  | nil => rfl
  | cons r rs ih => rw [walkList, ih, List.flatMap_cons]

theorem descendants_eq_flatMap (r : Result) : r.descendants = r.kids.flatMap walk := by
  obtain ⟨entry, children, default, items⟩ := r
  rw [descendants, kids, walkList_eq_flatMap, walkList_eq_flatMap, List.flatMap_append,
    List.flatMap_append]
  cases default <;> simp [default?, walkDefault]

theorem mem_walk_self (r : Result) : r ∈ r.walk := by
  rw [walk_eq]
  exact List.mem_cons_self

end Result

namespace Live

theorem toResults_eq_map (kids : List Live) : toResults kids = kids.map toResult := by
  induction kids with
  | nil => rfl
  | cons kid kids ih => rw [toResults, ih, List.map_cons]

theorem entry_toResult (live : Live) : live.toResult.entry = live.entry := by
  obtain ⟨job, kids⟩ := live
  rw [toResult]
  split <;> rfl

theorem status_toResult (live : Live) : live.toResult.status = live.status := by
  rw [Result.status, entry_toResult, status]

/-- The trees right below the root of the result. A branch has no room but for its cases and one
default. -/
theorem kids_toResult (job : Job) (kids : List Live) :
    (mk job kids).toResult.kids =
      match job.node.work with
      | .branch _ cases => (kids.map toResult).take (cases.length + 1)
      | _ => kids.map toResult := by
  rw [toResult, Result.kids, toResults_eq_map]
  cases job.node.work with
  | branch condition cases =>
    simp only [Result.children, Result.default?, Result.items, List.append_nil]
    rw [List.take_add_one]
  | loop source itemName indexName limit =>
    simp [Result.children, Result.default?, Result.items]
  | _ => simp [Result.children, Result.default?, Result.items]

theorem mem_kids_toResult {job : Job} {kids : List Live} {r : Result}
    (h : r ∈ (mk job kids).toResult.kids) : ∃ kid ∈ kids, r = kid.toResult := by
  have hmem : r ∈ kids.map toResult := by
    rw [kids_toResult] at h
    split at h
    · exact List.mem_of_mem_take h
    · exact h
  obtain ⟨kid, hkid, heq⟩ := List.mem_map.1 hmem
  exact ⟨kid, hkid, heq.symm⟩

/-- Every part of the result is the result of a part of the tree. -/
theorem mem_walk_toResult (live : Live) : ∀ r ∈ live.toResult.walk,
    ∃ a kid, live.at? a = some kid ∧ r = kid.toResult := by
  induction live using Live.ind with
  | mk job kids ih =>
    intro r hr
    rw [Result.walk_eq, List.mem_cons] at hr
    rcases hr with rfl | hr
    · exact ⟨[], _, at?_nil _, rfl⟩
    · rw [Result.descendants_eq_flatMap, List.mem_flatMap] at hr
      obtain ⟨next, hnext, hr⟩ := hr
      obtain ⟨kid, hmem, rfl⟩ := mem_kids_toResult hnext
      obtain ⟨a, below, hbelow, rfl⟩ := ih kid hmem r hr
      obtain ⟨i, hi⟩ := List.getElem?_of_mem hmem
      exact ⟨i :: a, below, by rw [at?_cons, hi]; exact hbelow, rfl⟩

theorem mem_descendants_toResult {live : Live} {r : Result} (hr : r ∈ live.toResult.descendants) :
    ∃ c kid, c ≠ [] ∧ live.at? c = some kid ∧ r = kid.toResult := by
  obtain ⟨job, kids⟩ := live
  rw [Result.descendants_eq_flatMap, List.mem_flatMap] at hr
  obtain ⟨next, hnext, hr⟩ := hr
  obtain ⟨kid, hmem, rfl⟩ := mem_kids_toResult hnext
  obtain ⟨a, below, hbelow, rfl⟩ := mem_walk_toResult kid r hr
  obtain ⟨i, hi⟩ := List.getElem?_of_mem hmem
  exact ⟨i :: a, below, List.cons_ne_nil i a, by rw [at?_cons, hi]; exact hbelow, rfl⟩

/-- Every part of the tree is in the result, if branches have room for it. -/
theorem toResult_mem_walk : (a : Address) → ∀ live kid : Live,
    (∀ b job kids condition cases, live.at? b = some (mk job kids) →
      job.node.work = .branch condition cases → kids.length ≤ cases.length + 1) →
    live.at? a = some kid → kid.toResult ∈ live.toResult.walk
  | [] => by
    intro live kid _ hkid
    rw [at?_nil, Option.some.injEq] at hkid
    rw [hkid]
    exact Result.mem_walk_self _
  | i :: a => by
    rintro ⟨job, kids⟩ kid hroom hkid
    rw [at?_cons] at hkid
    obtain ⟨next, hnext, hkid⟩ := Option.bind_eq_some_iff.1 hkid
    have hmem : next.toResult ∈ kids.map toResult := List.mem_map_of_mem (List.mem_of_getElem? hnext)
    rw [Result.walk_eq, Result.descendants_eq_flatMap, kids_toResult]
    refine List.mem_cons_of_mem _ (List.mem_flatMap.2 ⟨next.toResult, ?_, ?_⟩)
    · split
      · rename_i condition cases hwork
        have hlength := hroom [] job kids condition cases (at?_nil _) hwork
        rwa [List.take_of_length_le (by rwa [List.length_map])]
      · exact hmem
    · refine toResult_mem_walk a next kid (fun b job kids condition cases hb => ?_) hkid
      refine hroom (i :: b) job kids condition cases ?_
      rw [at?_cons, hnext]
      exact hb

end Live
end Workflow
