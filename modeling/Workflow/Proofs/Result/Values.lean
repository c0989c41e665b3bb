import Workflow.Proofs.Live.Result
import Workflow.Proofs.Value.Plain
import Workflow.Result.Resolve

/-!
# Values in results

* `Result.values` lists the values that are recorded in a result.
* `Result.distinct_resolve` says that whatever a path leads to has values that name nothing twice, if
  the result has.
-/

namespace Workflow

/-! ## Recorded values -/

/-- The values that are recorded: the output, the inputs and the details of the error. -/
def Entry.values (e : Entry) : List Value :=
  e.output :: .object e.inputs :: e.error.toList.map fun f => .object f.details

theorem Entry.forall_mem_values_iff {p : Value → Prop} {e : Entry} : (∀ v ∈ e.values, p v) ↔
    p e.output ∧ p (.object e.inputs) ∧ ∀ f ∈ e.error, p (.object f.details) := by
  simp only [values, List.forall_mem_cons, List.forall_mem_map, Option.mem_toList, Option.mem_def]

namespace Result

variable {r : Result} {p : Value → Prop}

theorem forall_mem_walk_iff {P : Result → Prop} :
    (∀ node ∈ r.walk, P node) ↔ P r ∧ ∀ kid ∈ r.kids, ∀ node ∈ kid.walk, P node := by
  rw [walk_eq, List.forall_mem_cons, descendants_eq_flatMap]
  simp only [List.mem_flatMap]
  exact and_congr_right fun _ => ⟨fun h kid hkid node hnode => h node ⟨kid, hkid, hnode⟩,
    fun h node ⟨kid, hkid, hnode⟩ => h kid hkid node hnode⟩

/-- The values that are recorded in a result. -/
def values (r : Result) : List Value :=
  r.walk.flatMap fun node => node.entry.values

theorem forall_mem_values_iff :
    (∀ v ∈ r.values, p v) ↔ ∀ node ∈ r.walk, ∀ v ∈ node.entry.values, p v :=
  List.forall_mem_flatMap

theorem forall_mem_values_of_mem_kids {kid : Result} (h : ∀ v ∈ r.values, p v)
    (hkid : kid ∈ r.kids) : ∀ v ∈ kid.values, p v :=
  forall_mem_values_iff.2 ((forall_mem_walk_iff.1 (forall_mem_values_iff.1 h)).2 kid hkid)

theorem forall_mem_values_entry (h : ∀ v ∈ r.values, p v) : ∀ v ∈ r.entry.values, p v :=
  forall_mem_values_iff.1 h r r.mem_walk_self

/-- What is recorded at a path is recorded in the result. -/
theorem forall_mem_values_of_recorded? {path : String} {e : Entry} (h : ∀ v ∈ r.values, p v)
    (he : r.recorded? path = some e) : ∀ v ∈ e.values, p v := by
  have hmem := List.mem_of_find?_eq_some he
  rw [List.mem_reverse] at hmem
  obtain ⟨node, hnode, rfl⟩ := List.mem_map.1 hmem
  exact forall_mem_values_iff.1 h node hnode

end Result

/-! ## Values at paths -/

theorem Path.mem_of_pick {α : Type} {items : List α} {segment : Segment} {entries : Entries}
    {item : α} (h : pick items segment entries = .ok item) : item ∈ items := by
  unfold pick at h
  split at h
  · cases h
  · split at h
    · cases h
    · rename_i hitem
      cases h
      exact List.mem_of_getElem? hitem

/-- The values that are recorded at a place. -/
def Target.values : Target → List Value
  | node r => r.values
  | value v => [v]

theorem Path.exists_of_map_pick {α β : Type} {items : List α} {segment : Segment}
    {entries : Entries} {f : α → β} {found : β} (h : (pick items segment entries).map f = .ok found) :
    ∃ item ∈ items, found = f item := by
  cases hpick : pick items segment entries with
  | error miss =>
    rw [hpick] at h
    cases h
  | ok item =>
    rw [hpick] at h
    cases h
    exact ⟨item, mem_of_pick hpick, rfl⟩

namespace Result

variable {r : Result}

theorem distinct_descend {segment : Segment} {target : Target} (hr : ∀ v ∈ r.values, v.Distinct)
    (h : r.descend segment = .ok target) : ∀ v ∈ target.values, v.Distinct := by
  have hkid {kid : Result} (hkid : kid ∈ r.kids) : ∀ v ∈ (Target.node kid).values, v.Distinct :=
    forall_mem_values_of_mem_kids hr hkid
  unfold descend at h
  simp only at h
  split at h
  · split at h
    · obtain ⟨v, hv, rfl⟩ := Path.exists_of_map_pick h
      obtain ⟨field, hfield, rfl⟩ := List.mem_map.1 hv
      obtain ⟨_, hinputs, _⟩ := Entry.forall_mem_values_iff.1 (forall_mem_values_entry hr)
      exact List.forall_mem_singleton.2 ((Value.distinct_object_iff.1 hinputs).2 field hfield)
    · cases h
  · split at h
    · split at h
      · obtain ⟨kid, hmem, rfl⟩ := Path.exists_of_map_pick h
        exact hkid (List.mem_append_right _ hmem)
      · cases h
    · split at h
      · obtain ⟨kid, hmem, rfl⟩ := Path.exists_of_map_pick h
        exact hkid (List.mem_append_left _ (List.mem_append_left _ hmem))
      · split at h
        · split at h
          · rename_i kid hdefault
            cases h
            refine hkid (List.mem_append_left _ (List.mem_append_right _ ?_))
            rw [hdefault]
            exact List.mem_singleton_self kid
          · cases h
        · cases h

theorem distinct_followFrom {expression : String} {segments : List Segment} {position : Nat}
    {target found : Target} (htarget : ∀ v ∈ target.values, v.Distinct)
    (h : Path.followFrom Target.descend expression position target segments = .ok found) :
    ∀ v ∈ found.values, v.Distinct := by
  induction segments generalizing position target with
  | nil =>
    cases h
    exact htarget
  | cons segment segments ih =>
    rw [Path.followFrom] at h
    split at h
    · cases h
    · rename_i next hnext
      refine ih ?_ h
      cases target with
      | node r => exact distinct_descend htarget hnext
      | value v => cases hnext

/-- Wherever a path leads, no object gives a name twice. -/
theorem distinct_resolve {expression : String} {target : Target} (hr : ∀ v ∈ r.values, v.Distinct)
    (h : r.resolve expression = .ok target) : ∀ v ∈ target.values, v.Distinct := by
  unfold resolve Path.follow at h
  split at h
  · cases h
  · have hroot : ∀ v ∈ (Target.node r).values, v.Distinct := hr
    exact distinct_followFrom hroot h

end Result
end Workflow
