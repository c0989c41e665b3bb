import Workflow.Proofs.Live.Reading

/-!
# What results have in common

Two runs of one workflow rarely do things at the same times, and a run of a tree without identifiers
makes its own. What remains of results without these is what came of the nodes.

* `Result.mapEntries` changes what is recorded of all nodes.
* `Result.untimed` leaves out the times, `Result.anonymous` the times and the identifiers.
* `Live.mapEntries_toResult_congr` says when two results have as much in common.
-/

namespace Workflow

/-- What is recorded of a node but for the times. -/
def Entry.untimed (e : Entry) : Entry :=
  { e with progress := { status := e.status } }

/-- What is recorded of a node but for the times and the identifier. -/
def Entry.anonymous (e : Entry) : Entry :=
  { e.untimed with id := none }

theorem Entry.untimed_of_anonymous {e e' : Entry} (h : e'.anonymous = e.anonymous)
    (hid : e'.id = e.id) : e'.untimed = e.untimed := by
  simp only [anonymous, untimed, Entry.mk.injEq, true_and] at h ⊢
  exact ⟨h.1, hid, h.2⟩

namespace Result

mutual

/-- The result with other entries. -/
def mapEntries (f : Entry → Entry) : Result → Result
  | mk entry children default items =>
    mk (f entry) (mapEntriesList f children) (mapEntriesDefault f default) (mapEntriesList f items)

/-- The results with other entries. -/
def mapEntriesList (f : Entry → Entry) : List Result → List Result
  | [] => []
  | r :: rs => mapEntries f r :: mapEntriesList f rs

/-- The default with other entries. -/
def mapEntriesDefault (f : Entry → Entry) : Option Result → Option Result
  | none => none
  | some r => some (mapEntries f r)

end

/-- The result without the times. -/
def untimed (r : Result) : Result :=
  r.mapEntries Entry.untimed

/-- The result without the times and the identifiers. -/
def anonymous (r : Result) : Result :=
  r.mapEntries Entry.anonymous

variable (f : Entry → Entry)

theorem mapEntriesList_eq_map (rs : List Result) : mapEntriesList f rs = rs.map (mapEntries f) := by
  induction rs with
  | nil => rfl
  | cons r rs ih => rw [mapEntriesList, ih, List.map_cons]

theorem mapEntriesDefault_eq_map (r : Option Result) :
    mapEntriesDefault f r = r.map (mapEntries f) := by
  cases r <;> rfl

theorem mapEntries_mk (entry : Entry) (children : List Result) (default : Option Result)
    (items : List Result) : (mk entry children default items).mapEntries f =
      mk (f entry) (children.map (mapEntries f)) (default.map (mapEntries f))
        (items.map (mapEntries f)) := by
  rw [mapEntries, mapEntriesList_eq_map, mapEntriesList_eq_map, mapEntriesDefault_eq_map]

end Result

namespace Live

/-- Two results have the same in common as the entries at all addresses, if they are laid out alike. -/
theorem mapEntries_toResult_congr (f : Entry → Entry) (live : Live) : ∀ live' : Live,
    (∀ a, (live'.jobAt a).map (fun job => (job.node.work.layout, f job.entry)) =
      (live.jobAt a).map fun job => (job.node.work.layout, f job.entry)) →
    live'.toResult.mapEntries f = live.toResult.mapEntries f := by
  induction live using Live.ind with
  | mk job kids ih =>
    rintro ⟨job', kids'⟩ h
    have hroot := h []
    simp only [jobAt, at?_nil, Option.map_some, Live.job, Option.some.injEq, Prod.mk.injEq] at hroot
    have hkids : ((kids'.map toResult).map (Result.mapEntries f)) =
        (kids.map toResult).map (Result.mapEntries f) := by
      refine List.ext_getElem? fun i => ?_
      have hkid (a : Address) := h (i :: a)
      simp only [jobAt, at?_cons] at hkid
      simp only [List.getElem?_map]
      cases hi : kids[i]? with
      | none =>
        cases hi' : kids'[i]? with
        | none => rfl
        | some kid' =>
          have hnil := hkid []
          simp [hi, hi'] at hnil
      | some kid =>
        cases hi' : kids'[i]? with
        | none =>
          have hnil := hkid []
          simp [hi, hi'] at hnil
        | some kid' =>
          rw [hi, hi'] at hkid
          exact congrArg some (ih kid (List.mem_of_getElem? hi) kid' hkid)
    rw [toResult_eq, toResult_eq, hroot.1]
    split
    · simp only [Result.mapEntries_mk, hkids, hroot.2]
    · simp only [Result.mapEntries_mk, List.map_take, ← List.getElem?_map, hkids, hroot.2]
    · simp only [Result.mapEntries_mk, hkids, hroot.2]

end Live
end Workflow
