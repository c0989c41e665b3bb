import Workflow.Proofs.Document.Check
import Workflow.Proofs.Node.Document
import Workflow.Proofs.Result.Values
import Workflow.Proofs.Text.Instant
import Workflow.Result.Document

/-!
# Results are read back from their documents

The document of what a run leaves behind is read as the same, with every entry, with what lies below it
in order, and with all events.

* `Result.ind` is the induction over what lies below an entry.
* `RunResult.Dated` says that all points in time have a date.
* `RunResult.check_toValue` and `RunResult.plain_toValue` are about the document.
-/

namespace Workflow

open Document

/-! ## Names -/

theorem Status.check_name (status : Status) : Status.check (.string status.name) = .ok status := by
  cases status <;> rfl

theorem Failure.checkKind_name (kind : FailureKind) : checkKind (.string kind.name) = .ok kind := by
  cases kind <;> rfl

theorem RunStatus.ofName?_name (status : RunStatus) : ofName? status.name = some status := by
  cases status <;> rfl

/-! ## Points in time -/

theorem checkInstant_text {time : Int} (h : Instant.InCalendar time) :
    checkInstant (.string (Instant.text time "Z")) = .ok time := by
  rw [checkInstant, Instant.parse?_text h]

/-- A point in time that may be absent is read back. -/
theorem nullable_checkInstant {time : Option Int} (h : ∀ t ∈ time, Instant.InCalendar t) :
    nullable checkInstant (instantValue time) = .ok time := by
  cases time with
  | none => rfl
  | some t => exact nullable_eq_ok_iff.2 (.inr ⟨nofun, t, checkInstant_text (h t rfl), rfl⟩)

/-! ## Entries -/

namespace Failure

/-- A failure is read back. -/
theorem check_toValue (f : Failure) : check f.toValue = .ok f := by
  simp [check, toValue, Document.required, Document.optional, Fields.get?_cons, checkKind_name, text,
    fieldsOf_any_eq_ok_iff.2, Checked.and, Checked.under, recordOf]

theorem plain_toValue {f : Failure} (h : (Value.object f.details).Plain) : f.toValue.Plain := by
  refine Value.plain_object_iff.2 ⟨by simp [Fields.names], ?_⟩
  simp only [List.forall_mem_cons]
  exact ⟨Value.plain_string _, Value.plain_string _, h, nofun⟩

end Failure

namespace Entry

variable {e : Entry}

/-- The points in time of the entry have a date. -/
structure Dated (e : Entry) : Prop where
  /-- So has the start of the node. -/
  started : ∀ t ∈ e.progress.started, Instant.InCalendar t
  /-- So has its end. -/
  finished : ∀ t ∈ e.progress.finished, Instant.InCalendar t

/-- An entry is read back, whatever fields come after it. -/
theorem check_toFields (h : e.Dated) (more : Fields Value) :
    Entry.check (e.toFields ++ more) = .ok e := by
  have herror : nullable Failure.check ((e.error.map Failure.toValue).getD .null) = .ok e.error := by
    cases e.error with
    | none => rfl
    | some f => exact nullable_eq_ok_iff.2 (.inr ⟨nofun, f, f.check_toValue, rfl⟩)
  have houtput : any e.output = .ok e.output := rfl
  have hinputs : fieldsOf any (.object e.inputs) = .ok e.inputs := fieldsOf_any_eq_ok_iff.2 rfl
  simp [Entry.check, toFields, Document.required, Document.optional, Fields.get?_cons,
    nullable_text_ofString?, Status.check_name, nullable_checkInstant h.started,
    nullable_checkInstant h.finished, herror, houtput, hinputs, text, Checked.and, Checked.under,
    Entry.status]

/-- The fields of an entry can be read back. -/
theorem plain_toFields (h : ∀ v ∈ e.values, v.Plain) : ∀ field ∈ e.toFields, field.2.Plain := by
  obtain ⟨houtput, hinputs, hdetails⟩ := forall_mem_values_iff.1 h
  have hinstant (time : Option Int) : (instantValue time).Plain := by
    cases time <;> simp [instantValue]
  have herror : ((e.error.map Failure.toValue).getD .null).Plain := by
    cases herror : e.error with
    | none => exact Value.plain_null
    | some f => exact Failure.plain_toValue (hdetails f herror)
  simp only [toFields, List.forall_mem_cons]
  exact ⟨Value.plain_string _, Value.plain_ofString? _, Value.plain_string _, Value.plain_ofString? _,
    Value.plain_string _, houtput, herror, hinputs, hinstant _, hinstant _, nofun⟩

end Entry

/-! ## Trees -/

namespace Result

variable {entry : Entry} {children items : List Result} {default : Option Result} {bound : Nat}

theorem mem_kids_mk {r : Result} : r ∈ (mk entry children default items).kids ↔
    r ∈ children ∨ r ∈ default ∨ r ∈ items := by
  simp only [kids, Result.children, default?, Result.items, List.mem_append, Option.mem_toList,
    Option.mem_def, or_assoc]

/-- What holds of a result if it holds of everything right below it holds of all results. -/
@[elab_as_elim]
theorem ind {motive : Result → Prop} (step : ∀ r, (∀ kid ∈ r.kids, motive kid) → motive r)
    (r : Result) : motive r := by
  refine @Result.rec motive (fun rs => ∀ r ∈ rs, motive r) (fun default => ∀ r ∈ default, motive r)
    (fun entry children default items hchildren hdefault hitems => step _ fun kid hkid => ?_)
    (List.forall_mem_nil _) (fun _ _ hr hrs => List.forall_mem_cons.2 ⟨hr, hrs⟩) nofun
    (fun _ hr => by rintro _ ⟨⟩; exact hr) r
  rcases mem_kids_mk.1 hkid with hkid | hkid | hkid
  · exact hchildren kid hkid
  · exact hdefault kid hkid
  · exact hitems kid hkid

/-- The fields that are written of a result. -/
def written (entry : Entry) (children : List Result) (default : Option Result)
    (items : List Result) : Fields Value :=
  entry.toFields ++ [("children", .array (children.map toValue)),
    ("default", (default.map toValue).getD .null), ("items", .array (items.map toValue))]

theorem toValue_mk : (mk entry children default items).toValue =
    .object (written entry children default items) := by
  have hlist (rs : List Result) : listToValues rs = rs.map toValue := by
    induction rs with
    | nil => rfl
    | cons r rs ih => rw [listToValues, ih, List.map_cons]
  have hdefault : defaultToValue default = (default.map toValue).getD .null := by
    cases default <;> rfl
  rw [toValue, hlist, hlist, hdefault, written]

theorem toValue_ne_null (r : Result) : r.toValue ≠ .null := by
  obtain ⟨entry, children, default, items⟩ := r
  rw [toValue_mk]
  exact nofun

/-- What is written of a result is deeper than what is written of anything right below it. -/
theorem depth_lt_written {kid : Result} (h : kid ∈ (mk entry children default items).kids) :
    kid.toValue.depth < (Value.object (written entry children default items)).depth := by
  have hlist {rs : List Result} (hkid : kid ∈ rs) : kid.toValue ∈ (Value.array (rs.map toValue)).walk :=
    Value.mem_walk_array_iff.2 (.inr ⟨_, List.mem_map_of_mem hkid, Value.mem_walk_self _⟩)
  rcases mem_kids_mk.1 h with hkid | hkid | hkid
  · have hfield : ("children", .array (children.map toValue)) ∈
        written entry children default items := by simp [written]
    exact Value.depth_lt_object hfield (hlist hkid)
  · rw [Option.mem_def] at hkid
    subst hkid
    have hfield : ("default", kid.toValue) ∈ written entry children (some kid) items := by
      simp [written]
    exact Value.depth_lt_object hfield (Value.mem_walk_self _)
  · have hfield : ("items", .array (items.map toValue)) ∈
        written entry children default items := by simp [written]
    exact Value.depth_lt_object hfield (hlist hkid)

/-- A result is read back if everything right below it is. -/
theorem checkWithin_written (hdated : entry.Dated)
    (h : ∀ kid ∈ (mk entry children default items).kids,
      checkWithin bound kid.toValue = .ok kid) :
    checkWithin (bound + 1) (.object (written entry children default items)) =
      .ok (mk entry children default items) := by
  have hchildren : listOf (checkWithin bound) (.array (children.map toValue)) = .ok children :=
    listOf_map fun kid hkid => h kid (mem_kids_mk.2 (.inl hkid))
  have hdefault : nullable (checkWithin bound) ((default.map toValue).getD .null) = .ok default := by
    cases default with
    | none => rfl
    | some kid =>
      have hkid := h kid (mem_kids_mk.2 (.inr (.inl rfl)))
      exact nullable_eq_ok_iff.2 (.inr ⟨kid.toValue_ne_null, kid, hkid, rfl⟩)
  have hitems : listOf (checkWithin bound) (.array (items.map toValue)) = .ok items :=
    listOf_map fun kid hkid => h kid (mem_kids_mk.2 (.inr (.inr hkid)))
  rw [checkWithin, recordOf, written, Entry.check_toFields hdated]
  simp [Entry.toFields, Document.optional, Fields.get?_cons, hchildren, hdefault, hitems,
    Checked.and, Checked.under]

theorem checkWithin_toValue (r : Result) : (∀ node ∈ r.walk, node.entry.Dated) → ∀ bound,
    r.toValue.depth ≤ bound → checkWithin bound r.toValue = .ok r := by
  induction r using ind with
  | step r ih =>
    obtain ⟨entry, children, default, items⟩ := r
    intro hdated bound hbound
    obtain ⟨hself, hkids⟩ := forall_mem_walk_iff.1 hdated
    rw [toValue_mk] at hbound ⊢
    cases bound with
    | zero => exact absurd hbound (by simp [Value.depth])
    | succ bound =>
      refine checkWithin_written hself fun kid hkid => ih kid hkid (hkids kid hkid) bound ?_
      have hdepth := depth_lt_written hkid
      omega

/-- A result is read back. -/
theorem check_toValue {r : Result} (h : ∀ node ∈ r.walk, node.entry.Dated) :
    check r.toValue = .ok r :=
  r.checkWithin_toValue h _ (Nat.le_succ _)

theorem plain_toValue (r : Result) : (∀ v ∈ r.values, v.Plain) → r.toValue.Plain := by
  induction r using ind with
  | step r ih =>
    obtain ⟨entry, children, default, items⟩ := r
    intro hplain
    obtain ⟨hself, hkids⟩ := forall_mem_walk_iff.1 (forall_mem_values_iff.1 hplain)
    have hbelow (kid : Result) (hkid : kid ∈ (mk entry children default items).kids) :
        kid.toValue.Plain := ih kid hkid (forall_mem_values_iff.2 (hkids kid hkid))
    have hlist {rs : List Result} (hrs : ∀ kid ∈ rs, kid.toValue.Plain) :
        (Value.array (rs.map toValue)).Plain :=
      Value.plain_array_iff.2 (List.forall_mem_map.2 hrs)
    have hdefault : ((default.map toValue).getD .null).Plain := by
      cases default with
      | none => exact Value.plain_null
      | some kid => exact hbelow kid (mem_kids_mk.2 (.inr (.inl rfl)))
    rw [toValue_mk, written]
    refine Value.plain_object_iff.2 ⟨by simp [Entry.toFields, Fields.names], ?_⟩
    simp only [List.forall_mem_append, List.forall_mem_cons]
    exact ⟨Entry.plain_toFields hself, hlist fun kid hkid => hbelow kid (mem_kids_mk.2 (.inl hkid)),
      hdefault, hlist fun kid hkid => hbelow kid (mem_kids_mk.2 (.inr (.inr hkid))), nofun⟩

end Result

/-! ## Events and runs -/

/-- An event is read back. -/
theorem Event.check_toValue {e : Event} (h : Instant.InCalendar e.time) : check e.toValue = .ok e := by
  have hkind : nullable Failure.checkKind (.ofString? (e.errorKind.map FailureKind.name)) =
      .ok e.errorKind := by
    cases e.errorKind with
    | none => rfl
    | some kind =>
      exact nullable_eq_ok_iff.2 (.inr ⟨nofun, kind, Failure.checkKind_name kind, rfl⟩)
  simp [check, toValue, recordOf, Document.required, Document.optional, Fields.get?_cons, instantValue,
    nullable_text_ofString?, Status.check_name, checkInstant_text h, hkind, text, Checked.and,
    Checked.under]

theorem Event.plain_toValue (e : Event) : e.toValue.Plain := by
  simp [toValue, Fields.names, instantValue]

namespace RunResult

variable {r : RunResult}

/-- All points in time have a date. -/
structure Dated (r : RunResult) : Prop where
  /-- So have those of the entries. -/
  tree : ∀ node ∈ r.tree.walk, node.entry.Dated
  /-- So have those of the events. -/
  trace : ∀ e ∈ r.trace, Instant.InCalendar e.time

/-- What a run leaves behind is read back. -/
theorem check_toValue (h : r.Dated) : check r.toValue = .ok r := by
  have htrace : listOf Event.check (.array (r.trace.map Event.toValue)) = .ok r.trace :=
    listOf_map fun e he => Event.check_toValue (h.trace e he)
  simp [check, toValue, recordOf, Document.required, Document.optional, Fields.get?_cons, oneOf,
    RunStatus.ofName?_name, Result.check_toValue h.tree, htrace, Checked.and, Checked.under]

/-- Its document can be read back from JSON texts if the values in it can. -/
theorem plain_toValue (h : ∀ v ∈ r.tree.values, v.Plain) : r.toValue.Plain := by
  have htrace : (Value.array (r.trace.map Event.toValue)).Plain :=
    Value.plain_array_iff.2 (List.forall_mem_map.2 fun e _ => e.plain_toValue)
  refine Value.plain_object_iff.2 ⟨by simp [Fields.names], ?_⟩
  simp only [List.forall_mem_cons]
  exact ⟨Value.plain_string _, Result.plain_toValue _ h, htrace, nofun⟩

end RunResult
end Workflow
