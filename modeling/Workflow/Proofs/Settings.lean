import Workflow.Proofs.Document.Check
import Workflow.Settings.Basic

/-!
# Settings that are loaded

Settings that are loaded let at least one child of a loop run. They cannot be read at all, which is
worse than that they have issues, exactly if a part of them is one variable that does not hold JSON.

* `Settings.limit_ne_zero_of_load` is the first of these facts.
* `Settings.load_eq_unreadable_iff` is the second; `Sources.parts` are the texts in question.
-/

namespace Workflow

open Document

theorem Execution.limit_ne_zero_of_check {fields : Fields Value} {e : Execution}
    (h : Execution.check fields = .ok e) : e.limit ≠ 0 := by
  simp only [Execution.check, Checked.pure_eq, Checked.and_eq_ok_iff, Except.ok.injEq,
    optional_eq_ok_iff, positiveInt_eq_ok_iff] at h
  obtain ⟨_, ⟨_, ⟨_, rfl, limit, hlimit, rfl⟩, _, _, rfl⟩, _, _, rfl⟩ := h
  change limit ≠ 0
  rcases hlimit with ⟨_, rfl⟩ | ⟨_, _, _, hone⟩
  · decide
  · exact Nat.one_le_iff_ne_zero.1 hone

/-- The texts of the variables that hold a whole part of the settings. -/
def Sources.parts (sources : Sources) : List String :=
  ["flow_engine_execution", "flow_engine_llm"].flatMap fun name =>
    (Fields.get? sources.environment name).toList ++ (Fields.get? sources.file name).join.toList

namespace Settings

variable {sources : Sources} {given : Fields Value} {execution : Option Execution}
  {model : Option Model} {s : Settings}

/-! ## Parts in one variable -/

/-- There is a text, and it is not JSON. -/
def Unreadable (value : Option String) : Prop :=
  ∃ text ∈ value, ∃ fault, Json.parse text = .error fault

/-- A part is read unless its text is not JSON. -/
theorem partIn_cases (value : Option String) (field source : String) (names : List String) :
    (Unreadable value ∧ partIn value field source names = .error (.unreadable field source)) ∨
      (¬ Unreadable value ∧ ∃ v, partIn value field source names = .ok v) := by
  cases value with
  | none => exact .inr ⟨nofun, _, rfl⟩
  | some text =>
    unfold partIn Unreadable
    cases hparse : Json.parse text with
    | error fault => simp [hparse]
    | ok v => cases v <;> simp [hparse]

/-- The parts that a source holds are read unless the text of one of them is not JSON. -/
theorem partsIn_cases (get? : String → Option String) (source : String) :
    ((Unreadable (get? "flow_engine_execution") ∨ Unreadable (get? "flow_engine_llm")) ∧
        ∃ field, partsIn get? source = .error (.unreadable field source)) ∨
      (¬ (Unreadable (get? "flow_engine_execution") ∨ Unreadable (get? "flow_engine_llm")) ∧
        ∃ parts, partsIn get? source = .ok parts) := by
  unfold partsIn
  rcases partIn_cases (get? "flow_engine_execution") "execution" source Execution.names with
    ⟨hbad, heq⟩ | ⟨hgood, v, heq⟩
  · exact .inl ⟨.inl hbad, _, by rw [heq]; rfl⟩
  rcases partIn_cases (get? "flow_engine_llm") "llm" source Model.names with
    ⟨hbad, heq'⟩ | ⟨hgood', w, heq'⟩
  · exact .inl ⟨.inr hbad, _, by rw [heq, heq']; rfl⟩
  · exact .inr ⟨not_or.2 ⟨hgood, hgood'⟩, _, by rw [heq, heq']; rfl⟩

variable (given execution model) in
/-- Parts that are read are checked together with everything else. -/
theorem load_cases_of_partsIn {inEnvironment inFile : Option Value × Option Value}
    (henvironment : partsIn (Fields.get? sources.environment) "EnvSettingsSource" = .ok inEnvironment)
    (hfile : partsIn (fun name => (Fields.get? sources.file name).join) "DotEnvSettingsSource" =
      .ok inFile) :
    (∃ issues, load sources given execution model = .error (.issues issues)) ∨
      ∃ s, load sources given execution model = .ok s ∧
        ∃ value, part "ExecutionConfig" (Execution.load sources) execution value =
          .ok s.execution := by
  unfold load
  simp only [henvironment, hfile, bind, Except.bind]
  split
  · exact .inl ⟨_, rfl⟩
  split
  · rename_i s hchecked
    refine .inr ⟨s, rfl, ?_⟩
    simp only [Checked.pure_eq, Checked.and_eq_ok_iff, Except.ok.injEq, Checked.under_eq_ok_iff]
      at hchecked
    obtain ⟨_, ⟨_, ⟨_, ⟨_, ⟨_, rfl, _, _, rfl⟩, _, _, rfl⟩, _, _, rfl⟩, _, hexecution, rfl⟩, _, _,
      rfl⟩ := hchecked
    exact ⟨_, hexecution⟩
  · exact .inl ⟨_, rfl⟩

/-- The settings cannot be read exactly if the text of a part of them is not JSON. -/
theorem load_eq_unreadable_iff :
    (∃ field source, load sources given execution model = .error (.unreadable field source)) ↔
      ∃ text ∈ sources.parts, ∃ fault, Json.parse text = .error fault := by
  have hparts : (∃ text ∈ sources.parts, ∃ fault, Json.parse text = .error fault) ↔
      (Unreadable (Fields.get? sources.environment "flow_engine_execution") ∨
        Unreadable (Fields.get? sources.environment "flow_engine_llm")) ∨
      (Unreadable (Fields.get? sources.file "flow_engine_execution").join ∨
        Unreadable (Fields.get? sources.file "flow_engine_llm").join) := by
    simp only [Sources.parts, List.flatMap_cons, List.flatMap_nil, List.append_nil, List.mem_append,
      Option.mem_toList, or_and_right, exists_or, Unreadable]
    exact or_or_or_comm
  rw [hparts]
  rcases partsIn_cases (Fields.get? sources.environment) "EnvSettingsSource" with
    ⟨hbad, field, henvironment⟩ | ⟨hgood, inEnvironment, henvironment⟩
  · simp [load, henvironment, hbad, bind, Except.bind]
  rcases partsIn_cases (fun name => (Fields.get? sources.file name).join) "DotEnvSettingsSource" with
    ⟨hbad, field, hfile⟩ | ⟨hgood', inFile, hfile⟩
  · simp [load, henvironment, hfile, hbad, bind, Except.bind]
  · refine iff_of_false ?_ (not_or.2 ⟨hgood, hgood'⟩)
    rintro ⟨field, source, h⟩
    rcases load_cases_of_partsIn given execution model henvironment hfile with
      ⟨issues, hload⟩ | ⟨s, hload, _⟩
    · rw [hload] at h
      cases h
    · rw [hload] at h
      cases h

/-- Settings that are loaded from their sources let at least one child of a loop run. -/
theorem limit_ne_zero_of_load (h : load sources given none model = .ok s) :
    s.execution.limit ≠ 0 := by
  rcases partsIn_cases (Fields.get? sources.environment) "EnvSettingsSource" with
    ⟨_, field, henvironment⟩ | ⟨_, inEnvironment, henvironment⟩
  · simp [load, henvironment, bind, Except.bind] at h
  rcases partsIn_cases (fun name => (Fields.get? sources.file name).join) "DotEnvSettingsSource" with
    ⟨_, field, hfile⟩ | ⟨_, inFile, hfile⟩
  · simp [load, henvironment, hfile, bind, Except.bind] at h
  rcases load_cases_of_partsIn given none model henvironment hfile with
    ⟨issues, hload⟩ | ⟨s', hload, value, hpart⟩
  · rw [hload] at h
    cases h
  · rw [hload, Except.ok.injEq] at h
    subst h
    unfold part at hpart
    split at hpart
    · rename_i heq
      cases heq
    · split at hpart
      · exact Execution.limit_ne_zero_of_check hpart
      · exact Execution.limit_ne_zero_of_check hpart
      · cases hpart

end Settings
end Workflow
