import Workflow.Flow.Document
import Workflow.Proofs.Node.Plain

/-!
# Flows are read back from their documents

The variables, the agents and the workflow of a flow are read back from what is written of them, and
the document is plain if what the flow was read from is.

* `Flow.Documented` says that a flow can be held by a document, and `Flow.Plain` that its values are
  plain.
* `Flow.documented_of_check` and `Flow.plain_of_check` say so of flows that are read.
* `Flow.check_toValue` and `Flow.plain_toValue` are about what is written of them.
-/

namespace Workflow

open Document

/-! ## Variables -/

namespace Variable

/-- The declaration passes the checks: its name consists of name characters, and an enumeration has
options. -/
structure Valid (v : Variable) : Prop where
  /-- The name is one that variables can have. -/
  name : checkName (.string v.name) = .ok v.name
  /-- There are options to choose from. -/
  options : v.type = .enumeration → v.options ≠ []

theorem checkName_eq_ok {w : Value} {s : String} (h : checkName w = .ok s) :
    checkName (.string s) = .ok s := by
  have hw : w = .string s := by
    unfold checkName at h
    split at h
    · cases h
    · rename_i htext
      split at h
      · cases h
        exact text_eq_ok_iff.1 htext
      · cases h
  rwa [hw] at h

theorem check_eq_ok_iff {w : Value} {v : Variable} : check w = .ok v ↔
    ∃ fields, w = .object fields ∧ checkFields fields = .ok v ∧
      (v.type = .enumeration → v.options ≠ []) := by
  refine recordOf_eq_ok_iff.trans (exists_congr fun fields => and_congr_right fun _ => ?_)
  cases hfields : checkFields fields with
  | error issues => simp
  | ok variable_ =>
    by_cases hoptions : variable_.type = .enumeration ∧ variable_.options = []
    · simp only [if_pos hoptions, Checked.fail_ne_ok, Except.ok.injEq, false_iff]
      rintro ⟨rfl, h⟩
      exact h hoptions.1 hoptions.2
    · simp only [if_neg hoptions, Except.ok.injEq]
      refine ⟨?_, And.left⟩
      rintro rfl
      exact ⟨rfl, not_and.1 hoptions⟩

/-- A variable that is read is valid, and its default stands in the document. -/
theorem of_check {w : Value} {v : Variable} (h : check w = .ok v) :
    v.Valid ∧ (v.default = .null ∨ v.default ∈ w.walk) := by
  obtain ⟨fields, rfl, hfields, hoptions⟩ := check_eq_ok_iff.1 h
  simp only [checkFields, Checked.also_eq_ok_iff, Checked.and_eq_ok_iff, Checked.pure_eq,
    Except.ok.injEq, required_eq_ok_iff] at hfields
  obtain ⟨⟨_, ⟨_, ⟨_, ⟨_, ⟨_, ⟨_, rfl, name, ⟨_, _, hname⟩, rfl⟩, _, _, rfl⟩, _, _, rfl⟩, default,
    hdefault, rfl⟩, _, _, rfl⟩, _, _, rfl⟩, _⟩ := hfields
  refine ⟨⟨checkName_eq_ok hname, hoptions⟩, ?_⟩
  obtain ⟨_, rfl⟩ | ⟨_, hget, hcheck⟩ := optional_eq_ok_iff.1 hdefault
  · exact .inl rfl
  · cases hcheck
    exact .inr (Value.mem_walk_of_get? hget (Value.mem_walk_self _))

/-- A valid variable is read back. -/
theorem check_toValue {v : Variable} (h : v.Valid) : check v.toValue = .ok v := by
  have htype : VariableType.ofName? v.type.name = some v.type := by
    cases v.type <;> decide
  have hrequired : Document.bool (.bool v.required) = .ok v.required := rfl
  have hoptions : listOf text (.strings v.options) = .ok v.options := listOf_map fun _ _ => rfl
  refine check_eq_ok_iff.2 ⟨_, rfl, Checked.also_eq_ok_iff.2 ⟨?_, noOthers_of_names rfl⟩, h.options⟩
  simp [Document.optional, Document.required, Fields.get?_cons, h.name, oneOf, htype, hrequired,
    any, hoptions, text, Checked.and, Checked.under]

theorem plain_toValue {v : Variable} (h : v.default.Plain) : v.toValue.Plain := by
  simp [toValue, Fields.names, h]

end Variable

/-! ## Agents -/

namespace Agent

theorem mem_walk_of_check {v : Value} {a : Agent} (h : check v = .ok a) :
    ∀ tool ∈ a.tools, .object tool ∈ v.walk := by
  simp only [check, recordOf_eq_ok_iff, Checked.also_eq_ok_iff, Checked.and_eq_ok_iff,
    Checked.pure_eq, Except.ok.injEq] at h
  obtain ⟨fields, rfl, ⟨_, ⟨_, ⟨_, ⟨_, rfl, _, _, rfl⟩, _, _, rfl⟩, _, _, rfl⟩, tools, htools, rfl⟩,
    _⟩ := h
  intro tool htool
  obtain ⟨w, hw, hcheck⟩ := exists_of_optional_listOf htools htool
  rwa [fieldsOf_any_eq_ok_iff.1 hcheck] at hw

/-- An agent is read back. -/
theorem check_toValue (a : Agent) : check a.toValue = .ok a := by
  have htools : listOf (fieldsOf any) (.array (a.tools.map .object)) = .ok a.tools :=
    listOf_map fun tool _ => fieldsOf_any_eq_ok_iff.2 rfl
  refine Checked.also_eq_ok_iff.2 ⟨?_, noOthers_of_names rfl⟩
  simp [Document.optional, Document.required, Fields.get?_cons, htools, text, Checked.and,
    Checked.under]

theorem plain_toValue {a : Agent} (h : ∀ tool ∈ a.tools, (Value.object tool).Plain) :
    a.toValue.Plain := by
  have htools : (Value.array (a.tools.map .object)).Plain :=
    Value.plain_array_iff.2 (List.forall_mem_map.2 h)
  refine Value.plain_object_iff.2 ⟨by simp [Fields.names], ?_⟩
  simp only [List.forall_mem_cons]
  exact ⟨Value.plain_string _, Value.plain_string _, Value.plain_string _, htools, nofun⟩

end Agent

/-! ## Flows -/

namespace Flow

variable {v : Value} {flow : Flow}

/-- The flow can be held by a document. -/
structure Documented (flow : Flow) : Prop where
  /-- So can its workflow. -/
  tree : flow.tree.Documented
  /-- Its variables pass their checks. -/
  vars : ∀ variable_ ∈ flow.vars, variable_.Valid

/-- All values in the flow are plain, and no step has a timeout. -/
structure Plain (flow : Flow) : Prop where
  /-- So is the workflow. -/
  tree : flow.tree.Plain
  /-- So are the defaults of the variables. -/
  vars : ∀ variable_ ∈ flow.vars, variable_.default.Plain
  /-- So are the tools of the agents. -/
  agents : ∀ agent ∈ flow.agents, ∀ tool ∈ agent.tools, (Value.object tool).Plain

/-- The parts of a flow are read from values in the document. -/
theorem parts_of_check (h : Flow.check v = .ok flow) :
    (∃ w ∈ v.walk, Node.check w = .ok flow.tree) ∧
      (∀ variable_ ∈ flow.vars, ∃ w ∈ v.walk, Variable.check w = .ok variable_) ∧
      ∀ agent ∈ flow.agents, ∃ w ∈ v.walk, Agent.check w = .ok agent := by
  simp only [Flow.check, recordOf_eq_ok_iff, Checked.also_eq_ok_iff, Checked.and_eq_ok_iff,
    Checked.pure_eq, Except.ok.injEq, required_eq_ok_iff] at h
  obtain ⟨fields, rfl, ⟨_, ⟨_, ⟨_, ⟨_, ⟨_, rfl, _, _, rfl⟩, _, _, rfl⟩, _, ⟨w, hget, hw⟩, rfl⟩, vars,
    hvars, rfl⟩, agents, hagents, rfl⟩, _⟩ := h
  exact ⟨⟨w, Value.mem_walk_of_get? hget w.mem_walk_self, hw⟩,
    fun _ => exists_of_optional_listOf hvars, fun _ => exists_of_optional_listOf hagents⟩

/-- A flow that is read from a document can be held by one. -/
theorem documented_of_check (h : Flow.check v = .ok flow) : flow.Documented := by
  obtain ⟨⟨w, _, htree⟩, hvars, _⟩ := parts_of_check h
  refine ⟨Node.documented_of_check htree, fun variable_ hmem => ?_⟩
  obtain ⟨_, _, hcheck⟩ := hvars variable_ hmem
  exact (Variable.of_check hcheck).1

theorem sound_of_check (h : Flow.check v = .ok flow) : flow.tree.Sound :=
  (documented_of_check h).tree.sound

/-- A flow without timeouts that is read from a plain value is plain. -/
theorem plain_of_check (hv : v.Plain) (huntimed : flow.tree.Untimed)
    (h : Flow.check v = .ok flow) : flow.Plain := by
  obtain ⟨⟨w, hw, htree⟩, hvars, hagents⟩ := parts_of_check h
  refine ⟨Node.plain_of_check (hv.of_mem_walk hw) huntimed htree, fun variable_ hmem => ?_,
    fun agent hmem tool htool => ?_⟩
  · obtain ⟨u, hu, hcheck⟩ := hvars variable_ hmem
    obtain hnull | hdefault := (Variable.of_check hcheck).2
    · rw [hnull]
      exact Value.plain_null
    · exact (hv.of_mem_walk hu).of_mem_walk hdefault
  · obtain ⟨u, hu, hcheck⟩ := hagents agent hmem
    exact (hv.of_mem_walk hu).of_mem_walk (Agent.mem_walk_of_check hcheck tool htool)

/-- A flow that can be held by a document is read back from its own. -/
theorem check_toValue (h : flow.Documented) : check flow.toValue = .ok flow := by
  have hvars : listOf Variable.check (.array (flow.vars.map Variable.toValue)) = .ok flow.vars :=
    listOf_map fun variable_ hmem => Variable.check_toValue (h.vars variable_ hmem)
  have hagents : listOf Agent.check (.array (flow.agents.map Agent.toValue)) = .ok flow.agents :=
    listOf_map fun agent _ => agent.check_toValue
  refine Checked.also_eq_ok_iff.2 ⟨?_, noOthers_of_names rfl⟩
  simp [Document.optional, Document.required, Fields.get?_cons, Node.check_toValue h.tree, hvars,
    hagents, text, Checked.and, Checked.under]

/-- The document of a plain flow is plain. -/
theorem plain_toValue (h : flow.Documented) (hplain : flow.Plain) : flow.toValue.Plain := by
  have hvars : (Value.array (flow.vars.map Variable.toValue)).Plain :=
    Value.plain_array_iff.2 <| List.forall_mem_map.2 fun variable_ hmem =>
      Variable.plain_toValue (hplain.vars variable_ hmem)
  have hagents : (Value.array (flow.agents.map Agent.toValue)).Plain :=
    Value.plain_array_iff.2 <| List.forall_mem_map.2 fun agent hmem =>
      Agent.plain_toValue (hplain.agents agent hmem)
  refine Value.plain_object_iff.2 ⟨by simp [Fields.names], ?_⟩
  simp only [List.forall_mem_cons]
  exact ⟨Value.plain_string _, Value.plain_string _,
    flow.tree.plain_toValue h.tree hplain.tree, hvars, hagents, nofun⟩

end Flow

theorem Document.check_of_checkText {α : Type} {check : Check α} {text : String} {a : α}
    (h : checkText check text = .ok a) : ∃ v, Json.parse text = .ok v ∧ check v = .ok a := by
  unfold checkText at h
  split at h
  · cases h
  · exact ⟨_, ‹_›, h⟩

end Workflow
