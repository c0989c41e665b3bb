import Workflow.Proofs.Node.Document
import Workflow.Proofs.Tree.Annotated

/-!
# Definitions that JSON texts keep

A definition is kept by the JSON text of its document if the values in it are plain and no step has a
timeout, which is never written as a whole number.

* `Node.Plain` says so of a tree.
* `Node.plain_of_check` says that trees that are read from plain values are so, and
  `Node.plain_toValue` that their documents are plain values again.
* `Node.Related.documented` and `Node.Related.plain` say that preparation changes none of this.
-/

namespace Workflow

open Document

/-! ## Plain definitions -/

/-- No agent is given a time. -/
def Work.Untimed : Work → Prop
  | .step _ timeout => timeout = none
  | _ => True

/-- No step of the tree has a timeout. -/
def Node.Untimed (tree : Node) : Prop :=
  ∀ node ∈ tree.walk, node.work.Untimed

/-- The values in a header are plain, and no name is given twice. -/
structure Header.Plain (header : Header) : Prop where
  /-- So are the inputs. -/
  inputs : (Binding.inputsValue false header.inputs).Plain
  /-- So are the fields that are carried along. -/
  extra : (Value.object header.extra).Plain

/-- The values in what a node does are plain, and there is no timeout. -/
structure Work.Plain (work : Work) : Prop where
  /-- The condition or the source is plain. -/
  binding : ∀ b ∈ work.binding?, (b.toValue false).Plain
  /-- What is compared with the condition is plain. -/
  compared : ∀ v ∈ work.compared, v.Plain
  /-- There is no timeout. -/
  untimed : work.Untimed

/-- All values in the tree are plain, and no step has a timeout. -/
def Node.Plain (tree : Node) : Prop :=
  ∀ node ∈ tree.walk, node.header.Plain ∧ node.work.Plain

/-! ## Definitions that are read -/

/-- The document of a binding is plain unless the value that stands in it is not. -/
theorem Binding.plain_toValue_iff {b : Binding} :
    (b.toValue false).Plain ↔ ∀ value, b = .literal value → value.Plain := by
  cases b <;> simp [toValue, recordValue, recordFields, kind, Fields.names]

/-- A binding that is read from a plain value is plain. -/
theorem Binding.plain_toValue_of_check {v : Value} {b : Binding} (hv : v.Plain)
    (h : Binding.check v = .ok b) : (b.toValue false).Plain := by
  rw [plain_toValue_iff]
  rintro value rfl
  obtain ⟨fields, kind, rfl, _, hkind⟩ := kindOf_eq_ok_iff.1 h
  unfold checkKind at hkind
  split at hkind
  · simp only [Option.some_inj, Checked.also_eq_ok_iff, Checked.and_eq_ok_iff, Checked.pure_eq,
      Except.ok.injEq, optional_eq_ok_iff, any_eq_ok_iff] at hkind
    obtain ⟨⟨_, rfl, w, hw, hvalue⟩, _⟩ := hkind
    cases hvalue
    obtain ⟨_, rfl⟩ | ⟨_, hget, rfl⟩ := hw
    · exact Value.plain_null
    · exact hv.of_mem_walk (Value.mem_walk_of_get? hget (Value.mem_walk_self _))
  · simp [textField] at hkind
  · simp [textField] at hkind
  · simp [textField] at hkind
  · cases hkind

namespace Header

variable {fields : Fields Value} {known : List String} {header : Header}

/-- The inputs of a header are read from a value in the fields. -/
theorem inputs_of_check (h : Header.check fields known = .ok header) :
    header.inputs = [] ∨
      ∃ v ∈ (Value.object fields).walk, fieldsOf Binding.check v = .ok header.inputs := by
  simp only [Header.check, Checked.pure_eq, Checked.and_eq_ok_iff, Except.ok.injEq,
    optional_eq_ok_iff] at h
  obtain ⟨_, ⟨_, ⟨_, ⟨_, rfl, _, _, rfl⟩, _, _, rfl⟩, _, _, rfl⟩, inputs, hinputs, rfl⟩ := h
  obtain ⟨_, rfl⟩ | ⟨v, hget, hcheck⟩ := hinputs
  · exact .inl rfl
  · exact .inr ⟨v, Value.mem_walk_of_get? hget v.mem_walk_self, hcheck⟩

theorem plain_of_check (hfields : (Value.object fields).Plain)
    (h : Header.check fields known = .ok header) : header.Plain where
  inputs := by
    rcases inputs_of_check h with hnil | ⟨v, hv, hcheck⟩
    · rw [hnil]
      simp [Binding.inputsValue, Fields.names]
    · have hplain := hfields.of_mem_walk hv
      obtain ⟨inputs, rfl, hinputs⟩ := fieldsOf_eq_ok_iff.1 hcheck
      obtain ⟨hnames, hcontents⟩ := Value.plain_object_iff.1 hplain
      rw [Binding.inputsValue, Value.plain_object_iff]
      have hsame : Fields.names (header.inputs.map fun input => (input.1, input.2.toValue false)) =
          Fields.names inputs := by
        rw [← names_of_forall₂ hinputs, Fields.names, List.map_map]
        rfl
      refine ⟨hsame ▸ hnames, fun field hfield => ?_⟩
      obtain ⟨input, hinput, rfl⟩ := List.mem_map.1 hfield
      obtain ⟨field, hfield, _, hread⟩ := exists_of_mem_right hinputs hinput
      exact Binding.plain_toValue_of_check (hcontents field hfield) hread
  extra := by
    rw [extra_of_check h]
    obtain ⟨hnames, hcontents⟩ := Value.plain_object_iff.1 hfields
    refine Value.plain_object_iff.2 ⟨hnames.sublist (List.filter_sublist.map _), ?_⟩
    exact fun field hfield => hcontents field (List.mem_filter.1 hfield).1

end Header

/-- A tree without timeouts that is read from a plain value is plain. -/
theorem Node.plain_of_check {v : Value} {tree : Node} (hv : v.Plain) (huntimed : tree.Untimed)
    (h : Node.check v = .ok tree) : tree.Plain := by
  intro node hnode
  obtain ⟨check, fields, hfields, hdecoded⟩ := exists_decoded_of_check h node hnode
  have hplain := hv.of_mem_walk hfields
  refine ⟨Header.plain_of_check hplain hdecoded.header, ?_, ?_, huntimed node hnode⟩
  · intro b hb
    obtain ⟨w, hw, hcheck⟩ := hdecoded.binding b hb
    exact Binding.plain_toValue_of_check (hplain.of_mem_walk hw) hcheck
  · exact fun w hw => hplain.of_mem_walk (hdecoded.compared w hw)

/-! ## Definitions that are prepared -/

theorem Header.Marked.plain {header header' : Header} (h : header.Marked header')
    (hplain : header.Plain) : header'.Plain := by
  rw [h.1]
  exact ⟨hplain.inputs, hplain.extra⟩

namespace Node.Related

variable {tree tree' : Node}

theorem plain (h : Related Header.Marked tree tree') (htree : tree.Plain) : tree'.Plain := by
  intro node' hnode'
  obtain ⟨node, hnode, hwork, hheader⟩ := h.exists_mem_walk hnode'
  rw [hwork]
  exact ⟨hheader.plain (htree node hnode).1, (htree node hnode).2⟩

theorem documented (h : Related Header.Marked tree tree') (htree : tree.Documented) :
    tree'.Documented := by
  intro node' hnode'
  obtain ⟨node, hnode, hwork, hheader⟩ := h.exists_mem_walk hnode'
  refine ⟨(h.sound htree.sound node' hnode').1, ?_, ?_⟩
  · rw [hwork]
    exact (htree node hnode).valid
  · rw [hwork, hheader.1]
    exact (htree node hnode).unknown

end Node.Related

/-! ## Documents -/

namespace Node

variable {header : Header} {work : Work} {children : List Node}

/-- No name is given twice in what is written of a node. -/
theorem nodup_names_written {values : List Value} (hextra : (Fields.names header.extra).Nodup)
    (hunknown : ∀ field ∈ header.extra, field.1 ∉ Header.fieldNames ++ work.fieldNames) :
    (Fields.names (written header work values)).Nodup := by
  have hnames : Fields.names (written header work values) =
      (Header.fieldNames ++ work.fieldNames) ++ Fields.names header.extra := by
    cases work <;> rfl
  have hknown : (Header.fieldNames ++ work.fieldNames).Nodup := by
    cases work <;> simp [Header.fieldNames, Work.fieldNames]
  rw [hnames, List.nodup_append]
  refine ⟨hknown, hextra, ?_⟩
  rintro name hname _ hmem rfl
  obtain ⟨field, hfield, rfl⟩ := List.mem_map.1 hmem
  exact hunknown field hfield hname

/-- What is written of a node's work is plain. -/
theorem plain_toFields (hfits : Fits work children.length) (hwork : work.Plain)
    (hchildren : ∀ child ∈ children, (child.toValue false).Plain) :
    ∀ field ∈ work.toFields false (children.map (toValue false)), field.2.Plain := by
  have hlimit (limit : Option Nat) : (limitValue limit).Plain := by
    cases limit with
    | none => exact Value.plain_null
    | some n => exact Value.plain_int n
  cases work with
  | step agent timeout =>
    obtain rfl : timeout = none := hwork.untimed
    simp [Work.toFields]
  | sequence => simpa [Work.toFields] using hchildren
  | parallel limit => simpa [Work.toFields, hlimit] using hchildren
  | race limit => simpa [Work.toFields, hlimit] using hchildren
  | branch condition cases =>
    obtain ⟨nodes, other, hlength, rfl⟩ := exists_of_fits_branch hfits
    rw [toFields_branch hlength]
    have hcase : ∀ entry ∈ cases.zip nodes, (caseValue entry).Plain := by
      intro entry hentry
      obtain ⟨hvalue, hnode⟩ := List.of_mem_zip hentry
      have hnode := hchildren entry.2 (List.mem_append_left _ hnode)
      simp [caseValue, recordValue, recordFields, Fields.names, hwork.compared entry.1 hvalue, hnode]
    have hother : ((other.map (toValue false)).getD .null).Plain := by
      cases other with
      | none => exact Value.plain_null
      | some node => exact hchildren node (by simp)
    simp only [List.forall_mem_cons]
    exact ⟨hwork.binding condition rfl, Value.plain_array_iff.2 (List.forall_mem_map.2 hcase), hother,
      List.forall_mem_nil _⟩
  | loop source itemName indexName limit =>
    obtain ⟨body, rfl⟩ := List.length_eq_one_iff.1 hfits
    have hsource := hwork.binding source rfl
    simpa [Work.toFields, hlimit, hsource] using hchildren

/-- The document of a plain definition is plain. -/
theorem plain_toValue (node : Node) : node.Documented → node.Plain →
    (node.toValue false).Plain := by
  induction node using Node.ind with
  | mk header work children ih =>
    intro hdocumented hplain
    obtain ⟨hwritable, hdocumented⟩ := forall_mem_walk_mk_iff.1 hdocumented
    obtain ⟨⟨hheader, hwork⟩, hplain⟩ := forall_mem_walk_mk_iff.1 hplain
    obtain ⟨hnames, hextra⟩ := Value.plain_object_iff.1 hheader.extra
    rw [toValue_mk]
    refine Value.plain_object_iff.2 ⟨nodup_names_written hnames hwritable.unknown, ?_⟩
    have hfields := plain_toFields hwritable.fits hwork fun child hchild =>
      ih child hchild (hdocumented child hchild) (hplain child hchild)
    have hinputs : (Binding.inputsValue false header.inputs).Plain := hheader.inputs
    have hheader : ∀ field ∈ header.toFields false, field.2.Plain := by
      simpa [Header.toFields] using hinputs
    simp only [written, List.forall_mem_append, List.forall_mem_cons]
    exact ⟨⟨hheader, Value.plain_string _, hfields⟩, hextra⟩

end Node
end Workflow
