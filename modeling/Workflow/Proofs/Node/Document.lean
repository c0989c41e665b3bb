import Workflow.Node.Encode
import Workflow.Proofs.Fields
import Workflow.Proofs.Node.Checked
import Workflow.Proofs.Value.Plain

/-!
# Definitions are read back from their documents

The document of a definition that can be held by one is read as the definition itself, with all its
inputs, cases and carried fields in order.

* `Binding.check_toValue` and `Header.check_written` are the parts of this.
* `Node.check_toValue` is the whole.
-/

namespace Workflow

open Document

/-! ## Parts -/

theorem Document.nullable_text_ofString? (s : Option String) :
    nullable text (.ofString? s) = .ok s := by
  cases s <;> rfl

theorem Document.nullable_positiveInt_limitValue {limit : Option Nat} (h : limit ≠ some 0) :
    nullable positiveInt (limitValue limit) = .ok limit := by
  cases limit with
  | none => rfl
  | some n =>
    have hn : positiveInt (.nat n) = .ok n :=
      positiveInt_eq_ok_iff.2 ⟨rfl, Nat.one_le_iff_ne_zero.2 fun hzero => h (hzero ▸ rfl)⟩
    exact nullable_eq_ok_iff.2 (.inr ⟨nofun, n, hn, rfl⟩)

theorem Document.nullable_positiveFloat_getD {timeout : Option Binary64}
    (h : ∀ x ∈ timeout, positiveFloat (.float x) = .ok x) :
    nullable positiveFloat ((timeout.map Value.float).getD .null) = .ok timeout := by
  cases timeout with
  | none => rfl
  | some x => exact nullable_eq_ok_iff.2 (.inr ⟨nofun, x, h x rfl, rfl⟩)

/-- Items that are read back one by one are read back as a whole. -/
theorem Document.listOf_map {α : Type} {check : Check α} {write : α → Value} {items : List α}
    (h : ∀ a ∈ items, check (write a) = .ok a) :
    listOf check (.array (items.map write)) = .ok items := by
  refine listOf_eq_ok_iff.2 ⟨_, rfl, ?_⟩
  rw [List.forall₂_map_left_iff, List.forall₂_same]
  exact h

theorem Document.fieldsOf_map {α : Type} {check : Check α} {write : α → Value} {fields : Fields α}
    (h : ∀ field ∈ fields, check (write field.2) = .ok field.2) :
    fieldsOf check (.object (fields.map fun field => (field.1, write field.2))) = .ok fields := by
  refine fieldsOf_eq_ok_iff.2 ⟨_, rfl, ?_⟩
  rw [List.forall₂_map_left_iff, List.forall₂_same]
  exact fun field hfield => ⟨rfl, h field hfield⟩

/-! ## Bindings -/

/-- A binding is read back. -/
theorem Binding.check_toValue (b : Binding) : Binding.check (b.toValue false) = .ok b := by
  cases b <;>
    simp [Binding.check, Binding.toValue, recordValue, recordFields, kindOf_eq_ok_iff, checkKind,
      textField, Binding.kind, Fields.get?_cons, optional_eq_ok_iff]

/-! ## Fields of nodes -/

theorem Node.listToValues_eq (children : List Node) :
    listToValues false children = children.map (toValue false) := by
  induction children with
  | nil => rfl
  | cons child children ih => rw [listToValues, ih, List.map_cons]

/-- The fields that are written of a node. -/
def Node.written (header : Header) (work : Work) (children : List Value) : Fields Value :=
  header.toFields false ++ ("kind", .string work.kind.name) :: work.toFields false children ++
    header.extra

theorem Node.toValue_mk (header : Header) (work : Work) (children : List Node) :
    (mk header work children).toValue false =
      .object (written header work (children.map (toValue false))) := by
  rw [toValue, listToValues_eq]
  rfl

theorem Node.toValue_ne_null (node : Node) : node.toValue false ≠ .null := by
  obtain ⟨header, work, children⟩ := node
  rw [toValue_mk]
  exact nofun

/-- The fields that are written of a work are those that it knows. -/
theorem Work.mem_fieldNames {work : Work} {children : List Value} {field : String × Value}
    (h : field ∈ work.toFields false children) : field.1 ∈ work.fieldNames := by
  have hnames : Fields.names (work.toFields false children) = work.fieldNames := by
    cases work <;> rfl
  rw [← hnames]
  exact List.mem_map_of_mem h

namespace Node

variable {header : Header} {work : Work} {children : List Value} {name : String}

/-- Of what is written of a node only the fields that are carried along are not known. -/
theorem otherFields_written
    (hunknown : ∀ field ∈ header.extra, field.1 ∉ Header.fieldNames ++ work.fieldNames) :
    otherFields (written header work children) (Header.fieldNames ++ work.fieldNames) =
      header.extra := by
  have hknown : otherFields (header.toFields false ++ ("kind", .string work.kind.name) ::
      work.toFields false children) (Header.fieldNames ++ work.fieldNames) = [] := by
    rw [otherFields, List.filter_eq_nil_iff]
    intro field hfield
    simp only [List.mem_append, List.mem_cons] at hfield
    rcases hfield with hfield | rfl | hfield
    · have hname : field.1 ∈ Fields.names (header.toFields false) := List.mem_map_of_mem hfield
      simp [Header.toFields, Fields.names] at hname
      simp [Header.fieldNames]
      tauto
    · simp [Header.fieldNames]
    · simp [Work.mem_fieldNames hfield]
  have hextra : otherFields header.extra (Header.fieldNames ++ work.fieldNames) = header.extra := by
    rw [otherFields, List.filter_eq_self]
    intro field hfield
    simpa using hunknown field hfield
  rw [written, otherFields, List.filter_append]
  exact (congrArg₂ (· ++ ·) hknown hextra)

end Node

/-! ## Headers -/

/-- What all kinds of nodes carry is read back. -/
theorem Header.check_written {header : Header} {work : Work} {children : List Value}
    (hunknown : ∀ field ∈ header.extra, field.1 ∉ fieldNames ++ work.fieldNames) :
    Header.check (Node.written header work children) work.fieldNames = .ok header := by
  have hinputs : fieldsOf Binding.check (Binding.inputsValue false header.inputs) =
      .ok header.inputs :=
    fieldsOf_map fun input _ => input.2.check_toValue
  rw [Header.check, Node.otherFields_written hunknown]
  simp [Node.written, Header.toFields, Document.optional, Fields.get?_cons,
    nullable_text_ofString?, hinputs, Checked.and, Checked.under]

/-! ## Nodes -/

namespace Node

variable {check : Check Node} {header : Header} {children : List Node}

/-- The children of a branch are the nodes of its cases and perhaps a default. -/
theorem exists_of_fits_branch {condition : Binding} {cases : List Value}
    (h : Fits (.branch condition cases) children.length) :
    ∃ (nodes : List Node) (other : Option Node), nodes.length = cases.length ∧
      children = nodes ++ other.toList := by
  rcases h with h | h
  · exact ⟨children, none, h, by simp⟩
  · have hne : children ≠ [] := by
      rintro rfl
      cases h
    refine ⟨children.dropLast, some (children.getLast hne), by simp [h], ?_⟩
    exact (List.dropLast_append_getLast hne).symm

/-- The document of a case. -/
def caseValue (entry : Value × Node) : Value :=
  recordValue false [("when", entry.1), ("node", entry.2.toValue false)]

/-- What is written of a branch. -/
theorem toFields_branch {condition : Binding} {cases : List Value} {nodes : List Node}
    {other : Option Node} (h : nodes.length = cases.length) :
    (Work.branch condition cases).toFields false ((nodes ++ other.toList).map (toValue false)) =
      [("condition", condition.toValue false),
       ("children", .array ((cases.zip nodes).map caseValue)),
       ("default", (other.map (toValue false)).getD .null)] := by
  have hzip : cases.zip ((nodes ++ other.toList).map (toValue false)) =
      cases.zip (nodes.map (toValue false)) := by
    conv_lhs => rw [← List.append_nil cases]
    rw [List.map_append, List.zip_append (by simp [h]), List.zip_nil_left, List.append_nil]
  have hother : ((nodes ++ other.toList).map (toValue false))[cases.length]? =
      other.map (toValue false) := by
    rw [List.map_append, List.getElem?_append_right (by simp [h])]
    cases other <;> simp [h]
  rw [Work.toFields, hzip, hother, List.zip_map_right, List.map_map]
  rfl

variable (header) in
/-- What is written of a node holds the documents of its children. -/
theorem mem_walk_written {work : Work} {child : Node} (hfits : Fits work children.length)
    (hchild : child ∈ children) :
    ∃ field ∈ written header work (children.map (toValue false)),
      child.toValue false ∈ field.2.walk := by
  have hmem := List.mem_map_of_mem (f := toValue false) hchild
  suffices ∃ field ∈ work.toFields false (children.map (toValue false)),
      child.toValue false ∈ field.2.walk by
    obtain ⟨field, hfield, hwalk⟩ := this
    exact ⟨field, by simp [written, hfield], hwalk⟩
  have harray : child.toValue false ∈ (Value.array (children.map (toValue false))).walk :=
    Value.mem_walk_array_iff.2 (.inr ⟨_, hmem, Value.mem_walk_self _⟩)
  cases work with
  | step agent timeout => simp [List.length_eq_zero_iff.1 hfits] at hchild
  | sequence => exact ⟨_, List.mem_cons_self, harray⟩
  | parallel limit => exact ⟨_, List.mem_cons_self, harray⟩
  | race limit => exact ⟨_, List.mem_cons_self, harray⟩
  | branch condition cases =>
    obtain ⟨nodes, other, hlength, rfl⟩ := exists_of_fits_branch hfits
    rw [toFields_branch hlength]
    rcases List.mem_append.1 hchild with hchild | hchild
    · obtain ⟨i, hi, rfl⟩ := List.mem_iff_getElem.1 hchild
      have hentry : (cases[i], nodes[i]) ∈ cases.zip nodes := by
        rw [← List.getElem_zip (h := by simp [hi, hlength.symm])]
        exact List.getElem_mem _
      have hcase : (nodes[i].toValue false) ∈ (caseValue (cases[i], nodes[i])).walk :=
        Value.mem_walk_object_iff.2
          (.inr ⟨_, List.mem_cons_of_mem _ List.mem_cons_self, Value.mem_walk_self _⟩)
      exact ⟨_, List.mem_cons_of_mem _ List.mem_cons_self,
        Value.mem_walk_array_iff.2 (.inr ⟨_, List.mem_map_of_mem hentry, hcase⟩)⟩
    · rw [Option.mem_toList] at hchild
      subst hchild
      exact ⟨_, List.mem_cons_of_mem _ (List.mem_cons_of_mem _ List.mem_cons_self),
        Value.mem_walk_self _⟩
  | loop source itemName indexName limit =>
    obtain ⟨body, rfl⟩ := List.length_eq_one_iff.1 hfits
    rw [List.mem_singleton.1 hchild]
    exact ⟨_, List.mem_cons_of_mem _ List.mem_cons_self, Value.mem_walk_self _⟩

variable {agent : String} {timeout : Option Binary64} {limit : Option Nat} {condition : Binding}
  {cases : List Value} {source : Binding} {itemName : String} {indexName : Option String}

/-- What all kinds of nodes carry is read back. -/
theorem Writable.check_header {work : Work} (h : (Node.mk header work children).Writable)
    (values : List Value) :
    Header.check (written header work values) work.fieldNames = .ok header :=
  Header.check_written h.unknown

theorem checkStep_written (h : (mk header (.step agent timeout) children).Writable) :
    checkStep (written header (.step agent timeout) (children.map (toValue false))) =
      .ok (mk header (.step agent timeout) children) := by
  obtain rfl : children = [] := List.length_eq_zero_iff.1 h.fits
  have hagent : someText (.string agent) = .ok agent := someText_eq_ok_iff.2 ⟨rfl, h.valid.1⟩
  have htimeout := nullable_positiveFloat_getD h.valid.2
  have hheader : Header.check (written header (.step agent timeout) ([].map (toValue false)))
    ["agent", "timeout_seconds"] = .ok header := h.check_header _
  rw [checkStep, hheader]
  simp [written, Header.toFields, Work.toFields, Document.required, Document.optional,
    Fields.get?_cons, hagent, htimeout, Checked.and, Checked.under]

theorem checkGroup_written {work : Work} {checked : Checked Work}
    (h : (mk header work children).Writable)
    (hcheck : ∀ child ∈ children, check (child.toValue false) = .ok child)
    (hgroup : Fields.get? (written header work (children.map (toValue false))) "children" =
      some (.array (children.map (toValue false)))) (hwork : checked = .ok work) :
    checkGroup check (written header work (children.map (toValue false))) work.fieldNames checked =
      .ok (mk header work children) := by
  simp only [checkGroup, h.check_header, Document.optional, hgroup, listOf_map hcheck, hwork]
  rfl

/-- A limit is read back. -/
theorem checkLimit_of_get? {fields : Fields Value} (h : limit ≠ some 0)
    (hget : Fields.get? fields "max_concurrency" = some (limitValue limit)) :
    Work.checkLimit fields = .ok limit := by
  simp only [Work.checkLimit, Document.optional, hget, nullable_positiveInt_limitValue h,
    Checked.under]

/-- A case is read back if its node is. -/
theorem checkCase_caseValue {entry : Value × Node}
    (h : check (entry.2.toValue false) = .ok entry.2) :
    checkCase check (caseValue entry) = .ok entry := by
  simp [checkCase, caseValue, recordValue, recordFields, Document.required, Fields.get?_cons, h,
    any, Checked.under]
  rintro _ _ (⟨rfl, _⟩ | ⟨rfl, _⟩) <;> simp

theorem checkBranch_written (h : (mk header (.branch condition cases) children).Writable)
    (hcheck : ∀ child ∈ children, check (child.toValue false) = .ok child) :
    checkBranch check (written header (.branch condition cases) (children.map (toValue false))) =
      .ok (mk header (.branch condition cases) children) := by
  have hheader : Header.check
      (written header (.branch condition cases) (children.map (toValue false)))
      ["condition", "children", "default"] = .ok header := h.check_header _
  obtain ⟨nodes, other, hlength, rfl⟩ := exists_of_fits_branch h.fits
  have hcases : listOf (checkCase check) (.array ((cases.zip nodes).map caseValue)) =
      .ok (cases.zip nodes) :=
    listOf_map fun entry hentry => checkCase_caseValue <|
      hcheck _ (List.mem_append_left _ (List.of_mem_zip hentry).2)
  have hother : nullable check ((other.map (toValue false)).getD .null) = .ok other := by
    cases other with
    | none => rfl
    | some node =>
      have hnode := hcheck node (by simp)
      exact nullable_eq_ok_iff.2 (.inr ⟨node.toValue_ne_null, node, hnode, rfl⟩)
  rw [checkBranch, hheader]
  simp only [written, toFields_branch hlength]
  simp [Header.toFields, Document.required, Document.optional, Fields.get?_cons,
    condition.check_toValue, hcases, hother, Checked.and, Checked.under,
    List.map_fst_zip (Nat.le_of_eq hlength.symm), List.map_snd_zip (Nat.le_of_eq hlength)]

theorem checkLoop_written
    (h : (mk header (.loop source itemName indexName limit) children).Writable)
    (hcheck : ∀ child ∈ children, check (child.toValue false) = .ok child) :
    checkLoop check
        (written header (.loop source itemName indexName limit) (children.map (toValue false))) =
      .ok (mk header (.loop source itemName indexName limit) children) := by
  have hheader : Header.check
      (written header (.loop source itemName indexName limit) (children.map (toValue false)))
      ["source", "body", "item_name", "index_name", "max_concurrency"] = .ok header :=
    h.check_header _
  obtain ⟨body, rfl⟩ := List.length_eq_one_iff.1 h.fits
  have hbody := hcheck body (List.mem_singleton.2 rfl)
  rw [checkLoop, hheader]
  simp [written, Header.toFields, Work.toFields, Work.checkLimit, Document.required,
    Document.optional, Fields.get?_cons, source.check_toValue, hbody, text,
    nullable_text_ofString?, nullable_positiveInt_limitValue h.valid, Checked.and, Checked.under]

/-- A node is read back if its children are. -/
theorem checkKind_written {work : Work} (h : (mk header work children).Writable)
    (hcheck : ∀ child ∈ children, check (child.toValue false) = .ok child) :
    checkKind check work.kind.name (written header work (children.map (toValue false))) =
      some (.ok (mk header work children)) := by
  have hkind : Kind.ofName? work.kind.name = some work.kind := by
    cases work.kind <;> decide
  rw [checkKind, hkind, Option.map_some, Option.some_inj]
  cases work with
  | step agent timeout => exact checkStep_written h
  | sequence =>
    refine checkGroup_written h hcheck ?_ rfl
    simp [written, Header.toFields, Work.toFields, Fields.get?_cons]
  | parallel limit =>
    refine checkGroup_written h hcheck ?_
      (Checked.map_eq_ok_iff.2 ⟨_, checkLimit_of_get? h.valid ?_, rfl⟩)
    all_goals simp [written, Header.toFields, Work.toFields, Fields.get?_cons]
  | race limit =>
    refine checkGroup_written h hcheck ?_
      (Checked.map_eq_ok_iff.2 ⟨_, checkLimit_of_get? h.valid ?_, rfl⟩)
    all_goals simp [written, Header.toFields, Work.toFields, Fields.get?_cons]
  | branch condition cases => exact checkBranch_written h hcheck
  | loop source itemName indexName limit => exact checkLoop_written h hcheck

theorem checkWithin_toValue (node : Node) : node.Documented → ∀ bound,
    (node.toValue false).depth ≤ bound → checkWithin bound (node.toValue false) = .ok node := by
  induction node using Node.ind with
  | mk header work children ih =>
    intro hdocumented bound hbound
    obtain ⟨hwritable, hchildren⟩ := forall_mem_walk_mk_iff.1 hdocumented
    rw [toValue_mk] at hbound ⊢
    cases bound with
    | zero => exact absurd hbound (by simp [Value.depth])
    | succ bound =>
      refine kindOf_eq_ok_iff.2 ⟨_, work.kind.name, rfl, ?_, checkKind_written hwritable ?_⟩
      · simp [written, Header.toFields, Fields.get?_cons]
      · intro child hchild
        have hfits : Fits work children.length := hwritable.fits
        obtain ⟨field, hfield, hwalk⟩ := mem_walk_written header hfits hchild
        have hdepth := Value.depth_lt_object hfield hwalk
        exact ih child hchild (hchildren child hchild) bound (by omega)

/-- A definition that can be held by a document is read back from its own. -/
theorem check_toValue {node : Node} (h : node.Documented) :
    Node.check (node.toValue false) = .ok node :=
  node.checkWithin_toValue h _ (Nat.le_succ _)

end Node
end Workflow
