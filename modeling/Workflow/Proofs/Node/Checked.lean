import Workflow.Node.Decode
import Workflow.Proofs.Document.Check
import Workflow.Proofs.Node.Sound
import Workflow.Proofs.Value.Plain

/-!
# Definitions that documents can hold

Not every tree is the definition of a document: the agent of a step has a name, a timeout is positive, a
limit on concurrency is not zero, a node has as many children as its work needs, and the fields that
are carried along are none of those that nodes of its kind know.

* `Node.Documented` says so of a tree.
* `Node.Decoded` says how a node comes from the fields that it is read from. Everything that is known of
  trees that are read follows from `Node.exists_decoded_of_check`.
* `Node.documented_of_check` says that the check lets no other trees through.
-/

namespace Workflow

open Document

/-- The fields that nodes with the work know beside those that all nodes know. -/
def Work.fieldNames : Work → List String
  | .step .. => ["agent", "timeout_seconds"]
  | .sequence => ["children"]
  | .parallel _ => ["children", "max_concurrency"]
  | .race _ => ["children", "max_concurrency"]
  | .branch .. => ["condition", "children", "default"]
  | .loop .. => ["source", "body", "item_name", "index_name", "max_concurrency"]

/-- The parts of the work pass their own checks. -/
def Work.Valid : Work → Prop
  | .step agent timeout => agent ≠ "" ∧ ∀ x ∈ timeout, positiveFloat (.float x) = .ok x
  | .parallel limit => limit ≠ some 0
  | .race limit => limit ≠ some 0
  | .loop _ _ _ limit => limit ≠ some 0
  | _ => True

/-- The values that the cases of the work are compared with. -/
def Work.compared : Work → List Value
  | .branch _ cases => cases
  | _ => []

theorem Work.Valid.limit {work : Work} (h : work.Valid) : work.limit ≠ some 0 := by
  cases work with
  | parallel limit => exact h
  | race limit => exact h
  | loop source itemName indexName limit => exact h
  | _ => exact nofun

/-- A limit that is let through is not zero. -/
theorem Work.ne_zero_of_checkLimit {fields : Fields Value} {limit : Option Nat}
    (h : Work.checkLimit fields = .ok limit) : limit ≠ some 0 := by
  rintro rfl
  simp [checkLimit, optional_eq_ok_iff, nullable_eq_ok_iff, positiveInt_eq_ok_iff] at h

/-- A number that is let through would be let through again. -/
theorem Document.positiveFloat_of_positiveFloat {v : Value} {x : Binary64}
    (h : positiveFloat v = .ok x) : positiveFloat (.float x) = .ok x := by
  unfold positiveFloat at h
  split at h
  · rename_i y _
    split at h
    · cases h
    · rename_i hpositive
      cases h
      exact if_neg hpositive
  · cases h

/-- The header of a node carries no field that is known. -/
theorem Header.extra_of_check {fields : Fields Value} {known : List String} {header : Header}
    (h : Header.check fields known = .ok header) :
    header.extra = otherFields fields (fieldNames ++ known) := by
  simp only [Header.check, Checked.pure_eq, Checked.and_eq_ok_iff, Except.ok.injEq] at h
  obtain ⟨_, ⟨_, ⟨_, ⟨_, rfl, _, _, rfl⟩, _, _, rfl⟩, _, _, rfl⟩, _, _, rfl⟩ := h
  rfl

namespace Node

/-- What holds of all nodes of a tree holds of its root and of all nodes of its children. -/
theorem forall_mem_walk_mk_iff {p : Node → Prop} {header : Header} {work : Work}
    {children : List Node} : (∀ node ∈ (mk header work children).walk, p node) ↔
      p (mk header work children) ∧ ∀ child ∈ children, ∀ node ∈ child.walk, p node := by
  simp only [mem_walk_mk_iff, forall_eq_or_imp]
  constructor
  · rintro ⟨hself, hbelow⟩
    exact ⟨hself, fun child hchild node hnode => hbelow node ⟨child, hchild, hnode⟩⟩
  · rintro ⟨hself, hbelow⟩
    exact ⟨hself, fun node ⟨child, hchild, hnode⟩ => hbelow child hchild node hnode⟩

/-- A node can stand in a document, whatever its children are. -/
structure Writable (node : Node) : Prop where
  /-- The node has as many children as its work needs. -/
  fits : Fits node.work node.children.length
  /-- The parts of its work pass their own checks. -/
  valid : node.work.Valid
  /-- No field that is carried along is known. -/
  unknown : ∀ field ∈ node.header.extra, field.1 ∉ Header.fieldNames ++ node.work.fieldNames

/-- The definition can be held by a document. -/
def Documented (tree : Node) : Prop :=
  ∀ node ∈ tree.walk, node.Writable

theorem Documented.sound {tree : Node} (h : tree.Documented) : tree.Sound :=
  fun node hnode => ⟨(h node hnode).fits, (h node hnode).valid.limit⟩

/-! ## What the check lets through -/

/-- The node comes from the fields, and its children come from values in them. -/
structure Decoded (check : Check Node) (fields : Fields Value) (node : Node) : Prop where
  /-- What all kinds of nodes carry is read from the fields. -/
  header : Header.check fields node.work.fieldNames = .ok node.header
  /-- The node has as many children as its work needs. -/
  fits : Fits node.work node.children.length
  /-- The parts of its work pass their own checks. -/
  valid : node.work.Valid
  /-- The condition or the source is read from a value in the fields. -/
  binding : ∀ b ∈ node.work.binding?, ∃ w ∈ (Value.object fields).walk, Binding.check w = .ok b
  /-- What is compared with the condition stands in the fields. -/
  compared : ∀ w ∈ node.work.compared, w ∈ (Value.object fields).walk
  /-- The children are read from values in the fields. -/
  child : ∀ child ∈ node.children, ∃ w ∈ (Value.object fields).walk, check w = .ok child

variable {check : Check Node} {fields : Fields Value} {node : Node}

theorem Decoded.writable (h : Decoded check fields node) : node.Writable where
  fits := h.fits
  valid := h.valid
  unknown := by
    intro field hfield hmem
    rw [Header.extra_of_check h.header, otherFields, List.mem_filter] at hfield
    simp [hmem] at hfield

theorem decoded_of_checkStep (h : checkStep fields = .ok node) : Decoded check fields node := by
  simp only [checkStep, Checked.pure_eq, Checked.and_eq_ok_iff, Except.ok.injEq,
    required_eq_ok_iff, someText_eq_ok_iff, optional_eq_ok_iff, nullable_eq_ok_iff] at h
  obtain ⟨_, ⟨_, ⟨_, rfl, header, hheader, rfl⟩, agent, ⟨_, _, _, hagent⟩, rfl⟩, timeout, htimeout,
    rfl⟩ := h
  refine ⟨hheader, rfl, ⟨hagent, ?_⟩, ?_, List.forall_mem_nil _, List.forall_mem_nil _⟩
  · rintro x rfl
    obtain ⟨_, h⟩ | ⟨v, _, ⟨_, h⟩ | ⟨_, y, hy, h⟩⟩ := htimeout
    · cases h
    · cases h
    · cases h
      exact positiveFloat_of_positiveFloat hy
  · intro b hb
    cases hb

theorem decoded_of_checkGroup {known : List String} {work : Checked Work}
    (hwork : ∀ w, work = .ok w → known = w.fieldNames ∧ w.Valid ∧ w.binding? = none ∧
      w.compared = [] ∧ ∀ count, Fits w count)
    (h : checkGroup check fields known work = .ok node) : Decoded check fields node := by
  simp only [checkGroup, Checked.pure_eq, Checked.and_eq_ok_iff, Except.ok.injEq] at h
  obtain ⟨_, ⟨_, ⟨_, rfl, header, hheader, rfl⟩, children, hchildren, rfl⟩, w, hw, rfl⟩ := h
  obtain ⟨rfl, hvalid, hbinding, hcompared, hfits⟩ := hwork w hw
  refine ⟨hheader, hfits _, hvalid, fun b hb => ?_, fun v hv => ?_,
    fun _ => exists_of_optional_listOf hchildren⟩
  · change b ∈ w.binding? at hb
    rw [hbinding] at hb
    cases hb
  · change v ∈ w.compared at hv
    rw [hcompared] at hv
    cases hv

/-- A case holds a value and the node that has passed its check. -/
theorem mem_of_checkCase {v : Value} {entry : Value × Node} (h : checkCase check v = .ok entry) :
    entry.1 ∈ v.walk ∧ ∃ w ∈ v.walk, check w = .ok entry.2 := by
  simp only [checkCase, recordOf_eq_ok_iff, Checked.also_eq_ok_iff, Checked.and_eq_ok_iff,
    Checked.pure_eq, Except.ok.injEq, required_eq_ok_iff, any_eq_ok_iff] at h
  obtain ⟨_, rfl, ⟨_, ⟨_, rfl, _, ⟨_, hwhen, rfl⟩, rfl⟩, child, ⟨w, hnode, hw⟩, rfl⟩, _⟩ := h
  exact ⟨Value.mem_walk_of_get? hwhen (Value.mem_walk_self _), w,
    Value.mem_walk_of_get? hnode w.mem_walk_self, hw⟩

theorem decoded_of_checkBranch (h : checkBranch check fields = .ok node) :
    Decoded check fields node := by
  simp only [checkBranch, Checked.pure_eq, Checked.and_eq_ok_iff, Except.ok.injEq,
    required_eq_ok_iff] at h
  obtain ⟨_, ⟨_, ⟨_, ⟨_, rfl, header, hheader, rfl⟩, condition, ⟨v, hget, hcondition⟩, rfl⟩, cases_,
    hcases, rfl⟩, other, hother, rfl⟩ := h
  have hfits : Fits (.branch condition (cases_.map Prod.fst))
      (cases_.map Prod.snd ++ other.toList).length := by
    cases other <;> simp [Fits]
  refine ⟨hheader, hfits, trivial, ?_, fun w hw => ?_, fun child hchild => ?_⟩
  · intro b hb
    obtain rfl : condition = b := Option.some.inj hb
    exact ⟨v, Value.mem_walk_of_get? hget v.mem_walk_self, hcondition⟩
  · obtain ⟨entry, hmem, rfl⟩ := List.mem_map.1 hw
    obtain ⟨v, hv, hcheck⟩ := exists_of_optional_listOf hcases hmem
    exact Value.mem_walk_trans hv (mem_of_checkCase hcheck).1
  · rcases List.mem_append.1 hchild with hchild | hchild
    · obtain ⟨entry, hmem, rfl⟩ := List.mem_map.1 hchild
      obtain ⟨v, hv, hcheck⟩ := exists_of_optional_listOf hcases hmem
      obtain ⟨w, hw, hnode⟩ := (mem_of_checkCase hcheck).2
      exact ⟨w, Value.mem_walk_trans hv hw, hnode⟩
    · rw [Option.mem_toList] at hchild
      subst hchild
      simp only [optional_eq_ok_iff, nullable_eq_ok_iff] at hother
      obtain ⟨_, h⟩ | ⟨w, hget, ⟨_, h⟩ | ⟨_, b, hb, h⟩⟩ := hother
      · cases h
      · cases h
      · cases h
        exact ⟨w, Value.mem_walk_of_get? hget w.mem_walk_self, hb⟩

theorem decoded_of_checkLoop (h : checkLoop check fields = .ok node) :
    Decoded check fields node := by
  simp only [checkLoop, Checked.pure_eq, Checked.and_eq_ok_iff, Except.ok.injEq,
    required_eq_ok_iff] at h
  obtain ⟨_, ⟨_, ⟨_, ⟨_, ⟨_, ⟨_, rfl, header, hheader, rfl⟩, source, ⟨v, hget, hsource⟩, rfl⟩, body,
    ⟨w, hgetbody, hbody⟩, rfl⟩, itemName, _, rfl⟩, indexName, _, rfl⟩, limit, hlimit, rfl⟩ := h
  refine ⟨hheader, rfl, Work.ne_zero_of_checkLimit hlimit, ?_, List.forall_mem_nil _, ?_⟩
  · intro b hb
    obtain rfl : source = b := Option.some.inj hb
    exact ⟨v, Value.mem_walk_of_get? hget v.mem_walk_self, hsource⟩
  · rintro child hchild
    rw [List.mem_singleton.1 hchild]
    exact ⟨w, Value.mem_walk_of_get? hgetbody w.mem_walk_self, hbody⟩

theorem decoded_of_checkKind {kind : String} (h : checkKind check kind fields = some (.ok node)) :
    Decoded check fields node := by
  obtain ⟨k, _, h⟩ := Option.map_eq_some_iff.1 h
  cases k with
  | step => exact decoded_of_checkStep h
  | sequence =>
    refine decoded_of_checkGroup (fun w hw => ?_) h
    cases hw
    exact ⟨rfl, trivial, rfl, rfl, fun _ => trivial⟩
  | parallel =>
    refine decoded_of_checkGroup (fun w hw => ?_) h
    obtain ⟨limit, hlimit, rfl⟩ := Checked.map_eq_ok_iff.1 hw
    exact ⟨rfl, Work.ne_zero_of_checkLimit hlimit, rfl, rfl, fun _ => trivial⟩
  | race =>
    refine decoded_of_checkGroup (fun w hw => ?_) h
    obtain ⟨limit, hlimit, rfl⟩ := Checked.map_eq_ok_iff.1 hw
    exact ⟨rfl, Work.ne_zero_of_checkLimit hlimit, rfl, rfl, fun _ => trivial⟩
  | branch => exact decoded_of_checkBranch h
  | loop => exact decoded_of_checkLoop h

/-! ## Whole trees -/

variable {tree : Node} {v : Value}

theorem exists_decoded_of_checkWithin (bound : Nat) (h : checkWithin bound v = .ok tree) :
    ∀ node ∈ tree.walk, ∃ check fields, .object fields ∈ v.walk ∧ Decoded check fields node := by
  induction bound generalizing v tree with
  | zero => cases h
  | succ bound ih =>
    obtain ⟨fields, kind, rfl, _, hkind⟩ := kindOf_eq_ok_iff.1 h
    have hroot := decoded_of_checkKind hkind
    obtain ⟨header, work, children⟩ := tree
    intro node hnode
    rcases mem_walk_mk_iff.1 hnode with rfl | ⟨child, hchild, hnode⟩
    · exact ⟨_, fields, Value.mem_walk_self _, hroot⟩
    · obtain ⟨w, hw, hcheck⟩ := hroot.child child hchild
      obtain ⟨check, below, hbelow, hdecoded⟩ := ih hcheck node hnode
      exact ⟨check, below, Value.mem_walk_trans hw hbelow, hdecoded⟩

/-- Every node of a tree that is read comes from the fields of an object in the document. -/
theorem exists_decoded_of_check (h : Node.check v = .ok tree) :
    ∀ node ∈ tree.walk, ∃ check fields, .object fields ∈ v.walk ∧ Decoded check fields node :=
  exists_decoded_of_checkWithin _ h

/-- A definition that is read from a document can be held by one. -/
theorem documented_of_check (h : Node.check v = .ok tree) : tree.Documented := by
  intro node hnode
  obtain ⟨_, _, _, hdecoded⟩ := exists_decoded_of_check h node hnode
  exact hdecoded.writable

end Node
end Workflow
