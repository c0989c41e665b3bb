import Workflow.Proofs.Result.Values
import Workflow.Proofs.Tree.Related
import Workflow.Variables.Evaluate

/-!
# Names in the values of bindings

In the value of a binding no object gives a name twice, if none does in the definition and in what the
binding is evaluated in.

* `Node.Distinct` says so of a definition, `Surroundings.Distinct` of what is known at some point of a
  run.
* `Surroundings.Distinct.evaluate` is about one binding, `Surroundings.Distinct.bindInputs` about all
  inputs of a node.
* `BindingError.distinct_details` says that failed bindings record such values as well.
-/

namespace Workflow

/-! ## Definitions -/

/-- In a value that stands in the binding no object gives a name twice. -/
def Binding.Distinct (b : Binding) : Prop :=
  ∀ v, b = .literal v → v.Distinct

/-- No input of the node is declared twice, and no object in its bindings gives a name twice. -/
structure Node.Declares (node : Node) : Prop where
  /-- No input is declared twice. -/
  names : (Fields.names node.header.inputs).Nodup
  /-- The bindings of the inputs are so. -/
  inputs : ∀ input ∈ node.header.inputs, input.2.Distinct
  /-- So is the condition or the source. -/
  binding : ∀ b ∈ node.work.binding?, b.Distinct

/-- No node of the tree declares an input twice, and no object in a binding gives a name twice. -/
def Node.Distinct (tree : Node) : Prop :=
  ∀ node ∈ tree.walk, node.Declares

namespace Node

variable {tree tree' : Node}

theorem Distinct.of_walk_subset (h : tree.Distinct) (hwalk : tree'.walk ⊆ tree.walk) :
    tree'.Distinct :=
  fun node hnode => h node (hwalk hnode)

theorem Distinct.declares (h : tree.Distinct) : tree.Declares :=
  h tree tree.mem_walk_self

/-- Preparation changes no binding. -/
theorem Distinct.prepare {separator : String} {previous : Option Result} {ids rest : IdSource}
    (h : tree.Distinct) (hprepare : tree.prepare separator previous ids = .ok (tree', rest)) :
    tree'.Distinct := by
  intro node' hnode'
  obtain ⟨node, hnode, hwork, hinputs⟩ :=
    (related_inputs_of_prepare hprepare).exists_mem_walk hnode'
  obtain ⟨hnames, hdeclared, hbinding⟩ := h node hnode
  exact ⟨hinputs ▸ hnames, hinputs ▸ hdeclared, hwork ▸ hbinding⟩

end Node

/-! ## Surroundings -/

/-- In what is known no object gives a name twice. -/
structure Surroundings.Distinct (view : Surroundings) : Prop where
  /-- Not in the results so far. -/
  results : ∀ r ∈ view.results, ∀ v ∈ r.values, v.Distinct
  /-- Not in the variables. -/
  vars : ∀ field ∈ view.vars.values, field.2.Distinct
  /-- Not in the names in scope. -/
  scope : ∀ field ∈ view.scope, field.2.Distinct

namespace Surroundings.Distinct

variable {view : Surroundings} {input : Option String} {v : Value}

theorem valueAt (h : view.Distinct) {expression : String}
    (hvalue : view.valueAt expression = .ok v) : v.Distinct := by
  unfold Surroundings.valueAt at hvalue
  split at hvalue
  · cases hvalue
  · rename_i results hresults
    split at hvalue
    · cases hvalue
    · split at hvalue
      · cases hvalue
      · rename_i w hresolve
        cases hvalue
        exact Result.distinct_resolve (h.results _ hresults) hresolve v (List.mem_singleton_self v)
      · rename_i r hresolve
        have hr := Result.distinct_resolve (h.results _ hresults) hresolve
        unfold Result.available at hvalue
        split at hvalue
        · cases hvalue
        · cases hvalue
        · cases hvalue
          exact (Entry.forall_mem_values_iff.1 (Result.forall_mem_values_entry hr)).1
        · cases hvalue

theorem lookup (h : view.Distinct) {name : String}
    (hvalue : Template.lookup name view.vars view.scope input = .ok v) : v.Distinct := by
  unfold Template.lookup at hvalue
  split at hvalue
  · rename_i hscope
    cases hvalue
    exact h.scope _ (Fields.mem_of_get? hscope)
  · unfold Variables.lookup at hvalue
    split at hvalue
    · cases hvalue
    · split at hvalue
      · rename_i hvars
        cases hvalue
        exact h.vars _ (Fields.mem_of_get? hvars)
      · cases hvalue

/-- In the value of a binding no object gives a name twice. -/
theorem evaluate (h : view.Distinct) {b : Binding} (hb : b.Distinct)
    (hvalue : b.evaluate view input = .ok v) : v.Distinct := by
  unfold Binding.evaluate at hvalue
  split at hvalue
  · cases hvalue
    exact hb v rfl
  · split at hvalue
    · rename_i hat
      cases hvalue
      exact h.valueAt hat
    · cases hvalue
  · exact h.lookup hvalue
  · rename_i text
    cases hrender : Template.render text view.vars view.scope input with
    | error e =>
      rw [hrender] at hvalue
      cases hvalue
    | ok s =>
      rw [hrender] at hvalue
      cases hvalue
      exact (Value.plain_string s).distinct

end Surroundings.Distinct

/-! ## Inputs -/

section
variable {view : Surroundings} {inputs : Fields Binding} {values : Fields Value}

/-- The values of the inputs have the names that are declared, in order. -/
theorem names_of_bindInputs (h : bindInputs view inputs = .ok values) :
    Fields.names values = Fields.names inputs := by
  induction inputs generalizing values with
  | nil =>
    cases h
    rfl
  | cons input inputs ih =>
    obtain ⟨name, b⟩ := input
    rw [bindInputs] at h
    split at h
    · cases h
    · split at h
      · cases h
      · rename_i rest hrest
        cases h
        exact congrArg (name :: ·) (ih hrest)

/-- Every value is that of a declared input. -/
theorem exists_evaluate_of_mem (h : bindInputs view inputs = .ok values) {field : String × Value}
    (hfield : field ∈ values) :
    ∃ b, (field.1, b) ∈ inputs ∧ b.evaluate view (some field.1) = .ok field.2 := by
  induction inputs generalizing values with
  | nil =>
    cases h
    cases hfield
  | cons input inputs ih =>
    obtain ⟨name, b⟩ := input
    rw [bindInputs] at h
    split at h
    · cases h
    · rename_i v hv
      split at h
      · cases h
      · rename_i rest hrest
        cases h
        rcases List.mem_cons.1 hfield with rfl | hfield
        · exact ⟨b, List.mem_cons_self, hv⟩
        · obtain ⟨b, hb, hvalue⟩ := ih hrest hfield
          exact ⟨b, List.mem_cons_of_mem _ hb, hvalue⟩

/-- No input is bound twice, and in the values no object gives a name twice. -/
theorem Surroundings.Distinct.bindInputs (hview : view.Distinct) {node : Node}
    (hnode : node.Declares) (h : Workflow.bindInputs view node.header.inputs = .ok values) :
    (Value.object values).Distinct := by
  refine Value.distinct_object_iff.2 ⟨names_of_bindInputs h ▸ hnode.names, fun field hfield => ?_⟩
  obtain ⟨b, hb, hvalue⟩ := exists_evaluate_of_mem h hfield
  exact hview.evaluate (hnode.inputs _ hb) hvalue

end

/-- What a failed binding records names nothing twice. -/
theorem BindingError.distinct_details (e : BindingError) :
    (Value.object e.toFailure.details).Distinct := by
  change (Value.object (detailsOf [] e.input e.cause.aboutVariable e.cause.aboutPath)).Distinct
  unfold detailsOf
  extract_lets add
  have hadd {fields : Fields Value} (h : (Value.object fields).Distinct) (name : String)
      (content : Option String) : (Value.object (add fields name content)).Distinct := by
    cases content with
    | none => exact h
    | some s => exact Value.distinct_set h (Value.plain_string s).distinct name
  exact hadd (hadd (hadd Value.distinct_object_nil "input" e.input) "variable"
    e.cause.aboutVariable) "path" e.cause.aboutPath

end Workflow
