import Workflow.Proofs.Variables

/-!
# Variables that are not declared

What is supplied under a name that no declaration has is taken as it is, unless the name is the key
of a declaration's position: then it is dropped.

* `Variables.positionKeys` are the keys of the positions of declarations.
* `Variables.Passes` says which names are known once variables are bound, and what the undeclared
  ones among them hold, and `Variables.passes_bind` that this is always so.
-/

namespace Workflow.Variables

variable {declared l : List Variable} {V : Variable} {supplied values : Fields Value}
  {name : String}

/-! ## Keys -/

/-- The keys of the positions of declarations. -/
def positionKeys (declared : List Variable) : List String :=
  (List.range declared.length).map positionKey

theorem positionKeys_concat (l : List Variable) (d : Variable) :
    positionKeys (l ++ [d]) = positionKeys l ++ [positionKey l.length] := by
  rw [positionKeys, List.length_append, List.length_singleton, List.range_succ, List.map_append]
  rfl

/-- Declarations are found under their names and under the keys of their positions. -/
theorem has_keyed (declared : List Variable) (name : String) :
    Fields.has (keyed declared) name ↔
      name ∈ declared.map Variable.name ∨ name ∈ positionKeys declared := by
  induction declared using List.reverseRecOn with
  | nil => simp [keyed, positionKeys, Fields.has]
  | append_singleton l d ih =>
    rw [keyed_concat, Fields.has_set, Fields.has_set, ih, positionKeys_concat]
    simp only [List.map_append, List.map_cons, List.map_nil, List.mem_append, List.mem_singleton]
    tauto

/-- What is found is a declaration. -/
theorem mem_of_get?_keyed (h : Fields.get? (keyed declared) name = some V) : V ∈ declared := by
  induction declared using List.reverseRecOn with
  | nil => cases h
  | append_singleton l d ih =>
    rw [keyed_concat, Fields.get?_set, Fields.get?_set] at h
    split_ifs at h
    · rw [← Option.some.inj h]
      exact List.mem_concat_self
    · rw [← Option.some.inj h]
      exact List.mem_concat_self
    · exact List.mem_append_left _ (ih h)

/-! ## Known names -/

/-- Problems are remembered of declared names only. -/
theorem get?_problems_of_not_mem (h : name ∉ declared.map Variable.name) :
    Fields.get? (bind declared supplied).problems name = none := by
  rw [Option.eq_none_iff_forall_ne_some]
  intro text htext
  change Fields.get? (findProblems declared (givenData supplied declared)) name = some text at htext
  rw [findProblems_eq] at htext
  rcases (get?_foldl_remember declared []).1 text htext with
    hnil | ⟨_, _, _, owner, _, howner, hname, _⟩
  · cases hnil
  · exact h (hname ▸ List.mem_map_of_mem (mem_of_get?_keyed howner))

/-- A name has a value if it had one, or if a declaration gives it one. -/
theorem has_foldl_set (p : Variable → Bool) (content : Variable → Value) (l : List Variable)
    (values : Fields Value)
    (h : Fields.has values name ∨ ∃ d ∈ l, d.name = name ∧ p d = false) :
    Fields.has (l.foldl (fun values d =>
      if p d then values else Fields.set values d.name (content d)) values) name := by
  induction l generalizing values with
  | nil =>
    rcases h with h | ⟨d, hd, _⟩
    · exact h
    · cases hd
  | cons first rest ih =>
    rw [List.foldl_cons]
    apply ih
    rcases h with h | ⟨d, hd, hname, hp⟩
    · refine .inl ?_
      split
      · exact h
      · rw [Fields.has_set]
        exact .inr h
    · rcases List.mem_cons.1 hd with rfl | hd
      · refine .inl ?_
        rw [hp, if_neg Bool.false_ne_true, Fields.has_set]
        exact .inl hname
      · exact .inr ⟨d, hd, hname, hp⟩

/-- A declared name has a value or a problem, also if it is declared more than once. -/
theorem knows_of_mem (supplied : Fields Value) (hV : V ∈ declared) :
    (bind declared supplied).knows V.name := by
  rw [knows, Bool.or_eq_true]
  cases hproblem : Fields.has (bind declared supplied).problems V.name with
  | true => exact .inr rfl
  | false => exact .inl (has_foldl_set _ _ declared _ (.inr ⟨V, hV, rfl, hproblem⟩))

/-- A name that is not declared holds what is supplied, unless it is the key of a position. -/
theorem get?_values_of_not_mem (supplied : Fields Value) (h : name ∉ declared.map Variable.name) :
    Fields.get? (bind declared supplied).values name =
      if name ∈ positionKeys declared then none else Fields.get? supplied name := by
  have hkept : (!Fields.has (keyed declared) name) = true ↔ name ∉ positionKeys declared := by
    rw [Bool.not_eq_true', ← Bool.not_eq_true, has_keyed]
    simp only [h, false_or]
  have hnames : ∀ d ∈ declared, d.name ≠ name := by
    rintro d hd rfl
    exact h (List.mem_map_of_mem hd)
  calc Fields.get? (bind declared supplied).values name
      = Fields.get? (supplied.filter fun entry => !Fields.has (keyed declared) entry.1) name :=
        get?_foldl_set_of_ne _ _ declared _ hnames
    _ = if !Fields.has (keyed declared) name then Fields.get? supplied name else none :=
        Fields.get?_filter supplied (fun key => !Fields.has (keyed declared) key) name
    _ = if name ∈ positionKeys declared then none else Fields.get? supplied name := by
        simp only [hkept, ite_not]

/-- What is known and bound besides the declared variables. -/
structure Passes (declared : List Variable) (supplied : Fields Value) (v : Variables) : Prop where
  /-- The known names are the declared ones, and those supplied that are no key of a position. -/
  knows_iff : ∀ name, v.knows name ↔ name ∈ declared.map Variable.name ∨
    (Fields.has supplied name ∧ name ∉ positionKeys declared)
  /-- A supplied name that is not declared and no key of a position is bound to what is supplied. -/
  passed : ∀ name value input, Fields.get? supplied name = some value →
    name ∉ declared.map Variable.name → name ∉ positionKeys declared →
      Fields.get? v.values name = some value ∧ v.lookup name input = .ok value
  /-- An undeclared name that is the key of a position is unknown, whatever is supplied under it. -/
  dropped : ∀ name input, name ∉ declared.map Variable.name → name ∈ positionKeys declared →
    Fields.get? v.values name = none ∧ v.lookup name input = .error ⟨input, .unknownVariable name⟩
  /-- If no undeclared name that is supplied is the key of a position, all supplied names are known. -/
  knows_supplied : (∀ name ∈ positionKeys declared, Fields.has supplied name →
    name ∈ declared.map Variable.name) →
      ∀ name, v.knows name ↔ name ∈ declared.map Variable.name ∨ Fields.has supplied name

/-- Undeclared variables are passed on like this, whatever is declared and supplied. -/
theorem passes_bind (declared : List Variable) (supplied : Fields Value) :
    Passes declared supplied (bind declared supplied) := by
  have hknows (name : String) : (bind declared supplied).knows name ↔
      name ∈ declared.map Variable.name ∨
        (Fields.has supplied name ∧ name ∉ positionKeys declared) := by
    by_cases hname : name ∈ declared.map Variable.name
    · obtain ⟨V, hV, rfl⟩ := List.mem_map.1 hname
      simp only [knows_of_mem supplied hV, hname, true_or]
    · rw [knows, Fields.has, Fields.has, get?_problems_of_not_mem hname,
        get?_values_of_not_mem supplied hname]
      by_cases hkey : name ∈ positionKeys declared <;> simp [hname, hkey, Fields.has]
  refine ⟨hknows, fun name value input hvalue hname hkey => ?_, fun name input hname hkey => ?_,
    fun hclear name => ?_⟩
  · have hget := get?_values_of_not_mem supplied hname
    rw [if_neg hkey, hvalue] at hget
    rw [lookup, get?_problems_of_not_mem hname, hget]
    exact ⟨rfl, rfl⟩
  · have hget := get?_values_of_not_mem supplied hname
    rw [if_pos hkey] at hget
    rw [lookup, get?_problems_of_not_mem hname, hget]
    exact ⟨rfl, rfl⟩
  · rw [hknows]
    constructor
    · exact Or.imp_right And.left
    · rintro (hname | hsupplied)
      · exact .inl hname
      · by_cases hkey : name ∈ positionKeys declared
        · exact .inl (hclear name hkey hsupplied)
        · exact .inr ⟨hsupplied, hkey⟩

/-- Of two names the one that is the key of the one position is dropped. -/
example : ["topic", "v0", "v1"].map
    (bind [{ name := "topic" }] [("v0", .int 5), ("v1", .int 6)]).knows = [true, false, true] := by
  decide +kernel

end Workflow.Variables
