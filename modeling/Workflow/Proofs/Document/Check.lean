import Mathlib.Data.List.Forall2
import Workflow.Document.Check
import Workflow.Proofs.Value.Plain

/-!
# What a check lets through

A check lets a value through exactly if every part of it is let through. Each way to build a check has
one lemma that says so; the lemmas are used from left to right to take a document apart, and from right
to left to show that a document is accepted.
-/

namespace Workflow.Document

variable {α β : Type} {fields : Fields Value} {name : String} {check : Check α} {v : Value}

/-! ## Results and issues -/

namespace Checked

@[simp] theorem pure_eq (a : α) : Checked.pure a = .ok a :=
  rfl

@[simp] theorem fail_ne_ok (problem : Problem) (a : α) : (fail problem : Checked α) ≠ .ok a :=
  nofun

@[simp] theorem and_eq_ok_iff {first : Checked (α → β)} {second : Checked α} {b : β} :
    first.and second = .ok b ↔ ∃ f, first = .ok f ∧ ∃ a, second = .ok a ∧ f a = b := by
  cases first <;> cases second <;> simp [Checked.and]

@[simp] theorem map_eq_ok_iff {f : α → β} {checked : Checked α} {b : β} :
    map f checked = .ok b ↔ ∃ a, checked = .ok a ∧ f a = b := by
  cases checked <;> simp [map]

@[simp] theorem under_eq_ok_iff {key : Key} {checked : Checked α} {a : α} :
    under key checked = .ok a ↔ checked = .ok a := by
  cases checked <;> simp [under]

@[simp] theorem also_eq_ok_iff {first : Checked α} {second : Checked Unit} {a : α} :
    first.also second = .ok a ↔ first = .ok a ∧ second = .ok () := by
  cases first <;> cases second <;> simp [also, map, Checked.and]

end Checked

/-! ## Records -/

@[simp] theorem required_eq_ok_iff {a : α} : required fields name check = .ok a ↔
    ∃ v, Fields.get? fields name = some v ∧ check v = .ok a := by
  unfold required
  cases Fields.get? fields name <;> simp

theorem optional_eq_ok_iff {a default : α} : optional fields name default check = .ok a ↔
    (Fields.get? fields name = none ∧ default = a) ∨
      ∃ v, Fields.get? fields name = some v ∧ check v = .ok a := by
  unfold optional
  cases Fields.get? fields name <;> simp

theorem nullable_eq_ok_iff {a : Option α} : nullable check v = .ok a ↔
    (v = .null ∧ none = a) ∨ (v ≠ .null ∧ ∃ b, check v = .ok b ∧ some b = a) := by
  cases v <;> simp [nullable]

/-- A record has no other fields than those that are named. -/
@[simp] theorem noOthers_eq_ok_iff {names : List String} :
    noOthers fields names = .ok () ↔ ∀ field ∈ fields, field.1 ∈ names := by
  have hothers : otherFields fields names = [] ↔ ∀ field ∈ fields, field.1 ∈ names := by
    simp [otherFields]
  unfold noOthers
  split
  · rename_i h
    simpa using hothers.1 h
  · rename_i h
    simpa using fun hall => h (hothers.2 hall)

theorem noOthers_of_names {names : List String} (h : Fields.names fields = names) :
    noOthers fields names = .ok () :=
  noOthers_eq_ok_iff.2 fun _ hfield => h ▸ List.mem_map_of_mem hfield

/-- What is on the right has something on the left. -/
theorem exists_of_mem_right {related : α → β → Prop} {as : List α} {bs : List β} {b : β}
    (h : List.Forall₂ related as bs) (hb : b ∈ bs) : ∃ a ∈ as, related a b := by
  induction h with
  | nil => cases hb
  | cons hab _ ih =>
    rcases List.mem_cons.1 hb with rfl | hb
    · exact ⟨_, List.mem_cons_self, hab⟩
    · obtain ⟨a, ha, hab⟩ := ih hb
      exact ⟨a, List.mem_cons_of_mem _ ha, hab⟩

theorem listFrom_eq_ok_iff {items : List Value} {as : List α} {index : Nat} :
    listFrom check index items = .ok as ↔ List.Forall₂ (fun v a => check v = .ok a) items as := by
  induction items generalizing index as with
  | nil => simp [listFrom, @eq_comm _ []]
  | cons v items ih => simp [listFrom, List.forall₂_cons_left_iff, ih, @eq_comm _ as]

@[simp] theorem listOf_eq_ok_iff {as : List α} : listOf check v = .ok as ↔
    ∃ items, v = .array items ∧ List.Forall₂ (fun v a => check v = .ok a) items as := by
  cases v <;> simp [listOf, listFrom_eq_ok_iff]

/-- The items of a list that may be left out are read from values in the fields. -/
theorem exists_of_optional_listOf {as : List α} {a : α}
    (h : optional fields name [] (listOf check) = .ok as) (ha : a ∈ as) :
    ∃ w ∈ (Value.object fields).walk, check w = .ok a := by
  obtain ⟨_, rfl⟩ | ⟨_, hget, hlist⟩ := optional_eq_ok_iff.1 h
  · cases ha
  · obtain ⟨items, rfl, hitems⟩ := listOf_eq_ok_iff.1 hlist
    obtain ⟨w, hw, hcheck⟩ := exists_of_mem_right hitems ha
    exact ⟨w, Value.mem_walk_of_mem_items hget hw, hcheck⟩

theorem fieldsFrom_eq_ok_iff {as : Fields α} : fieldsFrom check fields = .ok as ↔
    List.Forall₂ (fun field a => field.1 = a.1 ∧ check field.2 = .ok a.2) fields as := by
  induction fields generalizing as with
  | nil => simp [fieldsFrom, @eq_comm _ []]
  | cons field fields ih =>
    obtain ⟨name, v⟩ := field
    simp [fieldsFrom, List.forall₂_cons_left_iff, ih, @eq_comm _ as]

@[simp] theorem fieldsOf_eq_ok_iff {as : Fields α} : fieldsOf check v = .ok as ↔
    ∃ fields, v = .object fields ∧
      List.Forall₂ (fun field a => field.1 = a.1 ∧ check field.2 = .ok a.2) fields as := by
  cases v <;> simp [fieldsOf, fieldsFrom_eq_ok_iff]

/-- What is read of the contents of fields has the names of the fields. -/
theorem names_of_forall₂ {as : Fields α}
    (h : List.Forall₂ (fun field a => field.1 = a.1 ∧ check field.2 = .ok a.2) fields as) :
    Fields.names as = Fields.names fields := by
  induction h with
  | nil => rfl
  | cons hfirst _ ih => exact congrArg₂ (· :: ·) hfirst.1.symm ih

@[simp] theorem recordOf_eq_ok_iff {read : Fields Value → Checked α} {a : α} :
    recordOf read v = .ok a ↔ ∃ fields, v = .object fields ∧ read fields = .ok a := by
  cases v <;> simp [recordOf]

/-- The field `kind` chooses the check of the record. -/
theorem kindOf_eq_ok_iff {allowed : List String}
    {read : String → Fields Value → Option (Checked α)} {a : α} :
    kindOf allowed read v = .ok a ↔ ∃ fields kind, v = .object fields ∧
      Fields.get? fields "kind" = some (.string kind) ∧ read kind fields = some (.ok a) := by
  cases v with
  | object fields =>
    rw [kindOf]
    cases htag : Fields.get? fields "kind" with
    | none => simp [htag]
    | some tag =>
      cases tag with
      | string kind => cases hread : read kind fields <;> simp [htag, hread]
      | _ => simp [htag]
  | _ => simp [kindOf]

/-! ## Simple values -/

@[simp] theorem any_eq_ok_iff {w : Value} : any v = .ok w ↔ v = w := by
  simp [any]

/-- Any fields are let through as they are. -/
@[simp] theorem fieldsOf_any_eq_ok_iff {as : Fields Value} :
    fieldsOf any v = .ok as ↔ v = .object as := by
  simp only [fieldsOf_eq_ok_iff, any_eq_ok_iff, ← Prod.ext_iff, List.forall₂_eq_eq_eq]
  exact ⟨fun ⟨_, hv, h⟩ => h ▸ hv, fun hv => ⟨as, hv, rfl⟩⟩

@[simp] theorem text_eq_ok_iff {s : String} : text v = .ok s ↔ v = .string s := by
  cases v <;> simp [text]

@[simp] theorem someText_eq_ok_iff {s : String} : someText v = .ok s ↔ v = .string s ∧ s ≠ "" := by
  cases v with
  | string t =>
    simp only [someText, text, String.isEmpty_iff]
    by_cases ht : t = ""
    · simp [ht]
    · rw [if_neg ht, Except.ok.injEq, Value.string.injEq]
      exact ⟨fun h => ⟨h, h ▸ ht⟩, And.left⟩
  | _ => simp [someText, text, Checked.fail]

theorem positiveInt_eq_ok_iff {n : Nat} : positiveInt v = .ok n ↔ int v = .ok n ∧ 1 ≤ n := by
  unfold positiveInt
  cases int v with
  | error issues => simp
  | ok m =>
    by_cases hm : 1 ≤ m
    · simp only [hm, if_true, Except.ok.injEq]
      omega
    · simp only [hm, if_false, Checked.fail_ne_ok, Except.ok.injEq, false_iff]
      omega

end Workflow.Document
