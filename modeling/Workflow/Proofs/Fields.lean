import Mathlib.Data.List.Nodup
import Workflow.Fields

/-!
# Laws of ordered fields

What a name holds after other names have been given their contents.
-/

namespace Workflow.Fields

variable {α β : Type}

@[simp] theorem get?_nil (name : String) : get? ([] : Fields α) name = none :=
  rfl

theorem get?_cons (entry : String × α) (rest : Fields α) (name : String) :
    get? (entry :: rest) name = if entry.1 = name then some entry.2 else get? rest name :=
  rfl

theorem mem_of_get? {fields : Fields α} {name : String} {content : α}
    (h : get? fields name = some content) : (name, content) ∈ fields := by
  induction fields with
  | nil => cases h
  | cons entry rest ih =>
    rw [get?_cons] at h
    split at h
    · rename_i hname
      rw [← hname, ← Option.some_inj.1 h]
      exact List.mem_cons_self
    · exact List.mem_cons_of_mem _ (ih h)

/-- A name holds what it was given last, and the other names hold what they held. -/
theorem get?_set (fields : Fields α) (key name : String) (content : α) :
    get? (set fields key content) name = if key = name then some content else get? fields name := by
  induction fields with
  | nil => rfl
  | cons entry rest ih =>
    obtain ⟨first, old⟩ := entry
    rw [set]
    by_cases hfirst : first = key
    · subst hfirst
      rw [if_pos rfl, get?_cons, get?_cons]
      by_cases hname : first = name
      · rw [if_pos hname, if_pos hname]
      · rw [if_neg hname, if_neg hname, if_neg hname]
    · rw [if_neg hfirst, get?_cons, get?_cons, ih]
      by_cases hname : first = name
      · subst hname
        rw [if_pos rfl, if_pos rfl, if_neg (Ne.symm hfirst)]
      · rw [if_neg hname, if_neg hname]

@[simp] theorem get?_set_self (fields : Fields α) (name : String) (content : α) :
    get? (set fields name content) name = some content := by
  rw [get?_set, if_pos rfl]

theorem get?_set_of_ne (fields : Fields α) {key name : String} (content : α) (h : key ≠ name) :
    get? (set fields key content) name = get? fields name := by
  rw [get?_set, if_neg h]

theorem has_set (fields : Fields α) (key name : String) (content : α) :
    has (set fields key content) name ↔ key = name ∨ has fields name := by
  rw [has, has, get?_set]
  split <;> simp [*]

/-- A name that was not given comes to the end. -/
theorem set_of_not_mem {fields : Fields α} {name : String} (h : name ∉ names fields) (content : α) :
    set fields name content = fields ++ [(name, content)] := by
  induction fields with
  | nil => rfl
  | cons entry rest ih =>
    obtain ⟨first, old⟩ := entry
    obtain ⟨hfirst, hrest⟩ : ¬ name = first ∧ name ∉ names rest := by simpa [names] using h
    rw [set, if_neg (Ne.symm hfirst), ih hrest]
    rfl

/-- A name that was given keeps its place, so that the names are the same. -/
theorem names_set_of_mem {fields : Fields α} {name : String} (h : name ∈ names fields)
    (content : α) : names (set fields name content) = names fields := by
  induction fields with
  | nil => cases h
  | cons entry rest ih =>
    obtain ⟨first, old⟩ := entry
    rw [set]
    split
    · rfl
    · rename_i hfirst
      have hrest : name ∈ names rest := by simpa [names, Ne.symm hfirst] using h
      exact congrArg (first :: ·) (ih hrest)

/-- Names stay distinct. -/
theorem nodup_set {fields : Fields α} (h : (names fields).Nodup) (name : String) (content : α) :
    (names (set fields name content)).Nodup := by
  by_cases hname : name ∈ names fields
  · rwa [names_set_of_mem hname]
  · have hnames : names (fields ++ [(name, content)]) = names fields ++ [name] := by simp [names]
    rw [set_of_not_mem hname, hnames, ← List.concat_eq_append]
    exact h.concat hname

/-- What is held was held before or is what a name was given. -/
theorem mem_set {fields : Fields α} {name : String} {content : α} {entry : String × α}
    (h : entry ∈ set fields name content) : entry ∈ fields ∨ entry = (name, content) := by
  induction fields with
  | nil => exact .inr (List.mem_singleton.1 h)
  | cons first rest ih =>
    obtain ⟨key, old⟩ := first
    rw [set] at h
    split at h
    · rename_i hkey
      subst hkey
      rcases List.mem_cons.1 h with rfl | h
      · exact .inr rfl
      · exact .inl (List.mem_cons_of_mem _ h)
    · rcases List.mem_cons.1 h with rfl | h
      · exact .inl List.mem_cons_self
      · exact (ih h).imp_left (List.mem_cons_of_mem _)

theorem mem_update {fields more : Fields α} {entry : String × α} (h : entry ∈ update fields more) :
    entry ∈ fields ∨ entry ∈ more := by
  induction more generalizing fields with
  | nil => exact .inl h
  | cons first more ih =>
    rcases ih h with hset | hmore
    · rcases mem_set hset with hfields | rfl
      · exact .inl hfields
      · exact .inr List.mem_cons_self
    · exact .inr (List.mem_cons_of_mem _ hmore)

/-- Names that are filtered out hold nothing, and the other names hold what they held. -/
theorem get?_filter (fields : Fields α) (p : String → Bool) (name : String) :
    get? (fields.filter fun entry => p entry.1) name =
      if p name then get? fields name else none := by
  induction fields with
  | nil => simp
  | cons entry rest ih =>
    obtain ⟨key, content⟩ := entry
    rw [List.filter_cons]
    by_cases hkept : p key = true
    · rw [if_pos hkept, get?_cons, get?_cons, ih]
      by_cases hname : key = name
      · rw [if_pos hname, if_pos hname, if_pos (hname ▸ hkept)]
      · rw [if_neg hname, if_neg hname]
    · rw [if_neg hkept, ih, get?_cons]
      split
      · rename_i hp
        rw [if_neg]
        rintro rfl
        exact hkept hp
      · rfl

theorem get?_append (fields more : Fields α) (name : String) :
    get? (fields ++ more) name = (get? fields name).or (get? more name) := by
  induction fields with
  | nil => rfl
  | cons entry rest ih =>
    rw [List.cons_append, get?_cons, get?_cons, ih]
    split <;> rfl

/-- Of what a name is given the last counts. -/
theorem get?_update (fields more : Fields α) (name : String) :
    get? (update fields more) name = (get? more.reverse name).or (get? fields name) := by
  induction more generalizing fields with
  | nil => rfl
  | cons entry more ih =>
    have hupdate : update fields (entry :: more) = update (set fields entry.1 entry.2) more := rfl
    rw [hupdate, ih, List.reverse_cons, get?_append, get?_set, get?_cons, Option.or_assoc]
    split <;> rfl

theorem get?_ofList (entries : List (String × α)) (name : String) :
    get? (ofList entries) name = get? entries.reverse name := by
  rw [ofList, get?_update, get?_nil, Option.or_none]

theorem get?_map {f : α → String × β} (entries : List α) (name : String) :
    get? (entries.map f) name = (entries.find? fun a => (f a).1 == name).map fun a => (f a).2 := by
  induction entries with
  | nil => rfl
  | cons a entries ih =>
    rw [List.map_cons, get?_cons, List.find?_cons, ih]
    by_cases hname : (f a).1 = name
    · rw [if_pos hname, beq_iff_eq.2 hname]
      rfl
    · rw [if_neg hname, beq_eq_false_iff_ne.2 hname]

end Workflow.Fields
