import Workflow.Proofs.Fields
import Workflow.Value.Basic

/-!
# Values that JSON texts keep

A value is read back from its JSON text if no object in it gives a name twice and all its numbers are
finite.

* `Value.walk` lists a value and all values in it, and `Value.ind` is the induction over them.
* `Value.Finite` says that all its numbers are finite, `Value.Distinct` that all names in one object are
  distinct, and `Value.Kept` says both.
* `Value.Plain` says that its numbers are even whole: such values are written alike in all styles.
-/

namespace Workflow.Value

/-! ## Values in values -/

mutual

/-- The value and all values in it. -/
def walk : Value → List Value
  | array items => array items :: walkItems items
  | object fields => object fields :: walkFields fields
  | v => [v]

/-- The items of a list and all values in them. -/
def walkItems : List Value → List Value
  | [] => []
  | v :: items => walk v ++ walkItems items

/-- The contents of fields and all values in them. -/
def walkFields : List (String × Value) → List Value
  | [] => []
  | (_, v) :: fields => walk v ++ walkFields fields

end

theorem mem_walkItems_iff {items : List Value} {w : Value} :
    w ∈ walkItems items ↔ ∃ v ∈ items, w ∈ v.walk := by
  induction items with
  | nil => simp [walkItems]
  | cons v items ih => simp [walkItems, ih]

theorem mem_walkFields_iff {fields : Fields Value} {w : Value} :
    w ∈ walkFields fields ↔ ∃ field ∈ fields, w ∈ field.2.walk := by
  induction fields with
  | nil => simp [walkFields]
  | cons field fields ih =>
    obtain ⟨name, v⟩ := field
    simp [walkFields, ih]

/-- What holds of lists and objects if it holds of what is in them, and of the other values, holds of
all values. -/
@[elab_as_elim]
theorem ind {motive : Value → Prop} (null : motive null) (bool : ∀ b, motive (bool b))
    (number : ∀ n, motive (number n)) (string : ∀ s, motive (string s))
    (array : ∀ items, (∀ v ∈ items, motive v) → motive (array items))
    (object : ∀ fields : Fields Value, (∀ field ∈ fields, motive field.2) → motive (object fields))
    (v : Value) : motive v :=
  @Value.rec motive (fun items => ∀ v ∈ items, motive v)
    (fun fields => ∀ field ∈ fields, motive field.2) (fun field => motive field.2) null bool number
    string array object (List.forall_mem_nil _)
    (fun _ _ hv hitems => List.forall_mem_cons.2 ⟨hv, hitems⟩) (List.forall_mem_nil _)
    (fun _ _ hfield hfields => List.forall_mem_cons.2 ⟨hfield, hfields⟩) (fun _ _ hv => hv) v

theorem mem_walk_self (v : Value) : v ∈ v.walk := by
  cases v <;> simp [walk]

theorem mem_walk_array_iff {items : List Value} {w : Value} :
    w ∈ (array items).walk ↔ w = array items ∨ ∃ v ∈ items, w ∈ v.walk := by
  rw [walk, List.mem_cons, mem_walkItems_iff]

theorem mem_walk_object_iff {fields : Fields Value} {w : Value} :
    w ∈ (object fields).walk ↔ w = object fields ∨ ∃ field ∈ fields, w ∈ field.2.walk := by
  rw [walk, List.mem_cons, mem_walkFields_iff]

theorem mem_walk_of_get? {fields : Fields Value} {name : String} {v w : Value}
    (h : Fields.get? fields name = some v) (hw : w ∈ v.walk) : w ∈ (object fields).walk :=
  mem_walk_object_iff.2 (.inr ⟨_, Fields.mem_of_get? h, hw⟩)

/-- A value in a list that a field holds. -/
theorem mem_walk_of_mem_items {fields : Fields Value} {name : String} {items : List Value} {v : Value}
    (h : Fields.get? fields name = some (.array items)) (hv : v ∈ items) :
    v ∈ (object fields).walk :=
  mem_walk_of_get? h (mem_walk_array_iff.2 (.inr ⟨v, hv, v.mem_walk_self⟩))

/-- What holds of a list and of all values in it. -/
theorem forall_mem_walk_array_iff {p : Value → Prop} {items : List Value} :
    (∀ w ∈ (array items).walk, p w) ↔ p (array items) ∧ ∀ v ∈ items, ∀ w ∈ v.walk, p w := by
  simp only [mem_walk_array_iff, forall_eq_or_imp]
  exact and_congr_right fun _ => ⟨fun h v hv w hw => h w ⟨v, hv, hw⟩,
    fun h w ⟨v, hv, hw⟩ => h v hv w hw⟩

/-- What holds of an object and of all values in it. -/
theorem forall_mem_walk_object_iff {p : Value → Prop} {fields : Fields Value} :
    (∀ w ∈ (object fields).walk, p w) ↔
      p (object fields) ∧ ∀ field ∈ fields, ∀ w ∈ field.2.walk, p w := by
  simp only [mem_walk_object_iff, forall_eq_or_imp]
  exact and_congr_right fun _ => ⟨fun h field hfield w hw => h w ⟨field, hfield, hw⟩,
    fun h w ⟨field, hfield, hw⟩ => h field hfield w hw⟩

/-- What is in a value that is in another one is in that one. -/
theorem mem_walk_trans {v w u : Value} (hw : w ∈ v.walk) (hu : u ∈ w.walk) : u ∈ v.walk := by
  induction v using ind with
  | array items ih =>
    rcases mem_walk_array_iff.1 hw with rfl | ⟨v, hv, hw⟩
    · exact hu
    · exact mem_walk_array_iff.2 (.inr ⟨v, hv, ih v hv hw⟩)
  | object fields ih =>
    rcases mem_walk_object_iff.1 hw with rfl | ⟨field, hfield, hw⟩
    · exact hu
    · exact mem_walk_object_iff.2 (.inr ⟨field, hfield, ih field hfield hw⟩)
  | _ =>
    rw [List.mem_singleton.1 hw] at hu
    exact hu

/-! ## Depth -/

theorem depth_le_depthItems {items : List Value} {v : Value} (h : v ∈ items) :
    v.depth ≤ depthItems items := by
  induction items with
  | nil => cases h
  | cons first items ih =>
    rw [depthItems]
    rcases List.mem_cons.1 h with rfl | h
    · exact Nat.le_max_left _ _
    · exact Nat.le_trans (ih h) (Nat.le_max_right _ _)

theorem depth_le_depthFields {fields : Fields Value} {field : String × Value} (h : field ∈ fields) :
    field.2.depth ≤ depthFields fields := by
  induction fields with
  | nil => cases h
  | cons first fields ih =>
    obtain ⟨name, v⟩ := first
    rw [depthFields]
    rcases List.mem_cons.1 h with rfl | h
    · exact Nat.le_max_left _ _
    · exact Nat.le_trans (ih h) (Nat.le_max_right _ _)

/-- No value in a value is deeper than the value itself. -/
theorem depth_le_of_mem_walk {v w : Value} (h : w ∈ v.walk) : w.depth ≤ v.depth := by
  induction v using ind with
  | array items ih =>
    rcases mem_walk_array_iff.1 h with rfl | ⟨v, hv, hw⟩
    · exact Nat.le_refl _
    · exact Nat.le_succ_of_le (Nat.le_trans (ih v hv hw) (depth_le_depthItems hv))
  | object fields ih =>
    rcases mem_walk_object_iff.1 h with rfl | ⟨field, hfield, hw⟩
    · exact Nat.le_refl _
    · exact Nat.le_succ_of_le (Nat.le_trans (ih field hfield hw) (depth_le_depthFields hfield))
  | _ =>
    exact Nat.le_of_eq (congrArg depth (List.mem_singleton.1 h))

/-- What stands below an object is less deep. -/
theorem depth_lt_object {fields : Fields Value} {field : String × Value} {w : Value}
    (hfield : field ∈ fields) (hw : w ∈ field.2.walk) : w.depth < (object fields).depth :=
  Nat.lt_succ_of_le (Nat.le_trans (depth_le_of_mem_walk hw) (depth_le_depthFields hfield))

/-! ## Plain values -/

/-- All numbers in the value are whole. -/
def Whole (v : Value) : Prop :=
  ∀ w ∈ v.walk, ∀ x, w ≠ float x

/-- The value is a number that is not whole. -/
def isFloat : Value → Bool
  | number (.float _) => true
  | _ => false

instance (v : Value) : Decidable v.Whole :=
  decidable_of_iff (∀ w ∈ v.walk, w.isFloat = false) <| forall₂_congr fun w _ => by
    cases w with
    | number n => cases n <;> simp [isFloat, float]
    | _ => simp [isFloat, float]

/-- No object in the value gives a name twice. -/
def Distinct (v : Value) : Prop :=
  ∀ w ∈ v.walk, ∀ fields, w = object fields → (Fields.names fields).Nodup

/-- All numbers in the value are finite. -/
def Finite (v : Value) : Prop :=
  ∀ w ∈ v.walk, ∀ x, w = float x → x.isFinite = true

/-- All numbers in the value are finite, and no object in it gives a name twice. -/
structure Kept (v : Value) : Prop where
  /-- All numbers are finite. -/
  finite : v.Finite
  /-- No object gives a name twice. -/
  distinct : v.Distinct

/-- All numbers in the value are whole, and no object in it gives a name twice. -/
structure Plain (v : Value) : Prop where
  /-- All numbers are whole. -/
  whole : v.Whole
  /-- No object gives a name twice. -/
  distinct : v.Distinct

@[simp] theorem distinct_array_iff {items : List Value} :
    (array items).Distinct ↔ ∀ v ∈ items, v.Distinct := by
  rw [Distinct, forall_mem_walk_array_iff]
  exact ⟨And.right, fun h => ⟨nofun, h⟩⟩

@[simp] theorem distinct_object_iff {fields : Fields Value} : (object fields).Distinct ↔
    (Fields.names fields).Nodup ∧ ∀ field ∈ fields, field.2.Distinct := by
  rw [Distinct, forall_mem_walk_object_iff]
  exact and_congr_left fun _ => ⟨fun h => h _ rfl, fun h fields' heq => by cases heq; exact h⟩

theorem distinct_object_nil : (object []).Distinct :=
  distinct_object_iff.2 ⟨List.nodup_nil, List.forall_mem_nil _⟩

theorem distinct_object_singleton {v : Value} (h : v.Distinct) (name : String) :
    (object [(name, v)]).Distinct :=
  distinct_object_iff.2 ⟨List.nodup_singleton name, List.forall_mem_singleton.2 h⟩

/-- Names stay distinct when a name is given a value. -/
theorem distinct_set {fields : Fields Value} {v : Value} (h : (object fields).Distinct)
    (hv : v.Distinct) (name : String) : (object (Fields.set fields name v)).Distinct := by
  rw [distinct_object_iff] at h ⊢
  refine ⟨Fields.nodup_set h.1 name v, fun field hfield => ?_⟩
  rcases Fields.mem_set hfield with hfield | rfl
  · exact h.2 field hfield
  · exact hv

@[simp] theorem whole_array_iff {items : List Value} :
    (array items).Whole ↔ ∀ v ∈ items, v.Whole := by
  rw [Whole, forall_mem_walk_array_iff]
  exact ⟨And.right, fun h => ⟨nofun, h⟩⟩

@[simp] theorem whole_object_iff {fields : Fields Value} :
    (object fields).Whole ↔ ∀ field ∈ fields, field.2.Whole := by
  rw [Whole, forall_mem_walk_object_iff]
  exact ⟨And.right, fun h => ⟨nofun, h⟩⟩

@[simp] theorem finite_array_iff {items : List Value} :
    (array items).Finite ↔ ∀ v ∈ items, v.Finite := by
  rw [Finite, forall_mem_walk_array_iff]
  exact ⟨And.right, fun h => ⟨nofun, h⟩⟩

@[simp] theorem finite_object_iff {fields : Fields Value} :
    (object fields).Finite ↔ ∀ field ∈ fields, field.2.Finite := by
  rw [Finite, forall_mem_walk_object_iff]
  exact ⟨And.right, fun h => ⟨nofun, h⟩⟩

theorem kept_iff {v : Value} : v.Kept ↔ v.Finite ∧ v.Distinct :=
  ⟨fun h => ⟨h.finite, h.distinct⟩, fun h => ⟨h.1, h.2⟩⟩

theorem Plain.kept {v : Value} (h : v.Plain) : v.Kept where
  finite w hw x hx := absurd hx (h.whole w hw x)
  distinct := h.distinct

@[simp] theorem kept_array_iff {items : List Value} :
    (array items).Kept ↔ ∀ v ∈ items, v.Kept := by
  simp only [kept_iff, finite_array_iff, distinct_array_iff, forall₂_and]

@[simp] theorem kept_object_iff {fields : Fields Value} : (object fields).Kept ↔
    (Fields.names fields).Nodup ∧ ∀ field ∈ fields, field.2.Kept := by
  simp only [kept_iff, finite_object_iff, distinct_object_iff, forall₂_and]
  exact and_left_comm

theorem Kept.isFinite {x : Binary64} (h : (float x).Kept) : x.isFinite = true :=
  h.finite _ (mem_walk_self _) x rfl

theorem plain_iff {v : Value} : v.Plain ↔ v.Whole ∧ v.Distinct :=
  ⟨fun h => ⟨h.whole, h.distinct⟩, fun h => ⟨h.1, h.2⟩⟩

theorem Plain.of_mem_walk {v w : Value} (h : v.Plain) (hw : w ∈ v.walk) : w.Plain where
  whole u hu := h.whole u (mem_walk_trans hw hu)
  distinct u hu := h.distinct u (mem_walk_trans hw hu)

@[simp] theorem plain_array_iff {items : List Value} :
    (array items).Plain ↔ ∀ v ∈ items, v.Plain := by
  simp only [plain_iff, whole_array_iff, distinct_array_iff, forall₂_and]

@[simp] theorem plain_object_iff {fields : Fields Value} : (object fields).Plain ↔
    (Fields.names fields).Nodup ∧ ∀ field ∈ fields, field.2.Plain := by
  simp only [plain_iff, whole_object_iff, distinct_object_iff, forall₂_and]
  exact and_left_comm

@[simp] theorem plain_null : null.Plain := by
  simp [plain_iff, Whole, Distinct, walk, float]

@[simp] theorem plain_bool (b : Bool) : (bool b).Plain := by
  simp [plain_iff, Whole, Distinct, walk, float]

@[simp] theorem plain_string (s : String) : (string s).Plain := by
  simp [plain_iff, Whole, Distinct, walk, float]

@[simp] theorem plain_int (n : Int) : (int n).Plain := by
  simp [plain_iff, Whole, Distinct, walk, float, int]

@[simp] theorem plain_ofString? (s : Option String) : (ofString? s).Plain := by
  cases s <;> simp [ofString?]

@[simp] theorem plain_strings (texts : List String) : (strings texts).Plain := by
  simp [strings]

end Workflow.Value
