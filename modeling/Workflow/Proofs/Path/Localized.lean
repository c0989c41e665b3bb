import Workflow.Path.Localize
import Workflow.Proofs.Path.Format

/-!
# Paths inside running loops

A path is localized segment by segment, each after those before it. What comes out is written and read
again without a loss.

* `Path.Localized` says what the segments of a path become.
* `Path.localized_of_localize` says that the path that an expression stands for is read as what its
  segments become.
-/

namespace Workflow.Path

variable {instances : Fields Int} {before segments locals : List Segment} {segment next : Segment}
  {expression path : String}

/-- The segment after a localized prefix becomes the second one. -/
def LocalizedTo (instances : Fields Int) (before : List Segment) (segment next : Segment) : Prop :=
  (Fields.get? instances (format before) = none ∧ next = segment) ∨
    ∃ current, Fields.get? instances (format before) = some current ∧
      localizeSegment current segment = .ok next

/-- The first segments, which follow a localized prefix, become the second ones. -/
inductive Localized (instances : Fields Int) :
    List Segment → List Segment → List Segment → Prop
  | nil {before : List Segment} : Localized instances before [] []
  | cons {before segments locals : List Segment} {segment next : Segment} :
      LocalizedTo instances before segment next →
      Localized instances (before ++ [next]) segments locals →
      Localized instances before (segment :: segments) (next :: locals)

theorem localized_of_localizeFrom {found : List Segment}
    (h : localizeFrom expression instances before segments = .ok found) :
    ∃ locals, found = before ++ locals ∧ Localized instances before segments locals := by
  induction segments generalizing before with
  | nil =>
    cases h
    exact ⟨[], (List.append_nil _).symm, .nil⟩
  | cons segment segments ih =>
    rw [localizeFrom] at h
    cases hget : Fields.get? instances (format before) with
    | none =>
      rw [hget] at h
      obtain ⟨locals, rfl, hlocals⟩ := ih h
      exact ⟨segment :: locals, by simp, .cons (.inl ⟨hget, rfl⟩) hlocals⟩
    | some current =>
      rw [hget] at h
      simp only at h
      split at h
      · cases h
      · rename_i next hnext
        obtain ⟨locals, rfl, hlocals⟩ := ih h
        exact ⟨next :: locals, by simp, .cons (.inr ⟨current, hget, hnext⟩) hlocals⟩

theorem Localized.length_eq (h : Localized instances before segments locals) :
    locals.length = segments.length := by
  induction h with
  | nil => rfl
  | cons _ _ ih => simp [ih]

/-- A prefix that can be localized is localized before what follows it. -/
theorem localizeFrom_append {front back : List Segment} (h : Localized instances before front locals) :
    localizeFrom expression instances before (front ++ back) =
      localizeFrom expression instances (before ++ locals) back := by
  induction h with
  | nil => simp
  | @cons before segments locals segment next hnext _ ih =>
    rw [List.append_assoc, List.singleton_append] at ih
    rw [List.cons_append, localizeFrom, ← ih]
    rcases hnext with ⟨hget, rfl⟩ | ⟨current, hget, hlocal⟩
    · simp only [hget]
    · simp only [hget, hlocal]

/-- Outside of loops segments stay as they are. -/
theorem Localized.refl (h : ∀ key, Fields.get? instances key = none) (before segments : List Segment) :
    Localized instances before segments segments := by
  induction segments generalizing before with
  | nil => exact .nil
  | cons segment segments ih => exact .cons (.inl ⟨h _, rfl⟩) (ih _)

/-- A segment after a running loop names the instance that runs, or is the segment that it was. -/
theorem localizeSegment_cases {current : Int} (h : localizeSegment current segment = .ok next) :
    (segment.field = childField ∧ segment.index = none ∧ next = ⟨instanceField, some current⟩) ∨
      (next = segment ∧ (segment.field = instanceField → segment.index ≠ none →
        segment.index = some current)) := by
  rw [localizeSegment] at h
  split at h
  · rename_i hchild
    cases h
    exact .inl ⟨hchild.1, hchild.2, rfl⟩
  · split at h
    · cases h
    · rename_i hnot
      cases h
      refine .inr ⟨rfl, fun hfield hindex => ?_⟩
      by_contra hother
      exact hnot ⟨hfield, hindex, hother⟩

/-- A text of characters that fields may start with is a field. -/
theorem exists_field {field : String} {c : Char} {rest : List Char} (h : field.toList = c :: rest)
    (hstart : (c :: rest).all isFieldStart = true) :
    ∃ c rest, field.toList = c :: rest ∧ isFieldStart c = true ∧
      ∀ d ∈ rest, Unicode.isWordChar d = true := by
  rw [List.all_eq_true] at hstart
  exact ⟨c, rest, h, hstart c List.mem_cons_self,
    fun d hd => isWordChar_of_isFieldStart (hstart d (List.mem_cons_of_mem c hd))⟩

theorem proper_instance (n : Nat) : Segment.Proper ⟨instanceField, some (n : Int)⟩ := by
  have hfield : instanceField.toList = ['i', 't', 'e', 'm'] := by simp [instanceField]
  refine ⟨exists_field hfield rfl, ?_⟩
  rintro _ ⟨⟩
  exact ⟨n, rfl⟩

/-- What segments that are read from a text become is written like that as well. -/
theorem Localized.proper (h : Localized instances before segments locals)
    (hinstances : ∀ key current, Fields.get? instances key = some current → ∃ n : Nat, current = n)
    (hproper : ∀ segment ∈ segments, Segment.Proper segment) :
    ∀ segment ∈ locals, Segment.Proper segment := by
  induction h with
  | nil => exact hproper
  | @cons before segments locals segment next hnext _ ih =>
    obtain ⟨hfirst, hrest⟩ := List.forall_mem_cons.1 hproper
    refine List.forall_mem_cons.2 ⟨?_, ih hrest⟩
    rcases hnext with ⟨_, rfl⟩ | ⟨current, hget, hlocal⟩
    · exact hfirst
    · rcases localizeSegment_cases hlocal with ⟨_, _, rfl⟩ | ⟨rfl, _⟩
      · obtain ⟨n, rfl⟩ := hinstances _ _ hget
        exact proper_instance n
      · exact hfirst

/-- The path that an expression stands for is read as what the segments of the expression become. -/
theorem localized_of_localize
    (hinstances : ∀ key current, Fields.get? instances key = some current → ∃ n : Nat, current = n)
    (h : localize expression instances = .ok path) : ∃ segments locals,
      parse expression = .ok segments ∧ parse path = .ok locals ∧
        Localized instances [] segments locals ∧ ∀ segment ∈ locals, Segment.Proper segment := by
  rw [localize] at h
  cases hparse : parse expression with
  | error e => rw [hparse] at h; cases h
  | ok segments =>
    rw [hparse] at h
    simp only at h
    have hproper := proper_of_parse hparse
    split at h
    · rename_i hempty
      cases h
      rw [List.isEmpty_iff] at hempty
      subst hempty
      exact ⟨segments, segments, rfl, hparse, .refl (fun _ => rfl) _ _, hproper⟩
    · split at h
      · cases h
      · rename_i found hfound
        cases h
        obtain ⟨locals, hlocals, hlocalized⟩ := localized_of_localizeFrom hfound
        rw [List.nil_append] at hlocals
        subst hlocals
        have hproper' := hlocalized.proper hinstances hproper
        exact ⟨segments, found, rfl, parse_format hproper', hlocalized, hproper'⟩

end Workflow.Path
