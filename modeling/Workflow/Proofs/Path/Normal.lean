import Workflow.Proofs.Fields
import Workflow.Proofs.Path.Localized

/-!
# Normal forms of localized paths

The path that an expression stands for while loops run their instances is a normal form: where a loop
runs, the path neither names the loop's body as the definition does nor another instance. A loop is
looked up by the path as it has been rewritten so far, so whether a segment changes may hang on what the
segments before it have become.

* `Path.Normal` says of a path alone that it is a normal form. `Path.Normalizes` says that segments
  become a normal form and that only bodies of running loops are replaced on the way.
* `Path.localize_eq_ok_iff` says that localizing an expression is exactly that.
* `Path.normalizes_of_localize` says that the result is a path and that localizing it again does not
  change it.
-/

namespace Workflow.Path

variable {instances : Fields Int} {before segments locals : List Segment} {segment next : Segment}
  {expression path : String} {current : Int}

/-! ## Segments after a running loop -/

/-- A segment that stays as it is after a loop that runs its instance `current`: it is neither the body
of the loop nor another instance. -/
def Settled (current : Int) (segment : Segment) : Prop :=
  segment ≠ ⟨childField, none⟩ ∧ ∀ j, segment = ⟨instanceField, some j⟩ → j = current

/-- After a running loop a segment becomes one that is settled, and only the body is replaced. -/
theorem localizeSegment_eq_ok_iff : localizeSegment current segment = .ok next ↔
    Settled current next ∧ (next ≠ segment →
      segment = ⟨childField, none⟩ ∧ next = ⟨instanceField, some current⟩) := by
  have hfields : instanceField ≠ childField := by decide
  constructor
  · intro h
    rcases localizeSegment_cases h with ⟨hfield, hindex, rfl⟩ | ⟨rfl, hinstance⟩
    · refine ⟨⟨?_, ?_⟩, fun _ => ⟨?_, rfl⟩⟩
      · intro heq
        exact hfields (congrArg Segment.field heq)
      · rintro j ⟨⟩
        rfl
      · cases segment
        simp only at hfield hindex
        rw [hfield, hindex]
    · refine ⟨⟨?_, ?_⟩, fun hne => absurd rfl hne⟩
      · rintro rfl
        have hbody : localizeSegment current ⟨childField, none⟩ =
          .ok ⟨instanceField, some current⟩ := rfl
        rw [hbody] at h
        exact hfields (congrArg Segment.field (Except.ok.inj h))
      · rintro j rfl
        exact Option.some.inj (hinstance rfl (by simp))
  · -- a settled segment passes both tests, and one that is replaced is the body
    rintro ⟨⟨hbody, hother⟩, hchange⟩
    by_cases hsame : next = segment
    · subst hsame
      obtain ⟨field, index⟩ := next
      rw [localizeSegment, if_neg, if_neg]
      · rintro ⟨rfl, hindex, hne⟩
        obtain ⟨j, rfl⟩ := Option.ne_none_iff_exists'.1 hindex
        exact hne (congrArg some (hother j rfl))
      · rintro ⟨rfl, rfl⟩
        exact hbody rfl
    · obtain ⟨rfl, rfl⟩ := hchange hsame
      rfl

/-- What a segment becomes is settled if a loop runs before it, and only the body is replaced. -/
theorem localizedTo_iff : LocalizedTo instances before segment next ↔
    (next ≠ segment → segment = ⟨childField, none⟩ ∧ ∃ current,
      Fields.get? instances (format before) = some current ∧
        next = ⟨instanceField, some current⟩) ∧
    ∀ current, Fields.get? instances (format before) = some current → Settled current next := by
  unfold LocalizedTo
  cases Fields.get? instances (format before) with
  | none => simp
  | some current =>
    simp only [localizeSegment_eq_ok_iff, reduceCtorEq, false_and, false_or, Option.some.injEq,
      exists_eq_left', forall_eq']
    exact and_comm

/-! ## Positions -/

theorem localized_cons_iff : Localized instances before (segment :: segments) (next :: locals) ↔
    LocalizedTo instances before segment next ∧
      Localized instances (before ++ [next]) segments locals := by
  constructor
  · intro h
    cases h with
    | cons hfirst hrest => exact ⟨hfirst, hrest⟩
  · rintro ⟨hfirst, hrest⟩
    exact .cons hfirst hrest

/-- Every segment becomes what it becomes after the segments before it, as these have become. -/
theorem localized_iff_forall : Localized instances before segments locals ↔
    locals.length = segments.length ∧
      ∀ position segment next, segments[position]? = some segment →
        locals[position]? = some next →
          LocalizedTo instances (before ++ locals.take position) segment next := by
  induction segments generalizing before locals with
  | nil =>
    cases locals with
    | nil => simp [Localized.nil]
    | cons next locals => exact iff_of_false nofun (by simp)
  | cons segment segments ih =>
    cases locals with
    | nil => exact iff_of_false nofun (by simp)
    | cons next locals =>
      -- a position of the rest is one further on here, and its prefix has the first segment as well
      rw [localized_cons_iff, ih]
      constructor
      · rintro ⟨hfirst, hlength, hrest⟩
        refine ⟨congrArg (· + 1) hlength, fun position segment' next' hsegment hnext => ?_⟩
        cases position with
        | zero =>
          cases hsegment
          cases hnext
          simpa using hfirst
        | succ position => simpa using hrest position segment' next' hsegment hnext
      · rintro ⟨hlength, hall⟩
        refine ⟨by simpa using hall 0 segment next rfl rfl, Nat.succ.inj hlength,
          fun position segment' next' hsegment hnext => ?_⟩
        simpa using hall (position + 1) segment' next' hsegment hnext

/-! ## Normal forms -/

/-- Every segment that follows the path of a running loop is settled there. -/
def Normal (instances : Fields Int) (segments : List Segment) : Prop :=
  ∀ position segment current, segments[position]? = some segment →
    Fields.get? instances (format (segments.take position)) = some current → Settled current segment

/-- The first segments become the second ones, which are a normal form. -/
structure Normalizes (instances : Fields Int) (segments locals : List Segment) : Prop where
  /-- Every segment becomes one segment. -/
  length_eq : locals.length = segments.length
  /-- A segment that is replaced is the body of a running loop, and its instance takes the place. -/
  replaced : ∀ position segment next, segments[position]? = some segment →
    locals[position]? = some next → next ≠ segment →
      segment = ⟨childField, none⟩ ∧ ∃ current,
        Fields.get? instances (format (locals.take position)) = some current ∧
          next = ⟨instanceField, some current⟩
  /-- What they become is a normal form. -/
  normal : Normal instances locals

theorem localized_iff_normalizes :
    Localized instances [] segments locals ↔ Normalizes instances segments locals := by
  simp only [localized_iff_forall, localizedTo_iff, List.nil_append]
  constructor
  · rintro ⟨hlength, hall⟩
    refine ⟨hlength, fun position segment next hsegment hnext => (hall _ _ _ hsegment hnext).1, ?_⟩
    intro position next current hnext hget
    have hlt : position < segments.length :=
      hlength ▸ (List.getElem?_eq_some_iff.1 hnext).1
    exact (hall _ _ _ (List.getElem?_eq_getElem hlt) hnext).2 current hget
  · rintro ⟨hlength, hreplaced, hnormal⟩
    exact ⟨hlength, fun position segment next hsegment hnext =>
      ⟨hreplaced position segment next hsegment hnext,
        fun current hget => hnormal position next current hnext hget⟩⟩

/-- A normal form becomes itself. -/
theorem Normal.normalizes (h : Normal instances segments) :
    Normalizes instances segments segments := by
  refine ⟨rfl, fun position segment next hsegment hnext hne => ?_, h⟩
  rw [hsegment] at hnext
  exact absurd (Option.some.inj hnext).symm hne

/-! ## Localizing -/

theorem localizeFrom_eq_ok_iff {found : List Segment} :
    localizeFrom expression instances before segments = .ok found ↔
      ∃ locals, found = before ++ locals ∧ Localized instances before segments locals := by
  constructor
  · exact localized_of_localizeFrom
  · rintro ⟨locals, rfl, hlocals⟩
    have happend : localizeFrom expression instances before (segments ++ []) =
      .ok (before ++ locals) := localizeFrom_append hlocals
    rwa [List.append_nil] at happend

/-- Localizing an expression is replacing bodies of running loops up to a normal form. -/
theorem localize_eq_ok_iff (hne : instances ≠ []) : localize expression instances = .ok path ↔
    ∃ segments locals, parse expression = .ok segments ∧ Normalizes instances segments locals ∧
      path = format locals := by
  have hlocal {segments : List Segment} : (∃ locals,
      localizeFrom expression instances [] segments = .ok locals ∧ path = format locals) ↔
        ∃ locals, Normalizes instances segments locals ∧ path = format locals := by
    simp only [localizeFrom_eq_ok_iff, List.nil_append, exists_eq_left', localized_iff_normalizes]
  rw [localize]
  cases parse expression with
  | error e => simp
  | ok segments =>
    simp only [List.isEmpty_iff, hne, if_false, Except.ok.injEq, exists_and_left, exists_eq_left']
    rw [← hlocal]
    cases localizeFrom expression instances [] segments with
    | error e => simp
    | ok locals => simp [eq_comm]

/-- The instances that loops run, counted from zero on, as indices of segments. -/
def indices (running : Fields Nat) : Fields Int :=
  running.map fun entry => (entry.1, (entry.2 : Int))

theorem exists_nat_of_get?_indices {running : Fields Nat} {key : String}
    (h : Fields.get? (indices running) key = some current) : ∃ n : Nat, current = n := by
  obtain ⟨entry, -, hentry⟩ := List.mem_map.1 (Fields.mem_of_get? h)
  exact ⟨entry.2, (congrArg Prod.snd hentry).symm⟩

/-- What an expression stands for while instances run is read as a normal form of its segments, and it
stands for itself. -/
theorem normalizes_of_localize {running : Fields Nat} (hne : running ≠ [])
    (h : localize expression (indices running) = .ok path) : ∃ segments locals,
      parse expression = .ok segments ∧ parse path = .ok locals ∧
        Normalizes (indices running) segments locals ∧
          localize path (indices running) = .ok path := by
  have hne' : indices running ≠ [] := by simpa [indices] using hne
  obtain ⟨segments, locals, hparse, hnormalizes, rfl⟩ := (localize_eq_ok_iff hne').1 h
  have hproper := (localized_iff_normalizes.2 hnormalizes).proper
    (fun _ _ hget => exists_nat_of_get?_indices hget) (proper_of_parse hparse)
  have hread := parse_format hproper
  refine ⟨segments, locals, hparse, hread, hnormalizes, ?_⟩
  exact (localize_eq_ok_iff hne').2 ⟨locals, locals, hread, hnormalizes.normal.normalizes, rfl⟩

/-- The inner loop is found by the path that the outer one has rewritten. -/
theorem normalizes_of_localize_nested :
    let running : Fields Nat := [("$", 1), ("no path", 7), ("$.item[1].input[0]", 3)]
    let expression := "$.input.input[0].input.item[2]"
    let path := "$.item[1].input[0].item[3].item[2]"
    running ≠ [] ∧ localize expression (indices running) = .ok path ∧
      ∃ segments locals, parse expression = .ok segments ∧ parse path = .ok locals ∧
        Normalizes (indices running) segments locals ∧
          localize path (indices running) = .ok path := by
  intro running expression path
  have hne : running ≠ [] := by decide
  have hlocal : localize expression (indices running) = .ok path := by decide +kernel
  exact ⟨hne, hlocal, normalizes_of_localize hne hlocal⟩

end Workflow.Path
