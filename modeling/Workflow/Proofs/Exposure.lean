import Workflow.Proofs.Live.Yields
import Workflow.Proofs.Path.Localized

/-!
# What path bindings expose

A path binding has a value only where the work is done: it is the output of a node that has succeeded or
an input of a step. Everything else is an error of the binding that names its input and its expression.

* `Result.Opens` says where a segment leads from a node of a result, and `Result.Addresses` where
  segments lead. `Result.resolve_eq_ok_iff` says that a path is resolved to what it addresses.
* `Path.localize_eq_error_iff` says which expressions cannot be localized: those that are no paths and
  those that name another instance of a running loop.
* `Surroundings.Exposes` says that an expression has a value, `Surroundings.Withholds` why it has none.
* `Binding.exposure_evaluate` says that a path binding has exactly the value that is exposed, and that
  every other one is refused for the cause there is.
-/

namespace Workflow

/-! ## Places in results -/

/-- A segment leads from a node of a result to a place. -/
inductive Result.Opens (r : Result) : Segment → Target → Prop where
  /-- To an input of a step. -/
  | input {i : Nat} {v : Value} (hkind : r.entry.kind = Kind.step.name)
    (hinput : (Fields.contents r.entry.inputs)[i]? = some v) :
    Opens r ⟨Path.childField, some (i : Int)⟩ (.value v)
  /-- To an instance of a loop. -/
  | instance {i : Nat} {item : Result} (hkind : r.entry.kind = Kind.loop.name)
    (hitem : r.items[i]? = some item) : Opens r ⟨Path.instanceField, some (i : Int)⟩ (.node item)
  /-- To a child of any other node. -/
  | child {i : Nat} {child : Result} (hstep : r.entry.kind ≠ Kind.step.name)
    (hloop : r.entry.kind ≠ Kind.loop.name) (hchild : r.children[i]? = some child) :
    Opens r ⟨Path.childField, some (i : Int)⟩ (.node child)
  /-- To the default of a branch. -/
  | default {other : Result} (hkind : r.entry.kind = Kind.branch.name)
    (hdefault : r.default? = some other) : Opens r ⟨Path.defaultField, none⟩ (.node other)

/-- Segments lead from a node of a result to a place. Nothing lies below the value of an input. -/
inductive Result.Addresses : Result → List Segment → Target → Prop where
  /-- No segments lead to the node itself. -/
  | here (r : Result) : Addresses r [] (.node r)
  /-- The last segment leads to an input. -/
  | input {r : Result} {segment : Segment} {v : Value} (hopens : r.Opens segment (.value v)) :
    Addresses r [segment] (.value v)
  /-- The first segment leads to a node, from which the others lead on. -/
  | through {r n : Result} {segment : Segment} {segments : List Segment} {target : Target}
    (hopens : r.Opens segment (.node n)) (hbelow : Addresses n segments target) :
    Addresses r (segment :: segments) target

namespace Path

variable {α β : Type} {items : List α} {segment next : Segment} {entries : Entries}

/-- What is picked is the entry whose place a segment that is read from a text names. -/
theorem map_pick_eq_ok_iff (h : segment.Proper) {f : α → β} {b : β} :
    (pick items segment entries).map f = .ok b ↔
      ∃ (i : Nat) (item : α), segment.index = some (i : Int) ∧ items[i]? = some item ∧ f item = b := by
  unfold pick
  cases hindex : segment.index with
  | none => simp [Except.map]
  | some index =>
    obtain ⟨i, rfl⟩ := h.index index hindex
    cases hitem : items[i]? with
    | none =>
      simp only [Int.toNat_natCast, hitem]
      constructor
      · intro hmap
        cases hmap
      · rintro ⟨j, item, hj, hitem', -⟩
        obtain rfl : i = j := by exact_mod_cast Option.some.inj hj
        rw [hitem] at hitem'
        cases hitem'
    | some item =>
      simp only [Int.toNat_natCast, hitem]
      constructor
      · intro hmap
        exact ⟨i, item, rfl, hitem, Except.ok.inj hmap⟩
      · rintro ⟨j, item', hj, hitem', hf⟩
        obtain rfl : i = j := by exact_mod_cast Option.some.inj hj
        rw [hitem, Option.some.injEq] at hitem'
        show Except.ok (f item) = Except.ok b
        rw [hitem', hf]

end Path

namespace Result

variable {r : Result} {segment : Segment} {segments : List Segment} {target : Target}

/-- A segment that is read from a text is followed where it leads. -/
theorem descend_eq_ok_iff (h : segment.Proper) :
    r.descend segment = .ok target ↔ r.Opens segment target := by
  obtain ⟨field, index⟩ := segment
  constructor
  · intro hdescend
    unfold descend at hdescend
    simp only at hdescend
    split at hdescend
    · rename_i hkind
      split at hdescend
      · rename_i hfield
        obtain ⟨i, v, hindex, hv, rfl⟩ := (Path.map_pick_eq_ok_iff h).1 hdescend
        simp only at hfield hindex
        subst hfield hindex
        exact .input hkind hv
      · cases hdescend
    · rename_i hstep
      split at hdescend
      · rename_i hkind
        split at hdescend
        · rename_i hfield
          obtain ⟨i, item, hindex, hitem, rfl⟩ := (Path.map_pick_eq_ok_iff h).1 hdescend
          simp only at hfield hindex
          subst hfield hindex
          exact .instance hkind hitem
        · cases hdescend
      · rename_i hloop
        split at hdescend
        · rename_i hfield
          obtain ⟨i, child, hindex, hchild, rfl⟩ := (Path.map_pick_eq_ok_iff h).1 hdescend
          simp only at hfield hindex
          subst hfield hindex
          exact .child hstep hloop hchild
        · split at hdescend
          · rename_i hdefault
            obtain ⟨rfl, rfl, hkind⟩ := hdefault
            cases hother : r.default? with
            | none => rw [hother] at hdescend; cases hdescend
            | some other =>
              rw [hother] at hdescend
              cases hdescend
              exact .default hkind hother
          · cases hdescend
  · intro hopens
    have hnames : Kind.loop.name ≠ Kind.step.name ∧ Kind.branch.name ≠ Kind.step.name ∧
        Kind.branch.name ≠ Kind.loop.name := by decide
    have hfields : Path.defaultField ≠ Path.childField := by decide
    cases hopens with
    | input hkind hinput =>
      simp [descend, hkind, Path.pick, hinput, Except.map]
    | «instance» hkind hitem =>
      simp [descend, hkind, hnames.1, Path.pick, hitem, Except.map]
    | child hstep hloop hchild =>
      simp [descend, hstep, hloop, Path.pick, hchild, Except.map]
    | default hkind hdefault =>
      simp [descend, hkind, hnames.2.1, hnames.2.2, hfields, hdefault]

/-- Nothing lies below the value of an input. -/
theorem followFrom_value_eq_ok_iff {expression : String} {position : Nat} {v : Value} :
    Path.followFrom Target.descend expression position (.value v) segments = .ok target ↔
      segments = [] ∧ target = .value v := by
  cases segments with
  | nil =>
    show Except.ok (Target.value v) = Except.ok target ↔ _
    simp [eq_comm]
  | cons segment segments => simp [Path.followFrom, Target.descend]

/-- Segments are followed where they lead. -/
theorem followFrom_eq_ok_iff {expression : String} {position : Nat}
    (h : ∀ segment ∈ segments, Segment.Proper segment) :
    Path.followFrom Target.descend expression position (.node r) segments = .ok target ↔
      r.Addresses segments target := by
  induction segments generalizing r position with
  | nil =>
    show Except.ok (Target.node r) = Except.ok target ↔ _
    constructor
    · intro heq
      cases heq
      exact .here r
    · intro haddresses
      cases haddresses
      rfl
  | cons segment segments ih =>
    obtain ⟨hsegment, hsegments⟩ := List.forall_mem_cons.1 h
    rw [Path.followFrom, Target.descend]
    constructor
    · intro hfound
      cases hdescend : r.descend segment with
      | error miss => rw [hdescend] at hfound; cases hfound
      | ok next =>
        rw [hdescend] at hfound
        have hopens := (descend_eq_ok_iff hsegment).1 hdescend
        cases next with
        | value v =>
          obtain ⟨rfl, rfl⟩ := followFrom_value_eq_ok_iff.1 hfound
          exact .input hopens
        | node n => exact .through hopens ((ih hsegments).1 hfound)
    · intro haddresses
      cases haddresses with
      | input hopens =>
        rw [(descend_eq_ok_iff hsegment).2 hopens]
        rfl
      | through hopens hbelow =>
        rw [(descend_eq_ok_iff hsegment).2 hopens]
        exact (ih hsegments).2 hbelow

/-- A path is resolved to what its segments address. -/
theorem resolve_eq_ok_iff {path : String} : r.resolve path = .ok target ↔
    ∃ segments, Path.parse path = .ok segments ∧ r.Addresses segments target := by
  unfold resolve Path.follow
  cases hparse : Path.parse path with
  | error e => simp
  | ok segments => simp [followFrom_eq_ok_iff (Path.proper_of_parse hparse)]

end Result

/-! ## Expressions that cannot be localized -/

namespace Path

variable {instances : Fields Int} {before segments locals : List Segment} {segment next : Segment}
  {expression : String} {current : Int} {miss : Miss} {e : Error}

/-- Of the segments, which follow a localized prefix, the one that is told names another instance than
the one that runs. All segments before it can be localized. -/
structure Elsewhere (instances : Fields Int) (before segments : List Segment) (segment : Segment)
    (position : Nat) (current : Int) : Prop where
  exists_split : ∃ front back locals, segments = front ++ segment :: back ∧
    front.length = position ∧ Localized instances before front locals ∧
    Fields.get? instances (format (before ++ locals)) = some current
  field : segment.field = instanceField
  index : ∃ j, segment.index = some j ∧ j ≠ current

theorem localizeSegment_eq_error_iff : localizeSegment current segment = .error miss ↔
    segment.field = instanceField ∧ (∃ j, segment.index = some j ∧ j ≠ current) ∧
      miss = .otherInstance current := by
  have hfields : instanceField ≠ childField := by decide
  obtain ⟨field, index⟩ := segment
  unfold localizeSegment
  constructor
  · intro h
    split at h
    · cases h
    · split at h
      · rename_i hother
        cases h
        obtain ⟨hfield, hsome, hne⟩ := hother
        cases index with
        | none => exact absurd rfl hsome
        | some j => exact ⟨hfield, ⟨j, rfl, by simpa using hne⟩, rfl⟩
      · cases h
  · rintro ⟨hfield, ⟨j, hj, hne⟩, rfl⟩
    simp only at hfield hj
    subst hfield hj
    simp [hfields, hne]

theorem Elsewhere.cons {position : Nat} (h : Elsewhere instances (before ++ [next]) segments segment
    position current) {first : Segment} (hfirst : LocalizedTo instances before first next) :
    Elsewhere instances before (first :: segments) segment (position + 1) current := by
  obtain ⟨⟨front, back, locals, rfl, rfl, hlocals, hget⟩, hfield, hindex⟩ := h
  refine ⟨⟨first :: front, back, next :: locals, rfl, rfl, .cons hfirst hlocals, ?_⟩, hfield, hindex⟩
  simpa using hget

/-- Segments cannot be localized if and only if one of them names another instance. -/
theorem localizeFrom_eq_error_iff : localizeFrom expression instances before segments = .error e ↔
    ∃ segment position current, Elsewhere instances before segments segment position current ∧
      e = .notFound expression segment (before.length + position) (.otherInstance current) := by
  constructor
  · intro h
    induction segments generalizing before with
    | nil => cases h
    | cons first segments ih =>
      have hlater {next : Segment} (hfirst : LocalizedTo instances before first next)
          (hrest : localizeFrom expression instances (before ++ [next]) segments = .error e) :
          ∃ segment position current,
            Elsewhere instances before (first :: segments) segment position current ∧
              e = .notFound expression segment (before.length + position) (.otherInstance current) := by
        obtain ⟨segment, position, current, helsewhere, rfl⟩ := ih hrest
        refine ⟨segment, position + 1, current, helsewhere.cons hfirst, ?_⟩
        simp only [List.length_append, List.length_singleton, Error.notFound.injEq, and_true, true_and]
        omega
      rw [localizeFrom] at h
      cases hget : Fields.get? instances (format before) with
      | none =>
        rw [hget] at h
        exact hlater (.inl ⟨hget, rfl⟩) h
      | some current =>
        rw [hget] at h
        simp only at h
        cases hlocal : localizeSegment current first with
        | ok next =>
          rw [hlocal] at h
          exact hlater (.inr ⟨current, hget, hlocal⟩) h
        | error miss =>
          rw [hlocal] at h
          cases h
          obtain ⟨hfield, hindex, rfl⟩ := localizeSegment_eq_error_iff.1 hlocal
          exact ⟨first, 0, current,
            ⟨⟨[], segments, [], rfl, rfl, .nil, by rwa [List.append_nil]⟩, hfield, hindex⟩, rfl⟩
  · rintro ⟨segment, position, current, ⟨⟨front, back, locals, rfl, rfl, hlocals, hget⟩, hfield, hindex⟩,
      rfl⟩
    have hmiss := localizeSegment_eq_error_iff.2 ⟨hfield, hindex, rfl⟩
    rw [localizeFrom_append hlocals, localizeFrom]
    simp only [hget, hmiss, List.length_append, hlocals.length_eq]

/-- An expression cannot be localized if and only if it is no path or names another instance of a loop
that runs. -/
theorem localize_eq_error_iff : localize expression instances = .error e ↔
    parse expression = .error e ∨ ∃ segments segment position current,
      parse expression = .ok segments ∧ Elsewhere instances [] segments segment position current ∧
        e = .notFound expression segment position (.otherInstance current) := by
  unfold localize
  cases hparse : parse expression with
  | error cause => simp
  | ok segments =>
    have hrest : localizeFrom expression instances [] segments = .error e ↔
        ∃ segment position current, Elsewhere instances [] segments segment position current ∧
          e = .notFound expression segment position (.otherInstance current) :=
      localizeFrom_eq_error_iff.trans (by simp)
    constructor
    · intro h
      right
      simp only at h
      split at h
      · cases h
      · split at h
        · rename_i cause hcause
          cases h
          obtain ⟨segment, position, current, helsewhere⟩ := hrest.1 hcause
          exact ⟨segments, segment, position, current, rfl, helsewhere⟩
        · cases h
    · rintro (h | ⟨segments', segment, position, current, hsegments, helsewhere⟩)
      · cases h
      · obtain rfl : segments = segments' := Except.ok.inj hsegments
        have hnonempty : instances.isEmpty = false := by
          obtain ⟨_, _, _, _, _, _, hget⟩ := helsewhere.1.exists_split
          cases instances with
          | nil => cases hget
          | cons => rfl
        simp only [hnonempty, Bool.false_eq_true, if_false,
          hrest.2 ⟨segment, position, current, helsewhere⟩]

end Path

/-! ## Values and causes -/

namespace Surroundings

variable {s : Surroundings} {expression : String} {v : Value} {cause : BindingCause}

/-- There are results, and the path that the expression stands for addresses a place in them that gives
the value: a node that has succeeded with it or an input of a step. -/
def Exposes (s : Surroundings) (expression : String) (v : Value) : Prop :=
  ∃ results path segments target, s.results = some results ∧
    Path.localize expression s.instances = .ok path ∧ Path.parse path = .ok segments ∧
    results.Addresses segments target ∧ target.Gives v

/-- Why an expression has no value. -/
inductive Withholds (s : Surroundings) (expression : String) : BindingCause → Prop where
  /-- Nothing has executed yet. -/
  | nothing (hresults : s.results = none) : Withholds s expression (.noResults expression)
  /-- The expression is no path. -/
  | malformed {results : Result} {e : Path.Error} (hresults : s.results = some results)
    (hparse : Path.parse expression = .error e) : Withholds s expression (.badPath expression e)
  /-- The expression names another instance of a loop that runs. -/
  | elsewhere {results : Result} {segments : List Segment} {segment : Segment} {position : Nat}
    {current : Int} (hresults : s.results = some results)
    (hparse : Path.parse expression = .ok segments)
    (helsewhere : Path.Elsewhere s.instances [] segments segment position current) :
    Withholds s expression
      (.badPath expression (.notFound expression segment position (.otherInstance current)))
  /-- The path that the expression stands for leads nowhere. -/
  | unresolvable {results : Result} {path : String} {e : Path.Error}
    (hresults : s.results = some results) (hlocal : Path.localize expression s.instances = .ok path)
    (hresolve : results.resolve path = .error e) : Withholds s expression (.badPath expression e)
  /-- The node is pending or running. -/
  | unfinished {results node : Result} {path : String} {segments : List Segment}
    (hresults : s.results = some results) (hlocal : Path.localize expression s.instances = .ok path)
    (hparse : Path.parse path = .ok segments) (hnode : results.Addresses segments (.node node))
    (hstatus : node.status ∈ [Status.pending, .running]) :
    Withholds s expression (.notExecuted expression node.status)
  /-- The node has failed, was left out or was stopped. -/
  | unsuccessful {results node : Result} {path : String} {segments : List Segment}
    (hresults : s.results = some results) (hlocal : Path.localize expression s.instances = .ok path)
    (hparse : Path.parse path = .ok segments) (hnode : results.Addresses segments (.node node))
    (hstatus : node.status ∈ [Status.failed, .skipped, .cancelled]) :
    Withholds s expression (.notSucceeded expression node.status)

/-- What has a value has no cause to have none. -/
theorem valueAt_of_exposes (h : s.Exposes expression v) : s.valueAt expression = .ok v := by
  obtain ⟨results, path, segments, target, hresults, hlocal, hparse, haddresses, hgives⟩ := h
  have hresolve := Result.resolve_eq_ok_iff.2 ⟨segments, hparse, haddresses⟩
  cases target with
  | value w =>
    obtain rfl : w = v := hgives
    simp only [valueAt, hresults, hlocal, hresolve]
  | node n =>
    obtain ⟨hstatus, rfl⟩ := hgives
    simp only [valueAt, hresults, hlocal, hresolve, Result.available, hstatus]

theorem valueAt_of_withholds (h : s.Withholds expression cause) :
    s.valueAt expression = .error cause := by
  cases h with
  | nothing hresults => simp only [valueAt, hresults]
  | malformed hresults hparse =>
    simp only [valueAt, hresults, Path.localize_eq_error_iff.2 (.inl hparse)]
  | elsewhere hresults hparse helsewhere =>
    simp only [valueAt, hresults,
      Path.localize_eq_error_iff.2 (.inr ⟨_, _, _, _, hparse, helsewhere, rfl⟩)]
  | unresolvable hresults hlocal hresolve => simp only [valueAt, hresults, hlocal, hresolve]
  | unfinished hresults hlocal hparse hnode hstatus =>
    have hresolve := Result.resolve_eq_ok_iff.2 ⟨_, hparse, hnode⟩
    simp only [List.mem_cons, List.not_mem_nil, or_false] at hstatus
    rcases hstatus with hstatus | hstatus
    · simp only [valueAt, hresults, hlocal, hresolve, Result.available, hstatus]
    · simp only [valueAt, hresults, hlocal, hresolve, Result.available, hstatus]
  | unsuccessful hresults hlocal hparse hnode hstatus =>
    have hresolve := Result.resolve_eq_ok_iff.2 ⟨_, hparse, hnode⟩
    simp only [List.mem_cons, List.not_mem_nil, or_false] at hstatus
    rcases hstatus with hstatus | hstatus | hstatus
    · simp only [valueAt, hresults, hlocal, hresolve, Result.available, hstatus]
    · simp only [valueAt, hresults, hlocal, hresolve, Result.available, hstatus]
    · simp only [valueAt, hresults, hlocal, hresolve, Result.available, hstatus]

/-- An expression has a value, or there is a cause that it has none. -/
theorem exposes_or_withholds (s : Surroundings) (expression : String) :
    (∃ v, s.Exposes expression v) ∨ ∃ cause, s.Withholds expression cause := by
  cases hresults : s.results with
  | none => exact .inr ⟨_, .nothing hresults⟩
  | some results =>
    cases hlocal : Path.localize expression s.instances with
    | error e =>
      rcases Path.localize_eq_error_iff.1 hlocal with
        hparse | ⟨segments, segment, position, current, hparse, helsewhere, rfl⟩
      · exact .inr ⟨_, .malformed hresults hparse⟩
      · exact .inr ⟨_, .elsewhere hresults hparse helsewhere⟩
    | ok path =>
      cases hresolve : results.resolve path with
      | error e => exact .inr ⟨_, .unresolvable hresults hlocal hresolve⟩
      | ok target =>
        obtain ⟨segments, hparse, haddresses⟩ := Result.resolve_eq_ok_iff.1 hresolve
        cases target with
        | value w =>
          exact .inl ⟨w, results, path, segments, _, hresults, hlocal, hparse, haddresses, rfl⟩
        | node n =>
          cases hstatus : n.status with
          | succeeded =>
            exact .inl ⟨n.entry.output, results, path, segments, _, hresults, hlocal, hparse,
              haddresses, hstatus, rfl⟩
          | pending | running =>
            exact .inr ⟨_, .unfinished hresults hlocal hparse haddresses (by simp [hstatus])⟩
          | failed | skipped | cancelled =>
            exact .inr ⟨_, .unsuccessful hresults hlocal hparse haddresses (by simp [hstatus])⟩

/-- Every cause is about the expression. -/
theorem Withholds.about (h : s.Withholds expression cause) :
    cause.aboutVariable = none ∧ cause.aboutPath = some expression := by
  cases h <;> exact ⟨rfl, rfl⟩

end Surroundings

/-! ## Path bindings -/

/-- What becomes of a path binding. -/
structure Binding.Exposure (s : Surroundings) (input : Option String) (expression : String) : Prop where
  /-- It has a value if and only if the expression exposes it. -/
  value_iff : ∀ v, (Binding.path expression).evaluate s input = .ok v ↔ s.Exposes expression v
  /-- It is refused for exactly the causes that withhold a value. -/
  cause_iff : ∀ e, (Binding.path expression).evaluate s input = .error e ↔
    ∃ cause, s.Withholds expression cause ∧ e = ⟨input, cause⟩
  /-- Wherever no value is exposed it is refused. -/
  refused : (¬ ∃ v, s.Exposes expression v) →
    ∃ e, (Binding.path expression).evaluate s input = .error e
  /-- What is recorded of the error names the input, if it has a name, and the expression. -/
  named : ∀ e, (Binding.path expression).evaluate s input = .error e →
    e.toFailure.kind = .binding ∧ e.toFailure.details =
      (input.toList.map fun name => ("input", Value.string name)) ++ [("path", .string expression)]

/-- Whatever the results, the running instances and the expression, a path binding has the output of the
node that has succeeded or the input of the step that the expression leads to, and is refused by an
error that names its input and its expression in every other case. -/
theorem Binding.exposure_evaluate (s : Surroundings) (input : Option String) (expression : String) :
    Binding.Exposure s input expression := by
  have hvalue {v : Value} (h : s.Exposes expression v) :
      (Binding.path expression).evaluate s input = .ok v := by
    simp only [Binding.evaluate, Surroundings.valueAt_of_exposes h]
  have hcause {cause : BindingCause} (h : s.Withholds expression cause) :
      (Binding.path expression).evaluate s input = .error ⟨input, cause⟩ := by
    simp only [Binding.evaluate, Surroundings.valueAt_of_withholds h]
  have herror {e : BindingError} (h : (Binding.path expression).evaluate s input = .error e) :
      ∃ cause, s.Withholds expression cause ∧ e = ⟨input, cause⟩ := by
    rcases s.exposes_or_withholds expression with ⟨v, hexposes⟩ | ⟨cause, hwithholds⟩
    · rw [hvalue hexposes] at h
      cases h
    · rw [hcause hwithholds] at h
      exact ⟨cause, hwithholds, (Except.error.inj h).symm⟩
  refine ⟨fun v => ⟨?_, hvalue⟩, fun e => ⟨herror, ?_⟩, ?_, ?_⟩
  · intro h
    rcases s.exposes_or_withholds expression with ⟨w, hexposes⟩ | ⟨cause, hwithholds⟩
    · rw [hvalue hexposes, Except.ok.injEq] at h
      exact h ▸ hexposes
    · rw [hcause hwithholds] at h
      cases h
  · rintro ⟨cause, hwithholds, rfl⟩
    exact hcause hwithholds
  · intro hnone
    rcases s.exposes_or_withholds expression with hexposes | ⟨cause, hwithholds⟩
    · exact absurd hexposes hnone
    · exact ⟨_, hcause hwithholds⟩
  · intro e h
    obtain ⟨cause, hwithholds, rfl⟩ := herror h
    obtain ⟨hvariable, hpath⟩ := hwithholds.about
    refine ⟨rfl, ?_⟩
    cases input with
    | none => simp [BindingError.toFailure, BindingError.detailsOf, hvariable, hpath, Fields.set]
    | some name => simp [BindingError.toFailure, BindingError.detailsOf, hvariable, hpath, Fields.set]

end Workflow
