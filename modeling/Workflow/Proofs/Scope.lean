import Workflow.Proofs.Mirror
import Workflow.Proofs.Run.Sight

/-!
# What names stand for

A loop names its item and its index for what lies in its body, and a container its inputs for its
condition or source and for what lies below it. A name stands for what the innermost of the constructs
around gives it, and else for a variable of the run.

* `Surroundings.Denotes` says that a name stands for a value, and `Surroundings.Leaves` that it is left
  to the variables of the run.
* `State.Given` says which values a construct has for its names, and `State.Binds` what a name stands for
  in one of its children.
* `State.get?_scope` says what is in the scope of the nodes of a run.
* `Setup.scoped_of_execute` says what names stand for in every run.
-/

namespace Workflow

/-! ## Names in bindings -/

namespace Surroundings

variable {s : Surroundings} {name : String} {v : Value}

/-- What bindings see once the inputs of a container have their values. -/
def within (s : Surroundings) (bound : Fields Value) : Surroundings :=
  { s with scope := Fields.update s.scope bound }

/-- The name stands for the value: a variable has it, and its text takes the place of a placeholder. -/
structure Denotes (s : Surroundings) (name : String) (v : Value) : Prop where
  value : ∀ input, (Binding.variable name).evaluate s input = .ok v
  placeholder : ∀ input, Template.renderPiece s.vars s.scope input (.placeholder name.toList) =
    .ok (Template.valueText v).toList

/-- The name stands for what it stands for among the variables alone. -/
structure Leaves (s : Surroundings) (vars : Variables) (name : String) : Prop where
  value : ∀ input, (Binding.variable name).evaluate s input = vars.lookup name input
  placeholder : ∀ input, Template.renderPiece s.vars s.scope input (.placeholder name.toList) =
    Template.renderPiece vars [] input (.placeholder name.toList)

theorem denotes_of_get? (h : Fields.get? s.scope name = some v) : s.Denotes name v where
  value input := by rw [Binding.evaluate, Template.lookup, h]
  placeholder input := by
    rw [Template.renderPiece, String.ofList_toList, Fields.has, Template.lookup, h]
    rfl

theorem leaves_of_get? (h : Fields.get? s.scope name = none) : s.Leaves s.vars name where
  value input := by rw [Binding.evaluate, Template.lookup, h]
  placeholder input := by
    rw [Template.renderPiece, Template.renderPiece, String.ofList_toList, Fields.has,
      Template.lookup, Template.lookup, h]
    rfl

theorem get?_within (s : Surroundings) (bound : Fields Value) (name : String) :
    Fields.get? (s.within bound).scope name =
      (Fields.get? (Fields.ofList bound) name).or (Fields.get? s.scope name) := by
  rw [within, Fields.get?_update, Fields.get?_ofList]

end Surroundings

/-- The name is that of a loop's item or index. No index has the empty name. -/
def Work.OwnName (work : Work) (name : String) : Prop :=
  ∃ source itemName indexName limit, work = .loop source itemName indexName limit ∧
    (itemName = name ∨ (indexName = some name ∧ name ≠ ""))

/-- An item that has the name of the index is not to be had. -/
theorem Work.get?_instanceNames (work : Work) (elements : List Value) (i : Nat) (name : String) :
    Fields.get? (Fields.ofList (work.instanceNames elements i)) name =
      match work with
      | .loop _ itemName indexName _ =>
        if indexName = some name ∧ name ≠ "" then some (.nat i)
        else if itemName = name then some (elements[i]?.getD .null)
        else none
      | _ => none := by
  rw [Fields.get?_ofList]
  cases work with
  | loop source itemName indexName limit =>
    cases indexName with
    | none => simp [instanceNames, Fields.get?_cons]
    | some index =>
      by_cases hempty : index = ""
      · have hnot : ¬ (some index = some name ∧ name ≠ "") := fun h =>
          h.2 (hempty ▸ (Option.some.inj h.1).symm)
        simp only [if_neg hnot]
        simp [instanceNames, hempty, Fields.get?_cons]
      · have hindex : (some index = some name ∧ name ≠ "") ↔ index = name := by
          rw [Option.some.injEq, and_iff_left_iff_imp]
          rintro rfl
          exact hempty
        simp only [hindex]
        by_cases hsame : itemName = index
        · subst hsame
          simp only [instanceNames, Fields.set, String.isEmpty_iff, hempty, if_true, if_false]
          by_cases hname : itemName = name <;> simp [Fields.get?_cons, hname]
        · simp [instanceNames, hempty, hsame, Fields.set, Fields.get?_cons]
  | _ => rfl

theorem Work.get?_instanceNames_eq_none {work : Work} {name : String} (h : ¬ work.OwnName name)
    (elements : List Value) (i : Nat) :
    Fields.get? (Fields.ofList (work.instanceNames elements i)) name = none := by
  rw [get?_instanceNames]
  cases work with
  | loop source itemName indexName limit =>
    simp only
    rw [if_neg fun hindex => h ⟨_, _, _, _, rfl, .inr hindex⟩,
      if_neg fun hitem => h ⟨_, _, _, _, rfl, .inl hitem⟩]
  | _ => rfl

namespace State

variable {setup : Setup} {tree : Node} {s t : State} {a c : Address} {job : Job} {frame : Frame}
  {i n m : Nat} {name : String} {v : Value}

/-! ## Turns of nodes that start -/

/-- That the end of the run has been asked for, and that a race has been won, lasts. -/
theorem Reached.over_runWithin (h : Reached setup tree s none) (htree : tree.Sound) (a : Address)
    (steps : Nat) :
    (s.cancelled = true → (s.runWithin setup steps).cancelled = true) ∧
      (s.Halted a → (s.runWithin setup steps).Halted a) := by
  refine h.runWithin_induction (P := fun u => (s.cancelled = true → u.cancelled = true) ∧
    (s.Halted a → u.Halted a)) htree ⟨id, id⟩ (fun u v hu hstep hbefore => ?_) steps
  exact hu.changes_induction (P := fun w _ => (s.cancelled = true → w.cancelled = true) ∧
    (s.Halted a → w.Halted a)) (hu.step htree hstep) hbefore fun _ _ _ _ hw hchange hsofar =>
      ⟨fun hs => hchange.cancelled (hsofar.1 hs),
        fun hs => (hsofar.2 hs).change hchange (hw.shape htree)⟩

/-- The turn of a node that starts does not come at another point of the run. -/
theorem Starts.eq_of_turn (h : Starts setup tree a m) (htree : tree.Sound)
    (hturn : Turn setup tree a n) : n = m := by
  rcases Nat.lt_trichotomy n m with hlt | heq | hlt
  · -- what kept the node from starting would do so later
    obtain ⟨more, rfl⟩ := Nat.exists_eq_add_of_le hlt.le
    have hover := (reached_runWithin setup htree n).over_runWithin htree a more
    rw [← runWithin_add, h.cancelled] at hover
    exact (h.eq ⟨hturn, by simpa using mt hover.1, fun hhalted => h.halted (hover.2 hhalted)⟩
      htree)
  · exact heq
  · obtain ⟨_, _, _, hentering⟩ := h.entering htree
    obtain ⟨job, hjob, hnot⟩ := hentering.not_pending_later htree hlt
    obtain ⟨rest, hagenda⟩ := hturn
    obtain ⟨_, _, _, hjob', hpending⟩ :=
      (reached_runWithin setup htree n).pending_of_enter htree hagenda
    rw [hjob, Option.some.injEq] at hjob'
    exact absurd (hjob' ▸ hpending) hnot

/-- A container that runs later has opened as it was to when it started. -/
theorem Starts.fits (h : Starts setup tree c m) (htree : tree.Sound)
    (hjob : ((start setup tree).runWithin setup n).jobAt c = some job)
    (hrun : job.status = .running) (hkind : job.node.kind ≠ .step) :
    (((start setup tree).runWithin setup m).openingAt setup c).Fits
      ((start setup tree).runWithin setup n) c job := by
  have hlived := ((reached_runWithin setup htree n).chronicle htree).node c job hjob
  obtain ⟨x, _, _, _, hstarted, _⟩ := hlived.of_running hrun
  cases (past_runWithin setup htree n .call).opened c job hjob (by rw [hstarted]; rfl) hkind with
  | opening hhand => cases hhand
  | refused _ hfailed =>
    rw [hrun] at hfailed
    cases hfailed
  | fits hopens hfits =>
    obtain ⟨steps, rest, hagenda, ho⟩ := hopens
    obtain rfl := h.eq_of_turn htree ⟨rest, hagenda⟩
    rwa [ho]

/-! ## What constructs are given -/

/-- When the construct at an address starts, its inputs are given the values, and its source, if it is a
loop, is evaluated to the list of elements. -/
structure Given (setup : Setup) (tree : Node) (c : Address) (node : Node) (bound : Fields Value)
    (elements : List Value) : Prop where
  at? : tree.at? (tree.placeOf c) = some node
  starts : ∃ m, Starts setup tree c m ∧
    bindInputs (((start setup tree).runWithin setup m).viewAt setup c) node.header.inputs =
      .ok bound ∧
    ∀ source itemName indexName limit, node.work = .loop source itemName indexName limit →
      source.evaluate ((((start setup tree).runWithin setup m).viewAt setup c).within bound)
        (some "source") = .ok (.array elements)

/-- What a name stands for in child `i` of a construct, as far as the construct decides it. -/
inductive Binds (setup : Setup) (tree : Node) (c : Address) (i : Nat) (name : String) : Value → Prop
  /-- A loop names the index of the instance. -/
  | index {node : Node} {bound : Fields Value} {elements : List Value} {source : Binding}
    {itemName : String} {limit : Option Nat} : Given setup tree c node bound elements →
    node.work = .loop source itemName (some name) limit → name ≠ "" →
    Binds setup tree c i name (.nat i)
  /-- A loop names the element of the instance, unless the name is that of the index. -/
  | item {node : Node} {bound : Fields Value} {elements : List Value} {source : Binding}
    {indexName : Option String} {limit : Option Nat} {v : Value} :
    Given setup tree c node bound elements → node.work = .loop source name indexName limit →
    (indexName = some name → name = "") → elements[i]? = some v → Binds setup tree c i name v
  /-- A container names its inputs, unless the name is one of the two of a loop. -/
  | input {node : Node} {bound : Fields Value} {elements : List Value} {v : Value} :
    Given setup tree c node bound elements → ¬ node.work.OwnName name →
    Fields.get? (Fields.ofList bound) name = some v → Binds setup tree c i name v

theorem Given.unique {node node' : Node} {bound bound' : Fields Value}
    {elements elements' : List Value} (h : Given setup tree c node bound elements)
    (h' : Given setup tree c node' bound' elements') (htree : tree.Sound) :
    node' = node ∧ bound' = bound ∧ (node.kind = .loop → elements' = elements) := by
  obtain ⟨hat, m, hstarts, hbound, helements⟩ := h
  obtain ⟨hat', m', hstarts', hbound', helements'⟩ := h'
  obtain rfl := hstarts.eq hstarts' htree
  rw [hat, Option.some.injEq] at hat'
  subst hat'
  rw [hbound, Except.ok.injEq] at hbound'
  subst hbound'
  refine ⟨rfl, rfl, fun hkind => ?_⟩
  cases hwork : node.work with
  | loop source itemName indexName limit =>
    have hsource := helements source itemName indexName limit hwork
    rw [helements' source itemName indexName limit hwork, Except.ok.injEq, Value.array.injEq] at hsource
    exact hsource
  | _ => rw [Node.kind, hwork] at hkind; cases hkind

/-- A name stands for the index, the item or an input, in this order. -/
theorem Given.binds_iff {node : Node} {bound : Fields Value} {elements : List Value}
    (h : Given setup tree c node bound elements) (htree : tree.Sound)
    (hi : node.kind = .loop → i < elements.length) : Binds setup tree c i name v ↔
      (Fields.get? (Fields.ofList (node.work.instanceNames elements i)) name).or
        (Fields.get? (Fields.ofList bound) name) = some v := by
  constructor
  · intro hbinds
    cases hbinds with
    | index hgiven hwork hname =>
      obtain ⟨rfl, rfl, _⟩ := hgiven.unique h htree
      rw [Work.get?_instanceNames, hwork]
      simp [hname]
    | @item _ _ _ _ indexName _ _ hgiven hwork hindex hitem =>
      obtain ⟨rfl, rfl, helements⟩ := hgiven.unique h htree
      obtain rfl := helements (by rw [Node.kind, hwork]; rfl)
      have hnot : ¬ (indexName = some name ∧ name ≠ "") := fun hboth => hboth.2 (hindex hboth.1)
      rw [Work.get?_instanceNames, hwork]
      simp only [if_neg hnot, if_true, hitem]
      rfl
    | input hgiven hown hinput =>
      obtain ⟨rfl, rfl, _⟩ := hgiven.unique h htree
      rw [Work.get?_instanceNames_eq_none hown, hinput]
      rfl
  · intro hget
    by_cases hown : node.work.OwnName name
    · obtain ⟨source, itemName, indexName, limit, hwork, hnames⟩ := hown
      rw [Work.get?_instanceNames, hwork] at hget
      simp only at hget
      split at hget
      · rename_i hindex
        obtain rfl : Value.nat i = v := by simpa using hget
        obtain ⟨rfl, hname⟩ := hindex
        exact .index h hwork hname
      · rename_i hindex
        obtain rfl : itemName = name := hnames.resolve_right hindex
        have hlt := hi (by rw [Node.kind, hwork]; rfl)
        obtain rfl : elements[i] = v := by simpa [List.getElem?_eq_getElem hlt] using hget
        refine .item h hwork (fun hsome => ?_) (List.getElem?_eq_getElem hlt)
        by_contra hname
        exact hindex ⟨hsome, hname⟩
    · rw [Work.get?_instanceNames_eq_none hown, Option.none_or] at hget
      exact .input h hown hget

/-! ## The scope of nodes -/

/-- The innermost construct around an address that decides what a name stands for. -/
def Nearest (setup : Setup) (tree : Node) (a : Address) (name : String) (v : Value) : Prop :=
  ∃ c i, c ++ [i] <+: a ∧ Binds setup tree c i name v ∧
    ∀ d j w, c ++ [i] <+: d → d ++ [j] <+: a → ¬ Binds setup tree d j name w

theorem not_nearest_nil : ¬ Nearest setup tree [] name v := by
  rintro ⟨c, i, hprefix, _⟩
  simp at hprefix

/-- The construct right above an address comes first. -/
theorem nearest_concat_iff : Nearest setup tree (a ++ [i]) name v ↔ Binds setup tree a i name v ∨
    (∀ w, ¬ Binds setup tree a i name w) ∧ Nearest setup tree a name v := by
  have hwithin (c : Address) (j : Nat) :
      c ++ [j] <+: a ++ [i] ↔ (c = a ∧ j = i) ∨ c ++ [j] <+: a := by
    rw [List.prefix_concat_iff, List.append_singleton_inj]
  constructor
  · rintro ⟨c, j, hprefix, hbinds, hnone⟩
    rcases (hwithin c j).1 hprefix with ⟨rfl, rfl⟩ | hprefix
    · exact .inl hbinds
    · refine .inr ⟨fun w => hnone a i w hprefix List.prefix_rfl, c, j, hprefix, hbinds, ?_⟩
      exact fun d k w hd hdk => hnone d k w hd ((hwithin d k).2 (.inr hdk))
  · rintro (hbinds | ⟨hnone, c, j, hprefix, hbinds, hnearest⟩)
    · refine ⟨a, i, List.prefix_rfl, hbinds, fun d k w hd hdk => ?_⟩
      have hlength := hd.length_le.trans_lt
        (show d.length < (d ++ [k]).length by simp) |>.trans_le hdk.length_le
      exact absurd hlength (lt_irrefl _)
    · refine ⟨c, j, (hwithin c j).2 (.inr hprefix), hbinds, fun d k w hd hdk => ?_⟩
      rcases (hwithin d k).1 hdk with ⟨rfl, rfl⟩ | hdk
      · exact hnone w
      · exact hnearest d k w hd hdk

/-- A container that is not refused evaluates its source with its inputs in scope. -/
theorem Entering.source_of_openingAt {kids : List Live} {rest : List Task} {bound : Fields Value}
    {elements : List Value} {source : Binding} {itemName : String} {indexName : Option String}
    {limit : Option Nat} (h : Entering setup tree s a job kids rest)
    (hbound : bindInputs (s.viewAt setup a) job.node.header.inputs = .ok bound)
    (hwork : job.node.work = .loop source itemName indexName limit)
    (ho : s.openingAt setup a = .items elements) :
    source.evaluate ((s.viewAt setup a).within bound) (some "source") = .ok (.array elements) := by
  rw [viewAt] at hbound
  rw [openingAt, h.kids] at ho
  simp only [opening, hbound, hwork] at ho
  rw [loopOpening] at ho
  split at ho
  · cases ho
  · rename_i hsource
    cases ho
    exact hsource
  · cases ho

theorem Entering.condition_of_openingAt {kids : List Live} {rest : List Task}
    {bound : Fields Value} {k : Nat} {condition : Binding} {cases_ : List Value}
    (h : Entering setup tree s a job kids rest)
    (hbound : bindInputs (s.viewAt setup a) job.node.header.inputs = .ok bound)
    (hwork : job.node.work = .branch condition cases_) (ho : s.openingAt setup a = .chosen k) :
    ∃ v, condition.evaluate ((s.viewAt setup a).within bound) (some "condition") = .ok v ∧
      k = cases_.findIdx fun case_ => matchesCase case_ v := by
  rw [viewAt] at hbound
  rw [openingAt, h.kids] at ho
  simp only [opening, hbound, hwork] at ho
  rw [branchOpening] at ho
  split at ho
  · cases ho
  · rename_i v hcondition
    simp only at ho
    split at ho
    · cases ho
      exact ⟨v, hcondition, rfl⟩
    · cases ho

/-- What a node that is active lies in is there. -/
theorem exists_jobAt_of_active {b : Address} (htree : tree.Sound)
    (hactive : Active ((start setup tree).runWithin setup n) none b) (hwithin : a <+: b) :
    ∃ job, ((start setup tree).runWithin setup n).jobAt a = some job := by
  obtain ⟨d, rfl⟩ := hwithin
  obtain ⟨below, hbelow⟩ :=
    ((reached_runWithin setup htree n).control htree).exists_of_active hactive
  exact jobAt_of_append hbelow

/-- A construct around a node that is active is a container that runs and has the child. -/
theorem running_of_active {b : Address} (htree : tree.Sound)
    (hactive : Active ((start setup tree).runWithin setup n) none b) (hwithin : c ++ [i] <+: b) :
    ∃ job frame, ((start setup tree).runWithin setup n).jobAt c = some job ∧
      job.frame? = some frame ∧ job.status = .running ∧ job.node.kind ≠ .step ∧ i < job.arity := by
  have hreached := reached_runWithin setup htree n
  have hcontrol := hreached.control htree
  have hshape := hreached.shape htree
  obtain ⟨kid, hkid⟩ := exists_jobAt_of_active htree hactive hwithin
  obtain ⟨d, rfl⟩ := hwithin
  rw [List.append_assoc] at hactive
  obtain ⟨job, hjob, hrun, _⟩ := hcontrol.above (List.cons_ne_nil i d) hactive
  obtain ⟨job', frame, hjob', hframe⟩ := hreached.inside htree hactive c i d rfl
  rw [hjob, Option.some.injEq] at hjob'
  subst hjob'
  have hlt := hshape.lt_arity hjob hkid
  exact ⟨job, frame, hjob, hframe, hrun, hshape.kind_ne_step hjob hlt, hlt⟩

/-- What a node has after its turn it keeps. -/
theorem Entering.keeps_later {old : Job} {kids : List Live} {rest : List Task} {more : Nat}
    (h : Entering setup tree ((start setup tree).runWithin setup n) a old kids rest)
    (htree : tree.Sound)
    (hjob : (((start setup tree).runWithin setup (n + 1)).runWithin setup more).jobAt a = some job) :
    ∃ new, (({ (start setup tree).runWithin setup n with agenda := rest } : State).enter
      setup a).jobAt a = some new ∧ new.Keeps job := by
  obtain ⟨new, hnew, hnot⟩ := h.not_pending_later htree (Nat.lt_succ_self n)
  obtain ⟨job', hjob', _, hkeeps⟩ :=
    (reached_runWithin setup htree (n + 1)).keeps_runWithin htree hnew hnot more
  rw [hjob, Option.some.injEq] at hjob'
  subst hjob'
  rw [h.runWithin_succ htree] at hnew
  exact ⟨new, hnew, hkeeps⟩

/-- A construct around a node that is active has started, has been given its values, and keeps them. -/
theorem exists_given {b : Address} (htree : tree.Sound)
    (hactive : Active ((start setup tree).runWithin setup n) none b) (hwithin : c ++ [i] <+: b) :
    ∃ job frame m bound, ((start setup tree).runWithin setup n).jobAt c = some job ∧
      job.frame? = some frame ∧ Starts setup tree c m ∧
      bindInputs (((start setup tree).runWithin setup m).viewAt setup c) job.node.header.inputs =
        .ok bound ∧
      frame.notes =
        (bound, (((start setup tree).runWithin setup m).openingAt setup c).source) ∧
      (((start setup tree).runWithin setup m).openingAt setup c).Fits
        ((start setup tree).runWithin setup n) c job ∧ i < job.arity := by
  have hreached := reached_runWithin setup htree n
  obtain ⟨job, frame, hjob, hframe, hrun, hkind, hlt⟩ := running_of_active htree hactive hwithin
  obtain ⟨x, _, _, _, hstarted, _⟩ := ((hreached.chronicle htree).node c job hjob).of_running hrun
  obtain ⟨m, old, kids, rest, hm, hentering⟩ :=
    exists_entering_of_started htree n hjob (by rw [hstarted]; rfl)
  have hstarts : Starts setup tree c m :=
    ⟨⟨rest, hentering.agenda⟩, hentering.cancelled, hentering.halted⟩
  have hfits := hstarts.fits htree hjob hrun hkind
  have hnode := (hentering.reached.shape htree).node_eq (hreached.shape htree) hentering.jobAt hjob
  obtain ⟨bound, hbound⟩ := hentering.exists_bound fun failure hrefused => by
    rw [hrefused] at hfits
    exact hfits
  -- what the construct knows after its turn it knows later
  obtain ⟨new, frame', hnew, hframe', hnotes⟩ :=
    exists_of_notesAt (hentering.notesAt htree (hnode ▸ hkind) hbound)
  obtain ⟨more, rfl⟩ := Nat.exists_eq_add_of_lt hm
  have hlater := hjob
  rw [Nat.add_right_comm, runWithin_add] at hlater
  obtain ⟨new', hnew', hkeeps⟩ := hentering.keeps_later htree hlater
  rw [hnew, Option.some.injEq] at hnew'
  subst hnew'
  obtain ⟨frame'', hframe'', hsame⟩ := hkeeps.notes frame' hframe'
  rw [hframe, Option.some.injEq] at hframe''
  subst hframe''
  exact ⟨job, frame, m, bound, hjob, hframe, hstarts, hnode ▸ hbound, hsame.trans hnotes, hfits, hlt⟩

/-- What the construct knows is what it has been given. -/
theorem given_of_active {b : Address} (htree : tree.Sound)
    (hactive : Active ((start setup tree).runWithin setup n) none b) (hwithin : c ++ [i] <+: b) :
    ∃ job frame, ((start setup tree).runWithin setup n).jobAt c = some job ∧
      job.frame? = some frame ∧ Given setup tree c job.node frame.bound frame.source ∧
      (job.node.kind = .loop → i < frame.source.length) := by
  obtain ⟨job, frame, m, bound, hjob, hframe, hstarts, hbound, hnotes, hfits, hlt⟩ :=
    exists_given htree hactive hwithin
  obtain ⟨hframeBound, hframeSource⟩ := Prod.mk.inj hnotes
  obtain ⟨old, kids, rest, hentering⟩ := hstarts.entering htree
  have hshape := (reached_runWithin setup htree n).shape htree
  have hnode := (hentering.reached.shape htree).node_eq hshape hentering.jobAt hjob
  have hitems (hkind : job.node.kind = .loop) :
      ((start setup tree).runWithin setup m).openingAt setup c = .items frame.source ∧
        job.arity = frame.source.length := by
    rw [hframeSource]
    cases ho : ((start setup tree).runWithin setup m).openingAt setup c with
    | refused failure => rw [ho] at hfits; exact hfits.elim
    | all => rw [ho] at hfits; exact absurd hkind hfits.2
    | chosen k => rw [ho] at hfits; exact nomatch hkind.symm.trans hfits.1
    | items elements => rw [ho] at hfits; exact ⟨rfl, hfits.2⟩
  refine ⟨job, frame, hjob, hframe, ⟨hshape.at?_placeOf hjob, m, hstarts, hframeBound ▸ hbound,
    fun source itemName indexName limit hwork => ?_⟩, fun hkind => (hitems hkind).2 ▸ hlt⟩
  rw [hnode] at hbound hwork
  rw [hframeBound]
  exact hentering.source_of_openingAt hbound hwork
    (hitems (by rw [hnode, Node.kind, hwork]; rfl)).1

/-- In the scope of a node stands what the nearest construct around it decides. -/
theorem get?_scope (htree : tree.Sound) {d : Address}
    (hactive : Active ((start setup tree).runWithin setup n) none (a ++ d)) :
    Fields.get? (((start setup tree).runWithin setup n).root.contextAt a).scope name = some v ↔
      Nearest setup tree a name v := by
  induction a using List.reverseRecOn generalizing d v with
  | nil => exact iff_of_false nofun not_nearest_nil
  | append_singleton a i ih =>
    obtain ⟨job, frame, hjob, hframe, hgiven, hi⟩ :=
      given_of_active htree hactive (List.prefix_append (a ++ [i]) d)
    obtain ⟨kid, hkid⟩ := exists_jobAt_of_active htree hactive (List.prefix_append (a ++ [i]) d)
    rw [List.append_assoc] at hactive
    have hscope : (((start setup tree).runWithin setup n).root.contextAt (a ++ [i])).scope =
        Fields.update (Fields.update
          (((start setup tree).runWithin setup n).root.contextAt a).scope frame.bound)
          (job.node.work.instanceNames frame.source i) := by
      rw [Live.contextAt_concat hjob hkid, Context.below, hframe]
      rfl
    simp only [hscope, Fields.get?_update, ← Fields.get?_ofList]
    rw [← Option.or_assoc, Option.or_eq_some_iff, ih hactive, nearest_concat_iff,
      hgiven.binds_iff htree hi]
    simp only [hgiven.binds_iff htree hi, ← Option.eq_none_iff_forall_ne_some]

/-- What a node that starts lies in is not left out. -/
theorem not_skipped_of_active {b : Address} {kids : List Live} {rest : List Task}
    (htree : tree.Sound)
    (h : Entering setup tree ((start setup tree).runWithin setup n) b job kids rest)
    (hwithin : c ++ [i] <+: b) :
    ((start setup tree).runWithin setup n).statusAt (c ++ [i]) ≠ some .skipped := by
  obtain ⟨d, rfl⟩ := hwithin
  cases d with
  | nil =>
    rw [List.append_nil] at h
    rw [statusAt_of_jobAt h.jobAt, h.pending]
    decide
  | cons j d =>
    obtain ⟨above, habove, hrun, _⟩ :=
      (h.reached.control htree).above (List.cons_ne_nil j d) h.active
    rw [statusAt_of_jobAt habove, hrun]
    decide

/-! ## What names stand for in a run -/

/-- In the surroundings the name stands for what the innermost construct around the address decides, or
for what it stands for among the variables of the run if none decides. -/
structure Sees (setup : Setup) (tree : Node) (a : Address) (r : Surroundings) (name : String) : Prop where
  bound : ∀ c i v, c ++ [i] <+: a → Binds setup tree c i name v →
    (∀ d j w, c ++ [i] <+: d → d ++ [j] <+: a → ¬ Binds setup tree d j name w) → r.Denotes name v
  free : (∀ c i v, c ++ [i] <+: a → ¬ Binds setup tree c i name v) → r.Leaves setup.vars name

theorem sees_of_scope {r : Surroundings} (hvars : r.vars = setup.vars)
    (hscope : ∀ v, Fields.get? r.scope name = some v ↔ Nearest setup tree a name v) :
    Sees setup tree a r name where
  bound c i v hwithin hbinds hnone :=
    Surroundings.denotes_of_get? ((hscope v).2 ⟨c, i, hwithin, hbinds, hnone⟩)
  free hnone := by
    rw [← hvars]
    refine Surroundings.leaves_of_get? (Option.eq_none_iff_forall_ne_some.2 fun v hget => ?_)
    obtain ⟨c, i, hwithin, hbinds, _⟩ := (hscope v).1 hget
    exact hnone c i v hwithin hbinds

theorem Starts.get?_scope (h : Starts setup tree a n) (htree : tree.Sound) :
    Fields.get? (((start setup tree).runWithin setup n).viewAt setup a).scope name = some v ↔
      Nearest setup tree a name v := by
  obtain ⟨_, _, _, hentering⟩ := h.entering htree
  exact State.get?_scope (d := []) htree (by rw [List.append_nil]; exact hentering.active)

/-- Names stand for what they are to stand for in the run of the tree that ends in the state. -/
structure Scoped (setup : Setup) (tree : Node) (s : State) : Prop where
  /-- The constructs around a node that starts have values for their names, and every instance of a loop
  has an element. -/
  given : ∀ a n c i, Starts setup tree a n → c ++ [i] <+: a → ∃ node bound elements,
    Given setup tree c node bound elements ∧ (node.kind = .loop → i < elements.length)
  /-- What a branch runs is chosen by its condition, with the inputs of the branch in scope. -/
  chosen : ∀ a n c i node condition cases, Starts setup tree a n → c ++ [i] <+: a →
    tree.at? (tree.placeOf c) = some node → node.work = .branch condition cases →
    ∃ m bound v, Starts setup tree c m ∧
      bindInputs (((start setup tree).runWithin setup m).viewAt setup c) node.header.inputs =
        .ok bound ∧
      condition.evaluate ((((start setup tree).runWithin setup m).viewAt setup c).within bound)
        (some "condition") = .ok v ∧ i = cases.findIdx fun case_ => matchesCase case_ v
  /-- The inputs of a node see the names of the constructs around it. -/
  inputs : ∀ a n name, Starts setup tree a n →
    Sees setup tree a (((start setup tree).runWithin setup n).viewAt setup a) name
  /-- The condition or source of a container sees its inputs as well, and these come first. -/
  own : ∀ a n node bound name, Starts setup tree a n → tree.at? (tree.placeOf a) = some node →
    bindInputs (((start setup tree).runWithin setup n).viewAt setup a) node.header.inputs =
      .ok bound →
    (∀ v, Fields.get? (Fields.ofList bound) name = some v →
      ((((start setup tree).runWithin setup n).viewAt setup a).within bound).Denotes name v) ∧
    (Fields.get? (Fields.ofList bound) name = none →
      Sees setup tree a ((((start setup tree).runWithin setup n).viewAt setup a).within bound) name)
  /-- The values of the inputs are what a step that is not taken over is recorded with. -/
  recorded : ∀ a n job inputs, Starts setup tree a n → s.jobAt a = some job →
    job.node.kind = .step → setup.recorded? job.entry = none →
    bindInputs (((start setup tree).runWithin setup n).viewAt setup a) job.node.header.inputs =
      .ok inputs → job.entry.inputs = inputs

/-- What a branch around a node that starts runs is chosen by its condition. -/
theorem Starts.chosen {node : Node} {condition : Binding} {cases : List Value}
    (h : Starts setup tree a n) (htree : tree.Sound) (hwithin : c ++ [i] <+: a)
    (hat : tree.at? (tree.placeOf c) = some node) (hwork : node.work = .branch condition cases) :
    ∃ m bound v, Starts setup tree c m ∧
      bindInputs (((start setup tree).runWithin setup m).viewAt setup c) node.header.inputs =
        .ok bound ∧
      condition.evaluate ((((start setup tree).runWithin setup m).viewAt setup c).within bound)
        (some "condition") = .ok v ∧ i = cases.findIdx fun case_ => matchesCase case_ v := by
  obtain ⟨_, _, _, hentering⟩ := h.entering htree
  obtain ⟨job, frame, m, bound, hjob, _, hbegan, hbound, _, hfits, hlt⟩ :=
    exists_given htree hentering.active hwithin
  obtain ⟨old, kids, rest, hcontainer⟩ := hbegan.entering htree
  have hshape := (reached_runWithin setup htree n).shape htree
  have hnode := (hcontainer.reached.shape htree).node_eq hshape hcontainer.jobAt hjob
  rw [hshape.at?_placeOf hjob, Option.some.injEq] at hat
  subst hat
  have hkind : job.node.kind = .branch := by rw [Node.kind, hwork]; rfl
  cases ho : ((State.start setup tree).runWithin setup m).openingAt setup c with
  | refused failure => rw [ho] at hfits; exact hfits.elim
  | all => rw [ho] at hfits; exact absurd hkind hfits.1
  | items elements =>
    rw [ho] at hfits
    have hloop : Kind.branch = Kind.loop := hkind.symm.trans hfits.1
    cases hloop
  | chosen k =>
    rw [ho] at hfits
    obtain rfl : i = k := by
      by_contra hne
      exact not_skipped_of_active htree hentering hwithin (hfits.2.2 i hlt hne)
    rw [hnode] at hbound hwork
    obtain ⟨v, hcondition, hi⟩ := hcontainer.condition_of_openingAt hbound hwork ho
    exact ⟨m, bound, v, hbegan, hnode ▸ hbound, hcondition, hi⟩

/-- A step that starts and is not taken over ends with the values of its inputs. -/
theorem Starts.recorded {inputs : Fields Value} (h : Starts setup tree a n)
    (hfinal : Final setup tree s) (hjob : s.jobAt a = some job) (hkind : job.node.kind = .step)
    (hrecorded : setup.recorded? job.entry = none)
    (hbound : bindInputs (((start setup tree).runWithin setup n).viewAt setup a)
      job.node.header.inputs = .ok inputs) : job.entry.inputs = inputs := by
  obtain ⟨old, kids, rest, hentering⟩ := h.entering hfinal.sound
  have hshape := hentering.reached.shape hfinal.sound
  have hnode := hshape.node_eq hfinal.shape hentering.jobAt hjob
  obtain ⟨agent, own, hwork⟩ := Work.exists_agent hkind
  rw [hnode] at hwork hbound
  obtain ⟨new, hnew, hbegun⟩ := hentering.begun hfinal.sound hwork
  obtain ⟨more, hmore⟩ := hfinal.exists_runWithin_eq (n + 1)
  obtain ⟨new', hnew', hkeeps⟩ := hentering.keeps_later hfinal.sound (hmore ▸ hjob)
  rw [hnew, Option.some.injEq] at hnew'
  subst hnew'
  cases hbegun with
  | ended hother =>
    rw [← hshape.recorded?_eq hfinal.shape setup hentering.jobAt hjob, hbound] at hother
    rcases hother with hother | ⟨_, hother⟩
    · exact absurd hrecorded hother
    · cases hother
  | calling _ hsame _ hinputs =>
    rw [hbound, Except.ok.injEq] at hsame
    rw [hkeeps.inputs, hinputs, hsame]

theorem Final.scoped (h : Final setup tree s) : Scoped setup tree s where
  given a n c i hstarts hwithin := by
    obtain ⟨_, _, _, hentering⟩ := hstarts.entering h.sound
    obtain ⟨job, frame, _, _, hgiven, hi⟩ := given_of_active h.sound hentering.active hwithin
    exact ⟨_, _, _, hgiven, hi⟩
  chosen a n c i node condition cases hstarts hwithin hat hwork :=
    hstarts.chosen h.sound hwithin hat hwork
  inputs a n name hstarts := sees_of_scope rfl fun v => hstarts.get?_scope h.sound
  own a n node bound name hstarts hat hbound := by
    have hget := Surroundings.get?_within
      (((start setup tree).runWithin setup n).viewAt setup a) bound name
    constructor
    · intro v hv
      rw [hv] at hget
      exact Surroundings.denotes_of_get? hget
    · intro hnone
      rw [hnone, Option.none_or] at hget
      refine sees_of_scope rfl fun v => ?_
      rw [hget]
      exact hstarts.get?_scope h.sound
  recorded a n job inputs hstarts hjob hkind hrecorded hbound :=
    hstarts.recorded h hjob hkind hrecorded hbound

end State

/-- In every run a name stands for what the innermost construct around decides: inside a loop's body for
the index of the instance if it is the name of the index, for the element of the instance if it is the
name of the item only, and below a container for the input of that name; a name that no construct around
decides stands for a variable of the run. The inputs of a container are seen by its condition or source,
and by nothing that does not lie below it. -/
theorem Setup.scoped_of_execute {setup : Setup} {tree : Node} {separator : String}
    {ids rest : IdSource} {s : State} (htree : tree.Sound)
    (h : setup.execute tree separator ids = .ok (s, rest)) :
    ∃ prepared, tree.prepare separator setup.previous ids = .ok (prepared, rest) ∧
      State.Scoped setup prepared s := by
  obtain ⟨prepared, hprepare, hfinal⟩ := execute_final htree h
  exact ⟨prepared, hprepare, hfinal.scoped⟩

/-- A loop in the body of another one is such a run. The step in its body starts as the third node. -/
theorem Setup.scoped_of_execute_loop : ∃ s rest prepared,
    ({ executor := Echo.executor } : Setup).execute
      (.mk {} (.loop (.literal (.array [.array [.string "x"]])) "row" (some "index") none)
        [.mk {} (.loop (.variable "row") "item" (some "index") none) [.mk {} (.step "a" none) []]])
      " > " .counting = .ok (s, rest) ∧ State.Scoped { executor := Echo.executor } prepared s ∧
    State.Starts { executor := Echo.executor } prepared [0, 0] 2 := by
  obtain ⟨s, rest, h⟩ : ∃ s rest, ({ executor := Echo.executor } : Setup).execute
      (.mk {} (.loop (.literal (.array [.array [.string "x"]])) "row" (some "index") none)
        [.mk {} (.loop (.variable "row") "item" (some "index") none) [.mk {} (.step "a" none) []]])
      " > " .counting = .ok (s, rest) := ⟨_, _, rfl⟩
  have hsound : (Node.mk {} (.loop (.literal (.array [.array [.string "x"]])) "row" (some "index") none)
      [.mk {} (.loop (.variable "row") "item" (some "index") none)
        [.mk {} (.step "a" none) []]]).Sound := by
    simp [Node.Sound, Node.walk, Node.walkList, Node.Fits, Node.work, Node.children, Work.limit]
  obtain ⟨prepared, hprepare, hscoped⟩ := scoped_of_execute hsound h
  refine ⟨s, rest, prepared, h, hscoped, ?_⟩
  clear hscoped h
  cases hprepare
  refine ⟨⟨_, rfl⟩, rfl, ?_⟩
  rw [← State.halted_iff rfl]
  exact Bool.false_ne_true

/-- A loop that gives its item the name of its index has an item that the name does not stand for in its
body: it stands for the index. -/
theorem Setup.exists_item_not_denoted : ∃ s rest prepared node bound elements,
    ({ executor := Echo.executor } : Setup).execute
      (.mk {} (.loop (.literal (.array [.string "x"])) "index" (some "index") none)
        [.mk { inputs := [("v", .variable "index")] } (.step "a" none) []])
      " > " .counting = .ok (s, rest) ∧
    State.Starts { executor := Echo.executor } prepared [0] 1 ∧
    State.Given { executor := Echo.executor } prepared [] node bound elements ∧
    node.work = .loop (.literal (.array [.string "x"])) "index" (some "index") none ∧
    elements[0]? = some (.string "x") ∧
    (((State.start { executor := Echo.executor } prepared).runWithin { executor := Echo.executor }
      1).viewAt { executor := Echo.executor } [0]).Denotes "index" (.nat 0) ∧
    ¬ (((State.start { executor := Echo.executor } prepared).runWithin { executor := Echo.executor }
      1).viewAt { executor := Echo.executor } [0]).Denotes "index" (.string "x") := by
  obtain ⟨s, rest, h⟩ : ∃ s rest, ({ executor := Echo.executor } : Setup).execute
      (.mk {} (.loop (.literal (.array [.string "x"])) "index" (some "index") none)
        [.mk { inputs := [("v", .variable "index")] } (.step "a" none) []])
      " > " .counting = .ok (s, rest) := ⟨_, _, rfl⟩
  have hsound : (Node.mk {} (.loop (.literal (.array [.string "x"])) "index" (some "index") none)
      [.mk { inputs := [("v", .variable "index")] } (.step "a" none) []]).Sound := by
    simp [Node.Sound, Node.walk, Node.walkList, Node.Fits, Node.work, Node.children, Work.limit]
  obtain ⟨prepared, hprepare, hfinal⟩ := execute_final hsound h
  have hscoped := hfinal.scoped
  have hstarts : State.Starts { executor := Echo.executor } prepared [0] 1 := by
    clear hscoped hfinal h
    cases hprepare
    refine ⟨⟨_, rfl⟩, rfl, ?_⟩
    rw [← State.halted_iff rfl]
    exact Bool.false_ne_true
  have hloop : prepared.work = .loop (.literal (.array [.string "x"])) "index" (some "index") none := by
    clear hscoped hstarts hfinal h
    cases hprepare
    rfl
  obtain ⟨node, bound, elements, hgiven, _⟩ := hscoped.given [0] 1 [] 0 hstarts List.prefix_rfl
  have hwork : node.work = .loop (.literal (.array [.string "x"])) "index" (some "index") none := by
    rw [← hloop, ← Option.some.inj hgiven.at?]
  have helements : elements = [.string "x"] := by
    obtain ⟨_, _, _, hsource⟩ := hgiven.starts
    have hlist := hsource _ _ _ _ hwork
    rw [Binding.evaluate, Except.ok.injEq, Value.array.injEq] at hlist
    exact hlist.symm
  have hdenotes := (hscoped.inputs [0] 1 "index" hstarts).bound [] 0 (.nat 0) List.prefix_rfl
    (.index hgiven hwork (by decide)) fun d j w hd hdj => by
      have hlength := hd.length_le
      have hlength' := hdj.length_le
      simp only [List.length_append, List.length_cons, List.length_nil] at hlength hlength'
      omega
  refine ⟨s, rest, prepared, node, bound, elements, h, hstarts, hgiven, hwork, by rw [helements]; rfl,
    hdenotes, fun hother => ?_⟩
  have hsame := (hdenotes.value none).symm.trans (hother.value none)
  cases hsame

end Workflow
