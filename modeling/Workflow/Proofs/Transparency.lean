import Workflow.Proofs.Resumption
import Workflow.Proofs.Run.Outcomes
import Workflow.Proofs.Run.Uncancelled

/-!
# Runs that resume their own tree

What a run of a tree records as succeeded succeeds in the same way in every other run of the tree, even
if the run was cancelled. A run that takes it over therefore comes to the same result as one that calls
every agent.

* `Setup.Leaves` says which results are left by runs of a tree.
* `State.Honest` says that a result records of no step anything else than what comes of it.
* `Setup.transparency_of_execute` is the main result.
-/

namespace Workflow

/-- A run of the tree leaves the result. It starts and is cancelled at any time, and takes over what
earlier runs of the tree have left, if it takes over anything. -/
inductive Setup.Leaves (setup : Setup) (tree : Node) (separator : String) : Result → Prop
  | run {previous : Option Result} {startAt : Int} {cancelAt : Option Int} {ids rest : IdSource}
      {s : State} {result : RunResult} :
    (∀ earlier, previous = some earlier → Leaves setup tree separator earlier) →
    ({ setup with previous, startAt, cancelAt } : Setup).execute tree separator ids =
      .ok (s, rest) →
    s.outcome = .finished result → Leaves setup tree separator result.tree

/-- A tree is run only if children may run, and if no two of its nodes have one identifier. -/
theorem Setup.Leaves.runs {setup : Setup} {tree : Node} {separator : String} {result : Result}
    (h : setup.Leaves tree separator result) : setup.limit ≠ 0 ∧ tree.ids.Nodup := by
  cases h with
  | @run previous startAt cancelAt ids rest s _ _ hexecute _ =>
    unfold execute at hexecute
    split at hexecute
    · cases hexecute
    · rename_i hlimit
      split at hexecute
      · cases hexecute
      · rename_i prepared _ hprepare
        exact ⟨hlimit, Node.nodup_of_prepare hprepare⟩

/-- A node that carries an identifier is run with that identifier. -/
theorem Node.id_of_carried {tree prepared node' : Node} {separator : String}
    {previous : Option Result} {ids rest : IdSource} {place : List Nat}
    (hprepare : tree.prepare separator previous ids = .ok (prepared, rest))
    (hnode' : prepared.at? place = some node') :
    ∃ node, tree.at? place = some node ∧ (node.id.isSome → node'.id = node.id) := by
  obtain ⟨between, hbetween, hidentified⟩ := (related_prepare hprepare).at?' hnode'
  obtain ⟨node, hnode, hlabelled⟩ := (related_labelUnder separator tree []).at?' hbetween
  refine ⟨node, hnode, fun hcarries => ?_⟩
  have hbetweenId : between.id = node.id := hlabelled.header.id
  rw [← hbetweenId] at hcarries
  exact (hidentified.header.2 hcarries).trans hbetweenId

namespace State

variable {setup setup' : Setup} {tree tree' : Node} {s s' : State} {a : Address} {job job' : Job}
  {earlier : Result} {e : Entry}

/-- What the earlier result records of steps as succeeded is what comes of them in the run. -/
def Honest (s : State) (earlier : Result) : Prop :=
  ∀ a job e, s.jobAt a = some job → job.node.kind = .step → job.entry.progress.started.isSome →
    earlier.recorded? job.entry.path = some e → e.status = .succeeded →
    e.account = job.entry.account

/-- What a run takes over is recorded as succeeded in the earlier result. -/
theorem exists_previous_of_recorded (h : setup.recorded? job.entry = some e) :
    ∃ earlier, setup.previous = some earlier ∧ earlier.recorded? job.entry.path = some e ∧
      e.status = .succeeded := by
  unfold Setup.recorded? at h
  split at h
  · rename_i found hfound
    split at h
    · rename_i hsame
      rw [Option.some.injEq] at h
      subst h
      obtain ⟨earlier, hprevious, hrecorded⟩ := Option.bind_eq_some_iff.1 hfound
      exact ⟨earlier, hprevious, hrecorded, hsame.2⟩
    · cases h
  · cases h

/-- A step that takes over what comes of it otherwise comes out as if it were called. -/
theorem TwinRuns.stepsAlike_of_honest (h : TwinRuns setup setup' tree tree' s s')
    (hprevious : setup.previous = none)
    (haccount : ∀ agent own bound, setup'.account agent own none bound =
      setup.account agent own none bound)
    (hhonest : ∀ earlier, setup'.previous = some earlier → Honest s earlier) :
    StepsAlike tree s s' := by
  intro a job job' hmet hkind
  obtain ⟨agent, own, bound, hfirst, hsecond⟩ := h.exists_account hmet hkind
  have hnone : setup.recorded? job.entry = none := by
    rw [Setup.recorded?, hprevious]
    rfl
  rw [hnone] at hfirst
  cases hrecorded : setup'.recorded? job'.entry with
  | none => rw [hsecond, hrecorded, haccount, hfirst]
  | some e =>
    obtain ⟨earlier, hearlier, hfound, hstatus⟩ := exists_previous_of_recorded hrecorded
    rw [h.path_eq hmet.first hmet.second] at hfound
    have hsame := hhonest earlier hearlier a job e hmet.first hkind hmet.started hfound hstatus
    rw [hsecond, hrecorded, ← hsame]
    -- a step that has succeeded has no error
    have herror : e.error = none := by
      rw [Entry.account, Entry.account, Prod.mk.injEq, Prod.mk.injEq, Prod.mk.injEq] at hsame
      have hlived := h.first.chronicle.node a job hmet.first
      have hnot := mt hlived.error_iff.1 (by
        rw [← hsame.1, hstatus]
        simp)
      rw [hsame.2.2.1]
      simpa using hnot
    rw [Entry.account, hstatus, herror]
    rfl

/-! ## Runs of one tree -/

variable {separator : String} {previous previous' : Option Result} {ids rest ids' rest' : IdSource}
  {first second : Node}

/-- Runs of one tree without races, whose nodes do not read across parallel nodes, are runs of twins. -/
theorem TwinRuns.of_prepare (h : Final setup first s) (h' : Final setup' second s')
    (hprepare : tree.prepare separator previous ids = .ok (first, rest))
    (hprepare' : tree.prepare separator previous' ids' = .ok (second, rest'))
    (hindependent : tree.Independent) (hrace : ∀ node ∈ tree.walk, node.kind ≠ .race)
    (hsteady : setup.executor.Steady) (hexecutor : setup'.executor = setup.executor)
    (hcancelAt : setup.cancelAt = none) (hcancelAt' : setup'.cancelAt = none)
    (hvars : setup'.vars = setup.vars) : TwinRuns setup setup' first second s s' where
  first := h
  second := h'
  calm := ⟨hsteady, hcancelAt, Node.kind_ne_race_of_prepare hrace hprepare⟩
  calm' := ⟨by rwa [hexecutor], hcancelAt', Node.kind_ne_race_of_prepare hrace hprepare'⟩
  twin := (Node.Twin.of_related (Node.related_prepare hprepare)).symm.trans
    (.of_related (Node.related_prepare hprepare'))
  independent := hindependent.prepare hprepare
  vars := hvars

/-- A result that a run of the tree leaves is honest in every run that takes over nothing. -/
theorem Final.honest_of_leaves (h : Final setup first s) (htree : tree.Sound)
    (hprepare : tree.prepare separator setup.previous ids = .ok (first, rest))
    (hindependent : tree.Independent) (hrace : ∀ node ∈ tree.walk, node.kind ≠ .race)
    (hsteady : setup.executor.Steady) (hcancelAt : setup.cancelAt = none)
    (hprevious : setup.previous = none) (hleaves : setup.Leaves tree separator earlier) :
    Honest s earlier := by
  -- by induction on the runs that the earlier run has taken something over from
  induction hleaves with
  | @run previous startAt cancelAt ids' rest' old result _ hexecute hfinished ih =>
    intro a job e hjob hkind hstarted hrecorded hstatus
    obtain ⟨second, hprepare', hold⟩ := Setup.execute_final htree hexecute
    have hmild : ({ setup with previous, startAt, cancelAt } : Setup).Mild second :=
      ⟨hsteady, Node.kind_ne_race_of_prepare hrace hprepare'⟩
    have hend : Final ({ setup with previous, startAt, cancelAt } : Setup).uncancelled second _ :=
      final_runToEnd hold.sound hold.limit
    have hruns := TwinRuns.of_prepare h hend hprepare hprepare' hindependent hrace hsteady rfl hcancelAt
      rfl rfl
    have hsteps := hruns.stepsAlike_of_honest hprevious (fun _ _ bound => by cases bound <;> rfl) ih
    have hshape := h.shape
    have hshape' := hold.shape
    obtain ⟨rfl, _⟩ := hold.root_ended hfinished
    obtain ⟨oldJob, holdJob, rfl, _⟩ := hshape'.exists_of_recorded hshape
      (Node.related_prepared hprepare' hprepare) hjob hrecorded
    have hkind' := (hshape.twin hshape' hruns.twin hjob holdJob).kind.trans hkind
    -- the step succeeds in the same way if the earlier run is not cancelled
    obtain ⟨job', hjob', haccount⟩ := hold.account_uncancelled hend hmild holdJob hkind' hstatus
    have hstarted' : job'.entry.progress.started.isSome :=
      hend.started_of_succeeded hjob' ((congrArg Prod.fst haccount).trans hstatus)
    have hready := hruns.ready_of_started hsteps job job' hjob hjob' hstarted hstarted'
    exact haccount.symm.trans (hsteps a job job' ⟨hjob, hjob', hstarted, hstarted', hready⟩ hkind)

end State

/-- An executor whose calls take some time. -/
def Executor.delayed (time : Int) : Executor where
  name := "DelayedExecutor"
  call _ _ _ := ⟨[.pause time], .answer (.ok .null)⟩

namespace Setup

variable {setup : Setup} {tree : Node} {separator : String} {earlier : Result}

/-- Resumption is transparent. A run on a result that a run of the tree has left, whenever that was
cancelled and whatever it took over, comes to the same result as a run that takes over nothing. -/
theorem transparency_of_execute (htree : tree.Sound) (hindependent : tree.Independent)
    (hrace : ∀ node ∈ tree.walk, node.kind ≠ .race) (hsteady : setup.executor.Steady)
    (hcancelAt : setup.cancelAt = none) (hprevious : setup.previous = none)
    (hleaves : setup.Leaves tree separator earlier) (startAt : Int) (ids ids' : IdSource) :
    ∃ s rest s' rest', setup.execute tree separator ids = .ok (s, rest) ∧
      ({ setup with previous := some earlier, startAt } : Setup).execute tree separator ids' =
        .ok (s', rest') ∧
      ((s.outcome = .finished s.result ∧ s'.outcome = .finished s'.result ∧
          s'.result.tree.anonymous = s.result.tree.anonymous ∧
          s'.result.status = s.result.status ∧
          ((∀ node ∈ tree.walk, node.id.isSome) →
            s'.result.tree.untimed = s.result.tree.untimed)) ∨
        (s.outcome = .waiting ∧ s'.outcome = .waiting)) := by
  obtain ⟨hlimit, hnodup⟩ := hleaves.runs
  obtain ⟨s, rest, h⟩ := exists_execute hlimit hnodup separator ids
  have hresumed : ∃ s' rest', ({ setup with previous := some earlier, startAt } : Setup).execute tree
      separator ids' = .ok (s', rest') :=
    exists_execute (by exact hlimit) hnodup separator ids'
  obtain ⟨s', rest', h'⟩ := hresumed
  refine ⟨s, rest, s', rest', h, h', ?_⟩
  obtain ⟨fresh, hprepare, hfinal⟩ := execute_final htree h
  obtain ⟨resumed, hprepare', hfinal'⟩ := execute_final htree h'
  have hruns := State.TwinRuns.of_prepare hfinal hfinal' hprepare hprepare' hindependent hrace hsteady
    rfl hcancelAt hcancelAt rfl
  have hhonest := hfinal.honest_of_leaves htree hprepare hindependent hrace hsteady hcancelAt hprevious
    hleaves
  have hsteps : State.StepsAlike fresh s s' := by
    refine hruns.stepsAlike_of_honest hprevious (fun _ _ bound => by cases bound <;> rfl) ?_
    intro other hother
    rw [Option.some.injEq] at hother
    rwa [← hother]
  rcases hruns.outcomes hsteps with ⟨hfinished, hfinished', hsame⟩ | hwaiting
  · refine .inl ⟨hfinished, hfinished', hruns.anonymous_eq hsame, hruns.runStatus_eq hsame, ?_⟩
    intro hids
    refine hruns.untimed_eq hsame fun a job job' hjob hjob' => ?_
    -- both nodes have the identifier that the tree has at their place
    obtain ⟨node, hnode, hid⟩ := Node.id_of_carried hprepare
      (hfinal.shape.at?_placeOf hjob)
    obtain ⟨node', hnode', hid'⟩ := Node.id_of_carried hprepare'
      (hfinal'.shape.at?_placeOf hjob')
    rw [hruns.twin.placeOf, hnode, Option.some.injEq] at hnode'
    subst hnode'
    have hcarries := hids node (Node.mem_walk_of_at? hnode)
    rw [hid' hcarries, hid hcarries]
  · exact .inr hwaiting

/-- A sequence that was cancelled while its second step ran is resumed. -/
theorem transparency_of_execute_sequence : ∃ old between s rest s' rest',
    ({ executor := .delayed 5, cancelAt := some 7 } : Setup).execute (.mk {} .sequence
      [.mk {} (.step "first" none) [], .mk {} (.step "second" none) []]) " > " .counting =
        .ok (old, between) ∧
    old.outcome = .finished old.result ∧ old.result.status = .cancelled ∧
    ({ executor := .delayed 5 } : Setup).execute (.mk {} .sequence
      [.mk {} (.step "first" none) [], .mk {} (.step "second" none) []]) " > " .counting =
        .ok (s, rest) ∧
    ({ executor := .delayed 5, previous := some old.result.tree, startAt := 60 } : Setup).execute
      (.mk {} .sequence [.mk {} (.step "first" none) [], .mk {} (.step "second" none) []]) " > "
        between = .ok (s', rest') ∧
    ((s.outcome = .finished s.result ∧ s'.outcome = .finished s'.result ∧
        s'.result.tree.anonymous = s.result.tree.anonymous ∧ s'.result.status = s.result.status) ∨
      (s.outcome = .waiting ∧ s'.outcome = .waiting)) := by
  have hsound : (Node.mk {} .sequence
      [.mk {} (.step "first" none) [], .mk {} (.step "second" none) []]).Sound := by
    simp [Node.Sound, Node.walk, Node.walkList, Node.Fits, Node.work, Node.children, Work.limit]
  have hindependent : (Node.mk {} .sequence
      [.mk {} (.step "first" none) [], .mk {} (.step "second" none) []]).Independent := by
    refine .of_expressions ?_
    simp [Node.walk, Node.walkList, Node.expressions, Node.header, Node.work, Work.binding?]
  have hrace : ∀ node ∈ (Node.mk {} .sequence
      [.mk {} (.step "first" none) [], .mk {} (.step "second" none) []]).walk, node.kind ≠ .race := by
    simp [Node.walk, Node.walkList, Node.kind, Node.work, Work.kind]
  have hsteady : (Executor.delayed 5).Steady :=
    ⟨fun _ _ _ _ => rfl, fun _ _ _ => by simp [Executor.delayed]⟩
  have hcancelled : ∃ old between, ({ executor := .delayed 5, cancelAt := some 7 } :
      Setup).execute (.mk {} .sequence
        [.mk {} (.step "first" none) [], .mk {} (.step "second" none) []]) " > " .counting =
          .ok (old, between) ∧ old.root.status.isTerminal ∧ old.result.status = .cancelled := by
    refine ⟨_, _, rfl, ?_⟩
    rw [run_eq 14 (Option.isNone_iff_eq_none.1 (by decide +kernel))]
    decide +kernel
  obtain ⟨old, between, hold, hended, hstatus⟩ := hcancelled
  obtain ⟨_, _, hfinal⟩ := execute_final hsound hold
  have hfinished := hfinal.outcome_of_ended hended
  have hleaves : ({ executor := .delayed 5 } : Setup).Leaves (.mk {} .sequence
      [.mk {} (.step "first" none) [], .mk {} (.step "second" none) []]) " > " old.result.tree :=
    .run (fun _ hnone => by cases hnone) hold hfinished
  obtain ⟨s, rest, s', rest', h, h', houtcome⟩ := transparency_of_execute hsound hindependent hrace
    hsteady rfl rfl hleaves 60 .counting between
  refine ⟨old, between, s, rest, s', rest', hold, hfinished, hstatus, h, h', ?_⟩
  rcases houtcome with ⟨hend, hend', hsame, hstatus', _⟩ | hwaiting
  · exact .inl ⟨hend, hend', hsame, hstatus'⟩
  · exact .inr hwaiting

end Setup
end Workflow
