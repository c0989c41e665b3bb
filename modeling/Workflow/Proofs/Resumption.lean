import Workflow.Executor.Echo
import Workflow.Proofs.Run.Reuse
import Workflow.Proofs.Tree.Adoption

/-!
# Runs that are resumed

A run on the result of an earlier run of the same tree recognises the steps that succeeded there by
their paths and identifiers. A definition without identifiers gets them back from the result, where
the result has an entry at the place of the definition; of the instances of a loop only the first
one counts. Steps below other instances are recognised only if the first instances have them too.

* `State.Recognised` is the condition, and `State.Reuse` says what becomes of the steps.
* `Setup.reuse_of_execute` says that runs on earlier results reuse them so.
-/

namespace Workflow

/-- The relation of trees can be read from right to left. -/
theorem Node.Related.swap {r : Header → Header → Prop} {tree tree' : Node}
    (h : Related r tree tree') : Related (fun header header' => r header' header) tree' tree := by
  induction h with
  | @mk header header' work children children' hheader hlength _ ih =>
    refine .mk hheader hlength.symm fun i child child' hchild hchild' => ?_
    exact ih i child' child hchild' hchild

/-- Two trees that are run for one definition differ in their headers only. -/
theorem Node.related_prepared {tree first second : Node} {separator : String}
    {previous previous' : Option Result} {ids rest ids' rest' : IdSource}
    (hfirst : tree.prepare separator previous ids = .ok (first, rest))
    (hsecond : tree.prepare separator previous' ids' = .ok (second, rest')) :
    Related (fun _ _ => True) first second :=
  (related_prepare hfirst).swap.trans (related_prepare hsecond) fun _ _ _ _ _ => trivial

namespace State

variable {setup : Setup} {tree first second : Node} {s s' : State} {a : Address} {job : Job}
  {earlier : Entry} {ids : IdSource}

/-- The definition of the node at an address has an identifier, or the run has come to a node at
its place: to the instance of the node below the first instances of all loops around it. -/
def Recognised (tree : Node) (s : State) (a : Address) : Prop :=
  (∃ node, tree.at? (tree.placeOf a) = some node ∧ node.id.isSome) ∨
    (s.root.at? (tree.placeOf a)).isSome

/-- The path of the node is that of a step that succeeded in the earlier run. -/
structure Finished (s : State) (job : Job) (earlier : Entry) : Prop where
  kind : job.node.kind = .step
  recorded : s.result.tree.recorded? job.entry.path = some earlier
  succeeded : earlier.status = .succeeded

/-- How the second run of a tree, whose steps are looked up in the result of the first, reuses it. -/
structure Reuse (setup : Setup) (tree prepared : Node) (s s' : State) (ids : IdSource) : Prop where
  /-- A step that is recognised is never called again, and takes over what is recorded. -/
  recognised : ∀ a job earlier, s'.jobAt a = some job → Finished s job earlier →
    Recognised tree s a → ¬ Calls setup prepared a ∧
      (job.entry.progress.started.isSome → job.status = .succeeded ∧
        job.entry.output = earlier.output ∧ job.entry.inputs = earlier.inputs)
  /-- A step that is not recognised is called again, as far as its inputs can be bound, if none of
  the identifiers that are drawn is one of the first run. -/
  forgotten : ∀ a job earlier, s'.jobAt a = some job → Finished s job earlier →
    ¬ Recognised tree s a →
    (∀ n b old, s.jobAt b = some old → old.entry.id ≠ some (ids.draw n)) →
    job.entry.progress.started.isSome → Calls setup prepared a ∨ Unbound job

/-- A node of a run has the identifier of the definition at its place. -/
theorem Shape.id_eq (h : Shape first s) (hjob : s.jobAt a = some job) :
    ∃ node, first.at? (first.placeOf a) = some node ∧ job.entry.id = node.id := by
  obtain ⟨kids, hkids⟩ := at?_of_jobAt hjob
  obtain ⟨node, hnode, hruns⟩ := h.runs.at? hkids
  exact ⟨node, hnode, hruns.job.2⟩

/-- What is recorded of a step that succeeded in the first run is found again if and only if the step
has kept its identifier. -/
theorem Finished.recorded?_eq {old : Job} (h : Finished s job earlier) (hfirst : Shape first s)
    (hprevious : setup.previous = some s.result.tree) (hold : s.jobAt a = some old)
    (hentry : old.entry = earlier) (hpath : old.entry.path = job.entry.path) :
    setup.recorded? job.entry = if old.entry.id = job.entry.id then some earlier else none := by
  have hstatus : old.status = .succeeded := by
    rw [Job.status, hentry]
    exact h.succeeded
  rw [hfirst.recorded?_of_previous hprevious hold hpath.symm, hstatus, hentry]
  simp only [and_true]

/-- In a run a step that is recorded never waits for a call. -/
theorem Final.not_calls (h : Final setup second s') (hjob : s'.jobAt a = some job)
    (hrecorded : setup.recorded? job.entry = some earlier) : ¬ Calls setup second a := by
  rintro ⟨steps, call, hcall⟩
  have hreached : Reached setup second ((start setup second).runWithin setup steps) none :=
    Reached.start.runWithin h.sound steps
  obtain ⟨old, hold, hstage⟩ := jobAt_of_callAt hcall
  have hsame := (hreached.shape h.sound).recorded?_eq h.shape setup hold hjob
  have hnone := hreached.call?_of_recorded h.sound hold (hsame.symm.trans hrecorded)
  rw [callAt_of_jobAt hold, hnone] at hcall
  cases hcall

end State

/-- A run on the result of an earlier run of the tree never calls a step again that succeeded there
and is recognised, whatever the executors, the variables and the ends of the runs are; a step that
is not recognised it calls again. -/
theorem Setup.reuse_of_execute {setup setup' : Setup} {tree : Node} {separator : String}
    {ids rest ids' rest' : IdSource} {s s' : State} (htree : tree.Sound)
    (hids : Function.Injective ids.draw)
    (hfirst : setup.execute tree separator ids = .ok (s, rest))
    (hprevious : setup'.previous = some s.result.tree)
    (hsecond : setup'.execute tree separator ids' = .ok (s', rest')) :
    ∃ prepared, tree.prepare separator setup'.previous ids' = .ok (prepared, rest') ∧
      State.Reuse setup' tree prepared s s' ids' := by
  obtain ⟨first, hprepare, hfinal⟩ := execute_final htree hfirst
  obtain ⟨second, hprepare', hfinal'⟩ := execute_final htree hsecond
  have hshape := hfinal.reached.shape hfinal.sound
  have hshape' := hfinal'.reached.shape hfinal'.sound
  have htrees := Node.related_prepared hprepare hprepare'
  -- the identifier of a node is recovered or drawn, by what is at its place
  have hid {a : Address} {job old : Job} (hjob : s'.jobAt a = some job)
      (hold : s.jobAt a = some old) :
      (State.Recognised tree s a → job.entry.id = old.entry.id) ∧
        (¬ State.Recognised tree s a → ∃ n, job.entry.id = some (ids'.draw n)) := by
    obtain ⟨y, hy, hyId⟩ := hshape.id_eq hold
    obtain ⟨z, hz, hzId⟩ := hshape'.id_eq hjob
    have hlabelled := Node.related_labelUnder separator tree []
    have hplace : first.placeOf a = tree.placeOf a :=
      ((Node.related_prepare hprepare).placeOf a).trans (hlabelled.placeOf a)
    rw [htrees.placeOf, hplace] at hz
    rw [hplace] at hy
    obtain ⟨y', hy', _⟩ := (Node.related_prepare hprepare).at?' hy
    obtain ⟨x, hx, _⟩ := hlabelled.at?' hy'
    rw [hprevious] at hprepare'
    obtain ⟨hkept, hdrawn⟩ :=
      Node.id_of_resume htree hids hprepare hshape.runs hprepare' hx hy hz
    rw [hyId, hzId]
    constructor
    · rintro (⟨x', hx', hsome⟩ | hat)
      · rw [hx, Option.some.injEq] at hx'
        subst hx'
        exact hkept (.inl hsome)
      · exact hkept (.inr hat)
    · intro hnot
      refine hdrawn ?_ fun hat => hnot (.inr hat)
      cases hnone : x.id with
      | none => rfl
      | some id => exact absurd (.inl ⟨x, hx, by rw [hnone]; rfl⟩) hnot
  refine ⟨second, hprepare', fun a job earlier hjob hdone hrecognised => ?_,
    fun a job earlier hjob hdone hnot hnew hstarted => ?_⟩
  · obtain ⟨old, hold, hentry, hpath⟩ := hshape.exists_of_recorded hshape' htrees hjob hdone.recorded
    have hrecorded : setup'.recorded? job.entry = some earlier := by
      rw [hdone.recorded?_eq hshape hprevious hold hentry hpath,
        if_pos ((hid hjob hold).1 hrecognised).symm]
    exact ⟨hfinal'.not_calls hjob hrecorded, hfinal'.takenOver hjob hdone.kind hrecorded⟩
  · obtain ⟨old, hold, hentry, hpath⟩ := hshape.exists_of_recorded hshape' htrees hjob hdone.recorded
    obtain ⟨n, hn⟩ := (hid hjob hold).2 hnot
    have hrecorded : setup'.recorded? job.entry = none := by
      rw [hdone.recorded?_eq hshape hprevious hold hentry hpath,
        if_neg fun hsame => hnew n a old hold (hsame.trans hn)]
    exact hfinal'.calls hjob hdone.kind hrecorded hstarted

/-- A tree is run if no two of its nodes have one identifier. -/
theorem Setup.exists_execute {setup : Setup} {tree : Node} (hlimit : setup.limit ≠ 0)
    (hnodup : tree.ids.Nodup) (separator : String) (ids : IdSource) :
    ∃ s rest, setup.execute tree separator ids = .ok (s, rest) := by
  obtain ⟨prepared, rest, hprepare⟩ := Node.exists_prepare hnodup separator setup.previous ids
  rw [execute, if_neg hlimit, hprepare]
  exact ⟨_, _, rfl⟩

/-- A step that is run twice is such a case. -/
theorem Setup.reuse_of_execute_step : ∃ s rest s' rest' prepared,
    ({ executor := Echo.executor } : Setup).execute (.mk {} (.step "agent" none) []) " > "
      .counting = .ok (s, rest) ∧
    ({ executor := Echo.executor, previous := some s.result.tree } : Setup).execute
      (.mk {} (.step "agent" none) []) " > " rest = .ok (s', rest') ∧
    State.Reuse { executor := Echo.executor, previous := some s.result.tree }
      (.mk {} (.step "agent" none) []) prepared s s' rest := by
  have hsound : (Node.mk {} (.step "agent" none) []).Sound := by
    simp [Node.Sound, Node.walk, Node.walkList, Node.Fits, Node.work, Node.children, Work.limit]
  obtain ⟨s, rest, h⟩ : ∃ s rest, ({ executor := Echo.executor } : Setup).execute
      (.mk {} (.step "agent" none) []) " > " .counting = .ok (s, rest) := ⟨_, _, rfl⟩
  have hnodup : (Node.mk {} (.step "agent" none) []).ids.Nodup := List.nodup_nil
  have hagain : ∃ s' rest', ({ executor := Echo.executor, previous := some s.result.tree } :
      Setup).execute (.mk {} (.step "agent" none) []) " > " rest = .ok (s', rest') :=
    exists_execute (Nat.succ_ne_zero 3) hnodup " > " rest
  obtain ⟨s', rest', h'⟩ := hagain
  obtain ⟨prepared, _, hreuse⟩ :=
    reuse_of_execute hsound (IdSource.draw_countingFrom_injective 1) h rfl h'
  exact ⟨s, rest, s', rest', prepared, h, h', hreuse⟩

end Workflow
