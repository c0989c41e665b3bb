import Workflow.Executor.Echo
import Workflow.Proofs.Run.Past

/-!
# Runs that are reported as cancelled

A run whose end has been asked for is reported as cancelled if a node was cancelled. That need not
be a node that the end of the run stopped: it may have lost a race before.

* `State.StopsNode` says that the end of the run stopped a node, and `State.LosesRace` that a node
  lost a race before the end was asked for.
* `State.Verdict` says which runs are reported as cancelled, and `Setup.verdict_of_execute` that runs
  are reported so.
-/

namespace Workflow

namespace State

variable {setup : Setup} {tree : Node} {s t : State} {hand after : Option Address} {doing : Doing}
  {a : Address}

/-! ## What lasts in a run -/

/-- The step in which the end of the run is asked for cancels no node. -/
theorem Reached.cancelled_step (h : Reached setup tree s none) (htree : tree.Sound)
    (hstep : s.step setup = some t) (hs : s.cancelled = false) (ht : t.cancelled = true)
    (hstatus : t.statusAt a = some .cancelled) : s.statusAt a = some .cancelled := by
  have hchanges := h.step htree hstep
  by_cases hdoing : s.doing setup = .call
  · rw [hdoing] at hchanges
    exact (hchanges.quiet_of_call h htree).statusAt_of_ne hstatus (by decide)
  · have heq : t.cancelled = s.cancelled :=
      hchanges.induction (P := fun u _ => u.cancelled = s.cancelled) rfl
        fun u v between next hu hchange => (hchange.cancelled_eq (.inr hdoing)).trans hu
    rw [heq, hs] at ht
    cases ht

/-- The wish to end the run lasts for a step. -/
theorem Reached.cancelled_of_step (h : Reached setup tree s none) (htree : tree.Sound)
    (hcancelled : s.cancelled = true) (hstep : s.step setup = some t) : t.cancelled = true :=
  (h.step htree hstep).induction (P := fun u _ => u.cancelled = true) hcancelled
    fun _ _ _ _ hu hchange => hchange.cancelled hu

/-- The wish to end the run lasts to the end of the run. -/
theorem Reached.cancelled_runToEnd (h : Reached setup tree s none) (htree : tree.Sound)
    (hcancelled : s.cancelled = true) : (s.runToEnd setup).cancelled = true := by
  fun_induction State.runToEnd s setup with
  | case1 s t hstep ih =>
    exact ih (h.changes (h.step htree hstep)) (h.cancelled_of_step htree hcancelled hstep)
  | case2 s => exact hcancelled

theorem someCancelled_iff : s.someCancelled = true ↔ ∃ a, s.statusAt a = some .cancelled := by
  rw [someCancelled, List.any_eq_true]
  constructor
  · rintro ⟨⟨a, job⟩, hmem, hstatus⟩
    rw [decide_eq_true_eq] at hstatus
    obtain ⟨b, rfl, hjob⟩ := Live.mem_walk_iff.1 hmem
    exact ⟨a, (statusAt_of_jobAt hjob).trans (congrArg some hstatus)⟩
  · rintro ⟨a, hstatus⟩
    obtain ⟨job, hjob, hstatus⟩ := jobAt_of_statusAt hstatus
    exact ⟨(a, job), Live.mem_walk_iff.2 ⟨a, rfl, hjob⟩, by rw [decide_eq_true_eq]; exact hstatus⟩

/-! ## Why nodes were cancelled -/

/-- In the run of the tree that ends in the state, a node was cancelled after the end of the run had
been asked for. -/
def StopsNode (setup : Setup) (tree : Node) (s : State) : Prop :=
  ∃ steps a, ((start setup tree).runWithin setup steps).cancelled = true ∧
    ((start setup tree).runWithin setup steps).statusAt a ≠ some .cancelled ∧
    s.statusAt a = some .cancelled

/-- In the run of the tree, a node was cancelled before the end of the run was asked for. -/
def LosesRace (setup : Setup) (tree : Node) : Prop :=
  ∃ steps a, ((start setup tree).runWithin setup steps).cancelled = false ∧
    ((start setup tree).runWithin setup steps).statusAt a = some .cancelled

/-- What is cancelled before the end of the run is asked for has lost a race. -/
theorem halted_of_cancelled (htree : tree.Sound) {steps : Nat}
    (hcancelled : ((start setup tree).runWithin setup steps).cancelled = false)
    (hstatus : ((start setup tree).runWithin setup steps).statusAt a = some .cancelled) :
    ((start setup tree).runWithin setup steps).Halted a := by
  have hstart : Reached setup tree (State.start setup tree) none := .start
  have hreasons := (hstart.runWithin htree steps).reasons htree
  refine (hreasons.cancelled a hstatus).resolve_left fun h => ?_
  rw [hcancelled] at h
  cases h

/-- A node is cancelled before the end of the run is asked for, or after. -/
theorem stops_or_loses (htree : tree.Sound) (hstatus : s.statusAt a = some .cancelled) :
    ∀ steps, ((start setup tree).runWithin setup steps).cancelled = true →
      StopsNode setup tree s ∨ LosesRace setup tree := by
  have hstart : Reached setup tree (State.start setup tree) none := .start
  intro steps
  induction steps with
  | zero =>
    -- at the start nothing is cancelled
    refine fun hcancelled => .inl ⟨0, a, hcancelled, fun h => ?_, hstatus⟩
    obtain ⟨job, hjob, hjobStatus⟩ := jobAt_of_statusAt h
    obtain ⟨path, node, rfl, _⟩ := Live.jobAt_ofNode hjob
    cases hjobStatus
  | succ steps ih =>
    intro hcancelled
    cases hbefore : ((start setup tree).runWithin setup steps).cancelled with
    | true => exact ih hbefore
    | false =>
      by_cases hafter :
          ((start setup tree).runWithin setup (steps + 1)).statusAt a = some .cancelled
      · refine .inr ⟨steps, a, hbefore, ?_⟩
        rw [runWithin_succ] at hafter hcancelled
        cases hstep : ((start setup tree).runWithin setup steps).step setup with
        | none =>
          rw [hstep, Option.getD_none, hbefore] at hcancelled
          cases hcancelled
        | some t =>
          rw [hstep, Option.getD_some] at hafter hcancelled
          exact (hstart.runWithin htree steps).cancelled_step htree hstep hbefore hcancelled hafter
      · exact .inl ⟨steps + 1, a, hcancelled, hafter, hstatus⟩

theorem runStatus_eq_cancelled_iff :
    s.runStatus = .cancelled ↔ s.cancelled = true ∧ ∃ a, s.statusAt a = some .cancelled := by
  rw [runStatus, ← someCancelled_iff, ← Bool.and_eq_true]
  split
  · rename_i h
    exact ⟨fun _ => h, fun _ => rfl⟩
  · rename_i h
    refine ⟨fun hstatus => ?_, fun hboth => absurd hboth h⟩
    split at hstatus <;> cases hstatus

/-- A run is reported as cancelled if its end stopped a node, or if its end was asked for after a
node had lost a race. -/
theorem Final.runStatus_iff (h : Final setup tree s) : s.runStatus = .cancelled ↔
    StopsNode setup tree s ∨ (s.cancelled = true ∧ LosesRace setup tree) := by
  have hstart : Reached setup tree (State.start setup tree) none := .start
  rw [runStatus_eq_cancelled_iff]
  constructor
  · rintro ⟨hcancelled, a, hstatus⟩
    obtain ⟨steps, hsteps⟩ := h.exists_eq_runWithin
    refine (stops_or_loses h.sound hstatus steps ?_).imp_right fun hloses => ⟨hcancelled, hloses⟩
    rw [← hsteps, hcancelled]
  · rintro (⟨steps, a, hcancelled, _, hstatus⟩ | ⟨hcancelled, steps, a, _, hstatus⟩)
    · have := (hstart.runWithin h.sound steps).cancelled_runToEnd h.sound hcancelled
      rw [runToEnd_runWithin, ← h.eq_runToEnd] at this
      exact ⟨this, a, hstatus⟩
    · have := (hstart.runWithin h.sound steps).statusAt_runToEnd h.sound hstatus rfl
      rw [runToEnd_runWithin, ← h.eq_runToEnd] at this
      exact ⟨hcancelled, a, this⟩

/-- How a run of the tree is reported. -/
structure Verdict (setup : Setup) (tree : Node) (s : State) : Prop where
  /-- A run is reported as cancelled if its end stopped a node, or if its end was asked for after a
  node had lost a race. -/
  cancelled : s.result.status = .cancelled ↔
    StopsNode setup tree s ∨ (s.cancelled = true ∧ LosesRace setup tree)
  /-- Where the report does not tell whether the end of the run stopped a node. -/
  mismatch : ¬ (s.result.status = .cancelled ↔ StopsNode setup tree s) ↔
    s.cancelled = true ∧ LosesRace setup tree ∧ ¬ StopsNode setup tree s
  /-- What is cancelled before the end of the run is asked for lies under a race that has been won. -/
  halted : ∀ steps a, ((start setup tree).runWithin setup steps).cancelled = false →
    ((start setup tree).runWithin setup steps).statusAt a = some .cancelled →
    ((start setup tree).runWithin setup steps).Halted a
  /-- Any other run is reported as its root has ended. -/
  root : s.result.status ≠ .cancelled →
    s.result.status = if s.root.status = .succeeded then .succeeded else .failed

theorem Final.verdict (h : Final setup tree s) : Verdict setup tree s := by
  have hiff : s.result.status = .cancelled ↔
      StopsNode setup tree s ∨ (s.cancelled = true ∧ LosesRace setup tree) := h.runStatus_iff
  refine ⟨hiff, ⟨fun hnot => ?_, ?_⟩, fun steps a => halted_of_cancelled h.sound, fun hnot => ?_⟩
  · by_cases hstops : StopsNode setup tree s
    · exact absurd ⟨fun _ => hstops, fun _ => hiff.2 (.inl hstops)⟩ hnot
    · by_cases hboth : s.cancelled = true ∧ LosesRace setup tree
      · exact ⟨hboth.1, hboth.2, hstops⟩
      · refine absurd ⟨fun hstatus => ?_, fun h => absurd h hstops⟩ hnot
        rcases hiff.1 hstatus with h | h
        · exact h
        · exact absurd h hboth
  · rintro ⟨hcancelled, hloses, hstops⟩ hsame
    exact hstops (hsame.1 (hiff.2 (.inr ⟨hcancelled, hloses⟩)))
  · change s.runStatus = _
    change s.runStatus ≠ _ at hnot
    rw [runStatus] at hnot ⊢
    split
    · rename_i h
      rw [if_pos h] at hnot
      exact absurd rfl hnot
    · rfl

end State

/-- Runs are reported as cancelled exactly if their end stopped a node, or was asked for after a node
had lost a race. -/
theorem Setup.verdict_of_execute {setup : Setup} {tree : Node} {separator : String}
    {ids rest : IdSource} {s : State} (htree : tree.Sound)
    (h : setup.execute tree separator ids = .ok (s, rest)) :
    ∃ prepared, tree.prepare separator setup.previous ids = .ok (prepared, rest) ∧
      State.Verdict setup prepared s := by
  obtain ⟨prepared, hprepare, hfinal⟩ := execute_final htree h
  exact ⟨prepared, hprepare, hfinal.verdict⟩

/-- A race of two candidates in a run that is to end at once is reported so. -/
theorem Setup.verdict_of_execute_race : ∃ s rest prepared,
    ({ executor := Echo.executor, cancelAt := some 0 } : Setup).execute (.mk {} (.race none)
      [.mk {} (.step "first" none) [], .mk {} (.step "second" none) []]) " > " .counting =
        .ok (s, rest) ∧
    State.Verdict { executor := Echo.executor, cancelAt := some 0 } prepared s := by
  have hsound : (Node.mk {} (.race none)
      [.mk {} (.step "first" none) [], .mk {} (.step "second" none) []]).Sound := by
    simp [Node.Sound, Node.walk, Node.walkList, Node.Fits, Node.work, Node.children, Work.limit]
  obtain ⟨s, rest, h⟩ : ∃ s rest, ({ executor := Echo.executor, cancelAt := some 0 } :
      Setup).execute (.mk {} (.race none)
        [.mk {} (.step "first" none) [], .mk {} (.step "second" none) []]) " > " .counting =
        .ok (s, rest) := ⟨_, _, rfl⟩
  obtain ⟨prepared, _, hverdict⟩ := verdict_of_execute hsound h
  exact ⟨s, rest, prepared, h, hverdict⟩

end Workflow
