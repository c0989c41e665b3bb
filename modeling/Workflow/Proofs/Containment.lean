import Workflow.Executor.Echo
import Workflow.Proofs.Containers
import Workflow.Proofs.Tree.Distinct

/-!
# Failures do not escape

Only a repeated identifier keeps a tree from being run. Whatever agents, bindings and conditions do in
a run becomes a failure of a node, and the run goes on.

* `State.Arises` says where the failure of a node comes from.
* `State.Contained` says that nothing escapes from a run.
* `Setup.contained_of_execute` says that `execute` refuses exactly the trees with a repeated identifier,
  and that nothing escapes from the runs of the others.
-/

namespace Workflow
namespace State

variable {setup : Setup} {tree : Node} {s : State} {a : Address} {job : Job} {kids : List Live}

/-- The failure of a node with the children comes from its bindings, its condition, its call or its
children. -/
inductive Arises (setup : Setup) (job : Job) (kids : List Live) (failure : Failure) : Prop
  /-- The inputs, the condition or the source have no values. -/
  | unbound : failure.kind = .binding → Arises setup job kids failure
  /-- No case of a branch matches the value of its condition. -/
  | unmatched (value : Value) : job.node.kind = .branch → failure = .noBranchMatched value →
      Arises setup job kids failure
  /-- The call of a step has answered with the failure, or not in time. -/
  | called : job.node.kind = .step → Attributed setup failure → Arises setup job kids failure
  /-- Children of a container have failed. -/
  | blamed {first : Live} {rest : List Live} : job.node.kind ≠ .step →
      (kids.filter fun kid => kid.status = .failed) = first :: rest →
      failure = childFailure first (first :: rest) → Arises setup job kids failure

/-- A node that has failed has a failure, which comes from somewhere. -/
theorem Final.arises (h : Final setup tree s) (hkids : s.root.at? a = some (.mk job kids))
    (hstatus : job.status = .failed) :
    ∃ failure, job.entry.error = some failure ∧ Arises setup job kids failure := by
  have hlived := h.chronicle.node a job (jobAt_of_at? hkids)
  have hstarted := hlived.started_of_status (.inr hstatus)
  cases h.past.ended a job kids hkids hstarted (by rw [hstatus]; rfl) with
  | succeeded _ hother => rw [hstatus] at hother; cases hother
  | stopped _ hother => rw [hstatus] at hother; cases hother
  | @failed _ _ _ _ failure hsince _ herror _ hfailing =>
    refine ⟨failure, herror, ?_⟩
    have hnode := hsince.node
    cases hfailing with
    | unbound _ _ hbinding => exact .unbound hbinding
    | called hstep _ hattributed => exact .called (by rw [hnode, hstep]) hattributed
    | rejected _ _ hrejected =>
      rcases hrejected.1 with hbinding | ⟨hbranch, value, hfailure⟩
      · exact .unbound hbinding
      · exact .unmatched value (by rw [hnode, hbranch]) hfailure
    | blamed hstep _ hblamed =>
      obtain ⟨first, rest, hfilter, hfailure⟩ := hblamed.since hsince
      exact .blamed (by rwa [hnode]) hfilter hfailure

/-- Nothing escapes from the run of the tree that ends in the state. -/
structure Contained (setup : Setup) (tree : Node) (s : State) : Prop where
  run : s = setup.run tree
  /-- Nothing impossible happens in the run. -/
  sound : ∀ steps, ((start setup tree).runWithin setup steps).fault = none
  /-- The run comes to a result, or waits for a call that never answers. -/
  outcome : s.outcome = .finished s.result ∨ (s.outcome = .waiting ∧ Waits setup s)
  /-- The failures of the run are those of its nodes. -/
  failed : ∀ a job kids, s.root.at? a = some (.mk job kids) → job.status = .failed →
    ∃ failure, job.entry.error = some failure ∧ Arises setup job kids failure

theorem Final.contained (h : Final setup tree s) : Contained setup tree s where
  run := by
    have hclose := h.reached.close_eq h.sound h.limit h.step
    rw [Setup.run, ← h.eq_runToEnd, hclose]
  sound steps := ((reached_runWithin setup h.sound steps).control h.sound).sound
  outcome := h.finished_or_waits
  failed _ _ _ hkids hstatus := h.arises hkids hstatus

end State

/-- Two nodes of a tree that is refused have one identifier, and it is refused whatever it is to be run
with, the executor included. Nothing escapes from the run of a tree that is not refused. -/
theorem Setup.contained_of_execute {setup : Setup} {tree : Node} (htree : tree.Sound)
    (hlimit : setup.limit ≠ 0) (separator : String) (ids : IdSource) :
    ((∃ refusal, setup.execute tree separator ids = .error refusal) ↔ ¬ tree.ids.Nodup) ∧
    (∀ refusal, setup.execute tree separator ids = .error refusal →
      ∃ cause, refusal = .duplicateId cause ∧ 2 ≤ tree.ids.count cause.id ∧
        ∀ (setup' : Setup) (separator' : String) (ids' : IdSource), setup'.limit ≠ 0 →
          setup'.execute tree separator' ids' = .error refusal) ∧
    ∀ s rest, setup.execute tree separator ids = .ok (s, rest) →
      ∃ prepared, tree.prepare separator setup.previous ids = .ok (prepared, rest) ∧
        State.Contained setup prepared s := by
  have hrefused {cause : DuplicateId} (hcheck : tree.checkIds = .error cause) (setup' : Setup)
      (separator' : String) (ids' : IdSource) (hlimit' : setup'.limit ≠ 0) :
      setup'.execute tree separator' ids' = .error (.duplicateId cause) := by
    rw [execute, if_neg hlimit', Node.prepare_of_checkIds hcheck]
  have hrun {refusal : Refusal} (hnodup : tree.ids.Nodup) :
      setup.execute tree separator ids ≠ .error refusal := by
    intro hexecute
    obtain ⟨prepared, rest, hprepare⟩ := Node.exists_prepare hnodup separator setup.previous ids
    rw [execute, if_neg hlimit, hprepare] at hexecute
    cases hexecute
  refine ⟨⟨?_, ?_⟩, ?_, ?_⟩
  · rintro ⟨refusal, hexecute⟩ hnodup
    exact hrun hnodup hexecute
  · intro hnodup
    cases hcheck : tree.checkIds with
    | ok => exact absurd (Node.checkIds_eq_ok_iff.1 hcheck) hnodup
    | error cause => exact ⟨_, hrefused hcheck setup separator ids hlimit⟩
  · intro refusal hexecute
    cases hcheck : tree.checkIds with
    | ok => exact absurd hexecute (hrun (Node.checkIds_eq_ok_iff.1 hcheck))
    | error cause =>
      have hsame := hrefused hcheck setup separator ids hlimit
      rw [hexecute, Except.error.injEq] at hsame
      subst hsame
      exact ⟨cause, rfl, Node.count_of_checkIds hcheck, hrefused hcheck⟩
  · intro s rest hexecute
    obtain ⟨prepared, hprepare, hfinal⟩ := execute_final htree hexecute
    exact ⟨prepared, hprepare, hfinal.contained⟩

/-- Two steps with one identifier are refused. -/
theorem Setup.contained_of_execute_twins :
    ∃ cause, ({ executor := Echo.executor } : Setup).execute
      (.mk {} .sequence [.mk { id := some "a" } (.step "agent" none) [],
        .mk { id := some "a" } (.step "agent" none) []]) " > " .counting =
          .error (.duplicateId cause) := by
  have hsound : (Node.mk {} .sequence [.mk { id := some "a" } (.step "agent" none) [],
      .mk { id := some "a" } (.step "agent" none) []]).Sound := by
    simp [Node.Sound, Node.walk, Node.walkList, Node.Fits, Node.work, Node.children, Work.limit]
  have hlimit : ({ executor := Echo.executor } : Setup).limit ≠ 0 := Nat.succ_ne_zero 3
  obtain ⟨hiff, hcause, _⟩ := contained_of_execute hsound hlimit " > " .counting
  obtain ⟨refusal, hrefusal⟩ := hiff.2 (by decide)
  obtain ⟨cause, rfl, _⟩ := hcause refusal hrefusal
  exact ⟨cause, hrefusal⟩

end Workflow
