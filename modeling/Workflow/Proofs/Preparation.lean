import Workflow.Proofs.Run.Waits
import Workflow.Proofs.Tree.Annotated
import Workflow.Runner

/-!
# Flows that are prepared before they are run

A runner prepares a flow before it has the workflow executed, which prepares the workflow again. The
second preparation finds nothing to do, so that the run is that of the workflow as it was given.

* `Runner.prepare_prepared` says that a prepared flow is left as it is.
* `Runner.kept_of_prepare` says what preparation changes.
* `Runner.run_of_refused` and `Runner.run_of_prepare` compare a run with the execution of the workflow
  that was given.
* `Runner.agreement` collects this.
-/

namespace Workflow

namespace Setup

variable {setup : Setup} {tree prepared : Node} {separator : String} {ids rest : IdSource}

theorem execute_of_prepare (hlimit : setup.limit ≠ 0)
    (h : tree.prepare separator setup.previous ids = .ok (prepared, rest)) :
    setup.execute tree separator ids = .ok (setup.run prepared, rest) := by
  rw [execute, if_neg hlimit, h]

theorem execute_of_refused {cause : DuplicateId} (hlimit : setup.limit ≠ 0)
    (h : tree.prepare separator setup.previous ids = .error cause) :
    setup.execute tree separator ids = .error (.duplicateId cause) := by
  rw [execute, if_neg hlimit, h]

end Setup

namespace Runner

variable {r : Runner} {flow prepared : Flow} {previous : Option Result} {ids rest : IdSource}

theorem prepare_eq_ok_iff : r.prepare flow previous ids = .ok (prepared, rest) ↔
    ∃ tree, flow.tree.prepare r.settings.execution.separator previous ids = .ok (tree, rest) ∧
      prepared = { flow with tree } := by
  unfold prepare
  cases flow.tree.prepare r.settings.execution.separator previous ids with
  | error cause => simp [Except.map]
  | ok result =>
    obtain ⟨tree, source⟩ := result
    constructor
    · intro h
      cases h
      exact ⟨tree, rfl, rfl⟩
    · rintro ⟨_, h, rfl⟩
      cases h
      rfl

/-- A prepared flow is left as it is, whatever it is resumed from, and no identifier is drawn. -/
theorem prepare_prepared (hids : Function.Injective ids.draw)
    (h : r.prepare flow previous ids = .ok (prepared, rest)) (other : Option Result)
    (others : IdSource) : r.prepare prepared other others = .ok (prepared, others) := by
  obtain ⟨tree, htree, rfl⟩ := prepare_eq_ok_iff.1 h
  exact prepare_eq_ok_iff.2 ⟨tree, (Node.annotated_of_prepare hids htree).prepare other others, rfl⟩

/-- Preparation changes nothing but the labels and the missing identifiers of nodes. -/
theorem kept_of_prepare (h : r.prepare flow previous ids = .ok (prepared, rest)) :
    prepared = { flow with tree := prepared.tree } ∧
      Node.Related Header.Marked flow.tree prepared.tree := by
  obtain ⟨tree, htree, rfl⟩ := prepare_eq_ok_iff.1 h
  exact ⟨rfl, Node.related_of_prepare htree⟩

/-! ## Runs -/

variable {supplied : Fields Value} {occasion : Occasion} {executor : Executor}

/-- What the execution of a workflow gives is what came of the run of a flow. -/
def Agrees (attempt : Attempt State) (setup : Setup) : Except Refusal (State × IdSource) → Prop
  | .error cause => attempt.result = .error (.refused cause)
  | .ok (s, rest) => attempt.result = .ok s ∧ attempt.ids = rest ∧
      ∃ before, attempt.notices = before ++ s.notices setup

/-- Two nodes with one identifier are found by the runner as they would be by the execution. -/
theorem run_of_refused {cause : DuplicateId} (hlimit : r.settings.execution.limit ≠ 0)
    (h : flow.tree.prepare r.settings.execution.separator occasion.previous ids = .error cause) :
    Agrees (r.run flow supplied occasion ids)
      (r.setup executor (Variables.bind flow.vars supplied) occasion)
      ((r.setup executor (Variables.bind flow.vars supplied) occasion).execute flow.tree
        r.settings.execution.separator ids) := by
  have hprepare : r.prepare flow occasion.previous ids = .error cause := by
    rw [prepare, h]
    rfl
  rw [Setup.execute_of_refused hlimit h]
  unfold run
  rw [hprepare]
  rfl

/-- The execution prepares a prepared flow once more and finds nothing to do. -/
theorem run_of_prepare {tree : Node} (hlimit : r.settings.execution.limit ≠ 0)
    (hids : Function.Injective ids.draw)
    (h : flow.tree.prepare r.settings.execution.separator occasion.previous ids = .ok (tree, rest))
    (hexecutor : (r.choose flow occasion).2 = some executor) :
    Agrees (r.run flow supplied occasion ids)
      (r.setup executor (Variables.bind flow.vars supplied) occasion)
      ((r.setup executor (Variables.bind flow.vars supplied) occasion).execute flow.tree
        r.settings.execution.separator ids) := by
  set setup := r.setup executor (Variables.bind flow.vars supplied) occasion with hsetup
  have hprepare : r.prepare flow occasion.previous ids = .ok ({ flow with tree }, rest) :=
    prepare_eq_ok_iff.2 ⟨tree, h, rfl⟩
  have hagain : setup.execute tree r.settings.execution.separator rest =
      .ok (setup.run tree, rest) :=
    Setup.execute_of_prepare hlimit
      ((Node.annotated_of_prepare hids h).prepare occasion.previous rest)
  -- the choice of the executor does not look at the tree
  have hchosen : r.choose { flow with tree } occasion = ((r.choose flow occasion).1, some executor) :=
    Prod.ext rfl hexecutor
  rw [Setup.execute_of_prepare hlimit h]
  unfold run
  rw [hprepare]
  simp only [hchosen]
  rw [← hsetup, hagain]
  exact ⟨rfl, rfl, _, rfl⟩

/-- How a runner treats a flow. -/
structure Agreement (r : Runner) (flow : Flow) (ids : IdSource) : Prop where
  /-- Preparation changes nothing but the labels and the missing identifiers of nodes. -/
  kept : ∀ previous prepared rest, r.prepare flow previous ids = .ok (prepared, rest) →
    prepared = { flow with tree := prepared.tree } ∧
      Node.Related Header.Marked flow.tree prepared.tree
  /-- A prepared flow is left as it is, whatever it is resumed from, and no identifier is drawn. -/
  again : ∀ previous prepared rest, r.prepare flow previous ids = .ok (prepared, rest) →
    ∀ other others, r.prepare prepared other others = .ok (prepared, others)
  /-- A run comes to what the execution of the workflow comes to that was not prepared, on the same
  occasion and with the same variables, executor and source of identifiers. -/
  run : ∀ supplied occasion executor, (r.choose flow occasion).2 = some executor →
    Agrees (r.run flow supplied occasion ids)
      (r.setup executor (Variables.bind flow.vars supplied) occasion)
      ((r.setup executor (Variables.bind flow.vars supplied) occasion).execute flow.tree
        r.settings.execution.separator ids)

/-- Preparation is idempotent, and to run a flow is to execute its workflow. -/
theorem agreement (flow : Flow) (hlimit : r.settings.execution.limit ≠ 0)
    (hids : Function.Injective ids.draw) : r.Agreement flow ids where
  kept _ _ _ h := kept_of_prepare h
  again _ _ _ h := prepare_prepared hids h
  run supplied occasion executor hexecutor := by
    cases h : flow.tree.prepare r.settings.execution.separator occasion.previous ids with
    | error cause => exact run_of_refused hlimit h
    | ok result => exact run_of_prepare hlimit hids h hexecutor

/-- A flow of two steps, one of which has an identifier, runs so with the echo executor. -/
theorem agreement_sequence : ∃ (r : Runner) (flow : Flow) (s : State) (rest : IdSource),
    r = ⟨{}, default, some Echo.executor⟩ ∧
    flow.tree = .mk {} .sequence [.mk { id := some "first" } (.step "writer" none) [],
      .mk {} (.step "reader" none) []] ∧
    (r.run flow [] {} .counting).result = .ok s ∧ s.runStatus = .succeeded ∧
    (r.setup Echo.executor (Variables.bind flow.vars []) {}).execute flow.tree
      r.settings.execution.separator .counting = .ok (s, rest) ∧
    r.Agreement flow .counting := by
  have h : ((⟨{}, default, some Echo.executor⟩ : Runner).setup Echo.executor
      (Variables.bind [] []) {}).execute (.mk {} .sequence
        [.mk { id := some "first" } (.step "writer" none) [], .mk {} (.step "reader" none) []])
      defaultSeparator .counting = .ok (_, _) := rfl
  have hagreement : (⟨{}, default, some Echo.executor⟩ : Runner).Agreement
      { code := "two", tree := (.mk {} .sequence
        [.mk { id := some "first" } (.step "writer" none) [], .mk {} (.step "reader" none) []]) }
      .counting :=
    agreement _ (by decide) (IdSource.draw_countingFrom_injective 1)
  have hrun := hagreement.run [] {} Echo.executor rfl
  refine ⟨_, _, _, _, rfl, rfl, hrun.1, ?_, h, hagreement⟩
  rw [Setup.run_eq 20 (Option.isNone_iff_eq_none.1 (by decide +kernel))]
  decide +kernel

end Runner
end Workflow
