import Workflow.Run.Load.Step
import Workflow.Tree.Identity
import Workflow.Tree.Label

/-!
# Runs

`execute` gives the nodes of a workflow their identifiers and labels, runs it, and reads off the
end state how the run ended.

A run whose calls never answer and have no deadline waits forever; that is an outcome of its own.
-/

namespace Workflow

/-! ## Identifiers and labels -/

/-- The tree that is run: with what an earlier run recorded, if it is resumed, every node has an
identifier and a label. -/
def Node.prepare (tree : Node) (separator : String) (previous : Option Result) (ids : IdSource) :
    Except DuplicateId (Node × IdSource) := do
  let tree ← match previous with
    | some result => (tree.deriveLabels separator).adoptIds result
    | none => pure tree
  let (tree, ids) ← tree.assignIds ids
  return (tree.deriveLabels separator, ids)

/-! ## The end of a run -/

/-- How a run ends. -/
inductive Outcome where
  /-- The workflow came to its end, perhaps because the run was cancelled. -/
  | finished (result : RunResult)
  /-- Nothing will ever happen again. -/
  | waiting
  /-- Something happened that cannot happen. -/
  | broken (fault : Fault)
  deriving Inhabited

namespace State

/-- The state when nothing is left to do, or nothing will ever happen again. -/
def runToEnd (s : State) (setup : Setup) : State :=
  match _h : s.step setup with
  | some t => t.runToEnd setup
  | none => s
termination_by s
decreasing_by exact below_step _h

/-- The state after at most as many steps as are given. -/
def runWithin (s : State) (setup : Setup) : Nat → State
  | 0 => s
  | steps + 1 =>
    match s.step setup with
    | some t => t.runWithin setup steps
    | none => s

theorem runToEnd_of_step {s t : State} {setup : Setup} (h : s.step setup = some t) :
    s.runToEnd setup = t.runToEnd setup := by
  rw [runToEnd]
  split
  · rename_i u hu
    rw [h, Option.some.injEq] at hu
    rw [hu]
  · rename_i hu
    rw [h] at hu
    cases hu

theorem runToEnd_of_step_eq_none {s : State} {setup : Setup} (h : s.step setup = none) :
    s.runToEnd setup = s := by
  rw [runToEnd]
  split
  · rename_i u hu
    rw [h] at hu
    cases hu
  · rfl

/-- At the end nothing is left to do. -/
theorem step_runToEnd (s : State) (setup : Setup) : (s.runToEnd setup).step setup = none := by
  fun_induction runToEnd s setup with
  | case1 s t _ ih => exact ih
  | case2 s h => exact h

/-- The end of a run does not depend on how many of its steps have been done. -/
theorem runToEnd_runWithin (s : State) (setup : Setup) (steps : Nat) :
    (s.runWithin setup steps).runToEnd setup = s.runToEnd setup := by
  induction steps generalizing s with
  | zero => rfl
  | succ steps ih =>
    rw [runWithin]
    split
    · rename_i t h
      rw [ih, runToEnd_of_step h]
    · rfl

/-- A run that has come to its end within some steps is there. -/
theorem runToEnd_eq_runWithin {s : State} {setup : Setup} {steps : Nat}
    (h : (s.runWithin setup steps).step setup = none) :
    s.runToEnd setup = s.runWithin setup steps := by
  rw [← runToEnd_runWithin s setup steps, runToEnd_of_step_eq_none h]

/-- The state after the end of a run: if the run was cancelled, nothing stays pending. -/
def close (s : State) : State :=
  if s.cancelled then s.settle [] .cancelled else s

/-- A node was cancelled. -/
def someCancelled (s : State) : Bool :=
  (s.root.walk []).any fun node => node.2.status = .cancelled

/-- How the run ended. -/
def runStatus (s : State) : RunStatus :=
  if s.cancelled && s.someCancelled then .cancelled
  else if s.root.status = .succeeded then .succeeded
  else .failed

/-- The changes of statuses so far. -/
def trace (s : State) : List Event :=
  s.history.reverse.filterMap Occurrence.event?

/-- The result of a run that has ended. -/
def result (s : State) : RunResult where
  status := s.runStatus
  tree := s.root.toResult
  trace := s.trace

/-- How a run ends that does nothing more. -/
def outcome (s : State) : Outcome :=
  match s.fault with
  | some fault => .broken fault
  | none => if s.root.status.isTerminal then .finished s.result else .waiting

end State

/-- Why a workflow is not run. -/
inductive Refusal where
  /-- Parallel nodes and loops may run no child at all. -/
  | noSlots
  /-- Two nodes carry the same identifier. -/
  | duplicateId (cause : DuplicateId)
  deriving DecidableEq

/-- The wording of a refusal. -/
def Refusal.message : Refusal → String
  | noSlots => "loop_concurrency must be at least 1"
  | duplicateId cause => cause.message

/-- The state at the end of the run of a tree. -/
def Setup.run (setup : Setup) (tree : Node) : State :=
  ((State.start setup tree).runToEnd setup).close

/-- Prepares a tree and runs it. -/
def Setup.execute (setup : Setup) (tree : Node) (separator : String) (ids : IdSource) :
    Except Refusal (State × IdSource) :=
  if setup.limit = 0 then .error .noSlots
  else
    match tree.prepare separator setup.previous ids with
    | .error cause => .error (.duplicateId cause)
    | .ok (tree, ids) => .ok (setup.run tree, ids)

end Workflow
