import Workflow.Proofs.Run.Reuse
import Workflow.Proofs.Run.Turn
import Workflow.Proofs.Run.Wake

/-!
# What comes of steps

What comes of a step is decided when its turn comes: it takes over what an earlier run has recorded,
fails because its inputs have no values, or ends as the call of its agent with these inputs does. When
the call ends, and what happens beside it, does not matter.

* `Entry.account` is what is recorded of how a node has come out.
* `Setup.account` says what comes of a step.
* `State.Final.account_of_step` says that this comes of every step of a calm run.
-/

namespace Workflow

/-- How a node has come out: its status, its output, its error and its inputs. -/
def Entry.account (e : Entry) : Status × Value × Option Failure × Fields Value :=
  (e.status, e.output, e.error, e.inputs)

/-- How a step comes out, given what an earlier run has recorded of it and the values of its inputs. -/
def Setup.account (setup : Setup) (agent : String) (own : Option Binary64) :
    Option Entry → Except BindingError (Fields Value) →
      Status × Value × Option Failure × Fields Value
  | some earlier, _ => (.succeeded, earlier.output, none, earlier.inputs)
  | none, .error e => (.failed, .null, some e.toFailure, [])
  | none, .ok inputs =>
    match setup.fate agent (setup.timeoutOf own) inputs with
    | some (.ok output) => (.succeeded, output, none, inputs)
    | some (.error failure) => (.failed, .null, some failure, inputs)
    | none => (.running, .null, none, inputs)

namespace State

variable {setup : Setup} {tree : Node} {s t u : State} {a b : Address} {job : Job} {kids : List Live}
  {rest : List Task} {steps : Nat} {call : Call} {agent : String} {own : Option Binary64}

/-! ## Steps that start -/

/-- What becomes of a step that begins: it comes to its end, or is going to call its agent with the
values of its inputs. -/
inductive Begun (setup : Setup) (agent : String) (own : Option Binary64) (job : Job)
    (bound : Except BindingError (Fields Value)) (new : Job) : Prop
  | ended : setup.recorded? job.entry ≠ none ∨ (∃ e, bound = .error e) → new.status.isTerminal →
      new.entry.account = setup.account agent own (setup.recorded? job.entry) bound →
      Begun setup agent own job bound new
  | calling {inputs : Fields Value} : setup.recorded? job.entry = none → bound = .ok inputs →
      new.stage = .calling { agent, timeout := setup.timeoutOf own } → new.entry.inputs = inputs →
      Begun setup agent own job bound new

/-- What is recorded of a node that has not started. -/
theorem Reached.account_of_pending (h : Reached setup tree s none) (htree : tree.Sound)
    (hjob : s.jobAt a = some job) (hpending : job.status = .pending) :
    job.entry.account = (.pending, .null, none, []) := by
  obtain ⟨hunstarted, _⟩ := ((h.chronicle htree).node a job hjob).of_pending hpending
  have hinputs := ((h.blank htree hjob).unstarted (.inl hpending)).1
  rw [Entry.account, hunstarted.status, hunstarted.output, hunstarted.error, hinputs]

/-- A step that starts begins like this. -/
theorem Entering.begun (h : Entering setup tree s a job kids rest) (htree : tree.Sound)
    (hwork : job.node.work = .step agent own) : ∃ new,
      (({ s with agenda := rest } : State).enter setup a).jobAt a = some new ∧
      Begun setup agent own job (bindInputs (s.viewAt setup a) job.node.header.inputs) new := by
  have hstarted := h.started htree
  have haccount := h.reached.account_of_pending htree h.jobAt h.pending
  rw [Entry.account, Prod.mk.injEq, Prod.mk.injEq, Prod.mk.injEq] at haccount
  obtain ⟨_, houtput, herror, hinputs⟩ := haccount
  rw [h.enter_of_step hwork, ← viewAt_eq setup rest h.jobAt h.canBecome]
  generalize (({ s with agenda := rest } : State).move a .running "") = t at hstarted ⊢
  have hjob := hstarted.jobAt
  have hrun := hstarted.run
  unfold State.beginStep
  cases hrecorded : setup.recorded? job.entry with
  | some earlier =>
    have hmodified : (t.modifyEntry a fun e => { e with inputs := earlier.inputs }).jobAt a = some
        { job.moved .running s.now with
          entry := { (job.moved .running s.now).entry with inputs := earlier.inputs } } := by
      rw [jobAt_modifyEntry, if_pos rfl, hjob]
      rfl
    simp only [jobAt_reported]
    refine ⟨_, (jobAt_modifyEntry_move hmodified rfl rfl "reused from previous run" a).trans
      (if_pos rfl), .ended (.inl (by rw [hrecorded]; nofun)) rfl ?_⟩
    rw [hrecorded, Setup.account, Entry.account]
    exact Prod.ext rfl (Prod.ext rfl (Prod.ext herror rfl))
  | none =>
    have hnone (b : Address) (hab : a <+: b) : t.statusAt b ≠ some .pending := by
      refine (hstarted.reached.shape htree).not_pending_of_step hjob hrun ?_ hab
      change job.node.kind = .step
      rw [Node.kind, hwork]
      rfl
    cases hbound : bindInputs (t.surroundings setup (s.root.contextAt a)) job.node.header.inputs with
    | error e =>
      simp only [jobAt_reported]
      refine ⟨_, jobAt_settle_of_step .skipped hjob hrun rfl rfl hnone, .ended (.inr ⟨e, rfl⟩) rfl ?_⟩
      rw [hrecorded, Setup.account, Entry.account]
      exact Prod.ext rfl (Prod.ext houtput (Prod.ext rfl hinputs))
    | ok inputs =>
      simp only [jobAt_later, jobAt_setStage, jobAt_modifyEntry, if_pos, hjob, Option.map_some]
      exact ⟨_, rfl, .calling hrecorded rfl rfl rfl⟩

/-! ## Steps that wait for their calls -/

/-- The step waits for the call of its agent with the inputs, has come out as that call ends, or has been
stopped. -/
def AccountedFor (setup : Setup) (agent : String) (own : Option Binary64) (inputs : Fields Value)
    (final u : State) (a : Address) : Prop :=
  (∃ job call, u.jobAt a = some job ∧ job.stage = .calling call ∧ job.node.work = .step agent own ∧
    job.entry.inputs = inputs) ∨
  (∃ job, final.jobAt a = some job ∧ job.entry.account = setup.account agent own none (.ok inputs)) ∨
  final.statusAt a = some .cancelled

/-- What is recorded of a step that comes out as its call has ended. -/
theorem Reached.account_woken {inputs : Fields Value} {outcome : Except Failure Value}
    (h : Reached setup tree s none) (htree : tree.Sound) (message : String)
    (hjob : s.jobAt a = some job) (hrun : job.status = .running) (hinputs : job.entry.inputs = inputs)
    (hfate : setup.fate agent (setup.timeoutOf own) inputs = some outcome) :
    (job.woken message s.now (some outcome)).entry.account =
      setup.account agent own none (.ok inputs) := by
  obtain ⟨_, _, _, _, _, herror, houtput⟩ :=
    ((h.chronicle htree).node a job hjob).of_running hrun
  rw [Setup.account, hfate]
  cases outcome with
  | ok output => exact Prod.ext rfl (Prod.ext rfl (Prod.ext herror hinputs))
  | error failure => exact Prod.ext rfl (Prod.ext houtput (Prod.ext rfl hinputs))

/-- A step that waits for its call comes out as the call ends. -/
theorem accountedFor_step {inputs : Fields Value} (hr : Reached setup tree s none)
    (htree : tree.Sound) (hcourse : OnCourse setup s)
    (hstep : s.step setup = some t)
    (h : AccountedFor setup agent own inputs (s.runToEnd setup) s a) :
    AccountedFor setup agent own inputs (t.runToEnd setup) t a := by
  rw [← runToEnd_of_step hstep]
  rcases h with ⟨job, call, hjob, hstage, hwork, hinputs⟩ | hended
  · obtain ⟨hrun, _, _, _⟩ := (hr.control htree).of_calling hjob hstage
    have hcall : s.callAt a = some call := by rw [callAt_of_jobAt hjob, Job.call?, hstage]
    have ht := hr.changes (hr.step htree hstep)
    by_cases hwake : ∃ rest, s.agenda = .wake a :: rest
    · obtain ⟨rest, hagenda⟩ := hwake
      have hnext : t = ({ s with agenda := rest } : State).wake a :=
        eq_perform_of_step hstep hagenda
      have hwoken := hr.jobAt_wake rest htree hjob hstage
      rw [← hnext] at hwoken
      rw [runToEnd_of_step hstep]
      cases houtcome : call.outcome with
      | none =>
        -- the call had to stop
        rw [houtcome] at hwoken
        obtain ⟨job', hjob', hentry, _⟩ := ht.entry_runToEnd htree hwoken rfl
        refine .inr (.inr ?_)
        rw [statusAt_of_jobAt hjob', Job.status, hentry]
        rfl
      | some outcome =>
        have hfate : setup.fate agent (setup.timeoutOf own) inputs = some outcome := by
          have htracked := hcourse.call a job call hjob hstage
          obtain ⟨own', hwork', htimeout⟩ := (hr.waiting htree hjob hstage).work
          rw [hwork, Work.step.injEq] at hwork'
          have hasked : call.asked = true := by
            by_contra hnot
            rw [Bool.not_eq_true] at hnot
            rw [(htracked.unasked hnot).1] at houtcome
            cases houtcome
          rw [← hinputs, hwork'.1, hwork'.2, ← htimeout, ← htracked.fate hasked]
          exact call.fate_of_outcome houtcome
        rw [houtcome] at hwoken
        obtain ⟨job', hjob', hentry, _⟩ := ht.entry_runToEnd htree hwoken (by cases outcome <;> rfl)
        refine .inr (.inl ⟨job', hjob', ?_⟩)
        rw [hentry]
        exact hr.account_woken htree _ hjob hrun hinputs hfate
    · obtain ⟨call', hcall'⟩ :=
        hr.callAt_step htree hcall (fun rest hagenda => hwake ⟨rest, hagenda⟩) hstep
      obtain ⟨job', hjob', hstage'⟩ := jobAt_of_callAt hcall'
      obtain ⟨new, hnew, _, hkeeps⟩ := hr.keeps_step htree hjob (by rw [hrun]; decide) hstep
      rw [hjob', Option.some.injEq] at hnew
      subst hnew
      have hnode := (hr.shape htree).node_eq (ht.shape htree) hjob hjob'
      exact .inl ⟨job', call', hjob', hstage', by rw [hnode, hwork], hkeeps.inputs.trans hinputs⟩
  · exact .inr hended

/-- A step that waits for its call at the end of the run waits for ever. -/
theorem Final.account_of_calling (h : Final setup tree s) (hcourse : OnCourse setup s)
    (hjob : s.jobAt a = some job) (hstage : job.stage = .calling call)
    (hwork : job.node.work = .step agent own) :
    job.entry.account = setup.account agent own none (.ok job.entry.inputs) := by
  obtain ⟨hrun, _, _, _⟩ := h.control.of_calling hjob hstage
  have hcall : s.callAt a = some call := by rw [callAt_of_jobAt hjob, Job.call?, hstage]
  have hendless := h.reached.endless h.sound h.step hcall
  have hfate : setup.fate agent (setup.timeoutOf own) job.entry.inputs = none := by
    obtain ⟨own', hwork', htimeout⟩ := (h.reached.waiting h.sound hjob hstage).work
    rw [hwork, Work.step.injEq] at hwork'
    rw [hwork'.1, hwork'.2, ← htimeout, ← (hcourse.call a job call hjob hstage).fate hendless.asked,
      call.fate_of_ready _ hendless.outcome hendless.wakeAt, hendless.acts, hendless.ending,
      hendless.deadline]
    rfl
  obtain ⟨_, _, _, _, _, herror, houtput⟩ :=
    (h.chronicle.node a job hjob).of_running hrun
  rw [Setup.account, hfate]
  exact Prod.ext hrun (Prod.ext houtput (Prod.ext herror rfl))

/-! ## Steps at the end of a run -/

/-- A step that waits for its call in the run comes out as the call ends. -/
theorem accountedFor_runWithin {inputs : Fields Value} (htree : tree.Sound)
    (hmild : setup.Mild tree) {u : State} (hu : u = (start setup tree).runWithin setup steps)
    (h : AccountedFor setup agent own inputs (u.runToEnd setup) u a) (more : Nat) :
    AccountedFor setup agent own inputs (u.runToEnd setup) (u.runWithin setup more) a := by
  have hreached := reached_runWithin setup htree steps
  induction more with
  | zero => exact h
  | succ more ih =>
    rw [runWithin_succ]
    cases hnext : (u.runWithin setup more).step setup with
    | none => exact ih
    | some v =>
      rw [← runToEnd_runWithin u setup more] at ih
      subst hu
      have hcourse := onCourse_runWithin htree hmild (steps + more)
      rw [runWithin_add] at hcourse
      have hv := accountedFor_step (hreached.runWithin htree more) htree hcourse hnext ih
      rw [← runToEnd_of_step hnext, runToEnd_runWithin] at hv
      exact hv

/-- This comes of a step that has started, unless it has been stopped. -/
theorem Final.account_of_entering {old : Job} (h : Final setup tree s) (hmild : setup.Mild tree)
    (hjob : s.jobAt a = some job) (hwork : job.node.work = .step agent own)
    (hentering : Entering setup tree ((State.start setup tree).runWithin setup steps) a old kids rest)
    (hnot : s.statusAt a ≠ some .cancelled) :
    job.entry.account = setup.account agent own (setup.recorded? job.entry)
      (bindInputs (((start setup tree).runWithin setup steps).viewAt setup a)
        job.node.header.inputs) := by
  have hshape := hentering.reached.shape h.sound
  have hnode := hshape.node_eq h.shape hentering.jobAt hjob
  have hrecorded := hshape.recorded?_eq h.shape setup hentering.jobAt hjob
  rw [hnode] at hwork
  rw [hnode, hrecorded]
  obtain ⟨new, hnew, hbegun⟩ := hentering.begun h.sound hwork
  rw [← hentering.runWithin_succ h.sound] at hnew
  have hreached := reached_runWithin setup h.sound (steps + 1)
  have hend : s = ((start setup tree).runWithin setup (steps + 1)).runToEnd setup := by
    rw [runToEnd_runWithin, h.eq_runToEnd]
  cases hbegun with
  | ended _ hterminal haccount =>
    obtain ⟨job', hjob', hentry, _⟩ := hreached.entry_runToEnd h.sound hnew hterminal
    rw [← hend, hjob, Option.some.injEq] at hjob'
    rw [hjob', hentry, haccount]
  | @calling inputs hnone hbound hstage hinputs =>
    rw [hnone, hbound]
    have hnode' := hshape.node_eq (hreached.shape h.sound) hentering.jobAt hnew
    obtain ⟨more, hmore⟩ := h.exists_runWithin_eq (steps + 1)
    have haccounted := accountedFor_runWithin h.sound hmild rfl
      (.inl ⟨new, _, hnew, hstage, by rw [hnode', hwork], hinputs⟩) more
    rw [← hmore, ← hend] at haccounted
    rcases haccounted with ⟨job', call, hjob', hstage', hwork', hinputs'⟩ | ⟨job', hjob', haccount⟩ |
      hstopped
    · rw [hjob, Option.some.injEq] at hjob'
      subst hjob'
      have hcourse := onCourse_runWithin h.sound hmild (steps + 1 + more)
      rw [runWithin_add, ← hmore] at hcourse
      rw [← hinputs']
      exact h.account_of_calling hcourse hjob hstage' hwork'
    · rw [hjob, Option.some.injEq] at hjob'
      rw [hjob', haccount]
    · exact absurd hstopped hnot

/-- In a calm run this comes of a step whose turn has come. -/
theorem Final.account_of_step (h : Final setup tree s) (hcalm : setup.Calm tree)
    (hjob : s.jobAt a = some job) (hwork : job.node.work = .step agent own)
    (hturn : Turn setup tree a steps) :
    job.entry.account = setup.account agent own (setup.recorded? job.entry)
      (bindInputs (((start setup tree).runWithin setup steps).viewAt setup a)
        job.node.header.inputs) := by
  obtain ⟨old, kids, rest, hentering⟩ := hturn.entering h.sound hcalm
  exact h.account_of_entering hcalm.mild hjob hwork hentering (h.not_stopped hcalm a)

end State
end Workflow
