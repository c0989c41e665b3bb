import Workflow.Proofs.Run.Pace

/-!
# Calls that are to begin

A call begins at the instant at which its step starts. From then on it keeps to the instants that follow
from what it is given.

* `State.Poised` says that a call is to begin at this instant, which is that of the step's start, and
  `State.poised_runWithin` that this is so of every call that has not begun.
* `State.Poised.onTime_proceed` says that a call that begins keeps to its instants.
-/

namespace Workflow
namespace State

variable {setup : Setup} {tree : Node} {s t u : State} {hand after : Option Address} {doing : Doing}
  {a b : Address} {job : Job} {call : Call} {rest : List Task}

/-! ## When nodes have started -/

/-- A node that is not pending any more has started when it had. -/
theorem Change.started_eq (hchange : Change setup doing s hand t after) (hshape : Shape tree s)
    (hjob : s.jobAt a = some job) (hstatus : job.status ≠ .pending) :
    ∃ job', t.jobAt a = some job' ∧ job'.status ≠ .pending ∧
      job'.entry.progress.started = job.entry.progress.started := by
  obtain ⟨job', hjob', heffect⟩ := hchange.jobEffect hshape hjob
  have hnot := hchange.not_pending hshape hjob hstatus
  rw [statusAt_of_jobAt hjob', ne_eq, Option.some.injEq] at hnot
  refine ⟨job', hjob', hnot, ?_⟩
  cases heffect with
  | @moved x f target message hmove =>
    obtain ⟨old, hold, hlegal, _⟩ := hmove.legal
    rw [hjob, Option.some.injEq] at hold
    subst hold
    have hne : target ≠ .running := by
      rintro rfl
      revert hlegal hstatus
      cases job.status <;> decide
    have hprogress : (f job.entry).progress = job.entry.progress := by cases hmove <;> rfl
    change ((f job.entry).progress.moved target s.now).started = _
    rw [hprogress]
    exact started_moved_of_ne hne s.now
  | _ => rfl

theorem Reached.started_step (h : Reached setup tree s none) (htree : tree.Sound)
    (hjob : s.jobAt a = some job) (hstatus : job.status ≠ .pending) (hstep : s.step setup = some t) :
    ∃ job', t.jobAt a = some job' ∧ job'.status ≠ .pending ∧
      job'.entry.progress.started = job.entry.progress.started := by
  refine h.changes_induction (P := fun u _ => ∃ job', u.jobAt a = some job' ∧
    job'.status ≠ .pending ∧ job'.entry.progress.started = job.entry.progress.started)
    (h.step htree hstep) ⟨job, hjob, hstatus, rfl⟩ ?_
  rintro u v between next hu hchange ⟨old, hold, hnot, hstarted⟩
  obtain ⟨new, hnew, hnot', hstarted'⟩ := hchange.started_eq (hu.shape htree) hold hnot
  exact ⟨new, hnew, hnot', hstarted'.trans hstarted⟩

theorem Reached.started_runWithin (h : Reached setup tree s none) (htree : tree.Sound)
    (hjob : s.jobAt a = some job) (hstatus : job.status ≠ .pending) (steps : Nat) :
    ∃ job', (s.runWithin setup steps).jobAt a = some job' ∧ job'.status ≠ .pending ∧
      job'.entry.progress.started = job.entry.progress.started := by
  refine h.runWithin_induction (P := fun u => ∃ job', u.jobAt a = some job' ∧
    job'.status ≠ .pending ∧ job'.entry.progress.started = job.entry.progress.started) htree
    ⟨job, hjob, hstatus, rfl⟩ ?_ steps
  rintro u v hu hstep ⟨old, hold, hnot, hstarted⟩
  obtain ⟨new, hnew, hnot', hstarted'⟩ := hu.started_step htree hold hnot hstep
  exact ⟨new, hnew, hnot', hstarted'.trans hstarted⟩

/-! ## Calls that have not begun -/

/-- The call of the step at an address is to begin at this instant, which is that of the step's start. -/
structure Poised (s : State) (a : Address) : Prop where
  turns : s.turns a = 1
  wakeAt : ∀ call, s.callAt a = some call → call.wakeAt = none
  started : ∀ job, s.jobAt a = some job → job.entry.progress.started = some s.now

/-- What becomes of a step that starts and has to call its agent. -/
theorem Entering.enter_of_bound {kids : List Live} {agent : String} {own : Option Binary64}
    {inputs : Fields Value} (h : Entering setup tree s a job kids rest)
    (hwork : job.node.work = .step agent own) (hrecorded : setup.recorded? job.entry = none)
    (hbound : bindInputs (s.viewAt setup a) job.node.header.inputs = .ok inputs) :
    ({ s with agenda := rest } : State).enter setup a =
      (((({ s with agenda := rest } : State).move a .running "").modifyEntry a
        fun e => { e with inputs }).setStage a
          (.calling { agent, timeout := setup.timeoutOf own })).later (.proceed a) := by
  rw [← viewAt_eq setup rest h.jobAt h.canBecome] at hbound
  rw [h.enter_of_step hwork, beginStep, hrecorded]
  simp only [hbound]

/-- A step that begins to wait has started just now, and its call is to begin. -/
theorem Calling.poised (h : Calling setup tree s a) (htree : tree.Sound)
    (hstep : s.step setup = some t) : Poised t a := by
  obtain ⟨job, kids, rest, agent, own, inputs, hentering, hwork, hrecorded, hbound⟩ := h
  rw [hentering.step htree, hentering.enter_of_bound hwork hrecorded hbound,
    Option.some.injEq] at hstep
  subst hstep
  have hjob : (({ s with agenda := rest } : State).move a .running "").jobAt a =
      some (job.moved .running s.now) := by
    rw [jobAt_move (s := { s with agenda := rest }) hentering.jobAt hentering.canBecome, if_pos rfl]
  have hnot : .proceed a ∉ s.agenda := fun hmem =>
    hentering.reached.not_pending_of_proceed htree hmem
      (by rw [statusAt_of_jobAt hentering.jobAt, hentering.pending])
  have hrest : rest.count (.proceed a) = 0 := by
    rw [List.count_eq_zero]
    exact fun hmem => hnot (by rw [hentering.agenda]; exact List.mem_cons_of_mem _ hmem)
  refine ⟨?_, fun call hcall => ?_, fun new hnew => ?_⟩
  · simp [turns, later, setStage, modifyEntry, State.modify, hrest]
  · rw [callAt_eq, jobAt_later, jobAt_setStage, if_pos rfl, jobAt_modifyEntry, if_pos rfl, hjob] at hcall
    rw [← Option.some.inj hcall]
  · rw [jobAt_later, jobAt_setStage, if_pos rfl, jobAt_modifyEntry, if_pos rfl, hjob] at hnew
    rw [← Option.some.inj hnew]
    change some s.now = some _
    congr 1
    exact (now_move { s with agenda := rest } a .running "").symm

/-- A call that has not begun goes on to be about to, while other things are done. -/
theorem Poised.beside (h : Poised s a) (hr : Reached setup tree s none) (htree : tree.Sound)
    (hcall : s.callAt a = some call) {task : Task} (hagenda : s.agenda = task :: rest)
    (hwake : task ≠ .wake a) (hproceed : task ≠ .proceed a) (hstep : s.step setup = some t) :
    Poised t a := by
  obtain ⟨⟨told, htold⟩, hturns, hnow⟩ := hr.beside htree hcall hagenda hwake hproceed hstep
  obtain ⟨job, hjob, hrun, _⟩ := (hr.control htree).of_callAt hcall
  obtain ⟨job', hjob', _, hstarted⟩ := hr.started_step htree hjob (by rw [hrun]; decide) hstep
  refine ⟨hturns.trans h.turns, fun call' hcall' => ?_, fun new hnew => ?_⟩
  · rw [htold, Option.some.injEq] at hcall'
    rw [← hcall']
    exact h.wakeAt call hcall
  · rw [hjob', Option.some.injEq] at hnew
    rw [← hnew, hstarted, hnow]
    exact h.started job hjob

/-- In every state of a run, a call that has not begun is about to. -/
theorem poised_runWithin (setup : Setup) (htree : tree.Sound) (steps : Nat) :
    ∀ a, Unasked ((State.start setup tree).runWithin setup steps) a →
      Poised ((State.start setup tree).runWithin setup steps) a := by
  induction steps with
  | zero => exact fun a hunasked => absurd hunasked (not_unasked_start setup tree a)
  | succ steps ih =>
    intro a hunasked
    have hr := reached_runWithin setup htree steps
    have hqueued := queued_runWithin setup htree steps
    rw [runWithin_succ] at hunasked ⊢
    generalize (State.start setup tree).runWithin setup steps = s at *
    cases hstep : s.step setup with
    | none =>
      rw [hstep, Option.getD_none] at hunasked
      exact ih a hunasked
    | some t =>
      rw [hstep, Option.getD_some] at hunasked
      rw [Option.getD_some]
      -- a call that was not asked for goes on to be about to begin
      have hbeside (hbefore : Unasked s a) (hproceed : ∀ rest, s.agenda ≠ .proceed a :: rest) :
          Poised t a := by
        have hahead := hqueued.ahead a hbefore
        have hpoised := ih a hbefore
        obtain ⟨call, hcall, _⟩ := hbefore
        cases hagenda : s.agenda with
        | nil =>
          rw [hagenda] at hahead
          exact absurd hahead (Ahead.not_nil a)
        | cons task rest =>
          refine hpoised.beside hr htree hcall hagenda ?_ ?_ hstep
          · rintro rfl
            rw [hagenda] at hahead
            exact Ahead.not_wake a rest hahead
          · rintro rfl
            exact hproceed rest hagenda
      by_cases hproceed : ∃ b rest, s.agenda = .proceed b :: rest
      · obtain ⟨b, rest, hagenda⟩ := hproceed
        rw [eq_perform_of_step hstep hagenda] at hunasked
        obtain ⟨hbefore, hne⟩ := ((hqueued.proceeds setup hagenda).unasked_iff a).1 hunasked
        refine hbeside hbefore fun rest' hagenda' => hne ?_
        rw [hagenda, List.cons.injEq, Task.proceed.injEq] at hagenda'
        exact hagenda'.1.symm
      · have hnot (b : Address) (rest : List Task) : s.agenda ≠ .proceed b :: rest :=
          fun hagenda => hproceed ⟨b, rest, hagenda⟩
        obtain ⟨_, _, _, hnew⟩ := hr.unasked_step htree hqueued hstep hnot
        rcases hnew a hunasked with hbefore | ⟨rest, hagenda⟩
        · exact hbeside hbefore (hnot a)
        · exact (hr.calling_of_unasked htree hagenda hstep hunasked).poised htree hstep

/-! ## Calls that begin -/

/-- The executor is asked for a call as the one after those that were made before. -/
theorem callsOf_eq (s : State) (agent : String) :
    s.callsOf agent = s.invocations.countP fun earlier => earlier.agent == agent := by
  rw [callsOf, invocations, List.countP_filterMap, List.countP_reverse]
  congr 1
  funext occurrence
  cases occurrence.invocation? <;> simp

/-- The executor is asked for the call that is to begin, which keeps to its instants from now on. -/
theorem Poised.onTime_proceed (h : Poised s a) (setup : Setup)
    (hagenda : s.agenda = .proceed a :: rest) (hjob : s.jobAt a = some job)
    (hstage : job.stage = .calling call) (hasked : call.asked = false) (houtcome : call.outcome = none) :
    (({ s with agenda := rest } : State).proceed setup a).OnTime a
      (setup.request call.timeout s.invocations ⟨s.now, call.agent, job.entry.inputs⟩) := by
  obtain ⟨kids, hkids⟩ := at?_of_jobAt hjob
  have hcall : s.callAt a = some call := by rw [callAt_of_jobAt hjob, Job.call?, hstage]
  have hcall' : ({ s with agenda := rest } : State).callAt a = some call := hcall
  set c : Invocation := ⟨s.now, call.agent, job.entry.inputs⟩
  set r := setup.request call.timeout s.invocations c
  have hbehaviour : r.behaviour =
      setup.executor.call call.agent (s.callsOf call.agent) job.entry.inputs := by
    rw [callsOf_eq]
    rfl
  have hproceed : ({ s with agenda := rest } : State).proceed setup a =
      ((({ s with agenda := rest } : State).setStage a (.calling { call with
        asked := true, acts := r.behaviour.acts, ending := r.behaviour.ending,
        deadline := r.deadline })).note (.called c)).next (.proceed a) := by
    rw [hbehaviour]
    change _ = (({ s with agenda := rest } : State).ask setup a job.entry.inputs call).next (.proceed a)
    unfold State.proceed
    rw [show ({ s with agenda := rest } : State).root.at? a = some (.mk job kids) from hkids]
    simp [Live.job, Live.entry, Job.call?, hstage, hasked, houtcome]
  have hrest : rest.count (.proceed a) = 0 := by
    have hturns : s.turns a = 1 := h.turns
    rw [State.turns, hagenda, List.count_cons_self] at hturns
    omega
  rw [hproceed]
  refine ⟨_, callAt_setCall _ hcall', ?_⟩
  have hacts := timeOf_nonneg r.behaviour.acts
  refine ⟨rfl, rfl, rfl, rfl, fun _ _ => ?_, fun time htime => ?_,
    fun _ => ⟨?_, .going ?_ (h.wakeAt call hcall) rfl⟩, fun outcome hsome => ?_⟩
  · change r.time ≤ r.time + timeOf r.behaviour.acts
    omega
  · obtain ⟨limit, -, rfl⟩ := Option.map_eq_some_iff.1 htime
    change r.time ≤ r.time + max 0 limit
    omega
  · rfl
  · change (Task.proceed a :: rest).count (.proceed a) = 1
    rw [List.count_cons_self, hrest]
  · rw [show call.outcome = some outcome from hsome] at houtcome
    cases houtcome

end State
end Workflow
