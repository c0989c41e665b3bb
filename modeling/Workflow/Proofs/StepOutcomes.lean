import Workflow.Executor.Script
import Workflow.Proofs.Run.Causes

/-!
# How steps come out

What falls due first for a step whose agent is called decides how the step comes out: it succeeds or fails
as the call ends, fails because its timeout passes, or is cancelled because it has to stop. No step runs
for longer than its timeout.

* `Raised.ToldBy` says what a failure tells of what an executor raises.
* `State.Classified` says how a step comes out, `State.InTime` that no step runs for too long.
* `Setup.classified_of_execute` says so of every call of a run.
-/

namespace Workflow

/-! ## What executors raise -/

/-- The failure tells of what was raised: it is what a failure of the node says of itself, and of another
exception it tells the text, or the name of the class in place of an empty one, and the class. -/
def Raised.ToldBy (failure : Failure) : Raised → Prop
  | .foreign className message => failure.kind = .executor ∧
      failure.message = (if message.isEmpty then className else message) ∧
      failure.details = [("exception", .string className)]
  | .executor message payload => failure.kind = .executor ∧ failure.message = message ∧
      failure.details = if payload.isNull then [] else [("payload", payload)]
  | .node message details => failure.kind = .executor ∧ failure.message = message ∧
      failure.details = details
  | .binding message details input variable_ path => failure.kind = .binding ∧
      failure.message = message ∧
      failure.details = BindingError.detailsOf details input variable_ path
  | .noBranchMatched value => failure.kind = .noBranchMatched ∧
      failure.message = s!"No branch matched condition value {value.display}" ∧
      failure.details = [("value", value)]

theorem Raised.toldBy_toFailure (raised : Raised) : raised.ToldBy raised.toFailure := by
  cases raised <;> exact ⟨rfl, rfl, rfl⟩

@[simp] theorem Request.kind_expired (r : Request) : r.expired.kind = .timeout :=
  rfl

namespace State

variable {setup : Setup} {tree : Node} {s t : State} {a : Address} {job : Job} {call : Call}
  {rest : List Task} {r : Request} {cause : Cause} {n m : Nat} {time : Int} {e : Entry}
  {callers : List Address}

/-! ## Steps whose calls were made -/

/-- The cause falls due at this instant for the step at an address, and no other one does by then. -/
structure FallsFirst (setup : Setup) (tree : Node) (a : Address) (r : Request) (cause : Cause)
    (time : Int) : Prop where
  due : FallsDue setup tree a r cause time
  first : ∀ other later, other ≠ cause → FallsDue setup tree a r other later → time < later

/-- How the step at an address comes out whose call was given this. -/
structure Classified (setup : Setup) (tree : Node) (a : Address) (r : Request) (e : Entry) :
    Prop where
  /-- If the call returns first the step succeeds. -/
  returns : ∀ value, r.behaviour.ending = .answer (.ok value) →
    FallsFirst setup tree a r .answer r.doneAt →
      e.status = .succeeded ∧ e.output = value ∧ e.progress.finished = some r.doneAt
  /-- If the call raises first the step fails, and records what was raised. -/
  raises : ∀ raised : Raised, r.behaviour.ending = .answer (.error raised.toFailure) →
    FallsFirst setup tree a r .answer r.doneAt →
      e.status = .failed ∧ e.progress.finished = some r.doneAt ∧
        ∃ failure, e.error = some failure ∧ raised.ToldBy failure
  /-- If the timeout passes first the step fails when it has run for that long. -/
  expires : ∀ limit, r.limit = some limit →
    FallsFirst setup tree a r .timeout (r.time + max 0 limit) →
      e.status = .failed ∧ e.progress.finished = some (r.time + max 0 limit) ∧
        e.error = some r.expired ∧ r.expired.kind = .timeout
  /-- If the end of the run is asked for first the step is cancelled with the run. -/
  cancelled : ∀ time, FallsFirst setup tree a r .cancel time →
    e.status = .cancelled ∧ e.progress.finished = some time ∧
      e.error = some ⟨.cancelled, Failure.runCancelled, []⟩
  /-- If another candidate wins a race around the step first the step is cancelled with the race. -/
  halted : ∀ time, FallsFirst setup tree a r .halt time →
    e.status = .cancelled ∧ e.progress.finished = some time ∧
      e.error = some ⟨.cancelled, Failure.raceLost, []⟩
  /-- The step was ended by one of what fell due for it first, also if there are several, or nothing ever
  falls due for it and it waits. -/
  ended : (∃ cause time, EndedBy setup tree a r e cause time) ∨
    (e.status = .running ∧ ∀ cause time, ¬ FallsDue setup tree a r cause time)
  /-- A step that has been ended has not run for longer than its timeout. -/
  inTime : ∀ limit, r.limit = some limit → e.status ≠ .running →
    ∃ time, e.progress.finished = some time ∧ time ≤ r.time + max 0 limit

/-- What falls due first has ended the step. -/
theorem FallsFirst.endsBy (h : FallsFirst setup tree a r cause time)
    (hended : (∃ cause time, EndedBy setup tree a r e cause time) ∨
      (e.status = .running ∧ ∀ cause time, ¬ FallsDue setup tree a r cause time)) :
    e.progress.finished = some time ∧ e.EndsBy r cause := by
  rcases hended with ⟨other, early, hended⟩ | ⟨_, hnone⟩
  · have hle : early ≤ time := hended.first cause time h.due
    obtain rfl : other = cause := by
      by_contra hother
      exact absurd (h.first other early hother hended.due) (not_lt.2 hle)
    rw [h.due.eq hended.due]
    exact ⟨hended.finished, hended.recorded⟩
  · exact absurd h.due (hnone cause time)

theorem Classified.of_ended (hended : (∃ cause time, EndedBy setup tree a r e cause time) ∨
    (e.status = .running ∧ ∀ cause time, ¬ FallsDue setup tree a r cause time)) :
    Classified setup tree a r e where
  returns value hvalue hfirst := by
    obtain ⟨hfinished, outcome, houtcome, hends⟩ := hfirst.endsBy hended
    rw [hvalue, Ending.answer.injEq] at houtcome
    subst houtcome
    exact ⟨hends.1, hends.2, hfinished⟩
  raises raised hraised hfirst := by
    obtain ⟨hfinished, outcome, houtcome, hends⟩ := hfirst.endsBy hended
    rw [hraised, Ending.answer.injEq] at houtcome
    subst houtcome
    exact ⟨hends.1, hfinished, _, hends.2, raised.toldBy_toFailure⟩
  expires limit hlimit hfirst := by
    obtain ⟨hfinished, hends⟩ := hfirst.endsBy hended
    exact ⟨hends.1, hfinished, hends.2, r.kind_expired⟩
  cancelled time hfirst := by
    obtain ⟨hfinished, hends⟩ := hfirst.endsBy hended
    exact ⟨hends.1, hfinished, hends.2⟩
  halted time hfirst := by
    obtain ⟨hfinished, hends⟩ := hfirst.endsBy hended
    exact ⟨hends.1, hfinished, hends.2⟩
  ended := hended
  inTime limit hlimit hrun := by
    rcases hended with ⟨cause, time, hended⟩ | ⟨hrun', _⟩
    · refine ⟨time, hended.finished, hended.first .timeout _ ?_⟩
      change r.limit.map _ = _
      rw [hlimit]
      rfl
    · exact absurd hrun' hrun

/-! ## The end of a run -/

/-- A step that still waits at the end of a run never had to stop. -/
theorem Final.not_stopping (h : Final setup tree s) (hcall : s.callAt a = some call) (m : Nat) :
    ¬ ((start setup tree).runWithin setup m).Stopping a := by
  intro hstopping
  obtain ⟨more, hs⟩ := h.exists_runWithin_eq m
  rw [← runWithin_add] at hs
  have hnil := h.reached.agenda_eq_nil h.sound h.step
  rw [hs] at hcall hnil
  exact agenda_of_stopping h.sound (stopping_mono h.sound (Nat.le_add_right m more) hstopping) hcall hnil

/-- For a step that still waits at the end of a run nothing ever falls due. -/
theorem Final.not_fallsDue (h : Final setup tree s) (hontime : s.OnTime a r) (cause : Cause)
    (time : Int) : ¬ FallsDue setup tree a r cause time := by
  intro hdue
  obtain ⟨call, hcall, hontime⟩ := hontime
  have hendless := h.reached.endless h.sound h.step hcall
  cases cause with
  | answer =>
    obtain ⟨⟨outcome, houtcome⟩, _⟩ := hdue
    rw [← hontime.ending, hendless.ending] at houtcome
    cases houtcome
  | timeout =>
    have hdeadline : r.deadline = some time := hdue
    rw [← (hontime.going hendless.outcome).1, hendless.deadline] at hdeadline
    cases hdeadline
  | cancel =>
    obtain ⟨m, hcancelled, _⟩ := hdue
    exact h.not_stopping hcall m (.inl hcancelled)
  | halt =>
    obtain ⟨m, hbeaten, _⟩ := hdue
    exact h.not_stopping hcall m (.inr (Beaten.halted hbeaten))

theorem Final.classified (h : Final setup tree s) (hcomes : Comes setup tree a r s)
    (hjob : s.jobAt a = some job) : Classified setup tree a r job.entry := by
  refine .of_ended ?_
  cases hcomes with
  | waits hontime =>
    obtain ⟨call, hcall, _⟩ := id hontime
    obtain ⟨job', hjob', hrun, _⟩ := h.control.of_callAt hcall
    rw [hjob, Option.some.injEq] at hjob'
    exact .inr ⟨hjob' ▸ hrun, h.not_fallsDue hontime⟩
  | @ended job' cause time hjob' _ hended =>
    rw [hjob, Option.some.injEq] at hjob'
    exact .inl ⟨cause, time, hjob' ▸ hended⟩

/-! ## Calls in order -/

/-- A step of a run adds at most a call to those that have been made. -/
theorem Reached.invocations_step (h : Reached setup tree s none) (htree : tree.Sound)
    (hqueued : Queued s) (hstep : s.step setup = some t) : s.invocations <+: t.invocations := by
  by_cases hproceed : ∃ b rest, s.agenda = .proceed b :: rest
  · obtain ⟨b, rest, hagenda⟩ := hproceed
    rw [eq_perform_of_step hstep hagenda]
    show _ <+: (State.proceed _ setup b).invocations
    rcases hqueued.invocations_proceed setup b rest with ⟨_, hsame⟩ | ⟨_, _, _, _, _, hmore⟩
    · rw [hsame]
    · rw [hmore]
      exact List.prefix_append ..
  · have hnot (b : Address) (rest : List Task) : s.agenda ≠ .proceed b :: rest :=
      fun hagenda => hproceed ⟨b, rest, hagenda⟩
    rw [(h.unasked_step htree hqueued hstep hnot).2.1]

/-- The calls that have been made stay the first ones. -/
theorem invocations_mono (setup : Setup) (htree : tree.Sound) (hle : m ≤ n) :
    ((start setup tree).runWithin setup m).invocations <+:
      ((start setup tree).runWithin setup n).invocations := by
  induction n, hle using Nat.le_induction with
  | base => exact List.prefix_rfl
  | succ n _ ih =>
    apply ih.trans
    rw [runWithin_succ]
    cases hstep : ((start setup tree).runWithin setup n).step setup with
    | none => exact List.prefix_rfl
    | some t =>
      exact (reached_runWithin setup htree n).invocations_step htree
        (queued_runWithin setup htree n) hstep

/-- The step at an address made this call, which is given what follows from the calls before, and comes out
as what falls due first says. -/
structure CameOut (setup : Setup) (tree : Node) (s : State) (a : Address) (before : List Invocation)
    (c : Invocation) (job : Job) (own : Option Binary64) : Prop where
  jobAt : s.jobAt a = some job
  work : job.node.work = .step c.agent own
  inputs : job.entry.inputs = c.inputs
  started : job.entry.progress.started = some c.time
  classified : Classified setup tree a (setup.request (setup.timeoutOf own) before c) job.entry

/-- Every call of a run is that of a step that comes out as what falls due first says. -/
theorem Final.cameOut {c : Invocation} (h : Final setup tree s)
    (hs : s = (start setup tree).runWithin setup n) (htally : Tally setup tree n callers) {i : Nat}
    (hcaller : callers[i]? = some a) (hc : s.invocations[i]? = some c) :
    ∃ job own, CameOut setup tree s a (s.invocations.take i) c job own := by
  obtain ⟨k, hlt, hasks, hlength⟩ := htally.asks i a hcaller
  obtain ⟨old, call, hold, hstage, hstarted, hmade, hcomes⟩ := hasks.comes h.sound
  have hr := reached_runWithin setup h.sound k
  obtain ⟨hrun, _⟩ := (hr.control h.sound).of_calling hold hstage
  obtain ⟨own, hwork, htimeout⟩ := (hr.waiting h.sound hold hstage).work
  -- the call is the one after those that were made before
  obtain ⟨more, hall⟩ := invocations_mono setup h.sound hlt
  rw [Nat.succ_eq_add_one, hmade, ← hs] at hall
  rw [← hall, List.append_assoc, ← hlength, List.getElem?_append_right le_rfl, Nat.sub_self] at hc
  obtain rfl := Option.some.inj hc
  have hbefore : s.invocations.take i = ((start setup tree).runWithin setup k).invocations := by
    rw [← hall, List.append_assoc, ← hlength, List.take_left]
  obtain ⟨more', hmore⟩ := Nat.exists_eq_add_of_lt hlt
  obtain ⟨job, hjob, _, hkeeps⟩ := hr.keeps_runWithin h.sound hold (by rw [hrun]; decide) (more' + 1)
  obtain ⟨job', hjob', _, hsame⟩ := hr.started_runWithin h.sound hold (by rw [hrun]; decide) (more' + 1)
  rw [← runWithin_add, ← Nat.add_assoc, ← hmore, ← hs] at hjob hjob'
  rw [hjob, Option.some.injEq] at hjob'
  subst hjob'
  have hnode := (hr.shape h.sound).node_eq h.shape hold hjob
  refine ⟨job, own, hjob, by rw [hnode, hwork], hkeeps.inputs, hsame.trans hstarted, ?_⟩
  rw [hbefore, ← htimeout]
  exact h.classified (hs ▸ hcomes n hlt) hjob

/-! ## Steps that run -/

/-- A step that waits for a call had to call its agent. -/
theorem called_of_callAt (htree : tree.Sound)
    (hcall : ((start setup tree).runWithin setup n).callAt a = some call) :
    Called setup tree n a := by
  have hr := reached_runWithin setup htree n
  obtain ⟨job, hjob, hrun, _, hkind, _⟩ := (hr.control htree).of_callAt hcall
  have hstarted : job.entry.progress.started.isSome := by
    obtain ⟨x, _, _, _, hsome, _⟩ := ((hr.chronicle htree).node a job hjob).of_running hrun
    rw [hsome]
    rfl
  obtain ⟨k, old, kids, rest, hlt, hentering⟩ := exists_entering_of_started htree n hjob hstarted
  have hnode := (hentering.reached.shape htree).node_eq (hr.shape htree) hentering.jobAt hjob
  rw [hnode] at hkind
  obtain ⟨agent, own, hwork⟩ := Work.exists_agent hkind
  obtain ⟨new, hnew, hbegun⟩ := hentering.begun htree hwork
  cases hbegun with
  | calling hrecorded hbound =>
    exact ⟨k, hlt, old, kids, rest, agent, own, _, hentering, hwork, hrecorded, hbound⟩
  | ended _ hterminal =>
    -- a step that has ended does not run later
    rw [← hentering.runWithin_succ htree] at hnew
    obtain ⟨more, rfl⟩ := Nat.exists_eq_add_of_le hlt
    have hstatus := (reached_runWithin setup htree (k + 1)).statusAt_runWithin htree
      (statusAt_of_jobAt hnew) hterminal more
    rw [← runWithin_add, statusAt_of_jobAt hjob, hrun, Option.some.injEq] at hstatus
    rw [← hstatus] at hterminal
    cases hterminal

/-- No step runs for longer than its timeout. -/
def InTime (setup : Setup) (s : State) : Prop :=
  ∀ a job agent own limit began, s.jobAt a = some job → job.status = .running →
    job.node.work = .step agent own → (setup.timeoutOf own).bind microseconds? = some limit →
    job.entry.progress.started = some began → s.now ≤ began + max 0 limit

/-- In no state of a run a step has run for longer than its timeout. -/
theorem inTime_runWithin (setup : Setup) (htree : tree.Sound) (n : Nat) :
    InTime setup ((start setup tree).runWithin setup n) := by
  intro a job agent own limit began hjob hrun hwork hlimit hbegan
  have hr := reached_runWithin setup htree n
  have hkind : job.node.kind = .step := by rw [Node.kind, hwork]; rfl
  obtain ⟨call, hcall⟩ := hr.exists_callAt htree hjob hrun hkind
  have hcalled := called_of_callAt htree hcall
  by_cases hunasked : Unasked ((start setup tree).runWithin setup n) a
  · -- the step has started just now
    have hstarted := (poised_runWithin setup htree n a hunasked).started job hjob
    rw [hbegan, Option.some.injEq] at hstarted
    omega
  · obtain ⟨callers, htally⟩ := exists_tally setup htree n
    obtain ⟨i, hi⟩ := List.mem_iff_getElem?.1 ((htally.mem_iff a).2 ⟨hcalled, hunasked⟩)
    obtain ⟨k, hlt, hasks, _⟩ := htally.asks i a hi
    obtain ⟨old, call', hold, hstage, hstarted, _, hcomes⟩ := hasks.comes htree
    have hr' := reached_runWithin setup htree k
    obtain ⟨hrun', _⟩ := (hr'.control htree).of_calling hold hstage
    obtain ⟨own', hwork', htimeout⟩ := (hr'.waiting htree hold hstage).work
    have hnode := (hr'.shape htree).node_eq (hr.shape htree) hold hjob
    rw [hnode, hwork', Work.step.injEq] at hwork
    obtain ⟨_, rfl⟩ := hwork
    obtain ⟨more, rfl⟩ := Nat.exists_eq_add_of_le hlt.le
    obtain ⟨job', hjob', _, hsame⟩ := hr'.started_runWithin htree hold (by rw [hrun']; decide) more
    rw [← runWithin_add, hjob, Option.some.injEq] at hjob'
    subst hjob'
    rw [hbegan, hstarted, Option.some.injEq] at hsame
    cases hcomes _ hlt with
    | waits hontime =>
      obtain ⟨_, _, hontime⟩ := hontime
      refine hontime.deadline _ ?_
      rw [Request.deadline, Request.limit, Setup.request, htimeout, hlimit, hsame]
      rfl
    | ended hjob' hterminal =>
      rw [hjob, Option.some.injEq] at hjob'
      rw [← hjob', hrun] at hterminal
      cases hterminal

end State

/-- In every run, a step whose agent is called comes out as what falls due first says: the answer of its
call, its timeout, the end of the run, or the success of another candidate of a race around it. No step
runs for longer than its timeout. -/
theorem Setup.classified_of_execute {setup : Setup} {tree : Node} {separator : String}
    {ids rest : IdSource} {s : State} (htree : tree.Sound)
    (h : setup.execute tree separator ids = .ok (s, rest)) :
    ∃ (prepared : Node) (callers : List Address),
      tree.prepare separator setup.previous ids = .ok (prepared, rest) ∧ callers.Nodup ∧
      (∀ a, a ∈ callers ↔ ∃ job, s.jobAt a = some job ∧ State.Due setup prepared s a job) ∧
      callers.length = s.invocations.length ∧
      (∀ i a c, callers[i]? = some a → s.invocations[i]? = some c →
        ∃ job own, State.CameOut setup prepared s a (s.invocations.take i) c job own) ∧
      ∀ steps, State.InTime setup ((State.start setup prepared).runWithin setup steps) := by
  obtain ⟨prepared, hprepare, hfinal⟩ := execute_final htree h
  obtain ⟨n, hs⟩ := hfinal.exists_eq_runWithin
  obtain ⟨callers, htally⟩ := State.exists_tally setup hfinal.sound n
  obtain ⟨hnodup, hmem, hmade⟩ := hfinal.invoked_of_tally hs htally
  exact ⟨prepared, callers, hprepare, hnodup, hmem, hmade.length_eq,
    fun i a c hcaller hc => hfinal.cameOut hs htally hcaller hc,
    State.inTime_runWithin setup hfinal.sound⟩

/-- Of three steps one fails because its call raises an exception of its own, one because its timeout
passes, and one succeeds. -/
theorem Setup.classified_of_execute_parallel : ∃ (setup : Setup) (s : State) (rest : IdSource)
    (prepared : Node) (callers : List Address),
    setup = ({
      executor := Script.executor [("hasty", .always [.raise (.foreign "TimeoutError" "")]),
        ("idle", .always [.hang])]
      timeout := some (.int 1) } : Setup) ∧
    setup.execute (.mk {} (.parallel none) [.mk {} (.step "hasty" none) [],
      .mk {} (.step "idle" none) [], .mk {} (.step "other" none) []]) " > " .counting =
        .ok (s, rest) ∧
    s.statusAt [0] = some .failed ∧ s.statusAt [1] = some .failed ∧
    s.statusAt [2] = some .succeeded ∧ callers.Nodup ∧
    (∀ a, a ∈ callers ↔ ∃ job, s.jobAt a = some job ∧ State.Due setup prepared s a job) ∧
    callers.length = s.invocations.length ∧
    (∀ i a c, callers[i]? = some a → s.invocations[i]? = some c →
      ∃ job own, State.CameOut setup prepared s a (s.invocations.take i) c job own) ∧
    ∀ steps, State.InTime setup ((State.start setup prepared).runWithin setup steps) := by
  have hsound : (Node.mk {} (.parallel none) [.mk {} (.step "hasty" none) [],
      .mk {} (.step "idle" none) [], .mk {} (.step "other" none) []]).Sound := by
    simp [Node.Sound, Node.walk, Node.walkList, Node.Fits, Node.work, Node.children, Work.limit]
  have h : ({
      executor := Script.executor [("hasty", .always [.raise (.foreign "TimeoutError" "")]),
        ("idle", .always [.hang])]
      timeout := some (.int 1) } : Setup).execute (.mk {} (.parallel none)
        [.mk {} (.step "hasty" none) [], .mk {} (.step "idle" none) [],
          .mk {} (.step "other" none) []]) " > " .counting = .ok (_, _) := rfl
  obtain ⟨prepared, callers, _, hcallers⟩ := classified_of_execute hsound h
  refine ⟨_, _, _, prepared, callers, rfl, h, ?_, ?_, ?_, hcallers⟩
  all_goals
    rw [Setup.run_eq 40 (Option.isNone_iff_eq_none.1 (by decide +kernel))]
    decide +kernel

end Workflow
