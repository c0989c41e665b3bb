import Workflow.Proofs.Run.Poised
import Workflow.Proofs.Run.Stopping

/-!
# What ends steps that wait

A step that waits for its call ends at the first instant at which something falls due that ends it: the
call answers, its timeout passes, the end of the run is asked for, or a race around the step is won by
another candidate.

* `Cause` names what ends a step, and `State.FallsDue` says at which instant it does.
* `State.EndedBy` says that a step was ended by what fell due first.
* `State.Asks.comes` says that every step whose call the executor is asked for waits until it is ended so.
-/

namespace Workflow

/-- What ends a step that waits for its call. -/
inductive Cause where
  /-- The call answers. -/
  | answer
  /-- The timeout passes. -/
  | timeout
  /-- The end of the run is asked for. -/
  | cancel
  /-- Another candidate of a race around the step succeeds. -/
  | halt
  deriving DecidableEq

/-- What is recorded of a step that ends for this cause, given what its call was given. -/
def Entry.EndsBy (e : Entry) (r : Request) : Cause → Prop
  | .answer => ∃ outcome, r.behaviour.ending = .answer outcome ∧ e.EndsAs outcome
  | .timeout => e.EndsAs (.error r.expired)
  | .cancel => e.StoppedByRun
  | .halt => e.status = .cancelled ∧ e.error = some ⟨.cancelled, Failure.raceLost, []⟩

namespace State

variable {setup : Setup} {tree : Node} {s t : State} {a : Address} {job : Job} {call : Call}
  {rest : List Task} {r : Request} {cause : Cause} {n m : Nat} {time time' : Int}

/-! ## When something falls due -/

/-- Another candidate has won a race around the node at an address. -/
def Beaten (s : State) (a : Address) : Prop :=
  ∃ race i c w, a = race ++ i :: c ∧ s.winnerAt race = some w ∧ w ≠ i

/-- In the run of the tree the property holds for the first time at this instant. -/
def FirstAt (setup : Setup) (tree : Node) (P : State → Prop) (time : Int) : Prop :=
  ∃ n, P ((start setup tree).runWithin setup n) ∧ ((start setup tree).runWithin setup n).now = time ∧
    ∀ m, m < n → ¬ P ((start setup tree).runWithin setup m)

/-- At this instant the cause falls due for the step at an address whose call is given this. -/
def FallsDue (setup : Setup) (tree : Node) (a : Address) (r : Request) : Cause → Int → Prop
  | .answer, time => (∃ outcome, r.behaviour.ending = .answer outcome) ∧ time = r.doneAt
  | .timeout, time => r.deadline = some time
  | .cancel, time => FirstAt setup tree (fun s => s.cancelled = true) time
  | .halt, time => FirstAt setup tree (fun s => s.Beaten a) time

theorem FirstAt.eq {P : State → Prop} (h : FirstAt setup tree P time)
    (h' : FirstAt setup tree P time') : time = time' := by
  obtain ⟨n, hn, rfl, hfirst⟩ := h
  obtain ⟨m, hm, rfl, hfirst'⟩ := h'
  rcases Nat.lt_trichotomy n m with hlt | rfl | hlt
  · exact absurd hn (hfirst' n hlt)
  · rfl
  · exact absurd hm (hfirst m hlt)

/-- A cause falls due at one instant at most. -/
theorem FallsDue.eq (h : FallsDue setup tree a r cause time)
    (h' : FallsDue setup tree a r cause time') : time = time' := by
  cases cause with
  | answer => exact h.2.trans h'.2.symm
  | timeout => exact Option.some.inj (h.symm.trans h')
  | cancel => exact FirstAt.eq (P := fun s => s.cancelled = true) h h'
  | halt => exact FirstAt.eq (P := fun s => s.Beaten a) h h'

/-! ## Steps that wait -/

theorem Beaten.halted (h : s.Beaten a) : s.Halted a := by
  obtain ⟨race, i, c, w, rfl, hwinner, _⟩ := h
  rw [halted_iff_winnerAt]
  exact ⟨race, i, c, rfl, by rw [hwinner]; rfl⟩

/-- A race around a step that waits is won by another candidate, if it is won. -/
theorem Reached.beaten_of_halted (h : Reached setup tree s none) (htree : tree.Sound)
    (hcall : s.callAt a = some call) (hhalted : s.Halted a) : s.Beaten a := by
  have hcontrol := h.control htree
  obtain ⟨job, hjob, hrun, _⟩ := hcontrol.of_callAt hcall
  have hstatus : s.statusAt a = some .running := by rw [statusAt_of_jobAt hjob, hrun]
  rw [halted_iff_winnerAt] at hhalted
  obtain ⟨race, i, c, rfl, hwon⟩ := hhalted
  obtain ⟨w, hwinner⟩ := Option.isSome_iff_exists.1 hwon
  refine ⟨race, i, c, w, rfl, hwinner, ?_⟩
  rintro rfl
  -- a candidate that has won does not run any more
  obtain ⟨old, hold, hw⟩ := Option.bind_eq_some_iff.1 hwinner
  obtain ⟨_, _, hsucceeded⟩ := (h.reasons htree).winner race old w hold hw
  have hkid : s.statusAt (race ++ [w]) = some .running := by
    by_cases hc : c = []
    · rw [← hstatus, hc]
    · refine hcontrol.statusAt_above hc (.inr (.inr (.inr ?_)))
      rw [List.append_assoc]
      exact hstatus
  rw [hkid] at hsucceeded
  cases hsucceeded

/-- What makes a step stop that waits has not held at an earlier instant. -/
theorem FirstAt.le (htree : tree.Sound) {P : State → Prop} (h : FirstAt setup tree P time)
    (hP : ∀ s, P s → s.Stopping a)
    (hcall : ((start setup tree).runWithin setup n).callAt a = some call) :
    ((start setup tree).runWithin setup n).now ≤ time := by
  obtain ⟨m, hm, rfl, _⟩ := h
  exact now_le_of_stopping htree hcall (hP _ hm)

/-- What makes a step stop that waits holds for the first time at this instant. -/
theorem firstAt_of_stopping (htree : tree.Sound) {P : State → Prop}
    (hP : ∀ s, P s → s.Stopping a)
    (hcall : ((start setup tree).runWithin setup n).callAt a = some call)
    (h : P ((start setup tree).runWithin setup n)) :
    FirstAt setup tree P ((start setup tree).runWithin setup n).now := by
  classical
  have hexists : ∃ m, P ((start setup tree).runWithin setup m) := ⟨n, h⟩
  have hle : Nat.find hexists ≤ n := Nat.find_min' hexists h
  refine ⟨Nat.find hexists, Nat.find_spec hexists, ?_, fun m => Nat.find_min hexists⟩
  exact le_antisymm (now_mono htree hle)
    (now_le_of_stopping htree hcall (hP _ (Nat.find_spec hexists)))

/-- While a step waits nothing has fallen due for it at an earlier instant. -/
theorem OnTime.le_of_fallsDue (htree : tree.Sound)
    (h : ((start setup tree).runWithin setup n).OnTime a r)
    (hdue : FallsDue setup tree a r cause time) :
    ((start setup tree).runWithin setup n).now ≤ time := by
  obtain ⟨call, hcall, hontime⟩ := h
  cases cause with
  | answer =>
    obtain ⟨⟨outcome, houtcome⟩, rfl⟩ := hdue
    exact hontime.answer outcome houtcome
  | timeout => exact hontime.deadline time hdue
  | cancel => exact FirstAt.le (P := fun s => s.cancelled = true) htree hdue (fun _ => .inl) hcall
  | halt =>
    exact FirstAt.le (P := fun s => s.Beaten a) htree hdue
      (fun _ hbeaten => .inr (Beaten.halted hbeaten)) hcall

/-! ## Steps that are ended -/

/-- The step at an address was ended at this instant for this cause, and nothing fell due for it
before. -/
structure EndedBy (setup : Setup) (tree : Node) (a : Address) (r : Request) (e : Entry)
    (cause : Cause) (time : Int) : Prop where
  due : FallsDue setup tree a r cause time
  first : ∀ other later, FallsDue setup tree a r other later → time ≤ later
  finished : e.progress.finished = some time
  recorded : e.EndsBy r cause

/-- A step that is told is ended by what has fallen due at this instant. -/
theorem OnTime.endedBy (htree : tree.Sound)
    (h : ((start setup tree).runWithin setup n).OnTime a r)
    (hagenda : ((start setup tree).runWithin setup n).agenda = .wake a :: rest) :
    ∃ job cause, (({ (start setup tree).runWithin setup n with agenda := rest } : State).wake
        a).jobAt a = some job ∧ job.status.isTerminal ∧
      EndedBy setup tree a r job.entry cause ((start setup tree).runWithin setup n).now := by
  have hr := reached_runWithin setup htree n
  have hfirst (other : Cause) (later : Int) (hdue : FallsDue setup tree a r other later) :
      ((start setup tree).runWithin setup n).now ≤ later := h.le_of_fallsDue htree hdue
  obtain ⟨call, hcall, hontime⟩ := h
  obtain ⟨job, call', hjob, _, hstage, htold, _⟩ :=
    (hr.control htree).proper (.wake a) (by rw [hagenda]; exact List.mem_cons_self)
  obtain rfl : call' = call := by
    rw [callAt_of_jobAt hjob, Job.call?, hstage, Option.some.injEq] at hcall
    exact hcall
  have hwoken := hr.jobAt_wake rest htree hjob hstage
  set message := ((start setup tree).runWithin setup n).stopMessage with hmessage
  set now := ((start setup tree).runWithin setup n).now
  have hended (outcome : Option (Except Failure Value)) (cause : Cause)
      (hdue : FallsDue setup tree a r cause now)
      (hrecorded : (job.woken message now outcome).entry.EndsBy r cause) :
      EndedBy setup tree a r (job.woken message now outcome).entry cause now :=
    ⟨hdue, hfirst, job.finished_woken message now outcome, hrecorded⟩
  cases houtcome : call'.outcome with
  | some outcome =>
    rw [houtcome] at hwoken
    have hends := job.endsAs_woken message now outcome
    obtain ⟨-, ⟨hanswer, hdone⟩ | ⟨hdeadline, rfl⟩⟩ := hontime.ended outcome houtcome
    · exact ⟨_, .answer, hwoken, job.isTerminal_woken ..,
        hended _ _ ⟨⟨outcome, hanswer⟩, hdone.symm⟩ ⟨outcome, hanswer, hends⟩⟩
    · exact ⟨_, .timeout, hwoken, job.isTerminal_woken .., hended _ _ hdeadline hends⟩
  | none =>
    rw [houtcome] at hwoken
    have hstopping : ((start setup tree).runWithin setup n).Stopping a := by
      refine ((hr.waiting htree hjob hstage).told htold).resolve_left ?_
      rw [houtcome]
      exact Bool.false_ne_true
    by_cases hcancelled : ((start setup tree).runWithin setup n).cancelled = true
    · have hsaid : message = Failure.runCancelled := if_pos hcancelled
      refine ⟨_, .cancel, hwoken, job.isTerminal_woken .., hended _ _ ?_ ⟨rfl, ?_⟩⟩
      · exact firstAt_of_stopping htree (a := a) (fun _ => .inl) hcall hcancelled
      · rw [hsaid]
        rfl
    · have hsaid : message = Failure.raceLost := if_neg hcancelled
      have hbeaten := hr.beaten_of_halted htree hcall (hstopping.resolve_left hcancelled)
      refine ⟨_, .halt, hwoken, job.isTerminal_woken .., hended _ _ ?_ ⟨rfl, ?_⟩⟩
      · exact firstAt_of_stopping (P := fun s => s.Beaten a) htree
          (fun _ hbeaten => .inr (Beaten.halted hbeaten)) hcall hbeaten
      · rw [hsaid]
        rfl

/-! ## Runs -/

/-- How far the step at an address has come whose call was given this: it waits, or it has been ended. -/
inductive Comes (setup : Setup) (tree : Node) (a : Address) (r : Request) (s : State) : Prop
  | waits : s.OnTime a r → Comes setup tree a r s
  | ended {job : Job} {cause : Cause} {time : Int} : s.jobAt a = some job → job.status.isTerminal →
      EndedBy setup tree a r job.entry cause time → Comes setup tree a r s

/-- A step that waits goes on to, or it is ended; a step that has been ended stays as it is. -/
theorem Comes.succ (htree : tree.Sound)
    (h : Comes setup tree a r ((start setup tree).runWithin setup n)) :
    Comes setup tree a r ((start setup tree).runWithin setup (n + 1)) := by
  have hr := reached_runWithin setup htree n
  rw [runWithin_succ]
  cases hstep : ((start setup tree).runWithin setup n).step setup with
  | none => exact h
  | some t =>
    rw [Option.getD_some]
    cases h with
    | waits hontime =>
      by_cases hwake : ∃ rest, ((start setup tree).runWithin setup n).agenda = .wake a :: rest
      · obtain ⟨rest, hagenda⟩ := hwake
        obtain ⟨job, cause, hjob, hterminal, hended⟩ := hontime.endedBy htree hagenda
        rw [eq_perform_of_step hstep hagenda]
        exact .ended hjob hterminal hended
      · exact .waits (hr.onTime_step htree hontime (fun rest hagenda => hwake ⟨rest, hagenda⟩) hstep)
    | ended hjob hterminal hended =>
      obtain ⟨job', hjob', hentry, _⟩ := hr.entry_step htree hjob hterminal hstep
      refine .ended hjob' ?_ (hentry ▸ hended)
      rwa [Job.status, hentry]

/-- The executor is asked for the call of a step, and from then on the step waits until it is ended by
what falls due first. -/
theorem Asks.comes (h : Asks setup tree m a) (htree : tree.Sound) : ∃ job call,
    ((start setup tree).runWithin setup m).jobAt a = some job ∧ job.stage = .calling call ∧
    job.entry.progress.started = some ((start setup tree).runWithin setup m).now ∧
    ((start setup tree).runWithin setup (m + 1)).invocations =
      ((start setup tree).runWithin setup m).invocations ++
        [⟨((start setup tree).runWithin setup m).now, call.agent, job.entry.inputs⟩] ∧
    ∀ n, m < n → Comes setup tree a
      (setup.request call.timeout ((start setup tree).runWithin setup m).invocations
        ⟨((start setup tree).runWithin setup m).now, call.agent, job.entry.inputs⟩)
      ((start setup tree).runWithin setup n) := by
  have hr := reached_runWithin setup htree m
  have hqueued := queued_runWithin setup htree m
  have hpoised := poised_runWithin setup htree m a h.unasked
  obtain ⟨⟨rest, hagenda⟩, call, hcall, hasked⟩ := h
  obtain ⟨job, hjob, hstage⟩ := jobAt_of_callAt hcall
  have hsucc : (start setup tree).runWithin setup (m + 1) =
      ({ (start setup tree).runWithin setup m with agenda := rest } : State).proceed setup a := by
    exact runWithin_succ_of_step (step_of_cons (hr.control htree).sound hagenda)
  refine ⟨job, call, hjob, hstage, hpoised.started job hjob, ?_, fun n hlt => ?_⟩
  · rw [hsucc]
    rcases hqueued.invocations_proceed setup a rest with ⟨hnot, _⟩ | ⟨job', call', hjob', hstage', _, hinv⟩
    · exact absurd ⟨call, hcall, hasked⟩ hnot
    · rw [hjob, Option.some.injEq] at hjob'
      subst hjob'
      rw [hstage, Stage.calling.injEq] at hstage'
      rw [hinv, hstage']
  · induction n, hlt using Nat.le_induction with
    | base =>
      refine .waits ?_
      rw [Nat.succ_eq_add_one, hsucc]
      exact hpoised.onTime_proceed setup hagenda hjob hstage hasked (hqueued.outcome a call hcall hasked)
    | succ n _ ih => exact ih.succ htree

end State
end Workflow
