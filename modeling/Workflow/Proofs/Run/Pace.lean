import Workflow.Proofs.Invocations
import Workflow.Proofs.Run.Fate
import Workflow.Proofs.Run.Punctual

/-!
# Calls that keep to their time

Once the executor has been asked, a call does its acts without delay: it answers when the pauses among
them have passed, unless its deadline comes first. While its step waits, neither instant has been missed.

* `Request` is what a call is given when the executor is asked, with the instants at which it answers and
  at which it has failed.
* `Call.OnTime` says that a call keeps to these instants.
* `State.Reached.onTime_step` says that it goes on to, as long as its step waits.
-/

namespace Workflow

/-! ## The instants of a call -/

/-- The time that an act takes. -/
def Act.time : Act → Int
  | pause time => max 0 time
  | cancelRun => 0

/-- The time that acts take, one after the other. -/
def timeOf : List Act → Int
  | [] => 0
  | act :: acts => act.time + timeOf acts

@[simp] theorem timeOf_nil : timeOf [] = 0 :=
  rfl

@[simp] theorem timeOf_cons (act : Act) (acts : List Act) :
    timeOf (act :: acts) = act.time + timeOf acts :=
  rfl

theorem timeOf_nonneg (acts : List Act) : 0 ≤ timeOf acts := by
  induction acts with
  | nil => simp
  | cons act acts ih =>
    have hact : 0 ≤ act.time := by
      cases act with
      | pause time => exact le_max_left 0 time
      | cancelRun => exact le_rfl
    rw [timeOf_cons]
    omega

/-- What a call is given when the executor is asked for it. -/
structure Request where
  /-- When the executor is asked. -/
  time : Int
  /-- The agent. -/
  agent : String
  /-- The number of seconds after which the call has failed. -/
  timeout : Option Number
  /-- What the call does. -/
  behaviour : Behaviour

namespace Request

/-- When the call is done with its acts, if nothing ends it before. -/
def doneAt (r : Request) : Int :=
  r.time + timeOf r.behaviour.acts

/-- The microseconds after which the call has failed. -/
def limit (r : Request) : Option Int :=
  r.timeout.bind microseconds?

/-- When the call has failed. -/
def deadline (r : Request) : Option Int :=
  r.limit.map fun time => r.time + max 0 time

/-- What the step records of a call that has failed like this. -/
def expired (r : Request) : Failure :=
  timeoutFailure r.agent (r.timeout.getD (.int 0))

end Request

/-- What a call is given that is made after these, with the number of seconds after which it has failed. -/
def Setup.request (setup : Setup) (timeout : Option Number) (before : List Invocation)
    (c : Invocation) : Request where
  time := c.time
  agent := c.agent
  timeout := timeout
  behaviour := setup.executor.call c.agent
    (before.countP fun earlier => earlier.agent == c.agent) c.inputs

namespace Call

variable {r : Request} {call : Call} {now now' : Int} {turns : Nat}

theorem fired_of_deadline (houtcome : call.outcome = none) (h : call.deadline.any (· ≤ now)) :
    call.fired now = { call with
      wakeAt := none
      deadline := none
      outcome := some (.error (timeoutFailure call.agent (call.timeout.getD (.int 0))))
      told := true } := by
  simp [fired, houtcome, h]

theorem fired_of_wakeAt (houtcome : call.outcome = none) (hdeadline : ¬ call.deadline.any (· ≤ now))
    (h : call.wakeAt.any (· ≤ now)) : call.fired now = { call with wakeAt := none } := by
  simp [fired, houtcome, hdeadline, h]

theorem fired_eq_self (houtcome : call.outcome = none) (hdeadline : ¬ call.deadline.any (· ≤ now))
    (h : ¬ call.wakeAt.any (· ≤ now)) : call.fired now = call := by
  simp [fired, houtcome, hdeadline, h]

/-- The pause of a call is over, and before its deadline. -/
def resumes (call : Call) (now : Int) : Bool :=
  call.outcome.isNone && !call.deadline.any (· ≤ now) && call.wakeAt.any (· ≤ now)

/-! ## Calls that keep to their instants -/

/-- How far a call has come that has not ended: it is to go on at this instant, it pauses, or it is never
going to do anything. `turns` counts how often it is to go on. -/
inductive Course (r : Request) (turns : Nat) (now : Int) (call : Call) : Prop
  | going : turns = 1 → call.wakeAt = none → now + timeOf call.acts = r.doneAt →
      Course r turns now call
  | pausing {time : Int} : turns = 0 → call.wakeAt = some time → now ≤ time →
      time + timeOf call.acts = r.doneAt → Course r turns now call
  | endless : turns = 0 → call.wakeAt = none → call.acts = [] → call.ending = .never →
      Course r turns now call

/-- The call that was asked for like this keeps to its instants. -/
structure OnTime (r : Request) (turns : Nat) (now : Int) (call : Call) : Prop where
  asked : call.asked = true
  agent : call.agent = r.agent
  timeout : call.timeout = r.timeout
  ending : call.ending = r.behaviour.ending
  /-- The answer has not been missed. -/
  answer : ∀ outcome, r.behaviour.ending = .answer outcome → now ≤ r.doneAt
  /-- The deadline has not been missed. -/
  deadline : ∀ time, r.deadline = some time → now ≤ time
  going : call.outcome = none → call.deadline = r.deadline ∧ call.Course r turns now
  /-- A call that has ended has done so at this instant, because it answers or fails at it. -/
  ended : ∀ outcome, call.outcome = some outcome → turns = 0 ∧
    ((r.behaviour.ending = .answer outcome ∧ r.doneAt = now) ∨
      (r.deadline = some now ∧ outcome = .error r.expired))

namespace OnTime

theorem answer_of_course (hending : call.ending = r.behaviour.ending)
    (h : call.Course r turns now) (outcome : Except Failure Value)
    (houtcome : r.behaviour.ending = .answer outcome) : now ≤ r.doneAt := by
  have hacts := timeOf_nonneg call.acts
  cases h with
  | going _ _ htime => omega
  | pausing _ _ hle htime => omega
  | endless _ _ _ hnever =>
    rw [← hending, hnever] at houtcome
    cases houtcome

/-- Whether the step has been told does not matter to the call. -/
theorem told (h : call.OnTime r turns now) (told : Bool) :
    ({ call with told } : Call).OnTime r turns now where
  asked := h.asked
  agent := h.agent
  timeout := h.timeout
  ending := h.ending
  answer := h.answer
  deadline := h.deadline
  going houtcome := by
    obtain ⟨hdeadline, hcourse⟩ := h.going houtcome
    refine ⟨hdeadline, ?_⟩
    cases hcourse with
    | going hturns hwakeAt htime => exact .going hturns hwakeAt htime
    | pausing hturns hwakeAt hle htime => exact .pausing hturns hwakeAt hle htime
    | endless hturns hwakeAt hacts hending => exact .endless hturns hwakeAt hacts hending
  ended := h.ended

/-- The clock jumps to an instant that is not after the next one of the call. -/
theorem fired (h : call.OnTime r 0 now) (houtcome : call.outcome = none)
    (htimes : ∀ time ∈ State.callTimes call, now' ≤ time) :
    (call.fired now').OnTime r (if call.resumes now' then 1 else 0) now' := by
  obtain ⟨hdeadline, hcourse⟩ := h.going houtcome
  have hmissed (time : Int) (htime : r.deadline = some time) : now' ≤ time := by
    refine htimes time ?_
    simp [State.callTimes, houtcome, hdeadline, htime]
  have hwaits (time : Int) (htime : call.wakeAt = some time) : now' ≤ time := by
    refine htimes time ?_
    simp [State.callTimes, houtcome, htime]
  -- a call that pauses is not done before its pause is over
  have hcourse' : call.Course r 0 now' := by
    cases hcourse with
    | going hturns => cases hturns
    | pausing hturns hwakeAt _ htime => exact .pausing hturns hwakeAt (hwaits _ hwakeAt) htime
    | endless hturns hwakeAt hacts hending => exact .endless hturns hwakeAt hacts hending
  have hanswer := answer_of_course h.ending hcourse'
  by_cases hfailed : call.deadline.any (· ≤ now')
  · -- the deadline comes now
    obtain ⟨time, htime, hle⟩ := (Option.any_eq_true ..).1 hfailed
    have hnow : r.deadline = some now' := by
      have hsame : r.deadline = some time := hdeadline.symm.trans htime
      rw [hsame, le_antisymm (of_decide_eq_true hle) (hmissed time hsame)]
    have hresumes : call.resumes now' = false := by simp [resumes, hfailed]
    rw [hresumes, fired_of_deadline houtcome hfailed]
    refine ⟨h.asked, h.agent, h.timeout, h.ending, hanswer, hmissed, fun hnone => by simp at hnone,
      fun outcome houtcome' => ⟨rfl, .inr ⟨hnow, ?_⟩⟩⟩
    rw [Request.expired, ← h.agent, ← h.timeout]
    exact (Option.some.inj houtcome').symm
  · by_cases hover : call.wakeAt.any (· ≤ now')
    · -- the pause is over now
      have hresumes : call.resumes now' = true := by simp [resumes, houtcome, hfailed, hover]
      rw [hresumes, fired_of_wakeAt houtcome hfailed hover]
      refine ⟨h.asked, h.agent, h.timeout, h.ending, hanswer, hmissed,
        fun _ => ⟨hdeadline, .going rfl rfl ?_⟩, fun outcome houtcome' => ?_⟩
      · cases hcourse' with
        | going hturns => cases hturns
        | @pausing time _ hwakeAt hle htime =>
          rw [hwakeAt, Option.any_some, decide_eq_true_eq] at hover
          rw [le_antisymm hle hover]
          exact htime
        | endless _ hwakeAt =>
          rw [hwakeAt] at hover
          cases hover
      · rw [show call.outcome = some outcome from houtcome'] at houtcome
        cases houtcome
    · have hresumes : call.resumes now' = false := by simp [resumes, hover]
      rw [hresumes, fired_eq_self houtcome hfailed hover]
      refine ⟨h.asked, h.agent, h.timeout, h.ending, hanswer, hmissed,
        fun _ => ⟨hdeadline, hcourse'⟩, fun outcome houtcome' => ?_⟩
      rw [houtcome'] at houtcome
      cases houtcome

end OnTime
end Call

namespace State

variable {setup : Setup} {tree : Node} {s t u : State} {hand after : Option Address} {doing : Doing}
  {a b : Address} {job : Job} {call : Call} {rest : List Task} {r : Request}

/-! ## How often calls are to go on -/

/-- How often the call of the node at an address is to go on at this instant. -/
def turns (s : State) (a : Address) : Nat :=
  s.agenda.count (.proceed a)

theorem turns_congr (h : t.agenda.filter Task.isProceed = s.agenda.filter Task.isProceed)
    (a : Address) : t.turns a = s.turns a := by
  have hfilter (l : List Task) : l.count (.proceed a) =
      (l.filter Task.isProceed).count (.proceed a) := (List.count_filter rfl).symm
  rw [turns, hfilter, h, ← hfilter, turns]

@[simp] theorem turns_tell (s : State) (b a : Address) : (s.tell b).turns a = s.turns a := by
  cases hcall : s.callAt b with
  | none => rw [tell_of_callAt_eq_none _ _ hcall]
  | some call =>
    rw [turns, agenda_tell _ _ hcall]
    split
    · rfl
    · simp [turns]

@[simp] theorem turns_cancelRun (s : State) (a : Address) : s.cancelRun.turns a = s.turns a :=
  cancelRun_induction (P := fun t => t.turns a = s.turns a) s rfl rfl
    fun t b ht => (turns_tell t b a).trans ht

theorem proceed_mem_iff : .proceed a ∈ s.agenda ↔ 0 < s.turns a :=
  List.count_pos_iff.symm

/-- While a call goes on, at most its own step is to go on that was not before. -/
theorem Change.proceed_of_call (hchange : Change setup .call s hand t after)
    (hmem : .proceed a ∈ t.agenda) : .proceed a ∈ s.agenda ∨ ∃ call, t.callAt a = some call := by
  cases hchange with
  | dropProceed hagenda =>
    rw [hagenda]
    exact .inl (List.mem_cons_of_mem _ hmem)
  | ask => exact .inl hmem
  | @goOn b call acts wakeAt agenda hcall _ _ hothers =>
    by_cases hab : a = b
    · subst hab
      obtain ⟨job, hjob, _⟩ := jobAt_of_callAt hcall
      refine .inr ⟨{ call with acts, wakeAt }, ?_⟩
      rw [callAt_setStage, if_pos rfl, jobAt_agenda, hjob]
      rfl
    · exact .inl ((hothers a hab).1 hmem)
  | @answer b call outcome wakeAt deadline agenda hcall _ _ hagenda =>
    have hmem' : .proceed a ∈ agenda := by
      rw [proceed_mem_iff, turns_tell] at hmem
      exact List.count_pos_iff.1 hmem
    rcases hagenda with rfl | hagenda
    · exact .inl hmem'
    · rw [hagenda]
      exact .inl (List.mem_cons_of_mem _ hmem')
  | tell => exact .inl (by rwa [proceed_mem_iff, turns_tell, ← proceed_mem_iff] at hmem)
  | cancelRun => exact .inl (by rwa [proceed_mem_iff, turns_cancelRun, ← proceed_mem_iff] at hmem)
  | begin | leave | fail | stop =>
    rw [agenda_move] at hmem
    exact .inl hmem
  | succeed =>
    rw [State.succeed, agenda_move] at hmem
    exact .inl hmem
  | release => exact .inl (by simpa [Control.mem_agenda_reported] using hmem)
  | fill => exact .inl (by simpa using hmem)
  | enterNext | enterChosen => exact .inl (by simpa [next] using hmem)
  | gather => exact .inl ((List.mem_append.1 hmem).resolve_right (by simp))
  | host | expand => exact .inl hmem
  | _ => simp_all

/-- While no call goes on, at most a step that begins its call is to go on that was not before. -/
theorem Change.proceed_of_ne_call (hchange : Change setup doing s hand t after)
    (hcontrol : Control setup s hand) (hshape : Shape tree s) (hdoing : doing ≠ .call)
    (hmem : .proceed a ∈ t.agenda) : .proceed a ∈ s.agenda ∨ ∃ call, t.callAt a = some call := by
  cases hchange.calls hcontrol hshape hdoing with
  | same hsame => exact .inl ((mem_agenda_iff_of_filter hsame.proceed a).1 hmem)
  | @begun b job agent own o hjob _ _ _ _ ht =>
    subst ht
    rcases List.mem_append.1 hmem with hmem | hmem
    · exact .inl hmem
    · obtain rfl : a = b := by simpa using hmem
      refine .inr ⟨{ agent, timeout := setup.timeoutOf own }, ?_⟩
      rw [callAt_eq, jobAt_later, jobAt_setStage, if_pos rfl, hjob]
      rfl
  | woken hagenda _ ht =>
    subst ht
    rw [hagenda]
    exact .inl (List.mem_cons_of_mem _ hmem)
  | told _ ht =>
    subst ht
    exact .inl (by rwa [proceed_mem_iff, turns_tell, ← proceed_mem_iff] at hmem)

/-- A call that is to go on was to go on before, or its step waits. -/
theorem Change.proceed_cases (hchange : Change setup doing s hand t after)
    (hcontrol : Control setup s hand) (hshape : Shape tree s) (hmem : .proceed a ∈ t.agenda) :
    .proceed a ∈ s.agenda ∨ ∃ call, t.callAt a = some call := by
  by_cases hdoing : doing = .call
  · subst hdoing
    exact hchange.proceed_of_call hmem
  · exact hchange.proceed_of_ne_call hcontrol hshape hdoing hmem

/-- A call that is to go on is not that of a node that has yet to start. -/
theorem Reached.not_pending_of_proceed (h : Reached setup tree s hand) (htree : tree.Sound)
    (hmem : .proceed a ∈ s.agenda) : s.statusAt a ≠ some .pending := by
  induction h with
  | start =>
    change Task.proceed a ∈ [Task.enter []] at hmem
    simp at hmem
  | @change s t hand after doing hr hchange ih =>
    have hcontrol := hr.control htree
    have hshape := hr.shape htree
    rcases hchange.proceed_cases hcontrol hshape hmem with hbefore | ⟨call, hcall⟩
    · obtain ⟨job, hjob⟩ := hcontrol.proper _ hbefore
      have hnot := ih hbefore
      rw [statusAt_of_jobAt hjob, ne_eq, Option.some.injEq] at hnot
      exact hchange.not_pending hshape hjob hnot
    · obtain ⟨job, hjob, hrun, _⟩ := ((hr.change hchange).control htree).of_callAt hcall
      rw [statusAt_of_jobAt hjob, hrun]
      decide

/-! ## Steps beside a call -/

/-- Unless calls go on, or the step itself starts, its call is to go on as often as it was. -/
theorem Changes.turns (h : Changes setup doing s hand t after) (hr : Reached setup tree s hand)
    (htree : tree.Sound) (hdoing : doing ≠ .call) (hstart : ∀ o, doing ≠ .start a o) :
    t.turns a = s.turns a := by
  refine hr.changes_induction (P := fun u _ => u.turns a = s.turns a) h rfl ?_
  intro u v between next hu hchange ih
  rw [← ih]
  cases hchange.calls (hu.control htree) (hu.shape htree) hdoing with
  | same hsame => exact turns_congr hsame.proceed a
  | @begun b job agent own o _ _ _ _ hbegun ht =>
    subst ht
    have hne : b ≠ a := by
      rintro rfl
      exact hstart o hbegun
    simp [State.turns, later, setStage, State.modify, hne]
  | woken hagenda _ ht =>
    subst ht
    simp [State.turns, setStage, State.modify, hagenda]
  | told _ ht =>
    subst ht
    exact turns_tell ..

/-- While a node starts, the steps that wait are at most told. -/
theorem Changes.callAt_told (h : Changes setup doing s hand t after) (hr : Reached setup tree s hand)
    (htree : tree.Sound) (hdoing : doing ≠ .call) (hfinish : doing ≠ .finish)
    (hcall : s.callAt a = some call) : ∃ told, t.callAt a = some { call with told } := by
  refine hr.changes_induction (P := fun u _ => ∃ told, u.callAt a = some { call with told }) h
    ⟨call.told, hcall⟩ ?_
  rintro u v between next hu hchange ⟨told, htold⟩
  cases hchange.calls (hu.control htree) (hu.shape htree) hdoing with
  | same hsame =>
    refine ⟨told, ?_⟩
    rw [callAt_eq_callerAt, hsame.caller, ← callAt_eq_callerAt, htold]
  | @begun b job agent own o hjob hidle _ _ _ ht =>
    subst ht
    have hne : a ≠ b := by
      rintro rfl
      rw [callAt_of_jobAt hjob, Job.call?, hidle] at htold
      cases htold
    refine ⟨told, ?_⟩
    rw [callAt_eq, jobAt_later, ← callAt_eq, callAt_setStage, if_neg hne, htold]
  | woken _ hwoken => exact absurd hwoken hfinish
  | @told b _ ht =>
    subst ht
    rw [callAt_tell, htold]
    split
    · exact ⟨true, rfl⟩
    · exact ⟨told, rfl⟩

theorem callAt_cancelRun (hcall : s.callAt a = some call) :
    ∃ told, s.cancelRun.callAt a = some { call with told } := by
  refine cancelRun_induction (P := fun t => ∃ told, t.callAt a = some { call with told }) s
    ⟨call.told, hcall⟩ ⟨call.told, hcall⟩ ?_
  rintro t b ⟨told, htold⟩
  rw [callAt_tell, htold]
  split
  · exact ⟨true, rfl⟩
  · exact ⟨told, rfl⟩

theorem callAt_setCall (call' : Call) (hcall : s.callAt a = some call) :
    (s.setStage a (.calling call')).callAt a = some call' := by
  obtain ⟨job, hjob, _⟩ := jobAt_of_callAt hcall
  rw [callAt_setStage, if_pos rfl, hjob]
  rfl

/-- While the call of another step goes on, a step that waits is at most told, and its own call is to go
on as often as it was. -/
theorem proceed_of_ne (s : State) (setup : Setup) (hne : b ≠ a) (hcall : s.callAt a = some call) :
    (∃ told, (s.proceed setup b).callAt a = some { call with told }) ∧
      (s.proceed setup b).turns a = s.turns a := by
  have hset (call' : Call) : (s.setStage b (.calling call')).callAt a = some call := by
    rw [callAt_setStage, if_neg hne.symm, hcall]
  have hsame : (∃ told, s.callAt a = some { call with told }) ∧ s.turns a = s.turns a :=
    ⟨⟨call.told, hcall⟩, rfl⟩
  unfold State.proceed
  split
  · exact hsame
  · split
    · exact hsame
    · split
      · exact hsame
      · split
        · unfold State.act
          split
          · split
            · refine ⟨⟨call.told, ?_⟩, (turns_tell ..).trans rfl⟩
              rw [callAt_tell, if_neg hne.symm]
              exact hset _
            · exact hsame
          · obtain ⟨told, htold⟩ := callAt_cancelRun (hset _)
            refine ⟨⟨told, htold⟩, ?_⟩
            simp only [State.turns, next, List.count_cons, beq_iff_eq, Task.proceed.injEq, hne,
              if_false, Nat.add_zero]
            exact turns_cancelRun ..
          · split
            · exact ⟨⟨call.told, hset _⟩, by simp [State.turns, later, setStage, State.modify, hne]⟩
            · exact ⟨⟨call.told, hset _⟩, rfl⟩
        · exact ⟨⟨call.told, hset _⟩,
            by simp [State.turns, ask, note, next, setStage, State.modify, hne]⟩

/-! ## Calls that go on -/

/-- The step at an address waits for a call that was asked for like this and keeps to its instants. -/
def OnTime (s : State) (a : Address) (r : Request) : Prop :=
  ∃ call, s.callAt a = some call ∧ call.OnTime r (s.turns a) s.now

theorem proceed_of_asked (setup : Setup) (hcall : s.callAt a = some call)
    (houtcome : call.outcome = none) (hasked : call.asked = true) :
    s.proceed setup a = s.act a call := by
  unfold State.proceed
  unfold State.callAt at hcall
  cases hlive : s.root.at? a with
  | none =>
    rw [hlive] at hcall
    cases hcall
  | some live =>
    rw [hlive, Option.bind_some] at hcall
    simp [hcall, houtcome, hasked]

/-- A call that is to go on answers if it is done with its acts, and else does the next one. -/
theorem onTime_act (hcall : s.callAt a = some call) (houtcome : call.outcome = none)
    (h : call.OnTime r 1 s.now) (hturns : s.turns a = 0) : (s.act a call).OnTime a r := by
  obtain ⟨hdeadline, hcourse⟩ := h.going houtcome
  obtain ⟨hwakeAt, htime⟩ : call.wakeAt = none ∧ s.now + timeOf call.acts = r.doneAt := by
    cases hcourse with
    | going _ hwakeAt htime => exact ⟨hwakeAt, htime⟩
    | pausing hzero => cases hzero
    | endless hzero => cases hzero
  -- a call that goes on has neither ended nor another deadline
  have hgoes {t : State} {after : Call} (hafter : t.callAt a = some after) (hnow : t.now = s.now)
      (hsame : after = { call with
        acts := after.acts, wakeAt := after.wakeAt, told := after.told })
      (hcourse' : after.Course r (t.turns a) s.now) : t.OnTime a r := by
    refine ⟨after, hafter, ?_⟩
    rw [hnow]
    rw [hsame] at hcourse' ⊢
    refine ⟨h.asked, h.agent, h.timeout, h.ending, h.answer, h.deadline,
      fun _ => ⟨hdeadline, hcourse'⟩, ?_⟩
    intro outcome hsome
    have hnone : call.outcome = some outcome := hsome
    rw [houtcome] at hnone
    cases hnone
  unfold State.act
  split
  · rename_i hacts
    rw [hacts, timeOf_nil, add_zero] at htime
    split
    · rename_i outcome hending
      refine ⟨{ call with outcome := some outcome, told := true }, ?_, ?_⟩
      · rw [callAt_tell, if_pos rfl, callAt_setCall _ hcall]
        rfl
      · rw [turns_tell, now_tell]
        change Call.OnTime r (s.turns a) s.now _
        rw [hturns]
        refine ⟨h.asked, h.agent, h.timeout, h.ending, h.answer, h.deadline, by simp,
          fun outcome' hsome => ⟨rfl, .inl ?_⟩⟩
        rw [← Option.some.inj hsome, ← h.ending]
        exact ⟨hending, htime.symm⟩
    · rename_i hending
      exact hgoes hcall rfl rfl (.endless hturns hwakeAt hacts hending)
  · rename_i acts hacts
    rw [hacts, timeOf_cons, Act.time, zero_add] at htime
    obtain ⟨told, htold⟩ := callAt_cancelRun (callAt_setCall { call with acts } hcall)
    have hzero : (s.setStage a (.calling { call with acts })).cancelRun.turns a = 0 :=
      (turns_cancelRun ..).trans hturns
    refine hgoes (t := State.next _ _) htold (Still.cancelRun _).now rfl (.going ?_ hwakeAt htime)
    simpa [State.turns, next] using hzero
  · rename_i time acts hacts
    rw [hacts, timeOf_cons, Act.time] at htime
    split
    · rename_i hle
      rw [max_eq_left hle, zero_add] at htime
      have hzero : s.agenda.count (.proceed a) = 0 := hturns
      refine hgoes (t := State.later _ _) (callAt_setCall { call with acts } hcall) rfl rfl
        (.going ?_ hwakeAt htime)
      simp [State.turns, later, setStage, State.modify, hzero]
    · rename_i hlt
      rw [max_eq_right (by omega)] at htime
      refine hgoes (callAt_setCall { call with acts, wakeAt := some (s.now + time) } hcall) rfl rfl
        (.pausing hturns rfl (by omega) ?_)
      simp only
      omega

/-- The call that is the next task goes on. -/
theorem OnTime.proceed (h : s.OnTime a r) (setup : Setup) (hagenda : s.agenda = .proceed a :: rest) :
    (({ s with agenda := rest } : State).proceed setup a).OnTime a r := by
  obtain ⟨call, hcall, hontime⟩ := h
  have hcall' : ({ s with agenda := rest } : State).callAt a = some call := hcall
  have hturns : s.turns a = rest.count (.proceed a) + 1 := by
    rw [State.turns, hagenda, List.count_cons_self]
  have houtcome : call.outcome = none := by
    cases hsome : call.outcome with
    | none => rfl
    | some outcome =>
      have := (hontime.ended outcome hsome).1
      omega
  obtain ⟨-, hcourse⟩ := hontime.going houtcome
  have hone : s.turns a = 1 := by
    cases hcourse with
    | going hone => exact hone
    | pausing hzero => omega
    | endless hzero => omega
  rw [hone] at hontime
  rw [proceed_of_asked setup hcall' houtcome hontime.asked]
  refine onTime_act hcall' houtcome hontime ?_
  change rest.count (.proceed a) = 0
  omega

/-! ## Time that passes -/

theorem turns_fire (s : State) (b a : Address) : (s.fire b).turns a =
    s.turns a + if b = a ∧ (s.callAt a).any (·.resumes s.now) then 1 else 0 := by
  cases hcall : s.callAt b with
  | none =>
    rw [fire_of_callAt_eq_none hcall, if_neg, Nat.add_zero]
    rintro ⟨rfl, hany⟩
    rw [hcall] at hany
    cases hany
  | some call =>
    have hcond : (b = a ∧ (s.callAt a).any (·.resumes s.now)) ↔ (b = a ∧ call.resumes s.now) := by
      refine and_congr_right ?_
      rintro rfl
      rw [hcall, Option.any_some]
    rw [if_congr hcond rfl rfl]
    unfold State.fire Call.resumes
    rw [hcall]
    simp only
    split
    · rename_i houtcome
      rw [if_neg, Nat.add_zero]
      simp [Option.isSome_iff_ne_none.1 houtcome]
    · split
      · rename_i hdeadline
        rw [turns_tell, if_neg (by simp [hdeadline]), Nat.add_zero]
        rfl
      · split
        · rename_i houtcome hdeadline hwakeAt
          rw [Option.not_isSome_iff_eq_none] at houtcome
          by_cases hba : b = a
          · simp [State.turns, later, setStage, State.modify, hba, houtcome, hdeadline, hwakeAt]
          · simp [State.turns, later, setStage, State.modify, hba]
        · rename_i hwakeAt
          simp [hwakeAt]

theorem turns_foldl_fire {l : List Address} (hl : l.Nodup) (s : State) (a : Address) :
    (l.foldl fire s).turns a =
      s.turns a + if a ∈ l ∧ (s.callAt a).any (·.resumes s.now) then 1 else 0 := by
  induction l generalizing s with
  | nil => simp
  | cons b l ih =>
    rw [List.nodup_cons] at hl
    rw [List.foldl_cons, ih hl.2, turns_fire, now_fire, callAt_fire]
    by_cases hba : b = a
    · subst hba
      simp [hl.1]
    · simp [hba, Ne.symm hba]

/-- Once nothing is left to do the clock jumps to the next instant, and misses none of a call. -/
theorem OnTime.jump {time : Int} (h : s.OnTime a r) (hr : Reached setup tree s none)
    (htree : tree.Sound) (hagenda : s.agenda = []) (htime : (s.times setup).min? = some time) :
    (s.jump setup time).OnTime a r := by
  obtain ⟨call, hcall, hontime⟩ := h
  obtain ⟨job, hjob, hstage⟩ := jobAt_of_callAt hcall
  have hzero : s.turns a = 0 := by rw [State.turns, hagenda, List.count_nil]
  rw [hzero] at hontime
  have houtcome := hr.outcome_eq_none htree hagenda hcall
  obtain ⟨hdeadline, hcourse⟩ := hontime.going houtcome
  have htimes : ∀ next ∈ callTimes call, max s.now time ≤ next := by
    intro next hnext
    refine max_le ?_ ((List.min?_eq_some_iff.1 htime).2 next (List.mem_append_left _ ?_))
    · simp only [callTimes, houtcome, Option.isSome_none, Bool.false_eq_true, if_false,
        List.mem_append, Option.mem_toList] at hnext
      rcases hnext with hnext | hnext
      · exact hontime.deadline next (hdeadline ▸ hnext)
      · cases hcourse with
        | going hone => cases hone
        | pausing _ hwakeAt hle =>
          rw [hwakeAt, Option.some.injEq] at hnext
          exact hnext ▸ hle
        | endless _ hwakeAt =>
          rw [hwakeAt] at hnext
          cases hnext
    · refine List.mem_flatMap.2 ⟨(a, job), Live.mem_walk_iff.2 ⟨a, rfl, hjob⟩, ?_⟩
      rw [Job.call?, hstage]
      exact hnext
  set later : State := { s with now := max s.now time } with hlater
  have hmem : a ∈ later.callsUnder [] :=
    (mem_callsUnder_iff ..).2 ⟨List.nil_prefix, by rw [show later.callAt a = some call from hcall]; rfl⟩
  have hfired : ((later.callsUnder []).foldl fire later).OnTime a r := by
    refine ⟨call.fired later.now, ?_, ?_⟩
    · rw [callAt_foldl_fire, if_pos hmem, show later.callAt a = some call from hcall]
      rfl
    · rw [turns_foldl_fire (OnCourse.nodup_callsUnder ..), now_foldl_fire,
        show later.callAt a = some call from hcall, show later.turns a = 0 from hzero, Nat.zero_add]
      simpa [hmem] using hontime.fired houtcome htimes
  unfold State.jump
  simp only
  split
  · obtain ⟨fired, hcall', hontime'⟩ := hfired
    obtain ⟨told, htold⟩ := callAt_cancelRun hcall'
    refine ⟨_, htold, ?_⟩
    rw [turns_cancelRun, (Still.cancelRun _).now]
    exact hontime'.told told
  · exact hfired

/-! ## Steps -/

/-- While another task is done, a step that waits is at most told, and its call is to go on as often as
it was. -/
theorem Reached.beside (h : Reached setup tree s none) (htree : tree.Sound)
    (hcall : s.callAt a = some call) {task : Task} (hagenda : s.agenda = task :: rest)
    (hwake : task ≠ .wake a) (hproceed : task ≠ .proceed a) (hstep : s.step setup = some t) :
    (∃ told, t.callAt a = some { call with told }) ∧ t.turns a = s.turns a ∧ t.now = s.now := by
  have hne : s.agenda ≠ [] := by simp [hagenda]
  have hnow := (h.advances htree hstep hne).now
  have hchanges := h.step htree hstep
  have hcall' : ({ s with agenda := rest } : State).callAt a = some call := hcall
  have ht := eq_perform_of_step hstep hagenda
  rw [and_iff_left hnow]
  unfold State.doing at hchanges
  rw [hagenda] at hchanges
  cases task with
  | proceed b =>
    have hba : b ≠ a := fun hba => hproceed (hba ▸ rfl)
    obtain ⟨htold, hturns⟩ := proceed_of_ne _ setup hba hcall'
    rw [ht]
    refine ⟨htold, hturns.trans ?_⟩
    simp [State.turns, hagenda, hba]
  | enter b =>
    have hba : b ≠ a := by
      rintro rfl
      obtain ⟨job, _, _, hjob, hpending⟩ := h.pending_of_enter htree hagenda
      obtain ⟨job', hjob', hrun, _⟩ := (h.control htree).of_callAt hcall
      rw [hjob, Option.some.injEq] at hjob'
      rw [← hjob', hpending] at hrun
      cases hrun
    refine ⟨hchanges.callAt_told h htree (by nofun) (by nofun) hcall,
      hchanges.turns h htree (by nofun) fun o hstart => ?_⟩
    rw [Doing.start.injEq] at hstart
    exact hba hstart.1
  | _ =>
    rw [ht]
    refine ⟨callAt_perform _ setup hcall' (by nofun) (by nofun) hwake, ?_⟩
    rw [← ht]
    exact hchanges.turns h htree (by nofun) (by nofun)

/-- A step that waits goes on to wait for a call that keeps to its instants, until it is told. -/
theorem Reached.onTime_step (h : Reached setup tree s none) (htree : tree.Sound)
    (hontime : s.OnTime a r) (hwake : ∀ rest, s.agenda ≠ .wake a :: rest)
    (hstep : s.step setup = some t) : t.OnTime a r := by
  rcases step_cases hstep with ⟨task, rest, hagenda, ht⟩ | ⟨hagenda, _, time, htime, rfl⟩
  · by_cases hproceed : task = .proceed a
    · subst hproceed
      rw [ht]
      exact hontime.proceed setup hagenda
    · obtain ⟨call, hcall, hcallOnTime⟩ := hontime
      have hne : task ≠ .wake a := by
        rintro rfl
        exact hwake rest hagenda
      obtain ⟨⟨told, htold⟩, hturns, hnow⟩ := h.beside htree hcall hagenda hne hproceed hstep
      refine ⟨_, htold, ?_⟩
      rw [hturns, hnow]
      exact hcallOnTime.told told
  · exact hontime.jump h htree hagenda htime

end State
end Workflow
