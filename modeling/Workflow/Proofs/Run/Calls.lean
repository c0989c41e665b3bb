import Workflow.Proofs.Run.Winner

/-!
# Calls under way

What is known of a step that waits for its call: how the call can end, and why the step has been
told that it has ended or has to stop.

* `State.Waiting` says this of one call, and `State.Reached.waiting` of every call of a run.
-/

namespace Workflow

/-- What an earlier run has recorded depends on the path and on the identifier. -/
theorem Setup.recorded?_congr (setup : Setup) {e e' : Entry} (hpath : e'.path = e.path)
    (hid : e'.id = e.id) : setup.recorded? e' = setup.recorded? e := by
  rw [recorded?, recorded?, hpath, hid]

namespace State

variable {setup : Setup} {tree : Node} {s t : State} {hand after : Option Address} {doing : Doing}
  {a b : Address} {job job' : Job} {call : Call}

/-- What is known of a step that waits for a call. -/
structure Waiting (setup : Setup) (s : State) (a : Address) (job : Job) (call : Call) : Prop where
  /-- An earlier run has not recorded the step. -/
  recorded : setup.recorded? job.entry = none
  /-- The call is that of the step. -/
  work : ∃ own, job.node.work = .step call.agent own ∧ call.timeout = setup.timeoutOf own
  /-- The call ends as the executor says. -/
  ending : call.asked = true → ∃ earlier inputs,
    call.ending = (setup.executor.call call.agent earlier inputs).ending
  attributed : ∀ failure, call.outcome = some (.error failure) → Attributed setup failure
  /-- The step is told when the call has ended or has to stop. -/
  ended : call.outcome.isSome → call.told = true
  told : call.told = true → call.outcome.isSome ∨ s.cancelled = true ∨ s.Halted a
  cancelled : s.cancelled = true → call.told = true
  /-- A call that has not been told to stop goes on, unless it never answers. -/
  alive : call.told = false → .proceed a ∈ s.agenda ∨ call.wakeAt.isSome ∨
    (call.asked = true ∧ call.acts = [] ∧ call.ending = .never)
  deadline : call.asked = true → call.outcome = none → call.deadline = none →
    call.timeout.bind microseconds? = none

namespace Waiting

/-- What is known of a call lasts while the call stays as it is. -/
theorem mono (h : Waiting setup s a job call) (hnode : job'.node = job.node)
    (hpath : job'.entry.path = job.entry.path) (hid : job'.entry.id = job.entry.id)
    (hcancelled : s.cancelled = true → t.cancelled = true)
    (hcancelled' : t.cancelled = true → s.cancelled = true)
    (hhalted : s.Halted a → t.Halted a)
    (hproceed : .proceed a ∈ s.agenda → .proceed a ∈ t.agenda) :
    Waiting setup t a job' call where
  recorded := by rw [setup.recorded?_congr hpath hid]; exact h.recorded
  work := by rw [hnode]; exact h.work
  ending := h.ending
  attributed := h.attributed
  ended := h.ended
  told htold := (h.told htold).imp_right (Or.imp hcancelled hhalted)
  cancelled hc := h.cancelled (hcancelled' hc)
  alive htold := (h.alive htold).imp_left hproceed
  deadline := h.deadline

end Waiting

/-- What is known of all steps that wait for a call. -/
def AllWaiting (setup : Setup) (s : State) : Prop :=
  ∀ a job call, s.jobAt a = some job → job.stage = .calling call → Waiting setup s a job call

namespace AllWaiting

/-- What is known lasts while no call changes. -/
theorem of_jobs (h : AllWaiting setup s)
    (hjobs : ∀ a job call, t.jobAt a = some job → job.stage = .calling call →
      s.jobAt a = some job)
    (hcancelled : t.cancelled = s.cancelled) (hhalted : ∀ a, s.Halted a → t.Halted a)
    (hproceed : ∀ a, .proceed a ∈ s.agenda → .proceed a ∈ t.agenda) : AllWaiting setup t := by
  intro a job call hjob hstage
  refine (h a job call (hjobs a job call hjob hstage) hstage).mono rfl rfl rfl ?_ ?_ (hhalted a)
    (hproceed a)
  · rw [hcancelled]
    exact id
  · rw [hcancelled]
    exact id

/-- One call changes. -/
theorem of_call (after : Call) (h : AllWaiting setup s) (hcall : s.callAt a = some call)
    (hjobs : ∀ b, t.jobAt b = if b = a then (s.jobAt b).map fun job =>
      { job with stage := .calling after } else s.jobAt b)
    (hcancelled : t.cancelled = s.cancelled)
    (hproceed : ∀ b, b ≠ a → .proceed b ∈ s.agenda → .proceed b ∈ t.agenda)
    (hnew : ∀ job, s.jobAt a = some job → Waiting setup s a job call → (∀ b, s.Halted b → t.Halted b) →
      Waiting setup t a { job with stage := .calling after } after) : AllWaiting setup t := by
  obtain ⟨old, hold, holdStage⟩ := jobAt_of_callAt hcall
  have hwinner (b : Address) : t.winnerAt b = s.winnerAt b := by
    rw [winnerAt, hjobs, winnerAt]
    split
    · rename_i hb
      rw [hb, hold]
      have hnone : old.frame? = none := by rw [Job.frame?, holdStage]
      exact (Job.winner_of_frame?_eq_none hnone).symm
    · rfl
  have hhalted (b : Address) (hb : s.Halted b) : t.Halted b := by
    rw [halted_iff_winnerAt] at hb ⊢
    simpa only [hwinner] using hb
  intro b job call' hjob hstage
  rw [hjobs] at hjob
  split at hjob
  · rename_i hb
    subst hb
    rw [hold, Option.map_some, Option.some.injEq] at hjob
    subst hjob
    rw [Stage.calling.injEq] at hstage
    subst hstage
    exact hnew old hold (h b old call hold holdStage) hhalted
  · rename_i hb
    refine (h b job call' hjob hstage).mono rfl rfl rfl ?_ ?_ (hhalted b) (hproceed b hb)
    · rw [hcancelled]
      exact id
    · rw [hcancelled]
      exact id

theorem start (setup : Setup) (tree : Node) : AllWaiting setup (start setup tree) := by
  intro a job call hjob hstage
  obtain ⟨path, node, rfl, _⟩ := Live.jobAt_ofNode hjob
  cases hstage

/-- A change of the node in hand concerns no call. -/
theorem calling_put (hcontrol : Control setup t (some a))
    (ht : ∀ b, t.jobAt b = if b = a then some job' else s.jobAt b) (hjob : t.jobAt b = some job)
    (hstage : job.stage = .calling call) : s.jobAt b = some job := by
  have hne : b ≠ a := by
    rintro rfl
    exact (hcontrol.of_calling hjob hstage).2.1 rfl
  rwa [ht, if_neg hne] at hjob

theorem of_move {f : Entry → Entry} {target : Status} {message : String} (h : AllWaiting setup s)
    (hjob : s.jobAt a = some job) (hrun : job.status = .running)
    (hstatus : (f job.entry).status = job.status) (htarget : Status.running.canBecome target)
    (hcontrol : Control setup ((s.modifyEntry a f).move a target message) (some a))
    (hhalted : ∀ b, s.Halted b → ((s.modifyEntry a f).move a target message).Halted b) :
    AllWaiting setup ((s.modifyEntry a f).move a target message) := by
  have hmove : job.status.canBecome target := by rwa [hrun]
  have hput := jobAt_modifyEntry_move hjob hmove hstatus message
  refine h.of_jobs (fun _ _ _ => calling_put hcontrol hput) (cancelled_move ..) hhalted ?_
  rw [agenda_move]
  exact fun _ => id

/-- A step is told when its call has ended. -/
theorem answer {outcome : Except Failure Value} {wakeAt deadline : Option Int}
    {agenda : List Task} (h : AllWaiting setup s) (hcall : s.callAt a = some call)
    (hreason : (call.asked = true ∧ call.ending = .answer outcome) ∨
      ∃ seconds, outcome = .error (timeoutFailure call.agent seconds))
    (hagenda : agenda = s.agenda ∨ s.agenda = .proceed a :: agenda) :
    AllWaiting setup ((({ s with agenda } : State).setStage a
      (.calling { call with outcome := some outcome, wakeAt, deadline })).tell a) := by
  obtain ⟨old, hold, hstage⟩ := jobAt_of_callAt hcall
  generalize hmid : ({ s with agenda } : State).setStage a
    (.calling { call with outcome := some outcome, wakeAt, deadline }) = mid
  have hmidJob : mid.jobAt a = some { old with
      stage := .calling { call with outcome := some outcome, wakeAt, deadline } } := by
    rw [← hmid, jobAt_setStage, if_pos rfl, jobAt_agenda, hold]
    rfl
  have hmidCall : mid.callAt a = some { call with outcome := some outcome, wakeAt, deadline } := by
    rw [callAt_of_jobAt hmidJob]
    rfl
  refine h.of_call { call with outcome := some outcome, wakeAt, deadline, told := true } hcall
    (fun b => ?_) ?_ (fun b hb hproceed => ?_) ?_
  · rw [jobAt_tell]
    split
    · rename_i hb
      rw [hb, hmidJob, hold, Option.map_some, Option.map_some, Job.tell_of_calling rfl]
    · rename_i hb
      rw [← hmid, jobAt_setStage, if_neg hb, jobAt_agenda]
  · rw [cancelled_tell, ← hmid]
    rfl
  · have hmem : .proceed b ∈ mid.agenda := by
      rw [← hmid]
      change _ ∈ agenda
      rcases hagenda with heq | heq
      · rwa [heq]
      · rw [heq, List.mem_cons, Task.proceed.injEq] at hproceed
        exact hproceed.resolve_left hb
    rw [agenda_tell _ _ hmidCall]
    split
    · exact hmem
    · exact List.mem_append_left _ hmem
  · intro job hjob hwaiting _
    refine ⟨hwaiting.recorded, hwaiting.work, hwaiting.ending, fun failure hfailure => ?_,
      fun _ => rfl, fun _ => .inl rfl, fun _ => rfl, by simp, fun _ hnone => by simp at hnone⟩
    rw [Option.some.injEq] at hfailure
    subst hfailure
    rcases hreason with ⟨hasked, hending⟩ | ⟨seconds, hseconds⟩
    · obtain ⟨earlier, inputs, hexecutor⟩ := hwaiting.ending hasked
      exact .inl ⟨call.agent, earlier, inputs, hexecutor.symm.trans hending⟩
    · rw [Except.error.injEq] at hseconds
      exact .inr ⟨call.agent, seconds, hseconds⟩

/-- A step that is told to stop has a reason to stop. -/
theorem tell (h : AllWaiting setup s) (hcause : s.cancelled = true ∨ s.Halted a) :
    AllWaiting setup (s.tell a) := by
  cases hcall : s.callAt a with
  | none => rwa [tell_of_callAt_eq_none _ _ hcall]
  | some call =>
    obtain ⟨old, hold, hstage⟩ := jobAt_of_callAt hcall
    refine h.of_call { call with told := true } hcall (fun b => ?_) (cancelled_tell ..)
      (fun b _ hb => ?_) ?_
    · rw [jobAt_tell]
      split
      · rename_i hb
        rw [hb, hold, Option.map_some, Option.map_some, Job.tell_of_calling hstage]
      · rfl
    · rw [agenda_tell _ _ hcall]
      split
      · exact hb
      · exact List.mem_append_left _ hb
    · intro job hjob hwaiting hhalted
      refine ⟨hwaiting.recorded, hwaiting.work, hwaiting.ending, hwaiting.attributed, fun _ => rfl,
        fun _ => .inr ?_, fun _ => rfl, by simp, hwaiting.deadline⟩
      rw [cancelled_tell]
      exact hcause.imp_right (hhalted a)

theorem cancelled_cancelRun (s : State) : s.cancelRun.cancelled = true := by
  unfold State.cancelRun
  split
  · assumption
  · exact foldl_tell_induction (P := fun t => t.cancelled = true) _ _ rfl
      fun t a _ ht => (cancelled_tell t a).trans ht

/-- Once the end of the run is asked for, all calls are told to stop. -/
theorem cancelRun (h : AllWaiting setup s) : AllWaiting setup s.cancelRun := by
  intro a job call hjob hstage
  rw [jobAt_cancelRun] at hjob
  split at hjob
  · rename_i hcancelled
    rw [State.cancelRun, if_pos hcancelled]
    exact h a job call hjob hstage
  · obtain ⟨old, hold, rfl⟩ := Option.map_eq_some_iff.1 hjob
    have hcall := old.call?_tell
    rw [Job.call?, hstage] at hcall
    obtain ⟨before, hbefore, heq⟩ := Option.map_eq_some_iff.1 hcall.symm
    have hwaiting := h a old before hold (stage_of_call? hbefore)
    subst heq
    refine ⟨?_, ?_, hwaiting.ending, hwaiting.attributed, fun _ => rfl,
      fun _ => .inr (.inl (cancelled_cancelRun s)), fun _ => rfl, by simp, hwaiting.deadline⟩
    · rw [Job.entry_tell]
      exact hwaiting.recorded
    · rw [Job.node_tell]
      exact hwaiting.work

theorem callOut {agent : String} {own : Option Binary64} (h : AllWaiting setup s)
    (hjob : s.jobAt a = some job) (hidle : job.stage = .idle)
    (hrecorded : setup.recorded? job.entry = none) (hcancelled : s.cancelled = false)
    (hwork : job.node.work = .step agent own) :
    AllWaiting setup ((s.setStage a (.calling { agent, timeout := setup.timeoutOf own })).later
      (.proceed a)) := by
  have hwinner (b : Address) :
      ((s.setStage a (.calling { agent, timeout := setup.timeoutOf own })).later
        (.proceed a)).winnerAt b = s.winnerAt b := by
    have hnone : job.frame? = none := by rw [Job.frame?, hidle]
    refine winnerAt_setStage hjob ?_ b
    rw [Job.winner_of_frame?_eq_none hnone]
    rfl
  intro b new call hnew hstage
  rw [jobAt_later, jobAt_setStage] at hnew
  split at hnew
  · rename_i hb
    subst hb
    rw [hjob, Option.map_some, Option.some.injEq] at hnew
    subst hnew
    rw [Stage.calling.injEq] at hstage
    subst hstage
    refine ⟨hrecorded, ⟨own, hwork, rfl⟩, by simp, by simp, by simp, by simp, fun hc => ?_,
      fun _ => .inl ?_, by simp⟩
    · have : s.cancelled = true := hc
      rw [hcancelled] at this
      cases this
    · exact List.mem_append_right _ (List.mem_singleton_self _)
  · refine (h b new call hnew hstage).mono rfl rfl rfl id id ?_ (List.mem_append_left _)
    rw [halted_iff_winnerAt, halted_iff_winnerAt]
    simp only [hwinner, imp_self]

/-- What is known lasts when a task is taken from the agenda that does not make a call go on. -/
theorem take {task : Task} {rest : List Task} (h : AllWaiting setup s)
    (hagenda : s.agenda = task :: rest) (htask : ∀ a, task ≠ .proceed a) (hrest : t.agenda = rest)
    (hjobs : ∀ a job call, t.jobAt a = some job → job.stage = .calling call →
      s.jobAt a = some job)
    (hcancelled : t.cancelled = s.cancelled) (hhalted : ∀ a, s.Halted a → t.Halted a) :
    AllWaiting setup t := by
  refine h.of_jobs hjobs hcancelled hhalted fun a ha => ?_
  rw [hagenda, List.mem_cons] at ha
  rw [hrest]
  exact ha.resolve_left (htask a).symm

/-- A node that is left without a start waits for no call. -/
theorem leave {target : Status} (h : AllWaiting setup s)
    (hcontrol : Control setup (s.move b target "") (some a)) (hpending : s.statusAt b = some .pending)
    (homitted : Omitted s a b target) (hhalted : ∀ b', s.Halted b' → (s.move b target "").Halted b') :
    AllWaiting setup (s.move b target "") := by
  obtain ⟨job, hjob, hstatus⟩ := jobAt_of_statusAt hpending
  have hmove : job.status.canBecome target := hstatus ▸ homitted.canBecome
  refine h.of_jobs (fun c new call hnew hstage => ?_) (cancelled_move ..) hhalted ?_
  · have hrun := (hcontrol.of_calling hnew hstage).1
    rw [jobAt_move hjob hmove] at hnew
    split at hnew
    · rw [Option.some.injEq] at hnew
      rw [← hnew, Job.status_moved] at hrun
      have hterminal := homitted.isTerminal
      rw [hrun] at hterminal
      cases hterminal
    · exact hnew
  · rw [agenda_move]
    exact fun _ => id

/-- No instance that is new waits for a call. -/
theorem expand {frame : Frame} (h : AllWaiting setup s) (hshape : Shape tree s)
    (hexp : Expansion s a job frame t) (hhalted : ∀ b, s.Halted b → t.Halted b) :
    AllWaiting setup t := by
  obtain ⟨body, hbody⟩ := (hshape.sound a job hexp.jobAt).exists_body hexp.kind
  refine h.of_jobs (fun b new call hnew hstage => ?_) (by rw [hexp.eq]; rfl) hhalted fun b hb => ?_
  · rcases hexp.cases hbody hnew with ⟨_, hold⟩ | ⟨rfl, rfl⟩ | ⟨i, c, rfl, _⟩
    · exact hold
    · cases hstage
    · rw [(Control.job_new hexp hbody hnew).2] at hstage
      cases hstage
  · rw [hexp.eq]
    exact hb

/-- A call that cannot go on is not said to go on any more. -/
theorem dropProceed {rest : List Task} (h : AllWaiting setup s)
    (hagenda : s.agenda = .proceed a :: rest)
    (hdone : ∀ call, s.callAt a = some call →
      call.outcome.isSome ∨ (call.asked = true ∧ call.acts = [] ∧ call.ending = .never))
    (hhalted : ∀ b, s.Halted b → ({ s with agenda := rest } : State).Halted b) :
    AllWaiting setup { s with agenda := rest } := by
  intro b job call hjob hstage
  have hwaiting := h b job call hjob hstage
  have hcall : s.callAt b = some call := by
    rw [callAt_of_jobAt (s := s) hjob, Job.call?, hstage]
  by_cases hb : b = a
  · subst hb
    refine ⟨hwaiting.recorded, hwaiting.work, hwaiting.ending, hwaiting.attributed, hwaiting.ended,
      fun htold => (hwaiting.told htold).imp_right (Or.imp_right (hhalted b)), hwaiting.cancelled,
      fun htold => .inr (.inr ?_), hwaiting.deadline⟩
    refine (hdone call hcall).resolve_left fun houtcome => ?_
    rw [hwaiting.ended houtcome] at htold
    cases htold
  · refine hwaiting.mono rfl rfl rfl id id (hhalted b) fun hproceed => ?_
    rw [hagenda, List.mem_cons, Task.proceed.injEq] at hproceed
    exact hproceed.resolve_left hb

/-- The executor says what a call does, and how it ends. -/
theorem ask (inputs : Fields Value) (h : AllWaiting setup s) (hcall : s.callAt a = some call)
    (hproceed : .proceed a ∈ s.agenda) : AllWaiting setup (s.ask setup a inputs call) := by
  refine h.of_call { call with
    asked := true
    acts := (setup.executor.call call.agent (s.callsOf call.agent) inputs).acts
    ending := (setup.executor.call call.agent (s.callsOf call.agent) inputs).ending
    deadline := (call.timeout.bind microseconds?).map fun time => s.now + max 0 time } hcall
    (fun b => jobAt_setStage ..) rfl (fun _ _ => id) fun job hjob hwaiting hhalted => ?_
  refine ⟨hwaiting.recorded, hwaiting.work, fun _ => ⟨s.callsOf call.agent, inputs, rfl⟩,
    hwaiting.attributed, hwaiting.ended,
    fun htold => (hwaiting.told htold).imp_right (Or.imp_right (hhalted a)), hwaiting.cancelled,
    fun _ => .inl hproceed, fun _ _ hnone => ?_⟩
  exact Option.map_eq_none_iff.1 hnone

/-- Every change keeps what is known of calls. -/
theorem change (h : AllWaiting setup s) (hcontrol : Control setup s hand) (hshape : Shape tree s)
    (hchange : Change setup doing s hand t after) : AllWaiting setup t := by
  have hcontrol' := hcontrol.change hshape hchange
  have hhalted (a : Address) (ha : s.Halted a) : t.Halted a := ha.change hchange hshape
  cases hchange with
  | takeEnter hagenda => exact h.take hagenda (by simp) rfl (fun _ _ _ hjob _ => hjob) rfl hhalted
  | begin hpending =>
    obtain ⟨job, hjob, hstatus⟩ := jobAt_of_statusAt hpending
    have hmove : job.status.canBecome .running := by rw [hstatus]; rfl
    have hput := jobAt_move hjob hmove ""
    refine h.of_jobs (fun _ _ _ => calling_put hcontrol' hput) (cancelled_move ..) hhalted ?_
    rw [agenda_move]
    exact fun _ => id
  | leave _ hpending homitted => exact h.leave hcontrol' hpending homitted hhalted
  | @bindStep a job inputs hjob =>
    have hput := jobAt_modifyEntry_of_jobAt hjob fun e => { e with inputs }
    exact h.of_jobs (fun _ _ _ => calling_put hcontrol' hput) rfl hhalted fun _ => id
  | succeed hkids hrun =>
    exact h.of_move (jobAt_of_at? hkids) hrun rfl rfl hcontrol' hhalted
  | fail hkids hrun =>
    exact h.of_move (jobAt_of_at? hkids) hrun rfl rfl hcontrol' hhalted
  | stop hkids hrun =>
    exact h.of_move (jobAt_of_at? hkids) hrun rfl rfl hcontrol' hhalted
  | release =>
    refine h.of_jobs (fun _ _ _ hjob _ => ?_) (cancelled_reported ..) hhalted fun a ha => ?_
    · rwa [jobAt_reported] at hjob
    · exact (Control.mem_agenda_reported ..).2 (.inr ha)
  | @host a job frame hjob =>
    have hput := jobAt_setStage_of_jobAt hjob (.hosting frame)
    exact h.of_jobs (fun _ _ _ => calling_put hcontrol' hput) rfl hhalted fun _ => id
  | expand frame hjob hrun hkind harity hwinner hwinner' =>
    exact h.expand hshape ⟨hjob, hrun, hkind, harity, hwinner, hwinner', rfl⟩ hhalted
  | callOut agent own hjob hrun hkind hidle hrecorded hcancelled hwork =>
    exact h.callOut hjob hidle hrecorded hcancelled hwork
  | enterNext =>
    exact h.of_jobs (fun _ _ _ hjob _ => hjob) rfl hhalted fun _ => List.mem_cons_of_mem _
  | enterChosen =>
    exact h.of_jobs (fun _ _ _ hjob _ => hjob) rfl hhalted fun _ => List.mem_cons_of_mem _
  | fill =>
    exact h.of_jobs (fun _ _ _ hjob _ => hjob) rfl hhalted fun _ => List.mem_append_left _
  | gather =>
    exact h.of_jobs (fun _ _ _ hjob _ => hjob) rfl hhalted fun _ => List.mem_append_left _
  | takeReport hagenda => exact h.take hagenda (by simp) rfl (fun _ _ _ hjob _ => hjob) rfl hhalted
  | @count a i job frame kid rest hagenda hjob =>
    refine h.of_jobs (fun b new call hnew hstage => ?_) ?_ hhalted fun b hb => ?_
    · rw [jobAt_counted hjob] at hnew
      split at hnew
      · rw [Option.some.injEq] at hnew
        rw [← hnew] at hstage
        cases hstage
      · exact hnew
    · unfold counted
      split <;> rfl
    · rw [hagenda, List.mem_cons] at hb
      exact (mem_agenda_counted ..).2 (.inl (hb.resolve_left (by simp)))
  | takeJoin hagenda => exact h.take hagenda (by simp) rfl (fun _ _ _ hjob _ => hjob) rfl hhalted
  | @takeWake a call rest hagenda hcall =>
    refine h.take hagenda (by simp) rfl (fun b new call hnew hstage => ?_) rfl hhalted
    rw [jobAt_setStage] at hnew
    split at hnew
    · obtain ⟨old, _, rfl⟩ := Option.map_eq_some_iff.1 hnew
      cases hstage
    · exact hnew
  | dropProceed hagenda hdone => exact h.dropProceed hagenda hdone hhalted
  | ask inputs hcall _ _ hproceed => exact h.ask inputs hcall hproceed
  | @goOn a call acts wakeAt agenda hcall houtcome hfilter hothers hgoes =>
    refine h.of_call { call with acts, wakeAt } hcall (fun b => jobAt_setStage ..) rfl
      (fun b hb => (hothers b hb).2) fun job hjob hwaiting hhalted => ?_
    exact ⟨hwaiting.recorded, hwaiting.work, hwaiting.ending, hwaiting.attributed, hwaiting.ended,
      fun htold => (hwaiting.told htold).imp_right (Or.imp_right (hhalted a)), hwaiting.cancelled,
      fun _ => hgoes.imp_right .inl, hwaiting.deadline⟩
  | answer outcome wakeAt deadline agenda hcall _ hreason hagenda => exact h.answer hcall hreason hagenda
  | tell hcause => exact h.tell hcause
  | cancelRun => exact h.cancelRun
  | tick => exact h.of_jobs (fun _ _ _ hjob _ => hjob) rfl hhalted fun _ => id

end AllWaiting

/-- What is known of the calls of a run. -/
theorem Reached.waiting (h : Reached setup tree s hand) (htree : tree.Sound)
    (hjob : s.jobAt a = some job) (hstage : job.stage = .calling call) :
    Waiting setup s a job call := by
  have hall : AllWaiting setup s := by
    clear hjob
    induction h with
    | start => exact .start setup tree
    | change hreached hchange ih =>
      exact ih.change (hreached.control htree) (hreached.shape htree) hchange
  exact hall a job call hjob hstage

/-- Once nothing is left to do at an instant, no step waits that has been told. -/
theorem Reached.not_told (h : Reached setup tree s none) (htree : tree.Sound)
    (hagenda : s.agenda = []) (hcall : s.callAt a = some call) : call.told = false := by
  obtain ⟨_, _, _, _, _, _, hwake⟩ := (h.control htree).of_callAt hcall
  by_contra htold
  have hmem := hwake (by simpa using htold)
  rw [hagenda] at hmem
  cases hmem

/-- Once nothing is left to do at an instant, no call has ended that a step waits for. -/
theorem Reached.outcome_eq_none (h : Reached setup tree s none) (htree : tree.Sound)
    (hagenda : s.agenda = []) (hcall : s.callAt a = some call) : call.outcome = none := by
  obtain ⟨job, hjob, hstage⟩ := jobAt_of_callAt hcall
  have htold := h.not_told htree hagenda hcall
  by_contra hsome
  rw [(h.waiting htree hjob hstage).ended (Option.isSome_iff_ne_none.2 hsome)] at htold
  cases htold

end State
end Workflow
