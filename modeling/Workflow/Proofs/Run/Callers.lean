import Workflow.Proofs.Run.Winner

/-!
# Steps that wait for calls

Only while calls go on does a change touch what is known of calls, but for steps that begin to wait or
cease to, and for calls that are told to stop.

* `State.callerAt` is the step at an address if it waits for a call.
* `State.SameCalls` says that the same steps wait for the same calls.
* `State.Change.calls` says what a change does to them that lets no call go on.
-/

namespace Workflow.State

variable {setup : Setup} {tree : Node} {s t : State} {hand after : Option Address} {doing : Doing}
  {a b : Address} {job job' : Job} {call : Call}

/-- The step at an address, if it waits for a call. -/
def callerAt (s : State) (a : Address) : Option Job :=
  (s.jobAt a).filter fun job => job.call?.isSome

theorem callerAt_eq_some_iff : s.callerAt a = some job ↔
    s.jobAt a = some job ∧ ∃ call, job.stage = .calling call := by
  rw [callerAt, Option.filter_eq_some_iff]
  refine and_congr_right fun _ => ?_
  rw [Option.isSome_iff_exists]
  constructor
  · rintro ⟨call, hcall⟩
    exact ⟨call, stage_of_call? hcall⟩
  · rintro ⟨call, hstage⟩
    exact ⟨call, by rw [Job.call?, hstage]⟩

theorem callerAt_eq_none_of_call? (hjob : s.jobAt a = some job) (hcall : job.call? = none) :
    s.callerAt a = none := by
  rw [callerAt, hjob, Option.filter_some, hcall]
  rfl

theorem callAt_eq_callerAt (s : State) (a : Address) :
    s.callAt a = (s.callerAt a).bind Job.call? := by
  rw [callAt_eq, callerAt]
  cases s.jobAt a with
  | none => rfl
  | some job =>
    rw [Option.filter_some]
    split
    · rfl
    · rename_i hcall
      simpa using hcall

/-- The instances of a loop wait for no call. -/
theorem callerAt_expansion {frame : Frame} (hexp : Expansion s a job frame t) (hshape : Shape tree s)
    (hcall : job.call? = none) (b : Address) : t.callerAt b = s.callerAt b := by
  obtain ⟨body, hbody⟩ := (hshape.sound a job hexp.jobAt).exists_body hexp.kind
  by_cases hb : b = a
  · subst hb
    rw [callerAt_eq_none_of_call? hexp.jobAt_self rfl, callerAt_eq_none_of_call? hexp.jobAt hcall]
  · cases hold : s.jobAt b with
    | some old => rw [callerAt, Control.jobAt_old hshape hexp hb hold, callerAt]
    | none =>
      rw [callerAt, callerAt, hold]
      cases hnew : t.jobAt b with
      | none => rfl
      | some new =>
        rcases hexp.cases hbody hnew with ⟨_, hold'⟩ | ⟨rfl, _⟩ | ⟨i, c, rfl, _⟩
        · rw [hold] at hold'
          cases hold'
        · exact absurd rfl hb
        · rw [Option.filter_some, Job.call?, (Control.job_new hexp hbody hnew).2]
          rfl

/-- The same steps wait for the same calls, and the same calls are to go on. -/
structure SameCalls (s t : State) : Prop where
  caller : ∀ a, t.callerAt a = s.callerAt a
  proceed : t.agenda.filter Task.isProceed = s.agenda.filter Task.isProceed
  now : t.now = s.now
  cancelled : t.cancelled = s.cancelled

namespace SameCalls

/-- A change of what is to be done, but not of what calls do. -/
theorem of_jobs (hjobs : ∀ b, t.jobAt b = s.jobAt b)
    (hproceed : t.agenda.filter Task.isProceed = s.agenda.filter Task.isProceed)
    (hnow : t.now = s.now) (hcancelled : t.cancelled = s.cancelled) : SameCalls s t :=
  ⟨fun a => by rw [callerAt, hjobs, callerAt], hproceed, hnow, hcancelled⟩

/-- A node that waits for no call changes to one that waits for none. -/
theorem put (hjob : s.jobAt a = some job) (hcall : job.call? = none) (hcall' : job'.call? = none)
    (ht : ∀ b, t.jobAt b = if b = a then some job' else s.jobAt b)
    (hproceed : t.agenda.filter Task.isProceed = s.agenda.filter Task.isProceed)
    (hnow : t.now = s.now) (hcancelled : t.cancelled = s.cancelled) : SameCalls s t := by
  refine ⟨fun b => ?_, hproceed, hnow, hcancelled⟩
  by_cases hb : b = a
  · subst hb
    rw [callerAt_eq_none_of_call? hjob hcall,
      callerAt_eq_none_of_call? (by rw [ht, if_pos rfl]) hcall']
  · rw [callerAt, ht, if_neg hb, callerAt]

/-- The node in hand changes. -/
theorem put_hand (job' : Job) (hcontrol : Control setup s (some a)) (hcontrol' : Control setup t (some a))
    (hjob : s.jobAt a = some job) (ht : ∀ b, t.jobAt b = if b = a then some job' else s.jobAt b)
    (hproceed : t.agenda.filter Task.isProceed = s.agenda.filter Task.isProceed)
    (hnow : t.now = s.now) (hcancelled : t.cancelled = s.cancelled) : SameCalls s t :=
  .put hjob (hcontrol.call?_hand hjob) (hcontrol'.call?_hand (by rw [ht, if_pos rfl])) ht hproceed
    hnow hcancelled

/-- The node in hand is moved. -/
theorem move {f : Entry → Entry} {target : Status} {message : String}
    (hcontrol : Control setup s (some a))
    (hcontrol' : Control setup ((s.modifyEntry a f).move a target message) (some a))
    (hjob : s.jobAt a = some job) (hstatus : (f job.entry).status = job.status)
    (htarget : job.status.canBecome target) :
    SameCalls s ((s.modifyEntry a f).move a target message) :=
  put_hand _ hcontrol hcontrol' hjob (jobAt_modifyEntry_move hjob htarget hstatus message)
    (by rw [agenda_move]; rfl) (now_move ..) (cancelled_move ..)

end SameCalls

/-- What a change does to calls that lets no call go on. -/
inductive CallsEffect (setup : Setup) (doing : Doing) (s t : State) : Prop
  | same : SameCalls s t → CallsEffect setup doing s t
  /-- A step begins to wait. -/
  | begun {a : Address} {job : Job} {agent : String} {own : Option Binary64} {o : Opening} :
      s.jobAt a = some job → job.stage = .idle → s.cancelled = false →
      job.node.work = .step agent own → doing = .start a o →
      t = (s.setStage a (.calling { agent, timeout := setup.timeoutOf own })).later (.proceed a) →
      CallsEffect setup doing s t
  /-- A step that has been told waits no more. -/
  | woken {a : Address} {rest : List Task} : s.agenda = .wake a :: rest → doing = .finish →
      t = ({ s with agenda := rest }).setStage a .idle → CallsEffect setup doing s t
  /-- A call is told to stop. -/
  | told {a : Address} : s.cancelled = true ∨ s.Halted a → t = s.tell a →
      CallsEffect setup doing s t

/-- Unless calls go on, the same steps wait for the same calls, but for those that begin to wait, cease
to wait or are told to stop. -/
theorem Change.calls (hchange : Change setup doing s hand t after) (hcontrol : Control setup s hand)
    (hshape : Shape tree s) (hdoing : doing ≠ .call) : CallsEffect setup doing s t := by
  have hcontrol' := hcontrol.change hshape hchange
  cases hchange with
  | takeEnter hagenda => exact .same (.of_jobs (fun _ => rfl) (by rw [hagenda]; rfl) rfl rfl)
  | begin hpending =>
    obtain ⟨job, hjob, hstatus⟩ := jobAt_of_statusAt hpending
    have hmove : job.status.canBecome .running := by rw [hstatus]; rfl
    exact .same (.put_hand _ hcontrol hcontrol' hjob (jobAt_move hjob hmove "")
      (by rw [agenda_move]) (now_move ..) (cancelled_move ..))
  | leave hprefix hpending homitted =>
    obtain ⟨job, hjob, hstatus⟩ := jobAt_of_statusAt hpending
    have hmove := homitted.canBecome
    rw [← hstatus] at hmove
    have hidle : job.stage = .idle := ((hcontrol.node _ job hjob).pending hstatus).1
    have hcall : job.call? = none := by rw [Job.call?, hidle]
    exact .same (.put hjob hcall (by rw [← hcall]; rfl) (jobAt_move hjob hmove "")
      (by rw [agenda_move]) (now_move ..) (cancelled_move ..))
  | @bindStep a job inputs hjob =>
    exact .same (.put_hand { job with entry := { job.entry with inputs } } hcontrol hcontrol' hjob
      (jobAt_modifyEntry_of_jobAt hjob _) rfl rfl rfl)
  | succeed hkids hrun =>
    exact .same (.move hcontrol hcontrol' (jobAt_of_at? hkids) rfl (by rw [hrun]; rfl))
  | fail hkids hrun =>
    exact .same (.move hcontrol hcontrol' (jobAt_of_at? hkids) rfl (by rw [hrun]; rfl))
  | stop hkids hrun =>
    exact .same (.move hcontrol hcontrol' (jobAt_of_at? hkids) rfl (by rw [hrun]; rfl))
  | release =>
    refine .same (.of_jobs (jobAt_reported _ _) ?_ ?_ (cancelled_reported ..))
    · rw [reported]
      split <;> rfl
    · rw [reported]
      split <;> rfl
  | @host a job frame hjob =>
    exact .same (.put_hand { job with stage := .hosting frame } hcontrol hcontrol' hjob
      (jobAt_setStage_of_jobAt hjob _) rfl rfl rfl)
  | @expand a job frame hjob hrun hkind harity hwinner hwinner' =>
    have hexp : Expansion s a job frame _ := ⟨hjob, hrun, hkind, harity, hwinner, hwinner', rfl⟩
    exact .same ⟨callerAt_expansion hexp hshape (hcontrol.call?_hand hjob), rfl, rfl, rfl⟩
  | callOut agent own hjob _ _ hidle _ hcancelled hwork hstart =>
    obtain ⟨o, hstart⟩ := hstart
    exact .begun hjob hidle hcancelled hwork hstart rfl
  | enterNext => exact .same (.of_jobs (fun _ => rfl) rfl rfl rfl)
  | enterChosen => exact .same (.of_jobs (fun _ => rfl) rfl rfl rfl)
  | @fill a job frame =>
    refine .same (.of_jobs (fun _ => rfl) ?_ rfl rfl)
    have hnone : ((List.range frame.begun).map fun i => Task.enter (a ++ [i])).filter
        Task.isProceed = [] := by simp [List.filter_eq_nil_iff, Task.isProceed]
    simp only [List.filter_append, hnone, List.append_nil]
  | gather => exact .same (.of_jobs (fun _ => rfl) (by simp [later, Task.isProceed]) rfl rfl)
  | takeReport hagenda => exact .same (.of_jobs (fun _ => rfl) (by rw [hagenda]; rfl) rfl rfl)
  | @count a i job frame kid rest hagenda hjob hgroup hframe =>
    have hcall : job.call? = none := by rw [Job.call?, stage_of_frame? hframe]
    refine .same (.put hjob hcall rfl (jobAt_counted hjob rest frame i kid) ?_ ?_ ?_)
    · rw [hagenda, counted]
      split <;> simp [later, setStage, State.modify, Task.isProceed]
    · rw [counted]
      split <;> rfl
    · rw [counted]
      split <;> rfl
  | takeJoin hagenda => exact .same (.of_jobs (fun _ => rfl) (by rw [hagenda]; rfl) rfl rfl)
  | takeWake hagenda _ hfinish => exact .woken hagenda hfinish rfl
  | tell hcause => exact .told hcause rfl
  | dropProceed _ _ hcall => exact absurd hcall hdoing
  | ask _ _ _ _ _ hcall => exact absurd hcall hdoing
  | goOn _ _ _ _ _ _ _ _ hcall => exact absurd hcall hdoing
  | answer _ _ _ _ _ _ _ _ hcall => exact absurd hcall hdoing
  | cancelRun hcall => exact absurd hcall hdoing
  | tick _ hcall => exact absurd hcall hdoing

end Workflow.State
