import Workflow.Proofs.Run.Hushed
import Workflow.Proofs.Run.Kept

/-!
# Steps that are told

A step that waits for a call goes on to wait until it is told that the call has ended or has to stop.
Then it ends as the call did, or is stopped.

* `State.Reached.jobAt_wake` says what becomes of a step that is told.
* `State.Reached.callAt_step` says that a step that is not told goes on to wait.
-/

namespace Workflow

/-- The state of a step whose call has ended like this, or that is stopped with the message. -/
def Job.woken (job : Job) (message : String) (now : Int) : Option (Except Failure Value) → Job
  | some (.ok output) =>
    ({ job with stage := .idle, entry := { job.entry with output } } : Job).moved .succeeded now
  | some (.error failure) =>
    ({ job with stage := .idle, entry := { job.entry with error := some failure } } : Job).moved
      .failed now
  | none =>
    ({ job with
      stage := .idle
      entry := { job.entry with error := some ⟨.cancelled, message, []⟩ } } : Job).moved .cancelled now

theorem Job.isTerminal_woken (job : Job) (message : String) (now : Int)
    (outcome : Option (Except Failure Value)) : (job.woken message now outcome).status.isTerminal := by
  rcases outcome with _ | _ | _ <;> rfl

theorem Job.finished_woken (job : Job) (message : String) (now : Int)
    (outcome : Option (Except Failure Value)) :
    (job.woken message now outcome).entry.progress.finished = some now := by
  rcases outcome with _ | _ | _ <;> rfl

namespace State

variable {setup : Setup} {tree : Node} {s t u : State} {hand after : Option Address}
  {doing : Doing} {a b : Address} {job : Job} {call : Call}

/-! ## Steps that end -/

/-- Nothing is pending at or below a running step. -/
theorem Shape.not_pending_of_step (h : Shape tree s) (hjob : s.jobAt a = some job)
    (hrun : job.status = .running) (hkind : job.node.kind = .step) (hab : a <+: b) :
    s.statusAt b ≠ some .pending := by
  intro hpending
  obtain ⟨c, rfl⟩ := hab
  cases c with
  | nil =>
    rw [List.append_nil, statusAt_of_jobAt hjob, hrun] at hpending
    cases hpending
  | cons i c =>
    have harity : job.arity = 0 := by
      rw [Job.arity_of_kind_ne (by rw [hkind]; decide), (h.sound a job hjob).children_eq_nil hkind]
      rfl
    rw [statusAt, h.jobAt_below_eq_none hjob harity] at hpending
    cases hpending

/-- A running step below which nothing is pending is moved, and there is nothing to settle. -/
theorem jobAt_settle_of_step {f : Entry → Entry} {target : Status} (other : Status)
    (hjob : s.jobAt a = some job) (hrun : job.status = .running)
    (hf : (f job.entry).status = job.status) (htarget : Status.running.canBecome target)
    (hnone : ∀ b, a <+: b → s.statusAt b ≠ some .pending) :
    (((s.modifyEntry a f).move a target "").settle a other).jobAt a =
      some (({ job with entry := f job.entry } : Job).moved target s.now) := by
  have hmove : job.status.canBecome target := by rwa [hrun]
  have hjobs := jobAt_modifyEntry_move hjob hmove hf ""
  rw [settle_eq_self fun c hac hpending => ?_, hjobs, if_pos rfl]
  rw [statusAt, hjobs] at hpending
  split at hpending
  · rw [Option.map_some, Job.status_moved, Option.some.injEq] at hpending
    subst hpending
    cases htarget
  · exact hnone c hac hpending

/-- A step that is told ends as its call did, or is stopped. -/
theorem Reached.jobAt_wake (h : Reached setup tree s none) (rest : List Task) (htree : tree.Sound)
    (hjob : s.jobAt a = some job) (hstage : job.stage = .calling call) :
    (({ s with agenda := rest } : State).wake a).jobAt a =
      some (job.woken s.stopMessage s.now call.outcome) := by
  obtain ⟨hrun, _, hkind, _⟩ := (h.control htree).of_calling hjob hstage
  set t : State := ({ s with agenda := rest } : State).setStage a .idle with ht
  have htJob : t.jobAt a = some { job with stage := .idle } := by
    rw [ht, jobAt_setStage, if_pos rfl, jobAt_agenda, hjob]
    rfl
  have hnone (b : Address) (hab : a <+: b) : t.statusAt b ≠ some .pending := by
    rw [ht, statusAt_setStage]
    exact (h.shape htree).not_pending_of_step hjob hrun hkind hab
  have hcall : s.callAt a = some call := by rw [callAt_of_jobAt hjob, Job.call?, hstage]
  have hcall' : ({ s with agenda := rest } : State).callAt a = some call := hcall
  unfold State.wake
  rw [hcall']
  simp only [← ht, jobAt_reported]
  cases call.outcome with
  | none => exact jobAt_settle_of_step _ htJob hrun rfl rfl hnone
  | some outcome =>
    cases outcome with
    | ok output =>
      have hmove : job.status.canBecome .succeeded := by rw [hrun]; rfl
      exact (jobAt_modifyEntry_move htJob hmove rfl "" a).trans (if_pos rfl)
    | error failure => exact jobAt_settle_of_step _ htJob hrun rfl rfl hnone

/-! ## Steps that go on to wait -/

/-- A container that takes notice of its children is no step that waits. -/
theorem callAt_setStage_of_frame {old : Frame} (frame : Frame) (hjob : s.jobAt b = some job)
    (hframe : job.frame? = some old) (hcall : s.callAt a = some call) :
    (s.setStage b (.hosting frame)).callAt a = some call := by
  rw [callAt_setStage, if_neg, hcall]
  rintro rfl
  rw [callAt_of_jobAt hjob, Job.call?, stage_of_frame? hframe] at hcall
  cases hcall

/-- No step ceases to wait while other nodes take notice that their children have ended. -/
theorem callAt_report (s : State) (b : Address) (hcall : s.callAt a = some call) :
    ∃ told, (s.report b).callAt a = some { call with told } := by
  unfold State.report
  split
  · rename_i position _
    unfold State.reportKid
    split
    · exact ⟨call.told, hcall⟩
    · rename_i job kids hkids
      have hjob := jobAt_of_at? hkids
      split
      · rename_i kid frame _ hframe
        split
        · unfold State.reportNext
          split
          · exact ⟨call.told, callAt_setStage_of_frame _ hjob hframe hcall⟩
          · exact ⟨call.told, (((SameStages.finish ..).reported _).callAt a).trans hcall⟩
        · exact ⟨call.told, (((SameStages.finish ..).reported _).callAt a).trans hcall⟩
        · have hset := callAt_setStage_of_frame (nextFrame job frame position kid) hjob
            hframe hcall
          rw [callAt_eq] at hset
          rw [callAt_eq, Hushed.jobAt_reportOne]
          split
          · obtain ⟨caller, hcaller, hcall'⟩ := Option.bind_eq_some_iff.1 hset
            exact ⟨true, by rw [hcaller, Option.map_some, Option.bind_some, Job.call?_tell, hcall']; rfl⟩
          · exact ⟨call.told, hset⟩
      · exact ⟨call.told, hcall⟩
  · exact ⟨call.told, hcall⟩

/-- While nodes end, a step goes on to wait unless it is the one that is told. -/
theorem callAt_perform (s : State) (setup : Setup) {task : Task} (hcall : s.callAt a = some call)
    (henter : ∀ b, task ≠ .enter b) (hproceed : ∀ b, task ≠ .proceed b) (hwake : task ≠ .wake a) :
    ∃ told, (s.perform setup task).callAt a = some { call with told } := by
  cases task with
  | enter b => exact absurd rfl (henter b)
  | proceed b => exact absurd rfl (hproceed b)
  | report b => exact callAt_report s b hcall
  | join b => exact ⟨call.told, ((SameStages.join s b).callAt a).trans hcall⟩
  | wake b =>
    have hne : a ≠ b := fun hab => hwake (hab ▸ rfl)
    refine ⟨call.told, ?_⟩
    unfold perform State.wake
    simp only
    split
    · exact hcall
    · have hset : (s.setStage b .idle).callAt a = some call := by
        rw [callAt_setStage, if_neg hne, hcall]
      rw [← hset]
      refine SameStages.callAt (SameStages.reported ?_ b) a
      split
      · exact .succeed ..
      · exact .fail ..
      · exact .stop ..

namespace Reached

/-- Unless nodes end, a step goes on to wait. -/
theorem callAt_changes (h : Reached setup tree s hand) (htree : tree.Sound)
    (hchanges : Changes setup doing s hand t after) (hdoing : doing ≠ .finish)
    (hcall : s.callAt a = some call) : ∃ call', t.callAt a = some call' := by
  refine h.changes_induction (P := fun u _ => ∃ call, u.callAt a = some call) hchanges
    ⟨call, hcall⟩ ?_
  rintro u v between next hu hchange ⟨call, hcall⟩
  obtain ⟨job, hjob, hstage⟩ := jobAt_of_callAt hcall
  obtain ⟨_, _, hkind, _⟩ := (hu.control htree).of_calling hjob hstage
  obtain ⟨job', hjob', heffect⟩ := hchange.jobEffect (hu.shape htree) hjob
  have hcall? (job : Job) (call : Call) (h : job.stage = .calling call) : job.call? = some call := by
    rw [Job.call?, h]
  rw [callAt_of_jobAt hjob']
  cases heffect with
  | same => exact ⟨call, hcall? _ _ hstage⟩
  | moved => exact ⟨call, hcall? _ _ hstage⟩
  | bound => exact ⟨call, hcall? _ _ hstage⟩
  | opened _ _ hnot => exact absurd hkind hnot
  | hosted _ hframe =>
    rw [stage_of_frame? hframe] at hstage
    cases hstage
  | begun _ _ _ hidle =>
    rw [hidle] at hstage
    cases hstage
  | called call' => exact ⟨call', rfl⟩
  | woken _ hfinish => exact absurd hfinish hdoing

/-- A step goes on to wait until it is told. -/
theorem callAt_step (h : Reached setup tree s none) (htree : tree.Sound)
    (hcall : s.callAt a = some call) (hagenda : ∀ rest, s.agenda ≠ .wake a :: rest)
    (hstep : s.step setup = some t) : ∃ call', t.callAt a = some call' := by
  have hchanges := h.step htree hstep
  unfold State.doing at hchanges
  rcases step_cases hstep with ⟨task, rest, hhead, rfl⟩ | ⟨hhead, _⟩
  · rw [hhead] at hchanges
    have hcall' : ({ s with agenda := rest } : State).callAt a = some call := hcall
    have hfinish (henter : ∀ b, task ≠ .enter b) (hproceed : ∀ b, task ≠ .proceed b) :
        ∃ call', (({ s with agenda := rest } : State).perform setup task).callAt a = some call' := by
      have hwake : task ≠ .wake a := by
        rintro rfl
        exact hagenda rest hhead
      obtain ⟨told, htold⟩ := callAt_perform _ setup hcall' henter hproceed hwake
      exact ⟨_, htold⟩
    cases task with
    | enter b => exact h.callAt_changes htree hchanges (by nofun) hcall
    | proceed b => exact h.callAt_changes htree hchanges (by nofun) hcall
    | _ => exact hfinish (by nofun) (by nofun)
  · rw [hhead] at hchanges
    exact h.callAt_changes htree hchanges (by nofun) hcall

end Reached
end State
end Workflow
