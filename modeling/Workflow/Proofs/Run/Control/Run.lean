import Workflow.Proofs.Run.Control.Kids

/-!
# The invariant of runs

Every change of a run keeps the invariant, so that it holds of every state of a run.
-/

namespace Workflow.State

variable {setup : Setup} {tree : Node} {s t : State} {hand after : Option Address} {doing : Doing}
  {a : Address} {job : Job}

namespace Control

/-- Before a run the root is about to start. -/
theorem start (setup : Setup) (tree : Node) : Control setup (start setup tree) none := by
  have hpending {a : Address} {job : Job} (hjob : (State.start setup tree).jobAt a = some job) :
      job.status = .pending ∧ job.stage = .idle := by
    obtain ⟨path, node, rfl, _⟩ := Live.jobAt_ofNode hjob
    exact ⟨rfl, rfl⟩
  have hstatus {a : Address} {status : Status}
      (hstatus : (State.start setup tree).statusAt a = some status) : status = .pending := by
    obtain ⟨job, hjob, rfl⟩ := jobAt_of_statusAt hstatus
    exact (hpending hjob).1
  have hroot : (State.start setup tree).statusAt [] = some .pending := by
    rw [statusAt, jobAt, Live.jobAt, Live.at?_nil]
    exact congrArg (fun job => some (Job.status job)) (Live.job_ofNode Path.root tree)
  refine ⟨rfl, by simp, ?_, ?_, ?_, ?_, ?_⟩
  · intro task htask
    rw [State.start, List.mem_singleton] at htask
    subst htask
    exact ⟨hroot, by simp⟩
  · exact (List.nodup_singleton _).sublist List.filter_sublist
  · intro a job hjob
    refine ⟨fun _ => ⟨?_, fun i hactive => ?_⟩, fun _ => ⟨(hpending hjob).2, fun i status h => ?_⟩,
      fun hrun => ?_⟩
    · rw [Job.call?, (hpending hjob).2]
    · rcases hactive with h | h | h | h
      · cases h
      · simp [State.start] at h
      · simp [State.start] at h
      · cases hstatus h
    · exact hstatus h
    · rw [(hpending hjob).1] at hrun
      cases hrun
  · rintro c b _ ⟨status, hc, hterminal⟩ _
    rw [hstatus hc] at hterminal
    cases hterminal
  · rintro ⟨_, hinactive⟩
    exact hinactive (.inr (.inl (List.mem_singleton_self _)))

theorem begin (h : Control setup s (some a)) (hpending : s.statusAt a = some .pending) :
    Control setup (s.move a .running "") (some a) := by
  obtain ⟨job, hjob, hstatus⟩ := jobAt_of_statusAt hpending
  have hmove : job.status.canBecome .running := by rw [hstatus]; rfl
  have hcall := h.call?_hand hjob
  refine h.put hjob (jobAt_move hjob hmove "") (agenda_move ..) (fault_move_eq hjob hmove "") hcall
    ?_ rfl fun _ => .inl hstatus
  rw [Job.status_moved]
  decide

/-- The node in hand comes to its end. -/
theorem endHand {f : Entry → Entry} {target : Status} (message : String)
    (h : Control setup s (some a)) (hjob : s.jobAt a = some job) (hrun : job.status = .running)
    (hstatus : (f job.entry).status = job.status) (htarget : Status.running.canBecome target) :
    Control setup ((s.modifyEntry a f).move a target message) (some a) := by
  have hmove : job.status.canBecome target := by rwa [hrun]
  have hcall := h.call?_hand hjob
  refine h.put hjob (jobAt_modifyEntry_move hjob hmove hstatus message) (agenda_move ..)
    (fault_modifyEntry_move hjob hmove hstatus message) hcall ?_ rfl ?_
  · rw [Job.status_moved]
    rintro rfl
    cases htarget
  · exact fun _ => .inr hrun

theorem bindStep (inputs : Fields Value) (h : Control setup s (some a))
    (hjob : s.jobAt a = some job) (hrun : job.status = .running) :
    Control setup (s.modifyEntry a fun e => { e with inputs }) (some a) := by
  have hcall := h.call?_hand hjob
  have hwaits : ({ job with entry := { job.entry with inputs } } : Job).call? = none := hcall
  refine h.put hjob (jobAt_modifyEntry_of_jobAt hjob _) rfl rfl hwaits ?_ rfl fun _ => .inr hrun
  change job.status ≠ .pending
  rw [hrun]
  decide

theorem host (frame : Frame) (h : Control setup s (some a)) (hjob : s.jobAt a = some job)
    (hrun : job.status = .running) : Control setup (s.setStage a (.hosting frame)) (some a) := by
  have hcall : ({ job with stage := .hosting frame } : Job).call? = none := rfl
  refine h.put hjob (jobAt_setStage_of_jobAt hjob _) rfl rfl hcall ?_ rfl fun _ => .inr hrun
  change job.status ≠ .pending
  rw [hrun]
  decide

/-- Every change keeps the invariant. -/
theorem change (h : Control setup s hand) (hshape : Shape tree s)
    (hchange : Change setup doing s hand t after) : Control setup t after := by
  cases hchange with
  | takeEnter hagenda => exact h.takeEnter hagenda
  | begin hpending => exact h.begin hpending
  | leave hprefix hpending homitted hparent => exact h.leave hprefix hpending homitted hparent
  | bindStep inputs hjob hrun => exact h.bindStep inputs hjob hrun
  | succeed hkids hrun => exact h.endHand _ (jobAt_of_at? hkids) hrun rfl rfl
  | fail hkids hrun => exact h.endHand _ (jobAt_of_at? hkids) hrun rfl rfl
  | stop hkids hrun => exact h.endHand _ (jobAt_of_at? hkids) hrun rfl rfl
  | release hstatus hterminal hnone => exact h.release hstatus hterminal hnone
  | host frame hjob hrun => exact h.host frame hjob hrun
  | expand frame hjob hrun hkind harity hwinner hwinner' =>
    exact h.expand hshape ⟨hjob, hrun, hkind, harity, hwinner, hwinner', rfl⟩
  | callOut agent timeout hjob hrun hkind => exact h.callOut hjob hrun hkind rfl
  | enterNext hjob hrun hkind _ hframe hbegun hk hbefore hafter =>
    exact h.enterNext hjob hrun hkind hframe hbegun hk hbefore hafter
  | enterChosen hjob hrun hkind _ hframe hk hpending hnone hothers =>
    exact h.enterChosen hjob hrun hkind hframe hk hpending hnone hothers
  | fill hjob hrun hkind _ hframe hbegun hleft harity hkids =>
    exact h.fill hjob hrun hkind hframe hbegun hleft harity hkids
  | gather hjob hrun hkind _ hframe hbegun hleft harity hkids =>
    exact h.gather hjob hrun hkind hframe hbegun hleft harity hkids
  | takeReport hagenda hjob hkind => exact h.takeReport hshape hagenda hjob hkind
  | count hagenda hjob hkind hframe =>
    exact h.count _ hshape (h.reporting hshape hagenda hjob hkind hframe)
  | takeJoin hagenda => exact h.takeJoin hshape hagenda
  | takeWake hagenda hcall => exact h.takeWake hshape hagenda hcall
  | dropProceed hagenda => exact h.congr rfl rfl (.inr ⟨_, hagenda⟩)
  | ask inputs hcall => exact h.ask inputs hcall
  | goOn acts wakeAt agenda hcall _ hfilter hothers =>
    exact h.goOn acts wakeAt agenda hcall hfilter hothers
  | answer outcome wakeAt deadline agenda hcall _ _ hagenda =>
    exact h.answer outcome wakeAt deadline agenda hcall hagenda
  | tell => exact h.tell _
  | cancelRun => exact h.cancelRun
  | tick => exact h.congr rfl rfl (.inl rfl)

end Control

/-- The nodes of a run and its agenda fit together in every state of the run. -/
theorem Reached.control (h : Reached setup tree s hand) (htree : tree.Sound) :
    Control setup s hand := by
  induction h with
  | start => exact .start setup tree
  | change hreached hchange ih => exact ih.change (hreached.shape htree) hchange

end Workflow.State
