import Workflow.Proofs.Run.Effect

/-!
# What nodes keep

What a node is given when it starts, it keeps: a step its inputs, and a container what its children see
of it. A node that is not started is not given anything.

* `State.JobEffect` lists what a change does to one node, and `State.Change.job` says that there is
  nothing else.
* `Job.Keeps` says that a node has been given what it had been given before, and
  `State.Change.keeps` that this holds unless the node starts.
* `Job.Blank` says that a node has been given nothing that it should not have, and
  `State.Reached.blank` that this holds of all nodes of a run.
-/

namespace Workflow

/-- The node has been given what it had been given before. -/
structure Job.Keeps (job job' : Job) : Prop where
  inputs : job'.entry.inputs = job.entry.inputs
  notes : ∀ frame, job.frame? = some frame →
    ∃ frame', job'.frame? = some frame' ∧ frame'.notes = frame.notes

theorem Job.Keeps.refl (job : Job) : job.Keeps job :=
  ⟨rfl, fun frame hframe => ⟨frame, hframe, rfl⟩⟩

theorem Job.Keeps.trans {job job' job'' : Job} (h : job.Keeps job') (h' : job'.Keeps job'') :
    job.Keeps job'' := by
  refine ⟨h'.inputs.trans h.inputs, fun frame hframe => ?_⟩
  obtain ⟨frame', hframe', hnotes⟩ := h.notes frame hframe
  obtain ⟨frame'', hframe'', hnotes'⟩ := h'.notes frame' hframe'
  exact ⟨frame'', hframe'', hnotes'.trans hnotes⟩

/-- Nothing has been given to the node but to a step that has started. -/
structure Job.Blank (job : Job) : Prop where
  container : job.node.kind ≠ .step → job.entry.inputs = []
  unstarted : job.status = .pending ∨ job.status = .skipped →
    job.entry.inputs = [] ∧ job.stage = .idle

namespace State

variable {setup : Setup} {tree : Node} {s t : State} {hand after : Option Address} {doing : Doing}
  {a b : Address} {job job' : Job}

/-! ## What a change does to one node -/

/-- What a change does to the node at an address. -/
inductive JobEffect (setup : Setup) (doing : Doing) (s : State) (a : Address) (job : Job) :
    Job → Prop
  | same : JobEffect setup doing s a job job
  | moved {x : Address} {f : Entry → Entry} {target : Status} {message : String} :
      Move setup doing s x a f target message →
      JobEffect setup doing s a job (({ job with entry := f job.entry } : Job).moved target s.now)
  /-- A step that starts is given its inputs. -/
  | bound {o : Opening} (inputs : Fields Value) : job.status = .running → job.node.kind = .step →
      doing = .start a o →
      JobEffect setup doing s a job { job with entry := { job.entry with inputs } }
  /-- A container that starts opens. -/
  | opened {o : Opening} (frame : Frame) : job.status = .running → job.node.kind ≠ .step →
      doing = .start a o → JobEffect setup doing s a job { job with stage := .hosting frame }
  /-- A container takes notice of its children. -/
  | hosted {old : Frame} (frame : Frame) : job.frame? = some old → frame.notes = old.notes →
      JobEffect setup doing s a job { job with stage := .hosting frame }
  /-- A step that starts is going to call its agent. -/
  | begun {o : Opening} (call : Call) : job.status = .running → job.node.kind = .step →
      job.stage = .idle → doing = .start a o →
      JobEffect setup doing s a job { job with stage := .calling call }
  /-- The call of a step goes on or ends. -/
  | called {call : Call} (call' : Call) : job.stage = .calling call →
      JobEffect setup doing s a job { job with stage := .calling call' }
  /-- A step that has been told waits no more. -/
  | woken {call : Call} : job.stage = .calling call → doing = .finish →
      JobEffect setup doing s a job { job with stage := .idle }

/-- One node changes. -/
theorem JobEffect.put {x : Address} {old new : Job} (hold : s.jobAt x = some old)
    (ht : ∀ b, t.jobAt b = if b = x then some new else s.jobAt b)
    (hnew : JobEffect setup doing s x old new) (hjob : s.jobAt a = some job) :
    ∃ job', t.jobAt a = some job' ∧ JobEffect setup doing s a job job' := by
  rw [ht]
  split
  · rename_i ha
    subst ha
    rw [hold, Option.some.injEq] at hjob
    subst hjob
    exact ⟨new, rfl, hnew⟩
  · exact ⟨job, hjob, .same⟩

theorem JobEffect.setStage {x : Address} {old : Job} {stage : Stage} (hold : s.jobAt x = some old)
    (hnew : JobEffect setup doing s x old { old with stage }) (hjob : s.jobAt a = some job) :
    ∃ job', (s.setStage x stage).jobAt a = some job' ∧ JobEffect setup doing s a job job' :=
  put hold (jobAt_setStage_of_jobAt hold stage) hnew hjob

theorem JobEffect.of_move {x b : Address} {f : Entry → Entry} {target : Status} {message : String}
    (hmove : Move setup doing s x b f target message)
    (ht : t = (s.modifyEntry b f).move b target message) (hjob : s.jobAt a = some job) :
    ∃ job', t.jobAt a = some job' ∧ JobEffect setup doing s a job job' := by
  obtain ⟨old, hold, _, _, htable, _⟩ := hmove.moved ht
  exact put hold htable (.moved hmove) hjob

theorem JobEffect.tell (job : Job) : JobEffect setup doing s a job job.tell := by
  cases hstage : job.stage with
  | calling call =>
    rw [Job.tell_of_calling hstage]
    exact .called _ hstage
  | _ =>
    rw [Job.tell_of_call?_eq_none (by rw [Job.call?, hstage])]
    exact .same

/-- A change does nothing else to a node. -/
theorem Change.jobEffect (hchange : Change setup doing s hand t after) (hshape : Shape tree s)
    (hjob : s.jobAt a = some job) :
    ∃ job', t.jobAt a = some job' ∧ JobEffect setup doing s a job job' := by
  cases hchange with
  | @begin x o hpending hcancelled hhalted hdoing =>
    exact JobEffect.of_move (.begin hpending hcancelled hhalted hdoing) (by rw [modifyEntry_id]) hjob
  | leave hprefix hpending homitted hparent =>
    exact JobEffect.of_move (.leave hprefix hpending homitted hparent) (by rw [modifyEntry_id]) hjob
  | succeed hkids hrun hfits hearned =>
    exact JobEffect.of_move (.succeed hkids hrun hfits hearned) rfl hjob
  | fail hkids hrun hfailing => exact JobEffect.of_move (.fail hkids hrun hfailing) rfl hjob
  | stop hkids hrun hfits hstopped => exact JobEffect.of_move (.stop hkids hrun hfits hstopped) rfl hjob
  | @bindStep x old inputs hold hrun hkind _ hstart =>
    obtain ⟨o, hstart⟩ := hstart
    exact JobEffect.put hold (jobAt_modifyEntry_of_jobAt hold _) (.bound inputs hrun hkind hstart) hjob
  | release =>
    rw [jobAt_reported]
    exact ⟨job, hjob, .same⟩
  | host frame hold hrun hkind _ _ hnotes =>
    refine JobEffect.setStage hold ?_ hjob
    rcases hnotes with ⟨o, hstart⟩ | ⟨old, hframe, hnotes⟩
    · exact .opened frame hrun hkind hstart
    · exact .hosted frame hframe hnotes
  | @expand x old frame hold hrun hkind harity hwinner hwinner' hstart =>
    have hexp : Expansion s x old frame _ := ⟨hold, hrun, hkind, harity, hwinner, hwinner', rfl⟩
    by_cases ha : a = x
    · subst ha
      rw [hold, Option.some.injEq] at hjob
      subst hjob
      exact ⟨_, hexp.jobAt_self, .opened frame hrun (by rw [hkind]; decide) hstart⟩
    · exact ⟨job, by rw [Control.jobAt_old hshape hexp ha hjob, hjob], .same⟩
  | callOut agent own hold hrun hkind hidle _ _ _ hstart =>
    obtain ⟨o, hstart⟩ := hstart
    exact JobEffect.setStage hold (.begun _ hrun hkind hidle hstart) hjob
  | @count x i old frame kid rest _ hold _ hframe =>
    exact JobEffect.put hold (jobAt_counted hold rest frame i kid) (.hosted _ hframe rfl) hjob
  | takeWake _ hcall hfinish =>
    obtain ⟨old, hold, hstage⟩ := jobAt_of_callAt hcall
    exact JobEffect.setStage hold (.woken hstage hfinish) hjob
  | ask inputs hcall =>
    obtain ⟨old, hold, hstage⟩ := jobAt_of_callAt hcall
    exact JobEffect.setStage hold (.called _ hstage) hjob
  | goOn acts wakeAt agenda hcall =>
    obtain ⟨old, hold, hstage⟩ := jobAt_of_callAt hcall
    exact JobEffect.setStage hold (.called _ hstage) hjob
  | @answer x call outcome wakeAt deadline agenda hcall =>
    obtain ⟨old, hold, hstage⟩ := jobAt_of_callAt hcall
    refine JobEffect.put hold (fun b => ?_) (.called { call with
      outcome := some outcome, wakeAt, deadline, told := true } hstage) hjob
    rw [jobAt_tell, jobAt_setStage]
    split
    · rename_i hb
      rw [hb, jobAt_agenda, hold]
      rfl
    · rfl
  | @tell _ x =>
    rw [jobAt_tell]
    split
    · exact ⟨job.tell, by rw [hjob]; rfl, .tell job⟩
    · exact ⟨job, hjob, .same⟩
  | cancelRun =>
    rw [jobAt_cancelRun]
    split
    · exact ⟨job, hjob, .same⟩
    · exact ⟨job.tell, by rw [hjob]; rfl, .tell job⟩
  | _ => exact ⟨job, hjob, .same⟩

/-- A node that is new has not started. -/
theorem Change.job_new (hchange : Change setup doing s hand t after) (hshape : Shape tree s)
    (hnone : s.jobAt a = none) (hjob' : t.jobAt a = some job') :
    ∃ path node, job' = Live.pendingJob path node := by
  rcases hchange.fixed with hsame | ⟨x, old, frame, hexp, _⟩
  · have hfixed := hsame a
    rw [hnone, hjob'] at hfixed
    cases hfixed
  · obtain ⟨body, hbody⟩ := (hshape.sound x old hexp.jobAt).exists_body hexp.kind
    rcases hexp.cases hbody hjob' with ⟨_, hold⟩ | ⟨rfl, _⟩ | ⟨i, c, _, _, hfresh⟩
    · rw [hnone] at hold
      cases hold
    · rw [hexp.jobAt] at hnone
      cases hnone
    · obtain ⟨path, node, rfl, _⟩ := Live.jobAt_ofNode hfresh
      exact ⟨path, node, rfl⟩

/-! ## Nodes that have started -/

/-- A node that has started or ended is not pending any more. -/
theorem Change.not_pending (hchange : Change setup doing s hand t after) (hshape : Shape tree s)
    (hjob : s.jobAt a = some job) (hstatus : job.status ≠ .pending) :
    t.statusAt a ≠ some .pending := by
  obtain ⟨job', hjob', heffect⟩ := hchange.jobEffect hshape hjob
  rw [statusAt_of_jobAt hjob', ne_eq, Option.some.injEq]
  cases heffect with
  | @moved x f target message hmove =>
    rw [Job.status_moved]
    rintro rfl
    cases hmove with
    | leave _ _ homitted => exact absurd homitted.isTerminal (by decide)
  | _ => exact hstatus

/-- Unless a node starts, it keeps what it has been given. -/
theorem Change.keeps (hchange : Change setup doing s hand t after) (hshape : Shape tree s)
    (hjob : s.jobAt a = some job) (hdoing : ∀ o, doing ≠ .start a o) :
    ∃ job', t.jobAt a = some job' ∧ job.Keeps job' := by
  obtain ⟨job', hjob', heffect⟩ := hchange.jobEffect hshape hjob
  refine ⟨job', hjob', ?_⟩
  have hcalling {call : Call} {stage : Stage} (hstage : job.stage = .calling call) :
      job.Keeps { job with stage } := by
    refine ⟨rfl, fun frame hframe => ?_⟩
    rw [Job.frame?, hstage] at hframe
    cases hframe
  cases heffect with
  | same => exact .refl job
  | moved hmove =>
    refine ⟨?_, fun frame hframe => ⟨frame, hframe, rfl⟩⟩
    cases hmove <;> rfl
  | bound _ _ _ hstart => exact absurd hstart (hdoing _)
  | opened _ _ _ hstart => exact absurd hstart (hdoing _)
  | hosted frame hframe hnotes =>
    refine ⟨rfl, fun old hold => ⟨frame, rfl, ?_⟩⟩
    rw [hframe, Option.some.injEq] at hold
    rw [hnotes, hold]
  | begun _ _ _ _ hstart => exact absurd hstart (hdoing _)
  | called _ hstage => exact hcalling hstage
  | woken hstage => exact hcalling hstage

/-! ## Nodes that have not started -/

theorem JobEffect.blank (h : JobEffect setup doing s a job job') (hblank : job.Blank)
    (hjob : s.jobAt a = some job) : job'.Blank := by
  -- a node that runs or waits has started
  have hrunning (hrun : job.status = .running) : ¬ (job.status = .pending ∨ job.status = .skipped) := by
    rw [hrun]
    decide
  have hwaiting (hstage : job.stage ≠ .idle) : ¬ (job.status = .pending ∨ job.status = .skipped) :=
    fun hunstarted => hstage (hblank.unstarted hunstarted).2
  have hcalling {call : Call} (hstage : job.stage = .calling call) : job.stage ≠ .idle := by
    rw [hstage]
    nofun
  cases h with
  | same => exact hblank
  | @moved x f target message hmove =>
    obtain ⟨old, hold, hlegal, _⟩ := hmove.legal
    rw [hjob, Option.some.injEq] at hold
    subst hold
    have hinputs : (f job.entry).inputs = job.entry.inputs := by cases hmove <;> rfl
    refine ⟨fun hkind => hinputs.trans (hblank.container hkind), fun hunstarted => ?_⟩
    rw [Job.status_moved] at hunstarted
    have hpending : job.status = .pending := by
      rcases hunstarted with rfl | rfl <;> revert hlegal <;> cases job.status <;> decide
    obtain ⟨hnil, hidle⟩ := hblank.unstarted (.inl hpending)
    exact ⟨hinputs.trans hnil, hidle⟩
  | bound inputs hrun hkind =>
    exact ⟨fun hnot => absurd hkind hnot, fun hunstarted => absurd hunstarted (hrunning hrun)⟩
  | opened frame hrun => exact ⟨hblank.container, fun hunstarted => absurd hunstarted (hrunning hrun)⟩
  | hosted frame hframe =>
    refine ⟨hblank.container, fun hunstarted => absurd hunstarted (hwaiting ?_)⟩
    rw [stage_of_frame? hframe]
    nofun
  | begun call hrun => exact ⟨hblank.container, fun hunstarted => absurd hunstarted (hrunning hrun)⟩
  | called _ hstage =>
    exact ⟨hblank.container, fun hunstarted => absurd hunstarted (hwaiting (hcalling hstage))⟩
  | woken hstage =>
    exact ⟨hblank.container, fun hunstarted => absurd hunstarted (hwaiting (hcalling hstage))⟩

/-- Nodes of a run have been given nothing that they should not have. -/
theorem Reached.blank (h : Reached setup tree s hand) (htree : tree.Sound)
    (hjob : s.jobAt a = some job) : job.Blank := by
  have hpending (path : String) (node : Node) : (Live.pendingJob path node).Blank :=
    ⟨fun _ => rfl, fun _ => ⟨rfl, rfl⟩⟩
  induction h generalizing a job with
  | start =>
    obtain ⟨path, node, rfl, _⟩ := Live.jobAt_ofNode hjob
    exact hpending path node
  | @change s t hand after doing hreached hchange ih =>
    have hshape := hreached.shape htree
    cases hold : s.jobAt a with
    | none =>
      obtain ⟨path, node, rfl⟩ := hchange.job_new hshape hold hjob
      exact hpending path node
    | some old =>
      obtain ⟨job', hjob', heffect⟩ := hchange.jobEffect hshape hold
      rw [hjob, Option.some.injEq] at hjob'
      subst hjob'
      exact heffect.blank (ih hold) hold

end State
end Workflow
