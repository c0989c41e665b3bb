import Workflow.Proofs.Run.Control.Agenda

/-!
# Changes of calls

The invariant goes on to hold while calls begin, go on, end and are told to stop.
-/

namespace Workflow.State.Control

variable {setup : Setup} {s t : State} {hand : Option Address} {a : Address} {job : Job}
  {call : Call} {rest : List Task}

theorem mem_agenda_later (s : State) (stage : Stage) (a : Address) (task other : Task) :
    other ∈ ((s.setStage a stage).later task).agenda ↔ other ∈ s.agenda ∨ other = task := by
  change other ∈ s.agenda ++ [task] ↔ _
  rw [List.mem_append, List.mem_singleton]

theorem active_callOut (hjob : s.jobAt a = some job) (hrun : job.status = .running)
    (stage : Stage) (b : Address) :
    Active ((s.setStage a stage).later (.proceed a)) none b ↔ Active s (some a) b := by
  unfold Active
  rw [mem_agenda_later, mem_agenda_later]
  change _ ∨ _ ∨ _ ∨ (s.setStage a stage).statusAt b = _ ↔ _
  rw [statusAt_setStage]
  simp only [reduceCtorEq, or_false, false_or, Option.some.injEq]
  constructor
  · exact .inr
  · rintro (rfl | h')
    · exact .inr (.inr (by rw [statusAt_of_jobAt hjob, hrun]))
    · exact h'

/-- The step in hand is going to call its agent. -/
theorem callOut (h : Control setup s (some a)) (hjob : s.jobAt a = some job)
    (hrun : job.status = .running) (hkind : job.node.kind = .step) (htold : call.told = false) :
    Control setup ((s.setStage a (.calling call)).later (.proceed a)) none := by
  have hjobs (b : Address) : ((s.setStage a (.calling call)).later (.proceed a)).jobAt b =
      if b = a then some { job with stage := .calling call } else s.jobAt b :=
    jobAt_setStage_of_jobAt hjob (.calling call) b
  have hself := hjobs a
  rw [if_pos rfl] at hself
  have hne (b : Address) (hb : b ≠ a) :
      ((s.setStage a (.calling call)).later (.proceed a)).jobAt b = s.jobAt b := by
    rw [hjobs, if_neg hb]
  have hstatus (b : Address) :
      ((s.setStage a (.calling call)).later (.proceed a)).statusAt b = s.statusAt b :=
    statusAt_setStage ..
  have hmem := mem_agenda_later s (.calling call) a (.proceed a)
  have hactive := active_callOut hjob hrun (.calling call)
  refine h.of_about (x := a) ⟨?_, hne, fun p i _ => hactive _, fun _ => hstatus a, ?_, ?_⟩ rfl
    hstatus (by simp) ?_ ?_ ?_ ?_ ?_
  · intro b hb
    simp [Ne.symm hb]
  · exact fun b _ hb => (hmem _).2 (.inl hb)
  · exact fun b _ hb => (hmem _).2 (.inl hb)
  · intro task htask
    rcases (hmem task).1 htask with hold | rfl
    · exact (h.proper task hold).of_hand (hne _) hself (.inr rfl)
    · exact ⟨_, hself⟩
  · exact h.single_append (List.nodup_singleton _) fun task htask =>
      .inl (by rw [List.mem_singleton.1 htask]; rfl)
  · intro other hother
    rw [hself, Option.some.injEq] at hother
    subst hother
    refine ⟨fun hquiet => ?_, fun hp => ?_, fun _ _ => .calling rfl hkind fun h' => ?_⟩
    · rcases hquiet with hquiet | hquiet
      · exact absurd hrun hquiet
      · cases hquiet
    · rw [show ({ job with stage := .calling call } : Job).status = job.status from rfl, hrun] at hp
      cases hp
    · rw [htold] at h'
      cases h'
  · intro c b hcb hc hb
    obtain ⟨y, old, hy, hold, _, hbranch⟩ := h.closed c b hcb hc hb
    rw [Option.some.injEq] at hy
    subst hy
    rw [hjob, Option.some.injEq] at hold
    subst hold
    have := hbranch hrun
    rw [hkind] at this
    cases this
  · exact fun hroot => .inl ((hactive []).2 hroot)

/-- A call goes on, and the agenda changes in what it says about the call. -/
theorem putCall (after : Call) (h : Control setup s hand) (hcall : s.callAt a = some call)
    (hjobs : ∀ b, t.jobAt b = if b = a then (s.jobAt b).map fun job =>
      { job with stage := .calling after } else s.jobAt b)
    (hfault : t.fault = s.fault)
    (hnew : ∀ task ∈ t.agenda, task ∈ s.agenda ∨ task = .proceed a ∨
      (task = .wake a ∧ after.told = true))
    (hkeep : ∀ task ∈ s.agenda, task.isProceed = false → task ∈ t.agenda)
    (hsingle : (t.agenda.filter fun task => !task.isProceed).Nodup)
    (htold : call.told = true → after.told = true)
    (hwake : after.told = true → .wake a ∈ t.agenda) : Control setup t hand := by
  obtain ⟨job, hjob, hrun, hstage, hkind, hhand, _⟩ := h.of_callAt hcall
  have hself : t.jobAt a = some { job with stage := .calling after } := by
    rw [hjobs, if_pos rfl, hjob]
    rfl
  have hne (b : Address) (hb : b ≠ a) : t.jobAt b = s.jobAt b := by rw [hjobs, if_neg hb]
  have hstatus (b : Address) : t.statusAt b = s.statusAt b := by
    by_cases hb : b = a
    · rw [hb, statusAt_of_jobAt hself, statusAt_of_jobAt hjob]
      rfl
    · rw [statusAt, hne b hb, statusAt]
  have hactive (b : Address) : Active t hand b ↔ Active s hand b := by
    refine active_congr ⟨fun hmem => ?_, fun hmem => hkeep _ hmem rfl⟩
      ⟨fun hmem => ?_, fun hmem => hkeep _ hmem rfl⟩ (by rw [hstatus])
    · simpa using hnew _ hmem
    · simpa using hnew _ hmem
  have hlocal := h.node a job hjob
  refine h.of_about (x := a) ⟨fun _ _ => Iff.rfl, hne, fun p i _ => hactive _, fun _ => hstatus a,
    fun b _ hb => hkeep _ hb rfl, fun b _ hb => hkeep _ hb rfl⟩ hfault hstatus ?_ ?_ hsingle ?_ ?_
    ?_
  · intro b hb
    obtain ⟨other, hother⟩ := h.held b hb
    exact ⟨other, by rw [hne b (by rintro rfl; exact hhand hb)]; exact hother⟩
  · intro task htask
    rcases hnew task htask with hold | rfl | ⟨rfl, hafter⟩
    · have hproper := h.proper task hold
      by_cases haddress : task.address = a
      · -- the node waits for the call, so that only the call can be taken up
        rcases hproper.of_running (haddress ▸ hjob) hrun with
          heq | ⟨_, _, hhosting, _⟩ | ⟨heq, other, hcalling, hother⟩
        · rw [heq, haddress]
          exact ⟨_, hself⟩
        · rw [hstage] at hhosting
          cases hhosting
        · rw [hstage, Stage.calling.injEq] at hcalling
          rw [heq, haddress]
          exact ⟨_, after, hself, hrun, rfl, htold (by rwa [hcalling]), hhand⟩
      · exact hproper.of_job (hne _ haddress) hproper.hand_ne
    · exact ⟨_, hself⟩
    · exact ⟨_, after, hself, hrun, rfl, hafter, hhand⟩
  · intro other hother
    rw [hself, Option.some.injEq] at hother
    subst hother
    refine ⟨fun hquiet => ?_, fun hp => ?_, fun _ _ => .calling rfl hkind hwake⟩
    · rcases hquiet with hquiet | hquiet
      · exact absurd hrun hquiet
      · exact absurd hquiet hhand
    · rw [show ({ job with stage := .calling after } : Job).status = job.status from rfl,
        hrun] at hp
      cases hp
  · intro c b hcb hc hb
    obtain ⟨y, old, hy, hold, hyb, hbranch⟩ := h.closed c b hcb hc hb
    exact ⟨y, old, hy, by rw [hne y (by rintro rfl; exact hhand hy)]; exact hold, hyb, hbranch⟩
  · exact fun hroot => .inl ((hactive []).2 hroot)

theorem tell (h : Control setup s hand) (a : Address) : Control setup (s.tell a) hand := by
  cases hcall : s.callAt a with
  | none => rwa [tell_of_callAt_eq_none _ _ hcall]
  | some call =>
    have hagenda := agenda_tell _ _ hcall
    by_cases htold : call.told = true
    · rw [State.tell, hcall]
      simp only [htold, if_true]
      exact h
    · rw [if_neg htold] at hagenda
      obtain ⟨job, hjob, hstage⟩ := jobAt_of_callAt hcall
      refine h.putCall { call with told := true } hcall ?_ (by simp) ?_ ?_ ?_
        (fun _ => rfl) ?_
      · intro b
        rw [jobAt_tell]
        split
        · rename_i hb
          rw [hb, hjob, Option.map_some, Option.map_some, Job.tell_of_calling hstage]
        · rfl
      · intro task htask
        rw [hagenda, List.mem_append, List.mem_singleton] at htask
        exact htask.imp_right fun h' => .inr ⟨h', rfl⟩
      · intro task htask _
        rw [hagenda]
        exact List.mem_append_left _ htask
      · rw [hagenda]
        refine h.single_append (List.nodup_singleton _) fun task htask => .inr fun hmem => ?_
        rw [List.mem_singleton] at htask
        subst htask
        obtain ⟨waiting, other, hwaiting, _, hcalling, hother, _⟩ := h.proper _ hmem
        rw [hjob, Option.some.injEq] at hwaiting
        subst hwaiting
        rw [hstage, Stage.calling.injEq] at hcalling
        rw [hcalling] at htold
        exact htold hother
      · intro _
        rw [hagenda]
        exact List.mem_append_right _ (List.mem_singleton_self _)

/-- What the invariant does not speak about may change, and the progress of a call may be taken from
the agenda. -/
theorem congr (h : Control setup s hand) (hroot : t.root = s.root) (hfault : t.fault = s.fault)
    (hagenda : t.agenda = s.agenda ∨ ∃ a, s.agenda = .proceed a :: t.agenda) :
    Control setup t hand := by
  have hjobs (b : Address) : t.jobAt b = s.jobAt b := by rw [jobAt, hroot, jobAt]
  have hstatus (b : Address) : t.statusAt b = s.statusAt b := by rw [statusAt, hjobs, statusAt]
  have hmem (task : Task) (htask : task.isProceed = false) :
      task ∈ t.agenda ↔ task ∈ s.agenda := by
    rcases hagenda with heq | ⟨a, heq⟩
    · rw [heq]
    · rw [heq, List.mem_cons]
      refine (or_iff_right ?_).symm
      rintro rfl
      cases htask
  have hmem' (task : Task) (htask : task ∈ t.agenda) : task ∈ s.agenda := by
    rcases hagenda with heq | ⟨a, heq⟩
    · rwa [← heq]
    · rw [heq]
      exact List.mem_cons_of_mem _ htask
  have hactive (b : Address) : Active t hand b ↔ Active s hand b :=
    active_congr (hmem _ rfl) (hmem _ rfl) (by rw [hstatus])
  constructor
  · rw [hfault]; exact h.sound
  · intro a ha
    rw [hjobs]
    exact h.held a ha
  · intro task htask
    have hproper := h.proper task (hmem' task htask)
    exact hproper.of_job (hjobs _) hproper.hand_ne
  · rcases hagenda with heq | ⟨a, heq⟩
    · rw [heq]; exact h.single
    · exact h.single_rest heq
  · intro a job hjob
    rw [hjobs] at hjob
    exact (h.node a job hjob).congr Iff.rfl (fun i => ⟨hactive _, fun _ => hstatus _⟩)
      (hmem _ rfl).2 (hmem _ rfl).2
  · intro c b hcb hc hb
    rw [hstatus] at hc hb
    obtain ⟨y, old, hy, hold, hrest⟩ := h.closed c b hcb hc hb
    exact ⟨y, old, hy, by rw [hjobs]; exact hold, hrest⟩
  · rintro ⟨hpending, hinactive⟩
    rw [hstatus] at hpending
    rw [hactive] at hinactive
    exact h.root ⟨hpending, hinactive⟩

theorem cancelRun (h : Control setup s hand) : Control setup s.cancelRun hand :=
  cancelRun_induction (P := fun t => Control setup t hand) s h (h.congr rfl rfl (.inl rfl))
    fun _ b ht => ht.tell b

theorem ask (inputs : Fields Value) (h : Control setup s hand) (hcall : s.callAt a = some call) :
    Control setup (s.ask setup a inputs call) hand := by
  obtain ⟨job, hjob, _, hstage, _, _, hwake⟩ := h.of_callAt hcall
  exact h.putCall { call with
    asked := true
    acts := (setup.executor.call call.agent (s.callsOf call.agent) inputs).acts
    ending := (setup.executor.call call.agent (s.callsOf call.agent) inputs).ending
    deadline := (call.timeout.bind microseconds?).map fun time => s.now + max 0 time } hcall
    (fun b => jobAt_setStage ..) rfl (fun _ => .inl) (fun _ htask _ => htask) h.single id hwake

theorem goOn (acts : List Act) (wakeAt : Option Int) (agenda : List Task)
    (h : Control setup s hand) (hcall : s.callAt a = some call)
    (hfilter : agenda.filter (fun task => !task.isProceed) =
      s.agenda.filter fun task => !task.isProceed)
    (hothers : ∀ b, b ≠ a → (.proceed b ∈ agenda ↔ .proceed b ∈ s.agenda)) :
    Control setup (({ s with agenda } : State).setStage a (.calling { call with acts, wakeAt }))
      hand := by
  obtain ⟨job, hjob, _, hstage, _, _, hwake⟩ := h.of_callAt hcall
  have hmem (task : Task) (htask : task.isProceed = false) :
      task ∈ agenda ↔ task ∈ s.agenda :=
    mem_iff_of_filter hfilter (by rw [htask]; rfl)
  refine h.putCall { call with acts, wakeAt } hcall (fun b => jobAt_setStage ..) rfl ?_
    (fun task htask hproceed =>
    (hmem task hproceed).2 htask) ?_ id fun htold => (hmem _ rfl).2 (hwake htold)
  · intro task htask
    cases htask' : task.isProceed with
    | false => exact .inl ((hmem task htask').1 htask)
    | true =>
      cases task with
      | proceed b =>
        by_cases hb : b = a
        · exact .inr (.inl (by rw [hb]))
        · exact .inl ((hothers b hb).1 htask)
      | _ => cases htask'
  · change (agenda.filter _).Nodup
    rw [hfilter]
    exact h.single

theorem answer (outcome : Except Failure Value) (wakeAt deadline : Option Int)
    (agenda : List Task) (h : Control setup s hand) (hcall : s.callAt a = some call)
    (hagenda : agenda = s.agenda ∨ s.agenda = .proceed a :: agenda) :
    Control setup ((({ s with agenda } : State).setStage a
      (.calling { call with outcome := some outcome, wakeAt, deadline })).tell a) hand := by
  have hpop : Control setup { s with agenda } hand :=
    h.congr rfl rfl (hagenda.imp_right fun heq => ⟨a, heq⟩)
  obtain ⟨job, hjob, _, hstage, _, _, hwake⟩ := hpop.of_callAt (a := a) hcall
  exact Control.tell (hpop.putCall { call with outcome := some outcome, wakeAt, deadline } hcall
    (fun b => jobAt_setStage ..) rfl (fun _ => .inl) (fun _ htask _ => htask) hpop.single id hwake)
    a

end Workflow.State.Control
