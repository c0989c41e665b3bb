import Workflow.Proofs.Run.Callers
import Workflow.Proofs.Run.Calls
import Workflow.Proofs.Run.Clock
import Workflow.Proofs.Run.Reasons

/-!
# What calls come to

If what a call does depends on its agent and its inputs only, so does how it ends: it pauses as often
and as long as it does, and either answers before its deadline or fails at it. What happens beside it
does not matter.

* `fateOf` says how a call ends that still has something to do, and `Setup.fate` how one ends that has
  not begun.
* `State.OnCourse` says that all calls of a state go on as they are to end, and
  `State.onCourse_runWithin` that those of every state of a run do that is stopped only as a whole.
-/

namespace Workflow

/-! ## Calls that depend on nothing else -/

/-- What a call does depends on its agent and its inputs only, and no call asks for the end of the
run. -/
structure Executor.Steady (executor : Executor) : Prop where
  call_eq : ∀ agent earlier earlier' inputs,
    executor.call agent earlier inputs = executor.call agent earlier' inputs
  acts : ∀ agent earlier inputs, Act.cancelRun ∉ (executor.call agent earlier inputs).acts

/-- A node of a run of the tree is stopped only with the run: there are no races, and calls do not ask for
the end of the run. -/
structure Setup.Mild (setup : Setup) (tree : Node) : Prop where
  executor : setup.executor.Steady
  race : ∀ node ∈ tree.walk, node.kind ≠ .race

/-- Nothing stops a node of a run of the tree: the end of the run is not asked for, and there are no
races. -/
structure Setup.Calm (setup : Setup) (tree : Node) : Prop where
  executor : setup.executor.Steady
  cancelAt : setup.cancelAt = none
  race : ∀ node ∈ tree.walk, node.kind ≠ .race

theorem Setup.Calm.mild {setup : Setup} {tree : Node} (h : setup.Calm tree) : setup.Mild tree :=
  ⟨h.executor, h.race⟩

/-- How a call ends that still does this and ends like this, if it fails with the failure unless it
has ended in time. -/
def fateOf (failure : Failure) (ending : Ending) :
    Option Int → List Act → Option (Except Failure Value)
  | left, [] =>
    match ending with
    | .answer outcome => some outcome
    | .never => left.map fun _ => .error failure
  | left, .cancelRun :: acts => fateOf failure ending left acts
  | left, .pause time :: acts =>
    if time ≤ 0 then fateOf failure ending left acts
    else if left.any (· ≤ time) then some (.error failure)
    else fateOf failure ending (left.map (· - time)) acts

namespace Call

/-- The failure of a call whose deadline has come. -/
def expiry (call : Call) : Failure :=
  timeoutFailure call.agent (call.timeout.getD (.int 0))

/-- How a call ends from an instant on. -/
def fate (call : Call) (now : Int) : Option (Except Failure Value) :=
  match call.outcome, call.wakeAt with
  | some outcome, _ => some outcome
  | none, none => fateOf call.expiry call.ending (call.deadline.map (· - now)) call.acts
  | none, some time =>
    if call.deadline.any (· ≤ time) then some (.error call.expiry)
    else fateOf call.expiry call.ending (call.deadline.map (· - time)) call.acts

variable {call : Call} {now now' : Int}

theorem fate_of_outcome {outcome : Except Failure Value} (h : call.outcome = some outcome) :
    call.fate now = some outcome := by
  rw [fate, h]

theorem fate_of_ready (call : Call) (now : Int) (houtcome : call.outcome = none) (hwakeAt : call.wakeAt = none) :
    call.fate now = fateOf call.expiry call.ending (call.deadline.map (· - now)) call.acts := by
  rw [fate, houtcome, hwakeAt]

theorem fate_of_wakeAt (call : Call) (now : Int) {time : Int} (houtcome : call.outcome = none)
    (hwakeAt : call.wakeAt = some time) :
    call.fate now = if call.deadline.any (· ≤ time) then some (.error call.expiry)
      else fateOf call.expiry call.ending (call.deadline.map (· - time)) call.acts := by
  rw [fate, houtcome, hwakeAt]

/-- How a call ends that waits or never answers does not depend on the instant. -/
theorem fate_congr (now now' : Int) (h : call.outcome.isSome ∨ call.wakeAt.isSome ∨
    (call.acts = [] ∧ call.ending = .never)) : call.fate now' = call.fate now := by
  cases houtcome : call.outcome with
  | some outcome => rw [fate_of_outcome houtcome, fate_of_outcome houtcome]
  | none =>
    cases hwakeAt : call.wakeAt with
    | some time => rw [fate_of_wakeAt _ _ houtcome hwakeAt, fate_of_wakeAt _ _ houtcome hwakeAt]
    | none =>
      rw [houtcome, hwakeAt] at h
      obtain ⟨hacts, hending⟩ : call.acts = [] ∧ call.ending = .never := by simpa using h
      rw [fate_of_ready _ _ houtcome hwakeAt, fate_of_ready _ _ houtcome hwakeAt, hacts, hending]
      simp only [fateOf, Option.map_map]
      rfl

/-- A call whose time comes goes on as it is to end. -/
theorem fate_fired (hnow : call.outcome = none → ∀ time, call.wakeAt = some time → now ≤ time)
    (hready : call.outcome.isSome ∨ call.wakeAt.isSome ∨ (call.acts = [] ∧ call.ending = .never)) :
    (call.fired now).fate now = call.fate now := by
  rw [fired]
  split
  · rfl
  · rename_i houtcome
    rw [Option.not_isSome_iff_eq_none] at houtcome
    split
    · -- the deadline has come, and before the pause is over
      rename_i hdeadline
      obtain ⟨deadline, hsome, hle⟩ := (Option.any_eq_true ..).1 hdeadline
      rw [decide_eq_true_eq] at hle
      rw [fate_of_outcome rfl]
      cases hwakeAt : call.wakeAt with
      | some time =>
        have := hnow houtcome time hwakeAt
        rw [fate_of_wakeAt _ _ houtcome hwakeAt, hsome, if_pos]
        · rfl
        · simp only [Option.any_some, decide_eq_true_eq]
          omega
      | none =>
        rw [houtcome, hwakeAt] at hready
        obtain ⟨hacts, hending⟩ : call.acts = [] ∧ call.ending = .never := by simpa using hready
        rw [fate_of_ready _ _ houtcome hwakeAt, hacts, hending, hsome]
        rfl
    · rename_i hdeadline
      split
      · -- the pause is over
        rename_i hwakeAt
        cases hsome : call.wakeAt with
        | none => rw [hsome] at hwakeAt; cases hwakeAt
        | some time =>
          rw [hsome, Option.any_some, decide_eq_true_eq] at hwakeAt
          obtain rfl : time = now := Int.le_antisymm hwakeAt (hnow houtcome time hsome)
          refine (fate_of_ready { call with wakeAt := none } time houtcome rfl).trans ?_
          rw [fate_of_wakeAt _ _ houtcome hsome, if_neg hdeadline]
          rfl
      · rfl

end Call

/-- How the call of an agent with the inputs ends. -/
def Setup.fate (setup : Setup) (agent : String) (timeout : Option Number) (inputs : Fields Value) :
    Option (Except Failure Value) :=
  let behaviour := setup.executor.call agent 0 inputs
  fateOf (timeoutFailure agent (timeout.getD (.int 0))) behaviour.ending
    ((timeout.bind microseconds?).map fun time => max 0 time) behaviour.acts


namespace State

variable {setup : Setup} {tree : Node} {s t : State} {hand after : Option Address} {doing : Doing}
  {a b : Address} {job : Job} {call call' : Call} {rest : List Task}

/-! ## Runs that nothing stops -/

/-- The definitions of the nodes of a run belong to the definition of the workflow. -/
theorem Shape.walk_subset (h : Shape tree s) {a : Address} : ∀ job, s.jobAt a = some job →
    job.node.walk ⊆ tree.walk := by
  induction a using List.reverseRecOn with
  | nil =>
    intro job hjob
    obtain ⟨root, hroot, hnode, _⟩ := h.root
    rw [hjob, Option.some.injEq] at hroot
    rw [hroot, hnode]
    exact List.Subset.refl _
  | append_singleton a i ih =>
    intro job hjob
    obtain ⟨above, habove⟩ := jobAt_of_append hjob
    have hchild := Node.mem_children_of_kidAt (h.kid a i above job habove hjob).1
    exact fun node hnode => ih above habove (Node.mem_walk_of_mem_children hchild hnode)

/-- Without races no race is won. -/
theorem Reached.not_halted (h : Reached setup tree s hand) (htree : tree.Sound)
    (hrace : ∀ node ∈ tree.walk, node.kind ≠ .race) (a : Address) : ¬ s.Halted a := by
  rintro ⟨above, i, below, job, frame, _, hjob, hframe, hwinner⟩
  obtain ⟨winner, hwinner⟩ := Option.isSome_iff_exists.1 hwinner
  have hwon : job.winner = some winner := (Job.winner_of_frame? hframe).trans hwinner
  exact hrace job.node ((h.shape htree).walk_subset job hjob (Node.mem_walk_self _))
    ((h.reasons htree).winner above job winner hjob hwon).1

/-! ## Calls that go on as they are to end -/

/-- The call of a step with the inputs goes on as it is to end. -/
structure Tracked (setup : Setup) (now : Int) (inputs : Fields Value) (call : Call) : Prop where
  /-- A call that the executor has not been asked for has not done anything. -/
  unasked : call.asked = false → call.outcome = none ∧ call.wakeAt = none
  fate : call.asked = true →
    call.fate now = setup.fate call.agent call.timeout inputs
  acts : Act.cancelRun ∉ call.acts
  wakeAt : call.outcome = none → ∀ time, call.wakeAt = some time → now ≤ time

/-- All calls go on as they are to end, and none asks for the end of the run. -/
structure OnCourse (setup : Setup) (s : State) : Prop where
  cancelled : setup.cancelAt = none → s.cancelled = false
  single : (s.agenda.filter Task.isProceed).Nodup
  /-- A call that is to go on does not wait. -/
  proceed : ∀ a call, .proceed a ∈ s.agenda → s.callAt a = some call →
    call.outcome = none ∧ call.wakeAt = none
  /-- Unless the run is to end, what is to go on is a call. -/
  present : s.cancelled = false → ∀ a, .proceed a ∈ s.agenda → (s.callAt a).isSome
  call : ∀ a job call, s.jobAt a = some job → job.stage = .calling call →
    Tracked setup s.now job.entry.inputs call

theorem mem_agenda_iff_of_filter (h : t.agenda.filter Task.isProceed = s.agenda.filter Task.isProceed)
    (a : Address) : .proceed a ∈ t.agenda ↔ .proceed a ∈ s.agenda :=
  mem_iff_of_filter h rfl

namespace OnCourse

theorem start (setup : Setup) (tree : Node) : OnCourse setup (start setup tree) where
  cancelled hcancelAt := by
    change setup.cancelAt.any _ = false
    rw [hcancelAt]
    rfl
  single := List.nodup_nil
  proceed a call h := by
    change Task.proceed a ∈ [Task.enter []] at h
    simp at h
  present _ a h := by
    change Task.proceed a ∈ [Task.enter []] at h
    simp at h
  call a job call hjob hstage := by
    obtain ⟨path, node, rfl, _⟩ := Live.jobAt_ofNode hjob
    cases hstage

theorem of_sameCalls (h : OnCourse setup s) (hsame : SameCalls s t) : OnCourse setup t where
  cancelled hcancelAt := hsame.cancelled.trans (h.cancelled hcancelAt)
  single := by rw [hsame.proceed]; exact h.single
  proceed a call ha hcall := by
    rw [mem_agenda_iff_of_filter hsame.proceed] at ha
    rw [callAt_eq_callerAt, hsame.caller, ← callAt_eq_callerAt] at hcall
    exact h.proceed a call ha hcall
  present hcancelled a ha := by
    rw [mem_agenda_iff_of_filter hsame.proceed] at ha
    rw [callAt_eq_callerAt, hsame.caller, ← callAt_eq_callerAt]
    exact h.present (hsame.cancelled.symm.trans hcancelled) a ha
  call a job call hjob hstage := by
    have hcaller := callerAt_eq_some_iff.2 ⟨hjob, call, hstage⟩
    rw [hsame.caller, callerAt_eq_some_iff] at hcaller
    rw [hsame.now]
    exact h.call a job call hcaller.1 hstage

/-- A call that does not stand in the agenda may be put behind it. -/
theorem single_append {agenda : List Task} (h : (agenda.filter Task.isProceed).Nodup)
    (hnot : .proceed a ∉ agenda) : ((agenda ++ [Task.proceed a]).filter Task.isProceed).Nodup := by
  rw [List.filter_append, List.nodup_append]
  refine ⟨h, List.nodup_singleton (Task.proceed a), fun task htask other hother => ?_⟩
  rintro rfl
  obtain rfl := List.mem_singleton.1 (List.mem_of_mem_filter hother)
  exact hnot (List.mem_of_mem_filter htask)

/-- A step begins to wait for its call. -/
theorem begun {agent : String} {timeout : Option Number} (h : OnCourse setup s)
    (hjob : s.jobAt a = some job) (hidle : job.stage = .idle) (hcancelled : s.cancelled = false) :
    OnCourse setup ((s.setStage a (.calling { agent, timeout })).later (.proceed a)) := by
  have hnone : s.callAt a = none := by rw [callAt_of_jobAt hjob, Job.call?, hidle]
  have hnot : Task.proceed a ∉ s.agenda := by
    intro hmem
    have := h.present hcancelled a hmem
    rw [hnone] at this
    cases this
  have hcallAt (b : Address) : ((s.setStage a (.calling { agent, timeout })).later
      (.proceed a)).callAt b = if b = a then some { agent, timeout } else s.callAt b := by
    rw [callAt_eq, jobAt_later, jobAt_setStage]
    split
    · rename_i hb
      rw [hb, hjob]
      rfl
    · rw [callAt_eq]
  refine ⟨h.cancelled, single_append h.single hnot, fun b call hb hcall => ?_, fun _ b hb => ?_,
    fun b new call hnew hstage => ?_⟩
  · rw [hcallAt] at hcall
    split at hcall
    · obtain rfl := Option.some.inj hcall
      exact ⟨rfl, rfl⟩
    · rename_i hba
      exact h.proceed b call ((List.mem_append.1 hb).resolve_right (by simpa using hba)) hcall
  · rw [hcallAt]
    split
    · rfl
    · rename_i hba
      exact h.present hcancelled b ((List.mem_append.1 hb).resolve_right (by simpa using hba))
  · rw [jobAt_later, jobAt_setStage] at hnew
    split at hnew
    · rename_i hba
      rw [hba, hjob, Option.map_some, Option.some.injEq] at hnew
      subst hnew
      rw [Stage.calling.injEq] at hstage
      subst hstage
      exact ⟨fun _ => ⟨rfl, rfl⟩, by simp, List.not_mem_nil, by simp⟩
    · exact h.call b new call hnew hstage

/-- A step that has been told waits no more. -/
theorem woken (h : OnCourse setup s) (hagenda : s.agenda = .wake a :: rest)
    (hended : s.cancelled = false → ∀ call, s.callAt a = some call → call.outcome.isSome) :
    OnCourse setup (({ s with agenda := rest } : State).setStage a .idle) := by
  have hmem {b : Address} (hb : .proceed b ∈ rest) : .proceed b ∈ s.agenda := by
    rw [hagenda]
    exact List.mem_cons_of_mem _ hb
  have hcallAt (b : Address) : (({ s with agenda := rest } : State).setStage a .idle).callAt b =
      if b = a then none else s.callAt b := by
    rw [callAt_eq, jobAt_setStage, jobAt_agenda]
    split
    · rename_i hb
      rw [hb]
      cases s.jobAt a <;> rfl
    · rw [callAt_eq]
  refine ⟨h.cancelled, ?_, fun b call hb hcall => ?_, fun hcancelled b hb => ?_,
    fun b new call hnew hstage => ?_⟩
  · have := h.single
    rwa [hagenda] at this
  · rw [hcallAt] at hcall
    split at hcall
    · cases hcall
    · exact h.proceed b call (hmem hb) hcall
  · have hpresent := h.present hcancelled b (hmem hb)
    obtain ⟨call, hcall⟩ := Option.isSome_iff_exists.1 hpresent
    rw [hcallAt, if_neg]
    · exact hpresent
    · rintro rfl
      have := hended hcancelled call hcall
      rw [(h.proceed b call (hmem hb) hcall).1] at this
      cases this
  · rw [jobAt_setStage] at hnew
    split at hnew
    · obtain ⟨old, _, rfl⟩ := Option.map_eq_some_iff.1 hnew
      cases hstage
    · exact h.call b new call hnew hstage

/-- A step is told to stop waiting. -/
theorem tell (h : OnCourse setup s) (a : Address) : OnCourse setup (s.tell a) := by
  cases hcall : s.callAt a with
  | none => rwa [tell_of_callAt_eq_none _ _ hcall]
  | some told =>
    have hproceed : ((s.tell a).agenda.filter Task.isProceed) = s.agenda.filter Task.isProceed := by
      rw [agenda_tell _ _ hcall]
      split
      · rfl
      · rw [List.filter_append, List.filter_cons_of_neg (by simp [Task.isProceed]), List.filter_nil,
          List.append_nil]
    have hcallAt (b : Address) : (s.tell a).callAt b =
        if b = a then (s.callAt b).map fun call => { call with told := true } else s.callAt b := by
      rw [callAt_eq, jobAt_tell]
      split
      · rename_i hb
        rw [callAt_eq]
        cases hjob : s.jobAt b with
        | none => rfl
        | some job => exact job.call?_tell
      · rw [callAt_eq]
    refine ⟨fun hcancelAt => (cancelled_tell s a).trans (h.cancelled hcancelAt), by rw [hproceed]; exact h.single,
      fun b call hb hcall => ?_, fun hcancelled b hb => ?_, fun b new call hnew hstage => ?_⟩
    · rw [mem_agenda_iff_of_filter hproceed] at hb
      rw [hcallAt] at hcall
      split at hcall
      · obtain ⟨old, hold, rfl⟩ := Option.map_eq_some_iff.1 hcall
        exact h.proceed b old hb hold
      · exact h.proceed b call hb hcall
    · rw [mem_agenda_iff_of_filter hproceed] at hb
      have hpresent := h.present ((cancelled_tell s a).symm.trans hcancelled) b hb
      rw [hcallAt]
      split
      · rwa [Option.isSome_map]
      · exact hpresent
    · rw [now_tell]
      rw [jobAt_tell] at hnew
      split at hnew
      · obtain ⟨old, hold, rfl⟩ := Option.map_eq_some_iff.1 hnew
        have htold := old.call?_tell
        rw [Job.call?, hstage] at htold
        obtain ⟨before, hbefore, rfl⟩ := Option.map_eq_some_iff.1 htold.symm
        have htracked := h.call b old before hold (stage_of_call? hbefore)
        rw [Job.entry_tell]
        exact ⟨htracked.unasked, htracked.fate, htracked.acts, htracked.wakeAt⟩
      · exact h.call b new call hnew hstage

/-- All steps are told to stop waiting, since the run is to end. -/
theorem cancelRun (h : OnCourse setup s) (hcancelAt : setup.cancelAt ≠ none) :
    OnCourse setup s.cancelRun :=
  cancelRun_induction (P := OnCourse setup) s h
    ⟨fun hnone => absurd hnone hcancelAt, h.single, h.proceed, by simp, h.call⟩
    fun _ a ht => ht.tell a

/-- Unless the run is to end, a call has ended if its step has been told. -/
theorem outcome_of_told (hr : Reached setup tree s hand) (htree : tree.Sound)
    (hmild : setup.Mild tree) (hcancelled : s.cancelled = false) (hcall : s.callAt a = some call)
    (htold : call.told = true) : call.outcome.isSome := by
  obtain ⟨job, hjob, hstage⟩ := jobAt_of_callAt hcall
  refine ((hr.waiting htree hjob hstage).told htold).resolve_right ?_
  rw [hcancelled]
  simp [hr.not_halted htree hmild.race a]

/-- Calls stay on course while other things are done. -/
theorem change (h : OnCourse setup s) (hr : Reached setup tree s hand) (htree : tree.Sound)
    (hmild : setup.Mild tree) (hchange : Change setup doing s hand t after) (hdoing : doing ≠ .call) :
    OnCourse setup t := by
  cases hchange.calls (hr.control htree) (hr.shape htree) hdoing with
  | same hsame => exact h.of_sameCalls hsame
  | begun hjob hidle hcancelled _ _ ht =>
    rw [ht]
    exact h.begun hjob hidle hcancelled
  | @woken a rest hagenda _ ht =>
    rw [ht]
    refine h.woken hagenda fun hcancelled call hcall =>
      outcome_of_told hr htree hmild hcancelled hcall ?_
    obtain ⟨job, call', hjob, _, hstage, htold, _⟩ :=
      (hr.control htree).proper (.wake a) (by rw [hagenda]; exact List.mem_cons_self)
    rw [callAt_of_jobAt hjob, Job.call?, hstage, Option.some.injEq] at hcall
    rwa [← hcall]
  | told _ ht =>
    rw [ht]
    exact h.tell _

/-! ## Calls that go on -/

/-- The call of one step changes, and goes on as it is to end. -/
theorem setCall (after : Call) (h : OnCourse setup s) (hjob : s.jobAt a = some job)
    (ht : ∀ b, t.jobAt b = if b = a then some { job with stage := .calling after } else s.jobAt b)
    (hcancelled : t.cancelled = s.cancelled) (hnow : t.now = s.now)
    (hsingle : (t.agenda.filter Task.isProceed).Nodup)
    (hproceed : ∀ b, .proceed b ∈ t.agenda → (b ≠ a ∧ .proceed b ∈ s.agenda) ∨
      (b = a ∧ after.outcome = none ∧ after.wakeAt = none))
    (htracked : Tracked setup s.now job.entry.inputs after) : OnCourse setup t := by
  have hcallAt (b : Address) : t.callAt b = if b = a then some after else s.callAt b := by
    rw [callAt_eq, ht]
    split
    · rfl
    · rw [callAt_eq]
  refine ⟨fun hcancelAt => hcancelled.trans (h.cancelled hcancelAt), hsingle, fun b call hb hcall => ?_,
    fun hnot b hb => ?_, fun b new call hnew hstage => ?_⟩
  · rw [hcallAt] at hcall
    rcases hproceed b hb with ⟨hne, hb⟩ | ⟨rfl, houtcome, hwakeAt⟩
    · rw [if_neg hne] at hcall
      exact h.proceed b call hb hcall
    · rw [if_pos rfl, Option.some.injEq] at hcall
      rw [← hcall]
      exact ⟨houtcome, hwakeAt⟩
  · rw [hcallAt]
    split
    · rfl
    · rename_i hne
      exact h.present (hcancelled.symm.trans hnot) b
        ((hproceed b hb).resolve_right fun hself => hne hself.1).2
  · rw [hnow]
    rw [ht] at hnew
    split at hnew
    · rw [Option.some.injEq] at hnew
      subst hnew
      rw [Stage.calling.injEq] at hstage
      rwa [← hstage]
    · exact h.call b new call hnew hstage

/-- What stands behind a call that is to go on. -/
theorem single_rest (h : OnCourse setup s) (hagenda : s.agenda = .proceed a :: rest) :
    (rest.filter Task.isProceed).Nodup ∧
      ∀ b, .proceed b ∈ rest → b ≠ a ∧ .proceed b ∈ s.agenda := by
  have hsingle := h.single
  rw [hagenda, List.filter_cons_of_pos rfl, List.nodup_cons] at hsingle
  refine ⟨hsingle.2, fun b hb => ⟨?_, by rw [hagenda]; exact List.mem_cons_of_mem _ hb⟩⟩
  rintro rfl
  exact hsingle.1 (List.mem_filter.2 ⟨hb, rfl⟩)

/-- The executor is asked. -/
theorem ask (hmild : setup.Mild tree) (h : OnCourse setup s)
    (hagenda : s.agenda = .proceed a :: rest) (hjob : s.jobAt a = some job)
    (houtcome : call.outcome = none) (hwakeAt : call.wakeAt = none) :
    OnCourse setup ((({ s with agenda := rest } : State).ask setup a job.entry.inputs call).next
      (.proceed a)) := by
  have hbehaviour := hmild.executor.call_eq call.agent (s.callsOf call.agent) 0 job.entry.inputs
  generalize hafter : ({ call with
    asked := true
    acts := (setup.executor.call call.agent 0 job.entry.inputs).acts
    ending := (setup.executor.call call.agent 0 job.entry.inputs).ending
    deadline := (call.timeout.bind microseconds?).map fun time => s.now + max 0 time } : Call) =
      after
  have ht : ((({ s with agenda := rest } : State).ask setup a job.entry.inputs call).next
      (.proceed a)) = ((({ s with agenda := rest } : State).setStage a (.calling after)).note
        (.called ⟨s.now, call.agent, job.entry.inputs⟩)).next (.proceed a) := by
    rw [← hafter, ← hbehaviour]
    rfl
  have houtcome' : after.outcome = none := by
    rw [← hafter]
    exact houtcome
  have hwakeAt' : after.wakeAt = none := by
    rw [← hafter]
    exact hwakeAt
  rw [ht]
  refine h.setCall after hjob (fun b => ?_) rfl rfl ?_ (fun b hb => ?_) ?_
  · rw [jobAt_next, jobAt_note, jobAt_setStage]
    split
    · rename_i hb
      rw [hb, jobAt_agenda, hjob]
      rfl
    · rfl
  · have := h.single
    rwa [hagenda] at this
  · rcases List.mem_cons.1 hb with heq | hmem
    · rw [Task.proceed.injEq] at heq
      exact .inr ⟨heq, houtcome', hwakeAt'⟩
    · exact .inl ((h.single_rest hagenda).2 b hmem)
  · refine ⟨fun hnot => ?_, fun _ => ?_, ?_, fun _ time htime => ?_⟩
    · rw [← hafter] at hnot
      cases hnot
    · rw [Call.fate_of_ready _ _ houtcome' hwakeAt', ← hafter, Setup.fate]
      simp only [Option.map_map, Call.expiry]
      congr 2
      funext time
      simp only [Function.comp]
      omega
    · rw [← hafter]
      exact hmild.executor.acts _ _ _
    · rw [hwakeAt'] at htime
      cases htime

/-- The table after the stage of a step that calls has changed. -/
theorem jobAt_setCall (hjob : s.jobAt a = some job) (agenda : List Task) (after : Call)
    (b : Address) : (({ s with agenda } : State).setStage a (.calling after)).jobAt b =
      if b = a then some { job with stage := .calling after } else s.jobAt b := by
  rw [jobAt_setStage]
  split
  · rename_i hb
    rw [hb, jobAt_agenda, hjob]
    rfl
  · rfl

/-- A call ends as it is to end. -/
theorem answer {outcome : Except Failure Value} (wakeAt deadline : Option Int) (agenda : List Task)
    (h : OnCourse setup s) (hsingle : (agenda.filter Task.isProceed).Nodup)
    (hproceed : ∀ b, .proceed b ∈ agenda → b ≠ a ∧ .proceed b ∈ s.agenda)
    (hjob : s.jobAt a = some job) (htracked : Tracked setup s.now job.entry.inputs call)
    (hasked : call.asked = true)
    (hfate : setup.fate call.agent call.timeout job.entry.inputs = some outcome) :
    OnCourse setup ((({ s with agenda } : State).setStage a
      (.calling { call with outcome := some outcome, wakeAt, deadline })).tell a) := by
  generalize hmid : ({ s with agenda } : State).setStage a
    (.calling { call with outcome := some outcome, wakeAt, deadline }) = mid
  have hmidJob (b : Address) : mid.jobAt b = if b = a then some
      { job with stage := .calling { call with outcome := some outcome, wakeAt, deadline } }
      else s.jobAt b := by
    rw [← hmid]
    exact jobAt_setCall hjob agenda _ b
  have hcall : mid.callAt a = some { call with outcome := some outcome, wakeAt, deadline } := by
    rw [callAt_eq, hmidJob, if_pos rfl]
    rfl
  have hagenda : mid.agenda = agenda := by rw [← hmid]; rfl
  refine h.setCall { call with outcome := some outcome, wakeAt, deadline, told := true } hjob
    (fun b => ?_) ?_ ?_ ?_ (fun b hb => .inl (hproceed b ?_))
    ⟨fun hnot => ?_, fun _ => hfate.symm, htracked.acts, by simp⟩
  · rw [jobAt_tell, hmidJob]
    split <;> rfl
  · rw [cancelled_tell, ← hmid]
    rfl
  · rw [now_tell, ← hmid]
    rfl
  · rw [agenda_tell _ _ hcall, hagenda]
    split
    · exact hsingle
    · rw [List.filter_append, List.filter_cons_of_neg (by simp [Task.isProceed]), List.filter_nil,
        List.append_nil]
      exact hsingle
  · rw [agenda_tell _ _ hcall, hagenda] at hb
    split at hb
    · exact hb
    · simpa using hb
  · rw [hasked] at hnot
    cases hnot

/-- What a call still does is done, or it ends. -/
theorem act (h : OnCourse setup s) (hagenda : s.agenda = .proceed a :: rest)
    (hjob : s.jobAt a = some job) (hstage : job.stage = .calling call)
    (houtcome : call.outcome = none) (hwakeAt : call.wakeAt = none) (hasked : call.asked = true) :
    OnCourse setup (({ s with agenda := rest } : State).act a call) := by
  have htracked := h.call a job call hjob hstage
  have hsingle := h.single_rest hagenda
  have hfate := htracked.fate hasked
  rw [Call.fate_of_ready _ _ houtcome hwakeAt] at hfate
  have hunasked {P : Prop} (hnot : call.asked = false) : P := by
    rw [hasked] at hnot
    cases hnot
  unfold State.act
  split
  · rename_i hacts
    rw [hacts] at hfate
    split
    · rename_i outcome hending
      rw [hending, fateOf] at hfate
      exact h.answer call.wakeAt call.deadline rest hsingle.1 hsingle.2 hjob htracked hasked
        hfate.symm
    · refine h.setCall call hjob (fun b => ?_) rfl rfl hsingle.1
        (fun b hb => .inl (hsingle.2 b hb)) htracked
      rw [jobAt_agenda]
      split
      · rename_i hb
        rw [hb, hjob, ← hstage]
      · rfl
  · rename_i acts hacts
    exact absurd (by rw [hacts]; exact List.mem_cons_self) htracked.acts
  · rename_i time acts hacts
    have hacts' : Act.cancelRun ∉ acts := fun hmem => htracked.acts (by
      rw [hacts]
      exact List.mem_cons_of_mem _ hmem)
    rw [hacts, fateOf] at hfate
    split
    · -- a pause that takes no time
      rename_i htime
      rw [if_pos htime] at hfate
      refine h.setCall { call with acts } hjob (fun b => ?_) rfl rfl
        (single_append hsingle.1 fun hmem => (hsingle.2 a hmem).1 rfl) (fun b hb => ?_)
        ⟨hunasked, fun _ => (Call.fate_of_ready { call with acts } _ houtcome hwakeAt).trans hfate,
          hacts', htracked.wakeAt⟩
      · rw [jobAt_later, jobAt_setCall hjob]
      · rcases List.mem_append.1 hb with hb | hb
        · exact .inl (hsingle.2 b hb)
        · exact .inr ⟨by simpa using hb, houtcome, hwakeAt⟩
    · rename_i htime
      rw [if_neg htime] at hfate
      refine h.setCall { call with acts, wakeAt := some (s.now + time) } hjob
        (jobAt_setCall hjob rest _) rfl rfl hsingle.1 (fun b hb => .inl (hsingle.2 b hb))
        ⟨hunasked, fun _ => ?_, hacts', fun _ until_ huntil => ?_⟩
      · rw [← hfate]
        refine (Call.fate_of_wakeAt { call with acts, wakeAt := some (s.now + time) } _ houtcome
          rfl).trans ?_
        cases call.deadline with
        | none => rfl
        | some deadline =>
          simp only [Option.any_some, Option.map_some, decide_eq_true_eq]
          rw [show deadline - (s.now + time) = deadline - s.now - time by omega]
          refine if_congr ?_ rfl rfl
          omega
      · obtain rfl := Option.some.inj huntil
        omega

/-- Nothing is done for a call. -/
theorem drop (h : OnCourse setup s) (hagenda : s.agenda = .proceed a :: rest) :
    OnCourse setup { s with agenda := rest } := by
  have hsingle := h.single_rest hagenda
  exact ⟨h.cancelled, hsingle.1, fun b call hb => h.proceed b call (hsingle.2 b hb).2,
    fun hcancelled b hb => h.present hcancelled b (hsingle.2 b hb).2, h.call⟩

/-- A call begins or goes on, if it is still there. -/
theorem proceed_task (hmild : setup.Mild tree) (h : OnCourse setup s) (hr : Reached setup tree s none)
    (htree : tree.Sound) (hagenda : s.agenda = .proceed a :: rest) :
    OnCourse setup (({ s with agenda := rest } : State).proceed setup a) := by
  have hmem : .proceed a ∈ s.agenda := by rw [hagenda]; exact List.mem_cons_self
  obtain ⟨job, hjob⟩ := (hr.control htree).proper (.proceed a) hmem
  obtain ⟨kids, hkids⟩ := at?_of_jobAt hjob
  have hkids' : ({ s with agenda := rest } : State).root.at? a = some (.mk job kids) := hkids
  unfold State.proceed
  rw [hkids']
  simp only
  cases hcall : (Live.mk job kids).job.call? with
  | none => exact h.drop hagenda
  | some call =>
    have hcall' : s.callAt a = some call := by
      rw [callAt_of_jobAt hjob]
      exact hcall
    obtain ⟨houtcome, hwakeAt⟩ := h.proceed a call hmem hcall'
    simp only [houtcome, Option.isSome_none, Bool.false_eq_true, if_false]
    split
    · rename_i hasked
      exact h.act hagenda hjob (stage_of_call? hcall) houtcome hwakeAt hasked
    · exact h.ask hmild hagenda hjob houtcome hwakeAt

/-! ## Time that passes -/

/-- A call whose time has come goes on, or fails because its deadline has come. -/
theorem fire (h : OnCourse setup s) (hnot : .proceed a ∉ s.agenda)
    (hready : ∀ call, s.callAt a = some call → call.outcome.isSome ∨ call.wakeAt.isSome ∨
      (call.asked = true ∧ call.acts = [] ∧ call.ending = .never)) : OnCourse setup (s.fire a) := by
  cases hcall : s.callAt a with
  | none => rwa [fire_of_callAt_eq_none hcall]
  | some call =>
    obtain ⟨job, hjob, hstage⟩ := jobAt_of_callAt hcall
    have htracked := h.call a job call hjob hstage
    have hready := hready call hcall
    have hasked : call.outcome = none → call.asked = true := by
      intro houtcome
      by_contra hunasked
      have := htracked.unasked (by simpa using hunasked)
      rw [this.1, this.2] at hready
      simp [hunasked] at hready
    have hfate := Call.fate_fired htracked.wakeAt (hready.imp_right (Or.imp_right And.right))
    rw [Call.fired] at hfate
    unfold State.fire
    rw [hcall]
    simp only
    split
    · exact h
    · rename_i houtcome
      rw [if_neg houtcome] at hfate
      rw [Option.not_isSome_iff_eq_none] at houtcome
      rw [htracked.fate (hasked houtcome)] at hfate
      split
      · rename_i hdeadline
        rw [if_pos hdeadline] at hfate
        refine h.answer none none s.agenda h.single (fun b hb => ⟨?_, hb⟩) hjob htracked
          (hasked houtcome) hfate.symm
        rintro rfl
        exact hnot hb
      · rename_i hdeadline
        rw [if_neg hdeadline] at hfate
        split
        · rename_i hwakeAt
          rw [if_pos hwakeAt] at hfate
          refine h.setCall { call with wakeAt := none } hjob (fun b => ?_) rfl rfl
            (single_append h.single hnot) (fun b hb => ?_) ⟨fun hunasked => ?_, fun _ => hfate,
              htracked.acts, by simp⟩
          · rw [jobAt_later]
            exact jobAt_setCall hjob s.agenda _ b
          · rcases List.mem_append.1 hb with hb | hb
            · refine .inl ⟨?_, hb⟩
              rintro rfl
              exact hnot hb
            · exact .inr ⟨by simpa using hb, houtcome, rfl⟩
          · have : call.asked = false := hunasked
            rw [hasked houtcome] at this
            cases this
        · exact h

theorem mem_agenda_fire (h : .proceed b ∈ (s.fire a).agenda) : b = a ∨ .proceed b ∈ s.agenda := by
  unfold State.fire at h
  split at h
  · exact .inr h
  · rename_i call hcall
    split at h
    · exact .inr h
    · split at h
      · obtain ⟨job, hjob, _⟩ := jobAt_of_callAt hcall
        have hcall' (call' : Call) : (s.setStage a (.calling call')).callAt a = some call' := by
          rw [callAt_eq, jobAt_setStage, if_pos rfl, hjob]
          rfl
        rw [agenda_tell _ _ (hcall' _)] at h
        split at h
        · exact .inr h
        · exact .inr ((List.mem_append.1 h).resolve_right (by simp))
      · split at h
        · rcases List.mem_append.1 h with h | h
          · exact .inr h
          · exact .inl (by simpa using h)
        · exact .inr h

/-- Calls whose time has come go on or fail, one after the other. -/
theorem foldl_fire (l : List Address) (hl : l.Nodup) (h : OnCourse setup s)
    (hnot : ∀ a ∈ l, .proceed a ∉ s.agenda)
    (hready : ∀ a ∈ l, ∀ call, s.callAt a = some call → call.outcome.isSome ∨ call.wakeAt.isSome ∨
      (call.asked = true ∧ call.acts = [] ∧ call.ending = .never)) :
    OnCourse setup (l.foldl State.fire s) := by
  induction l generalizing s with
  | nil => exact h
  | cons a l ih =>
    rw [List.nodup_cons] at hl
    rw [List.forall_mem_cons] at hnot hready
    have hne (b : Address) (hb : b ∈ l) : b ≠ a := by
      rintro rfl
      exact hl.1 hb
    refine ih hl.2 (h.fire hnot.1 hready.1) (fun b hb hmem => ?_) fun b hb call hcall => ?_
    · exact hnot.2 b hb ((mem_agenda_fire hmem).resolve_left (hne b hb))
    · rw [callAt_fire, if_neg (hne b hb)] at hcall
      exact hready.2 b hb call hcall

theorem nodup_callsUnder (s : State) (a : Address) : (s.callsUnder a).Nodup := by
  unfold callsUnder
  split
  · exact .nil
  · refine ((Live.pairwise_walk a _).sublist (List.filter_sublist.map _)).imp fun hnot => ?_
    rintro rfl
    exact hnot (List.prefix_refl _)

/-- The clock jumps to the first instant at which a call goes on by itself. -/
theorem jump {time : Int} (h : OnCourse setup s) (hr : Reached setup tree s none)
    (htree : tree.Sound) (hagenda : s.agenda = [])
    (htime : (s.times setup).min? = some time) : OnCourse setup (s.jump setup time) := by
  -- nothing is left to do for a call that does not wait
  have hready (a : Address) (call : Call) (hcall : s.callAt a = some call) :
      call.outcome.isSome ∨ call.wakeAt.isSome ∨
        (call.asked = true ∧ call.acts = [] ∧ call.ending = .never) := by
    obtain ⟨job, hjob, hstage⟩ := jobAt_of_callAt hcall
    have htold := hr.not_told htree hagenda hcall
    refine .inr (((hr.waiting htree hjob hstage).alive htold).resolve_left ?_)
    rw [hagenda]
    exact List.not_mem_nil
  have hle (a : Address) (job : Job) (call : Call) (until_ : Int) (hjob : s.jobAt a = some job)
      (hstage : job.stage = .calling call) (houtcome : call.outcome = none)
      (hwakeAt : call.wakeAt = some until_) : time ≤ until_ := by
    refine (List.min?_eq_some_iff.1 htime).2 until_ (List.mem_append_left _ ?_)
    refine List.mem_flatMap.2 ⟨(a, job), Live.mem_walk_iff.2 ⟨a, rfl, hjob⟩, ?_⟩
    rw [Job.call?, hstage]
    simp [callTimes, houtcome, hwakeAt]
  have hticked : OnCourse setup { s with now := max s.now time } := by
    refine ⟨h.cancelled, h.single, h.proceed, h.present, fun a job call hjob hstage => ?_⟩
    have htracked := h.call a job call hjob hstage
    have hcall : s.callAt a = some call := by
      rw [callAt_of_jobAt (s := s) hjob, Job.call?, hstage]
    refine ⟨htracked.unasked, fun hasked => ?_, htracked.acts, fun houtcome until_ huntil => ?_⟩
    · rw [← htracked.fate hasked]
      exact Call.fate_congr _ _ ((hready a call hcall).imp_right (Or.imp_right And.right))
    · exact max_le (htracked.wakeAt houtcome until_ huntil)
        (hle a job call until_ hjob hstage houtcome huntil)
  have hfired : OnCourse setup ((({ s with now := max s.now time } : State).callsUnder []).foldl
      State.fire { s with now := max s.now time }) := by
    refine hticked.foldl_fire _ (nodup_callsUnder _ _) (fun a _ hmem => ?_) fun a _ => hready a
    rw [show ({ s with now := max s.now time } : State).agenda = [] from hagenda] at hmem
    exact List.not_mem_nil hmem
  unfold State.jump
  simp only
  split
  · rename_i hcancelAt
    refine hfired.cancelRun fun hnone => ?_
    rw [hnone] at hcancelAt
    cases hcancelAt
  · exact hfired

/-- A step of a run keeps all calls on course. -/
theorem step (h : OnCourse setup s) (hr : Reached setup tree s none) (htree : tree.Sound)
    (hmild : setup.Mild tree) (hstep : s.step setup = some t) : OnCourse setup t := by
  have hchanges := hr.step htree hstep
  by_cases hdoing : s.doing setup = .call
  · rcases step_cases hstep with ⟨task, agenda, hagenda, rfl⟩ | ⟨hagenda, _, time, htime, rfl⟩
    · rw [State.doing, hagenda] at hdoing
      cases task with
      | proceed a => exact h.proceed_task hmild hr htree hagenda
      | _ => cases hdoing
    · exact h.jump hr htree hagenda htime
  · exact hr.changes_induction (P := fun u _ => OnCourse setup u) hchanges h
      fun _ _ _ _ hu hchange honCourse => honCourse.change hu htree hmild hchange hdoing

end OnCourse

/-- The calls of every state of a run are on course, if it is stopped only as a whole. -/
theorem onCourse_runWithin (htree : tree.Sound) (hmild : setup.Mild tree) (steps : Nat) :
    OnCourse setup ((State.start setup tree).runWithin setup steps) :=
  Reached.start.runWithin_induction htree (.start setup tree)
    (fun _ _ hr hstep h => h.step hr htree hmild hstep) steps

/-- The end of a calm run is not asked for. -/
theorem cancelled_runWithin (htree : tree.Sound) (hcalm : setup.Calm tree) (steps : Nat) :
    ((State.start setup tree).runWithin setup steps).cancelled = false :=
  (onCourse_runWithin htree hcalm.mild steps).cancelled hcalm.cancelAt

end State
end Workflow
