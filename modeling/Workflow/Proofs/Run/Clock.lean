import Workflow.Proofs.Run.Steps

/-!
# Time and the ends of calls

Time passes only when nothing is left to do at an instant, and a call ends only when it goes on or
when its deadline has come. So what is known of a call that has ended was decided at the instant at
which its step is still to be told.

* `Call.Ends` says how a call ends by itself.
* `State.Still` says that no time has passed and that no call has ended between two states.
* `State.CallEnds` says at which instant of a run a call ends, and `State.callEnds_runWithin` that
  this is the instant at which the step waits to be told.
-/

namespace Workflow

/-- How a call ends by itself: the executor answers, or the deadline has come. -/
inductive Call.Ends (call : Call) (now : Int) : Except Failure Value → Prop
  | answered {outcome : Except Failure Value} : call.asked = true → call.acts = [] →
      call.ending = .answer outcome → Ends call now outcome
  | timedOut {deadline : Int} : call.deadline = some deadline → deadline ≤ now →
      Ends call now (.error (timeoutFailure call.agent (call.timeout.getD (.int 0))))

/-- A call at an instant: it has failed if its deadline has come, and else stops waiting if its time
has come. -/
def Call.fired (call : Call) (now : Int) : Call :=
  if call.outcome.isSome then call
  else if call.deadline.any (· ≤ now) then
    { call with
      wakeAt := none
      deadline := none
      outcome := some (.error (timeoutFailure call.agent (call.timeout.getD (.int 0))))
      told := true }
  else if call.wakeAt.any (· ≤ now) then { call with wakeAt := none }
  else call

theorem Call.fired_fired (call : Call) (now : Int) :
    (call.fired now).fired now = call.fired now := by
  by_cases houtcome : call.outcome.isSome
  · simp only [fired, if_pos houtcome]
  · by_cases hdeadline : call.deadline.any (· ≤ now)
    · simp [fired, houtcome, hdeadline]
    · by_cases hwake : call.wakeAt.any (· ≤ now) <;> simp [fired, houtcome, hdeadline, hwake]

theorem Call.outcome_fired {call : Call} {now : Int} {outcome : Except Failure Value}
    (h : (call.fired now).outcome = some outcome) :
    call.outcome = some outcome ∨ (call.outcome = none ∧ call.Ends now outcome) := by
  unfold fired at h
  split at h
  · exact .inl h
  · rename_i hnone
    rw [Option.not_isSome_iff_eq_none] at hnone
    split at h
    · rename_i hdeadline
      obtain ⟨deadline, hdeadline, hle⟩ := (Option.any_eq_true ..).1 hdeadline
      rw [← Option.some.inj h]
      exact .inr ⟨hnone, .timedOut hdeadline (of_decide_eq_true hle)⟩
    · split at h
      · exact .inl h
      · exact .inl h

namespace State

variable {setup : Setup} {tree : Node} {s t u : State} {hand after : Option Address}
  {doing : Doing} {a b : Address} {call call' : Call} {outcome : Except Failure Value}

/-! ## Calls and what becomes of nodes -/

theorem callAt_congr (h : t.jobAt a = s.jobAt a) : t.callAt a = s.callAt a := by
  rw [callAt_eq, callAt_eq, h]

theorem callAt_setStage (s : State) (a b : Address) (stage : Stage) :
    (s.setStage a stage).callAt b =
      if b = a then (s.jobAt b).bind fun job => ({ job with stage } : Job).call?
      else s.callAt b := by
  rw [callAt_eq, callAt_eq, jobAt_setStage]
  split
  · cases s.jobAt b <;> rfl
  · rfl

/-- What is recorded of a node does not matter to its call. -/
theorem callAt_modifyEntry (s : State) (a b : Address) (f : Entry → Entry) :
    (s.modifyEntry a f).callAt b = s.callAt b := by
  rw [callAt_eq, callAt_eq, jobAt_modifyEntry]
  split
  · cases s.jobAt b <;> rfl
  · rfl

theorem callAt_move (s : State) (a b : Address) (target : Status) (message : String) :
    (s.move a target message).callAt b = s.callAt b := by
  unfold State.move
  split
  · exact callAt_congr (jobAt_breakOff ..)
  · split
    · exact callAt_congr (jobAt_breakOff ..)
    · exact (callAt_congr (jobAt_note ..)).trans (callAt_modifyEntry ..)

theorem callAt_tell (s : State) (a b : Address) :
    (s.tell a).callAt b =
      if b = a then (s.callAt b).map fun call => { call with told := true } else s.callAt b := by
  rw [callAt_eq, callAt_eq, jobAt_tell]
  split
  · cases hjob : s.jobAt b with
    | none => rfl
    | some job => exact Job.call?_tell job
  · rfl

/-! ## Between two instants -/

/-- No time has passed, and no call has ended. -/
structure Still (s t : State) : Prop where
  now : t.now = s.now
  outcome : ∀ a call outcome, t.callAt a = some call → call.outcome = some outcome →
    ∃ call, s.callAt a = some call ∧ call.outcome = some outcome

namespace Still

theorem refl (s : State) : Still s s :=
  ⟨rfl, fun _ call _ hcall houtcome => ⟨call, hcall, houtcome⟩⟩

theorem trans (h : Still s t) (h' : Still t u) : Still s u := by
  refine ⟨h'.now.trans h.now, fun a call outcome hcall houtcome => ?_⟩
  obtain ⟨between, hbetween, houtcome'⟩ := h'.outcome a call outcome hcall houtcome
  exact h.outcome a between outcome hbetween houtcome'

theorem of_calls (hnow : t.now = s.now) (h : ∀ a, t.callAt a = s.callAt a) : Still s t :=
  ⟨hnow, fun a call _ hcall houtcome => ⟨call, (h a).symm.trans hcall, houtcome⟩⟩

/-- A node gets another stage, with no call that has ended. -/
theorem setStage (s : State) (a : Address) (stage : Stage)
    (h : ∀ call, stage = .calling call → call.outcome = none) : Still s (s.setStage a stage) := by
  refine ⟨rfl, fun b call outcome hcall houtcome => ?_⟩
  rw [callAt_setStage] at hcall
  split at hcall
  · obtain ⟨job, _, hjob⟩ := Option.bind_eq_some_iff.1 hcall
    have hstage : stage = .calling call := stage_of_call? hjob
    rw [h call hstage] at houtcome
    cases houtcome
  · exact ⟨call, hcall, houtcome⟩

theorem move (s : State) (a : Address) (f : Entry → Entry) (target : Status) (message : String) :
    Still s ((s.modifyEntry a f).move a target message) :=
  .of_calls (now_move ..) fun _ => (callAt_move ..).trans (callAt_modifyEntry ..)

theorem tell (s : State) (a : Address) : Still s (s.tell a) := by
  refine ⟨now_tell .., fun _ call outcome hcall houtcome => ?_⟩
  rw [callAt_tell] at hcall
  split at hcall
  · obtain ⟨old, hold, rfl⟩ := Option.map_eq_some_iff.1 hcall
    exact ⟨old, hold, houtcome⟩
  · exact ⟨call, hcall, houtcome⟩

theorem cancelRun (s : State) : Still s s.cancelRun :=
  cancelRun_induction (P := Still s) s (.refl s) (.of_calls rfl fun _ => rfl)
    fun t a ht => ht.trans (.tell t a)

theorem agenda (s : State) (agenda : List Task) : Still s { s with agenda } :=
  .of_calls rfl fun _ => rfl

end Still

/-- The instances of a loop wait for no call. -/
theorem Still.expansion {job : Job} {frame : Frame} (hexp : Expansion s a job frame t)
    (hshape : Shape tree s) : Still s t := by
  refine ⟨by rw [hexp.eq]; rfl, fun b call outcome hcall houtcome => ?_⟩
  obtain ⟨body, hbody⟩ := (hshape.sound a job hexp.jobAt).exists_body hexp.kind
  obtain ⟨new, hnew, hstage⟩ := jobAt_of_callAt hcall
  rcases hexp.cases hbody hnew with ⟨hout, hold⟩ | ⟨rfl, rfl⟩ | ⟨i, c, rfl, _, hfresh⟩
  · exact ⟨call, (callAt_congr (hexp.jobAt_of_not_prefix hout)).symm.trans hcall, houtcome⟩
  · cases hstage
  · obtain ⟨_, _, rfl, _⟩ := Live.jobAt_ofNode hfresh
    cases hstage

/-- Only while calls go on time passes and calls end. -/
theorem Change.still (h : Change setup doing s hand t after) (hshape : Shape tree s)
    (hdoing : doing ≠ .call) : Still s t := by
  cases h with
  | begin => exact .of_calls (now_move ..) (callAt_move _ _ · _ _)
  | leave => exact .of_calls (now_move ..) (callAt_move _ _ · _ _)
  | bindStep => exact .of_calls rfl (callAt_modifyEntry _ _ · _)
  | succeed => exact .move ..
  | fail => exact .move ..
  | stop => exact .move ..
  | release =>
    refine .of_calls ?_ fun b => callAt_congr (jobAt_reported ..)
    unfold State.reported
    split <;> rfl
  | host => exact .setStage _ _ _ fun _ h => by cases h
  | expand frame hjob hrun hkind harity hwinner hwinner' =>
    exact .expansion ⟨hjob, hrun, hkind, harity, hwinner, hwinner', rfl⟩ hshape
  | callOut =>
    refine Still.trans (.setStage s _ _ fun call h => ?_) (.agenda _ _)
    rw [← Stage.calling.inj h]
  | @count a i job frame kid rest =>
    have hstage : Still s
        (({ s with agenda := rest } : State).setStage a (.hosting (nextFrame job frame i kid))) :=
      (Still.agenda s rest).trans (.setStage _ _ _ fun _ h => by cases h)
    unfold counted
    split
    · exact hstage.trans (.agenda _ _)
    · exact hstage
  | @takeWake a call rest =>
    exact (Still.agenda s rest).trans (.setStage _ _ _ fun _ h => by cases h)
  | ask inputs hcall _ houtcome =>
    refine Still.trans (.setStage s _ _ fun call h => ?_) (.of_calls rfl fun _ => rfl)
    rw [← Stage.calling.inj h]
    exact houtcome
  | @goOn a call acts wakeAt agenda hcall houtcome =>
    refine (Still.agenda s agenda).trans (.setStage _ _ _ fun call h => ?_)
    rw [← Stage.calling.inj h]
    exact houtcome
  | answer _ _ _ _ _ _ _ _ hcall => exact absurd hcall hdoing
  | tell => exact .tell _ _
  | cancelRun hcall => exact absurd hcall hdoing
  | tick _ hcall => exact absurd hcall hdoing
  | _ => exact .of_calls rfl fun _ => rfl

theorem Changes.still (h : Changes setup doing s hand t after) (hr : Reached setup tree s hand)
    (htree : tree.Sound) (hdoing : doing ≠ .call) : Still s t :=
  hr.changes_induction (P := fun u _ => Still s u) h (.refl s)
    fun _ _ _ _ hu hchange hstill => hstill.trans (hchange.still (hu.shape htree) hdoing)

/-! ## Calls that go on -/

/-- No time has passed, and calls have ended only by themselves. -/
structure Advances (s t : State) : Prop where
  now : t.now = s.now
  outcome : ∀ a call' outcome, t.callAt a = some call' → call'.outcome = some outcome →
    ∃ call, s.callAt a = some call ∧
      (call.outcome = some outcome ∨ (call.outcome = none ∧ call.Ends s.now outcome))

theorem Still.advances (h : Still s t) : Advances s t := by
  refine ⟨h.now, fun a call' outcome hcall houtcome => ?_⟩
  obtain ⟨call, hcall, houtcome⟩ := h.outcome a call' outcome hcall houtcome
  exact ⟨call, hcall, .inl houtcome⟩

theorem advances_act (s : State) (hcall : s.callAt a = some call) (houtcome : call.outcome = none)
    (hasked : call.asked = true) : Advances s (s.act a call) := by
  unfold State.act
  split
  · rename_i hacts
    split
    · rename_i outcome hending
      refine ⟨now_tell .., fun b call' outcome' hcall' houtcome' => ?_⟩
      obtain ⟨call'', hcall'', houtcome''⟩ :=
        (Still.tell _ a).outcome b call' outcome' hcall' houtcome'
      rw [callAt_setStage] at hcall''
      split at hcall''
      · rename_i hb
        obtain ⟨job, _, hjob⟩ := Option.bind_eq_some_iff.1 hcall''
        rw [← Stage.calling.inj (stage_of_call? hjob), Option.some.injEq] at houtcome''
        subst hb houtcome''
        exact ⟨call, hcall, .inr ⟨houtcome, .answered hasked hacts hending⟩⟩
      · exact ⟨call'', hcall'', .inl houtcome''⟩
    · exact (Still.refl s).advances
  · refine Still.advances (Still.trans (.trans (.setStage s _ _ fun call' h => ?_)
      (.cancelRun _)) (.agenda _ _))
    rw [← Stage.calling.inj h]
    exact houtcome
  · split
    · refine Still.advances (Still.trans (.setStage s _ _ fun call' h => ?_) (.agenda _ _))
      rw [← Stage.calling.inj h]
      exact houtcome
    · refine Still.advances (.setStage s _ _ fun call' h => ?_)
      rw [← Stage.calling.inj h]
      exact houtcome

theorem advances_proceed (s : State) (setup : Setup) (a : Address) :
    Advances s (s.proceed setup a) := by
  unfold State.proceed
  split
  · have hstill : Still s (s.breakOff (.noNode a)) := .of_calls rfl fun _ => rfl
    exact hstill.advances
  · rename_i live hlive
    split
    · exact (Still.refl s).advances
    · rename_i call hcall
      have hcallAt : s.callAt a = some call := by rw [State.callAt, hlive]; exact hcall
      split
      · exact (Still.refl s).advances
      · rename_i houtcome
        rw [Option.not_isSome_iff_eq_none] at houtcome
        split
        · rename_i hasked
          exact advances_act s hcallAt houtcome hasked
        · refine Still.advances (Still.trans (.setStage s _ _ fun call' h => ?_)
            (.of_calls rfl fun _ => rfl))
          rw [← Stage.calling.inj h]
          exact houtcome

/-! ## Calls whose time has come -/

theorem fire_of_callAt_eq_none (h : s.callAt a = none) : s.fire a = s := by
  rw [State.fire, h]

/-- The call of a node is treated as it is at this instant. -/
theorem jobAt_fire {job : Job} (hjob : s.jobAt a = some job) (hstage : job.stage = .calling call)
    (b : Address) : (s.fire a).jobAt b =
      if b = a then some { job with stage := .calling (call.fired s.now) } else s.jobAt b := by
  have hcall : s.callAt a = some call := by rw [callAt_of_jobAt hjob, Job.call?, hstage]
  have hset (call' : Call) := jobAt_setStage_of_jobAt hjob (.calling call') b
  have hsame : s.jobAt b = if b = a then some { job with stage := .calling call } else s.jobAt b := by
    split
    · rename_i hb
      rw [hb, hjob, ← hstage]
    · rfl
  unfold State.fire
  rw [hcall, Call.fired]
  simp only
  split
  · exact hsame
  · split
    · rw [jobAt_tell, hset]
      split
      · rfl
      · rfl
    · split
      · exact hset _
      · exact hsame

theorem callAt_fire (s : State) (a b : Address) : (s.fire a).callAt b =
    if b = a then (s.callAt b).map fun call => call.fired s.now else s.callAt b := by
  cases hcall : s.callAt a with
  | none =>
    rw [fire_of_callAt_eq_none hcall]
    split
    · rename_i hb
      rw [hb, hcall]
      rfl
    · rfl
  | some call =>
    obtain ⟨job, hjob, hstage⟩ := jobAt_of_callAt hcall
    rw [callAt_eq, jobAt_fire hjob hstage]
    split
    · rename_i hb
      rw [hb, hcall]
      rfl
    · rw [callAt_eq]

theorem now_fire (s : State) (a : Address) : (s.fire a).now = s.now := by
  unfold State.fire
  repeat' split
  all_goals first | rfl | exact now_tell ..

theorem now_foldl_fire (l : List Address) (s : State) : (l.foldl fire s).now = s.now := by
  induction l generalizing s with
  | nil => rfl
  | cons a l ih => rw [List.foldl_cons, ih, now_fire]

/-- Every call of a list whose time has come ends or goes on. -/
theorem callAt_foldl_fire (l : List Address) (s : State) (b : Address) :
    (l.foldl fire s).callAt b =
      if b ∈ l then (s.callAt b).map fun call => call.fired s.now else s.callAt b := by
  induction l generalizing s with
  | nil => simp
  | cons a l ih =>
    rw [List.foldl_cons, ih, callAt_fire, now_fire]
    by_cases hb : b = a
    · cases hcall : s.callAt b <;> simp [hb, Call.fired_fired]
    · simp [hb]

/-- When time has passed, calls have ended only by themselves. -/
theorem outcome_jump {time : Int} (hcall : (s.jump setup time).callAt a = some call')
    (houtcome : call'.outcome = some outcome) : ∃ call, s.callAt a = some call ∧
      (call.outcome = some outcome ∨
        (call.outcome = none ∧ call.Ends (s.jump setup time).now outcome)) := by
  set later : State := { s with now := max s.now time }
  set fired := (later.callsUnder []).foldl fire later with hfired
  have hstill : Still fired (s.jump setup time) := by
    change Still fired (if _ then fired.cancelRun else fired)
    split
    · exact .cancelRun _
    · exact .refl _
  obtain ⟨between, hbetween, houtcome⟩ := hstill.outcome a call' outcome hcall houtcome
  rw [hstill.now, hfired, now_foldl_fire]
  rw [hfired, callAt_foldl_fire] at hbetween
  split at hbetween
  · obtain ⟨call, hcall, rfl⟩ := Option.map_eq_some_iff.1 hbetween
    exact ⟨call, hcall, Call.outcome_fired houtcome⟩
  · exact ⟨between, hbetween, .inl houtcome⟩

/-! ## Steps -/

/-- No time passes while something is left to do. -/
theorem Reached.advances (h : Reached setup tree s none) (htree : tree.Sound)
    (hstep : s.step setup = some t) (hagenda : s.agenda ≠ []) : Advances s t := by
  by_cases hdoing : s.doing setup = .call
  · obtain ⟨task, rest, hcons⟩ := List.exists_cons_of_ne_nil hagenda
    obtain ⟨a, rfl⟩ : ∃ a, task = .proceed a := by
      unfold State.doing at hdoing
      rw [hcons] at hdoing
      cases task with
      | proceed a => exact ⟨a, rfl⟩
      | _ => cases hdoing
    rw [eq_perform_of_step hstep hcons]
    have hadvances := advances_proceed { s with agenda := rest } setup a
    exact ⟨hadvances.now, hadvances.outcome⟩
  · exact ((h.step htree hstep).still h htree hdoing).advances

/-- A call ends only by itself. -/
theorem Reached.outcome_step (h : Reached setup tree s none) (htree : tree.Sound)
    (hstep : s.step setup = some t) (hcall : t.callAt a = some call')
    (houtcome : call'.outcome = some outcome) : ∃ call, s.callAt a = some call ∧
      (call.outcome = some outcome ∨ (call.outcome = none ∧ call.Ends t.now outcome)) := by
  by_cases hagenda : s.agenda = []
  · obtain ⟨time, _, rfl⟩ := eq_jump_of_step hstep hagenda
    exact outcome_jump hcall houtcome
  · have hadvances := h.advances htree hstep hagenda
    rw [hadvances.now]
    exact hadvances.outcome a call' outcome hcall houtcome

/-! ## Runs -/

/-- In the run of the tree the call of the node at an address ends with an outcome at an instant. -/
def CallEnds (setup : Setup) (tree : Node) (a : Address) (time : Int)
    (outcome : Except Failure Value) : Prop :=
  ∃ steps call call', ((start setup tree).runWithin setup steps).callAt a = some call ∧
    call.outcome = none ∧ call.Ends time outcome ∧
    ((start setup tree).runWithin setup (steps + 1)).callAt a = some call' ∧
    call'.outcome = some outcome ∧ ((start setup tree).runWithin setup (steps + 1)).now = time

/-- A call that has ended has ended at this instant. -/
theorem callEnds_runWithin (htree : tree.Sound) (steps : Nat)
    (hcall : ((start setup tree).runWithin setup steps).callAt a = some call)
    (houtcome : call.outcome = some outcome) :
    CallEnds setup tree a ((start setup tree).runWithin setup steps).now outcome := by
  have hstart : Reached setup tree (start setup tree) none := .start
  induction steps generalizing call with
  | zero =>
    -- no call is under way before the start
    obtain ⟨job, hjob, hstage⟩ := jobAt_of_callAt hcall
    obtain ⟨_, _, rfl, _⟩ := Live.jobAt_ofNode hjob
    cases hstage
  | succ steps ih =>
    have hreached := hstart.runWithin htree steps
    rw [runWithin_succ] at hcall ⊢
    cases hstep : ((start setup tree).runWithin setup steps).step setup with
    | none =>
      rw [hstep, Option.getD_none] at hcall
      exact ih hcall houtcome
    | some t =>
      rw [hstep, Option.getD_some] at hcall
      rw [Option.getD_some]
      obtain ⟨before, hbefore, hended | ⟨hnone, hends⟩⟩ :=
        hreached.outcome_step htree hstep hcall houtcome
      · -- the step is still to be told, so that time has not passed
        obtain ⟨job, hjob, hstage⟩ := jobAt_of_callAt hbefore
        have htold := (hreached.waiting htree hjob hstage).ended (by rw [hended]; rfl)
        have hwake := ((hreached.control htree).of_calling hjob hstage).2.2.2 htold
        rw [(hreached.advances htree hstep (List.ne_nil_of_mem hwake)).now]
        exact ih hbefore hended
      · refine ⟨steps, before, call, hbefore, hnone, hends, ?_, houtcome, ?_⟩
        · rw [runWithin_succ_of_step hstep, hcall]
        · rw [runWithin_succ_of_step hstep]

end State
end Workflow
