import Workflow.Proofs.Run.Callers
import Workflow.Proofs.Run.Turn
import Workflow.Proofs.Run.Wake

/-!
# Calls that the executor is asked for

A step that begins to wait is put behind everything else, and asks the executor when its turn comes.
Whatever else tells it to stop in the meantime comes behind that, so that the executor is always asked.

* `State.invocations` are the calls that the executor has been asked for.
* `State.Unasked` says that a step waits for a call that is not among them yet.
* `State.Queued` says that the turns of these steps are going to come, and `State.queued_runWithin`
  that this holds of every state of a run.
* `State.Reached.unasked_step` and `State.Queued.unasked_proceed` say what a step of a run does to
  them.
-/

namespace Workflow.State

variable {setup : Setup} {tree : Node} {s t : State} {hand after : Option Address} {doing : Doing}
  {a b : Address} {job : Job} {call : Call} {rest : List Task}

/-! ## The calls so far -/

/-- The calls that the executor has been asked for, in order. -/
def invocations (s : State) : List Invocation :=
  s.history.reverse.filterMap Occurrence.invocation?

theorem invocations_congr (h : t.history = s.history) : t.invocations = s.invocations := by
  rw [invocations, invocations, h]

@[simp] theorem invocations_move (s : State) (a : Address) (target : Status) (message : String) :
    (s.move a target message).invocations = s.invocations := by
  unfold move
  split
  · rfl
  · split
    · rfl
    · simp [invocations, note, modifyEntry, modify, Occurrence.invocation?]

@[simp] theorem invocations_tell (s : State) (a : Address) :
    (s.tell a).invocations = s.invocations :=
  invocations_congr (history_tell ..)

@[simp] theorem invocations_cancelRun (s : State) : s.cancelRun.invocations = s.invocations :=
  cancelRun_induction (P := fun t => t.invocations = s.invocations) s rfl rfl
    fun t b ht => (invocations_tell t b).trans ht

theorem invocations_ask (s : State) (setup : Setup) (a : Address) (inputs : Fields Value)
    (call : Call) : (s.ask setup a inputs call).invocations =
      s.invocations ++ [⟨s.now, call.agent, inputs⟩] := by
  simp [invocations, ask, note, setStage, modify, Occurrence.invocation?]

/-- The executor is asked only while calls go on. -/
theorem Change.invocations_eq (h : Change setup doing s hand t after) (hdoing : doing ≠ .call) :
    t.invocations = s.invocations := by
  cases h with
  | begin | leave => exact invocations_move ..
  | succeed | fail | stop => exact (invocations_move ..).trans rfl
  | release =>
    rw [reported]
    split <;> rfl
  | count =>
    rw [counted]
    split <;> rfl
  | tell => exact invocations_tell ..
  | dropProceed _ _ hcall => exact absurd hcall hdoing
  | ask _ _ _ _ _ hcall => exact absurd hcall hdoing
  | goOn _ _ _ _ _ _ _ _ hcall => exact absurd hcall hdoing
  | answer _ _ _ _ _ _ _ _ hcall => exact absurd hcall hdoing
  | cancelRun hcall => exact absurd hcall hdoing
  | tick _ hcall => exact absurd hcall hdoing
  | _ => rfl

/-! ## Tasks in front of others -/

/-- The node goes on with its call before it is told anything. -/
def Ahead (a : Address) (agenda : List Task) : Prop :=
  ∃ front back, agenda = front ++ .proceed a :: back ∧ .wake a ∉ front

namespace Ahead

theorem not_nil (a : Address) : ¬ Ahead a [] := by
  rintro ⟨front, back, heq, _⟩
  cases front <;> cases heq

theorem not_wake (a : Address) (rest : List Task) : ¬ Ahead a (.wake a :: rest) := by
  rintro ⟨front, back, heq, hnot⟩
  cases front with
  | nil => cases heq
  | cons task front =>
    rw [List.cons_append, List.cons.injEq] at heq
    exact hnot (heq.1 ▸ List.mem_cons_self)

/-- The task in front is another one. -/
theorem tail {task : Task} (h : Ahead a (task :: rest)) (htask : task ≠ .proceed a) :
    Ahead a rest := by
  obtain ⟨front, back, heq, hnot⟩ := h
  cases front with
  | nil =>
    rw [List.nil_append, List.cons.injEq] at heq
    exact absurd heq.1 htask
  | cons other front =>
    rw [List.cons_append, List.cons.injEq] at heq
    exact ⟨front, back, heq.2, fun hmem => hnot (List.mem_cons_of_mem _ hmem)⟩

/-- Something else comes first. -/
theorem cons {task : Task} {agenda : List Task} (h : Ahead a agenda) (htask : task ≠ .wake a) :
    Ahead a (task :: agenda) := by
  obtain ⟨front, back, rfl, hnot⟩ := h
  refine ⟨task :: front, back, rfl, ?_⟩
  rw [List.mem_cons, not_or]
  exact ⟨htask.symm, hnot⟩

/-- Something else comes last. -/
theorem append {agenda : List Task} (h : Ahead a agenda) (tasks : List Task) :
    Ahead a (agenda ++ tasks) := by
  obtain ⟨front, back, rfl, hnot⟩ := h
  exact ⟨front, back ++ tasks, by simp, hnot⟩

theorem tell (h : Ahead b s.agenda) (a : Address) : Ahead b (s.tell a).agenda := by
  cases hcall : s.callAt a with
  | none => rwa [tell_of_callAt_eq_none _ _ hcall]
  | some call =>
    rw [agenda_tell _ _ hcall]
    split
    · exact h
    · exact h.append _

theorem cancelRun (h : Ahead b s.agenda) : Ahead b s.cancelRun.agenda :=
  cancelRun_induction (P := fun t => Ahead b t.agenda) s h h fun _ a ht => ht.tell a

/-- Unless calls go on, only other tasks are taken from the agenda, and nothing is told in front of
it. -/
theorem change (h : Ahead b s.agenda) (hchange : Change setup doing s hand t after)
    (hdoing : doing ≠ .call) : Ahead b t.agenda := by
  cases hchange with
  | takeEnter hagenda =>
    rw [hagenda] at h
    exact h.tail (by simp)
  | begin | leave => rwa [agenda_move]
  | succeed | fail | stop => exact (agenda_move ..).symm ▸ h
  | release =>
    rw [reported]
    split
    · exact h
    · exact h.cons (by simp)
  | callOut => exact h.append _
  | enterNext | enterChosen => exact h.cons (by simp)
  | fill | gather => exact h.append _
  | takeReport hagenda =>
    rw [hagenda] at h
    exact h.tail (by simp)
  | count hagenda =>
    rw [hagenda] at h
    rw [counted]
    split
    · exact (h.tail (by simp)).append _
    · exact h.tail (by simp)
  | takeJoin hagenda =>
    rw [hagenda] at h
    exact h.tail (by simp)
  | takeWake hagenda =>
    rw [hagenda] at h
    exact h.tail (by simp)
  | tell => exact h.tell _
  | dropProceed _ _ hcall => exact absurd hcall hdoing
  | ask _ _ _ _ _ hcall => exact absurd hcall hdoing
  | goOn _ _ _ _ _ _ _ _ hcall => exact absurd hcall hdoing
  | answer _ _ _ _ _ _ _ _ hcall => exact absurd hcall hdoing
  | cancelRun hcall => exact absurd hcall hdoing
  | tick _ hcall => exact absurd hcall hdoing
  | _ => exact h

end Ahead

/-! ## Calls that have not begun -/

/-- The node waits for a call that the executor has not been asked for. -/
def Unasked (s : State) (a : Address) : Prop :=
  ∃ call, s.callAt a = some call ∧ call.asked = false

/-- Calls that have not begun have not ended either, and begin before their nodes are told
anything. -/
structure Queued (s : State) : Prop where
  ahead : ∀ a, Unasked s a → Ahead a s.agenda
  outcome : ∀ a call, s.callAt a = some call → call.asked = false → call.outcome = none

theorem not_unasked_start (setup : Setup) (tree : Node) (a : Address) :
    ¬ Unasked (State.start setup tree) a := by
  rintro ⟨call, hcall, _⟩
  obtain ⟨job, hjob, hstage⟩ := jobAt_of_callAt hcall
  obtain ⟨path, node, rfl, _⟩ := Live.jobAt_ofNode hjob
  cases hstage

/-- Unless calls go on, a call is as far as it was, or it is new. -/
theorem Change.callAt_cases (hchange : Change setup doing s hand t after)
    (hcontrol : Control setup s hand) (hshape : Shape tree s) (hdoing : doing ≠ .call)
    (hcall : t.callAt b = some call) :
    (∃ old, s.callAt b = some old ∧ call.asked = old.asked ∧ call.outcome = old.outcome) ∨
      (call.asked = false ∧ call.outcome = none ∧ (∃ o, doing = .start b o) ∧
        Ahead b t.agenda) := by
  cases hchange.calls hcontrol hshape hdoing with
  | same hsame =>
    rw [callAt_eq_callerAt, hsame.caller, ← callAt_eq_callerAt] at hcall
    exact .inl ⟨call, hcall, rfl, rfl⟩
  | @begun a job _ _ o hjob hidle _ _ hstart ht =>
    subst ht
    change ((s.setStage a _).callAt b) = some call at hcall
    rw [callAt_setStage] at hcall
    split at hcall
    · rename_i hb
      subst hb
      rw [hjob] at hcall
      cases hcall
      refine .inr ⟨rfl, rfl, ⟨o, hstart⟩, s.agenda, [], rfl, fun hwake => ?_⟩
      obtain ⟨_, _, hjob', _, hstage, _⟩ := hcontrol.proper _ hwake
      rw [hjob, Option.some.injEq] at hjob'
      rw [← hjob', hidle] at hstage
      cases hstage
    · exact .inl ⟨call, hcall, rfl, rfl⟩
  | woken _ _ ht =>
    subst ht
    rw [callAt_setStage] at hcall
    split at hcall
    · obtain ⟨_, _, hnone⟩ := Option.bind_eq_some_iff.1 hcall
      cases hnone
    · exact .inl ⟨call, hcall, rfl, rfl⟩
  | told _ ht =>
    subst ht
    rw [callAt_tell] at hcall
    split at hcall
    · obtain ⟨old, hold, rfl⟩ := Option.map_eq_some_iff.1 hcall
      exact .inl ⟨old, hold, rfl, rfl⟩
    · exact .inl ⟨call, hcall, rfl, rfl⟩

theorem Changes.callAt_cases (h : Changes setup doing s hand t after)
    (hr : Reached setup tree s hand) (htree : tree.Sound) (hdoing : doing ≠ .call)
    (hcall : t.callAt b = some call) :
    (∃ old, s.callAt b = some old ∧ call.asked = old.asked) ∨
      (call.asked = false ∧ ∃ o, doing = .start b o) := by
  revert call
  refine hr.changes_induction (P := fun u _ =>
    ∀ call, u.callAt b = some call → (∃ old, s.callAt b = some old ∧ call.asked = old.asked) ∨
      (call.asked = false ∧ ∃ o, doing = .start b o)) h
    (fun call hcall => .inl ⟨call, hcall, rfl⟩) ?_ _
  intro u v between next hu hchange ih call hcall
  rcases hchange.callAt_cases (hu.control htree) (hu.shape htree) hdoing hcall with
    ⟨old, hold, hasked, _⟩ | ⟨hasked, _, hstart, _⟩
  · rw [hasked]
    exact ih old hold
  · exact .inr ⟨hasked, hstart⟩

namespace Queued

theorem start (setup : Setup) (tree : Node) : Queued (State.start setup tree) :=
  ⟨fun a hunasked => absurd hunasked (not_unasked_start setup tree a), fun a call hcall hasked =>
    absurd ⟨call, hcall, hasked⟩ (not_unasked_start setup tree a)⟩

theorem change (h : Queued s) (hcontrol : Control setup s hand) (hshape : Shape tree s)
    (hchange : Change setup doing s hand t after) (hdoing : doing ≠ .call) : Queued t := by
  constructor
  · rintro b ⟨call, hcall, hasked⟩
    rcases hchange.callAt_cases hcontrol hshape hdoing hcall with
      ⟨old, hold, hsame, _⟩ | ⟨_, _, _, hahead⟩
    · exact (h.ahead b ⟨old, hold, hsame ▸ hasked⟩).change hchange hdoing
    · exact hahead
  · intro b call hcall hasked
    rcases hchange.callAt_cases hcontrol hshape hdoing hcall with
      ⟨old, hold, hsame, houtcome⟩ | ⟨_, hnone, _⟩
    · rw [houtcome]
      exact h.outcome b old hold (hsame ▸ hasked)
    · exact hnone

theorem changes (h : Queued s) (hr : Reached setup tree s hand) (htree : tree.Sound)
    (hchanges : Changes setup doing s hand t after) (hdoing : doing ≠ .call) : Queued t :=
  hr.changes_induction (P := fun u _ => Queued u) hchanges h fun _ _ _ _ hu hchange hqueued =>
    hqueued.change (hu.control htree) (hu.shape htree) hchange hdoing

end Queued

/-! ## Calls that go on -/

/-- How far a call has come: whether it has been asked for, and how it has ended. -/
def callProgress (call : Call) : Bool × Option (Except Failure Value) :=
  (call.asked, call.outcome)

theorem progress_tell (s : State) (a b : Address) :
    ((s.tell a).callAt b).map callProgress = (s.callAt b).map callProgress := by
  rw [callAt_tell]
  split
  · rw [Option.map_map]
    rfl
  · rfl

theorem progress_cancelRun (s : State) (b : Address) :
    (s.cancelRun.callAt b).map callProgress = (s.callAt b).map callProgress :=
  cancelRun_induction
    (P := fun t => (t.callAt b).map callProgress = (s.callAt b).map callProgress) s rfl rfl
    fun t a ht => (progress_tell t a b).trans ht

/-- A call that has been asked for goes on, or the executor is asked for it; the other calls are as far
as they were. -/
structure Proceeds (s : State) (a : Address) (t : State) : Prop where
  other : ∀ b, b ≠ a → (t.callAt b).map callProgress = (s.callAt b).map callProgress
  self : ∀ call, t.callAt a = some call → call.asked = true
  ahead : ∀ b, b ≠ a → Ahead b s.agenda → Ahead b t.agenda

namespace Proceeds

theorem unasked_iff (h : Proceeds s a t) (b : Address) : Unasked t b ↔ Unasked s b ∧ b ≠ a := by
  by_cases hb : b = a
  · subst hb
    refine ⟨fun ⟨call, hcall, hasked⟩ => ?_, fun hne => absurd rfl hne.2⟩
    rw [h.self call hcall] at hasked
    cases hasked
  · have hother := h.other b hb
    rw [Unasked, Unasked]
    cases hs : s.callAt b <;> cases ht : t.callAt b <;>
      simp_all [callProgress]

theorem queued (h : Proceeds s a t) (hqueued : Queued s) : Queued t := by
  constructor
  · intro b hb
    obtain ⟨hunasked, hne⟩ := (h.unasked_iff b).1 hb
    exact h.ahead b hne (hqueued.ahead b hunasked)
  · intro b call hcall hasked
    obtain ⟨⟨old, hold, hold'⟩, hne⟩ := (h.unasked_iff b).1 ⟨call, hcall, hasked⟩
    have hother := h.other b hne
    rw [hcall, hold, Option.map_some, Option.map_some, Option.some.injEq] at hother
    rw [← hqueued.outcome b old hold hold']
    exact congrArg Prod.snd hother

end Proceeds

theorem proceeds_act (hcall : s.callAt a = some call) (hasked : call.asked = true) :
    Proceeds s a (s.act a call) := by
  obtain ⟨job, hjob, _⟩ := jobAt_of_callAt hcall
  have hother (call' : Call) (b : Address) (hb : b ≠ a) :
      (s.setStage a (.calling call')).callAt b = s.callAt b := by
    rw [callAt_setStage, if_neg hb]
  have hself (call' : Call) : (s.setStage a (.calling call')).callAt a = some call' := by
    rw [callAt_setStage, if_pos rfl, hjob]
    rfl
  unfold State.act
  split
  · split
    · rename_i outcome _
      refine ⟨fun b hb => ?_, fun call' hcall' => ?_, fun b _ hahead => ?_⟩
      · rw [progress_tell, hother _ b hb]
      · have hsame := progress_tell (s.setStage a (.calling { call with outcome := some outcome })) a a
        rw [hself, hcall', Option.map_some, Option.map_some, Option.some.injEq] at hsame
        exact (congrArg Prod.fst hsame).trans hasked
      · exact Ahead.tell (s := s.setStage a _) hahead a
    · refine ⟨fun _ _ => rfl, fun call' hcall' => ?_, fun _ _ hahead => hahead⟩
      rw [hcall, Option.some.injEq] at hcall'
      exact hcall' ▸ hasked
  · rename_i acts _
    refine ⟨fun b hb => ?_, fun call' hcall' => ?_, fun b hb hahead => ?_⟩
    · exact (progress_cancelRun _ b).trans (by rw [hother _ b hb])
    · have hsame := progress_cancelRun (s.setStage a (.calling { call with acts })) a
      change (s.setStage a (.calling { call with acts })).cancelRun.callAt a = some call' at hcall'
      rw [hself, hcall', Option.map_some, Option.map_some, Option.some.injEq] at hsame
      exact (congrArg Prod.fst hsame).trans hasked
    · exact (Ahead.cancelRun (s := s.setStage a _) hahead).cons (by simp)
  · have hlater (call' : Call) (tasks : List Task) (hasked' : call'.asked = true) :
        Proceeds s a { s.setStage a (.calling call') with agenda := s.agenda ++ tasks } := by
      refine ⟨fun b hb => ?_, fun call'' hcall'' => ?_, fun b _ hahead => hahead.append tasks⟩
      · exact congrArg _ (hother call' b hb)
      · rw [← Option.some.inj ((hself call').symm.trans hcall'')]
        exact hasked'
    rename_i time acts _
    split
    · exact hlater _ [.proceed a] hasked
    · have hwait := hlater { call with acts, wakeAt := some (s.now + time) } [] hasked
      rw [List.append_nil] at hwait
      exact hwait

theorem invocations_act (s : State) (a : Address) (call : Call) :
    (s.act a call).invocations = s.invocations := by
  unfold State.act
  split
  · split
    · exact invocations_tell ..
    · rfl
  · exact invocations_cancelRun ..
  · split <;> rfl

/-- The call of the node in front of the agenda goes on, or begins if the executor has not been asked for
it. -/
theorem Queued.proceeds (h : Queued s) (setup : Setup) (hagenda : s.agenda = .proceed a :: rest) :
    Proceeds s a (({ s with agenda := rest } : State).proceed setup a) := by
  have htail {b : Address} (hb : b ≠ a) (hahead : Ahead b s.agenda) : Ahead b rest := by
    rw [hagenda] at hahead
    exact hahead.tail fun heq => hb (Task.proceed.inj heq).symm
  have hstay (hself : ∀ call, s.callAt a = some call → call.asked = true) :
      Proceeds s a { s with agenda := rest } := ⟨fun _ _ => rfl, hself, fun _ => htail⟩
  unfold State.proceed
  split
  · rename_i hnone
    refine ⟨fun _ _ => rfl, fun call hcall => ?_, fun _ => htail⟩
    change (s.root.at? a).bind _ = _ at hcall
    rw [hnone] at hcall
    cases hcall
  · rename_i live hlive
    have hcallAt : s.callAt a = live.job.call? := by rw [callAt, hlive]; rfl
    split
    · rename_i hnone
      exact hstay fun call hcall => by rw [hcallAt, hnone] at hcall; cases hcall
    · rename_i call hcall?
      rw [hcall?] at hcallAt
      split
      · rename_i houtcome
        refine hstay fun other hother => ?_
        rw [hcallAt, Option.some.injEq] at hother
        subst hother
        by_contra hasked
        rw [Bool.not_eq_true] at hasked
        rw [h.outcome a call hcallAt hasked] at houtcome
        cases houtcome
      · split
        · rename_i hasked
          have hact := proceeds_act (s := { s with agenda := rest }) hcallAt hasked
          exact ⟨hact.other, hact.self, fun b hb hahead => hact.ahead b hb (htail hb hahead)⟩
        · refine ⟨fun b hb => ?_, fun call' hcall' => ?_, fun b hb hahead => ?_⟩
          · change (((({ s with agenda := rest } : State).setStage a _).callAt b).map callProgress) = _
            rw [callAt_setStage, if_neg hb]
            rfl
          · change (({ s with agenda := rest } : State).setStage a _).callAt a = some call' at hcall'
            rw [callAt_setStage, if_pos rfl] at hcall'
            obtain ⟨_, _, hcall'⟩ := Option.bind_eq_some_iff.1 hcall'
            cases hcall'
            rfl
          · exact (htail hb hahead).cons (by simp)

/-- The executor is asked once for every call that begins. -/
theorem Queued.invocations_proceed (h : Queued s) (setup : Setup) (a : Address)
    (rest : List Task) :
    (¬ Unasked s a ∧
      (({ s with agenda := rest } : State).proceed setup a).invocations = s.invocations) ∨
    ∃ job call, s.jobAt a = some job ∧ job.stage = .calling call ∧ call.asked = false ∧
      (({ s with agenda := rest } : State).proceed setup a).invocations =
        s.invocations ++ [⟨s.now, call.agent, job.entry.inputs⟩] := by
  have hnot {call : Call} (hcall : s.callAt a = some call) (hasked : call.asked = true) :
      ¬ Unasked s a := by
    rintro ⟨other, hother, hother'⟩
    rw [hcall, Option.some.injEq] at hother
    rw [hother, hother'] at hasked
    cases hasked
  unfold State.proceed
  split
  · rename_i hnone
    refine .inl ⟨?_, rfl⟩
    rintro ⟨call, hcall, _⟩
    change (s.root.at? a).bind _ = _ at hcall
    rw [hnone] at hcall
    cases hcall
  · rename_i live hlive
    have hcallAt : s.callAt a = live.job.call? := by rw [callAt, hlive]; rfl
    split
    · rename_i hnone
      refine .inl ⟨?_, rfl⟩
      rintro ⟨call, hcall, _⟩
      rw [hcallAt, hnone] at hcall
      cases hcall
    · rename_i call hcall?
      rw [hcall?] at hcallAt
      cases hasked : call.asked with
      | true =>
        refine .inl ⟨hnot hcallAt hasked, ?_⟩
        split
        · rfl
        · rw [if_pos rfl]
          exact invocations_act ..
      | false =>
        obtain ⟨job, kids⟩ := live
        refine .inr ⟨job, call, jobAt_of_at? hlive, stage_of_call? hcall?, hasked, ?_⟩
        rw [if_neg (by rw [h.outcome a call hcallAt hasked]; exact Bool.false_ne_true),
          if_neg Bool.false_ne_true]
        exact invocations_ask ..

/-! ## Steps -/

/-- Between steps at different instants no call waits for its turn. -/
theorem Queued.not_unasked (h : Queued s) (hagenda : s.agenda = []) (a : Address) :
    ¬ Unasked s a := by
  intro hunasked
  have hahead := h.ahead a hunasked
  rw [hagenda] at hahead
  exact Ahead.not_nil a hahead

theorem asked_fired (call : Call) (now : Int) : (call.fired now).asked = call.asked := by
  unfold Call.fired
  repeat' split
  all_goals rfl

/-- When time has passed, a call has been asked for only if it had been. -/
theorem unasked_of_jump {time : Int} (h : Unasked (s.jump setup time) a) : Unasked s a := by
  set later : State := { s with now := max s.now time }
  set fired := (later.callsUnder []).foldl fire later with hfired
  have hprogress : ((s.jump setup time).callAt a).map callProgress =
      (fired.callAt a).map callProgress := by
    change ((if _ then fired.cancelRun else fired).callAt a).map callProgress = _
    split
    · exact progress_cancelRun ..
    · rfl
  obtain ⟨call, hcall, hasked⟩ := h
  rw [hcall, Option.map_some, eq_comm, Option.map_eq_some_iff] at hprogress
  obtain ⟨between, hbetween, hsame⟩ := hprogress
  have hasked' : between.asked = false := (congrArg Prod.fst hsame).trans hasked
  rw [hfired, callAt_foldl_fire] at hbetween
  split at hbetween
  · obtain ⟨old, hold, rfl⟩ := Option.map_eq_some_iff.1 hbetween
    exact ⟨old, hold, by rwa [asked_fired] at hasked'⟩
  · exact ⟨between, hbetween, hasked'⟩

theorem invocations_fire (s : State) (a : Address) : (s.fire a).invocations = s.invocations := by
  unfold State.fire
  split
  · rfl
  · split
    · rfl
    · split
      · exact invocations_tell ..
      · split <;> rfl

theorem invocations_jump (s : State) (setup : Setup) (time : Int) :
    (s.jump setup time).invocations = s.invocations := by
  have hfired (l : List Address) (u : State) : (l.foldl fire u).invocations = u.invocations := by
    induction l generalizing u with
    | nil => rfl
    | cons a l ih => rw [List.foldl_cons, ih, invocations_fire]
  unfold State.jump
  simp only
  split
  · rw [invocations_cancelRun, hfired]
    rfl
  · exact hfired ..

/-- Unless the first task is to go on with a call, the executor is not asked, and a call begins only where
a node starts. -/
theorem Reached.unasked_step (h : Reached setup tree s none) (htree : tree.Sound)
    (hqueued : Queued s) (hstep : s.step setup = some t)
    (hproceed : ∀ a rest, s.agenda ≠ .proceed a :: rest) :
    Queued t ∧ t.invocations = s.invocations ∧ (∀ a, Unasked s a → Unasked t a) ∧
      ∀ a, Unasked t a → Unasked s a ∨ ∃ rest, s.agenda = .enter a :: rest := by
  rcases step_cases hstep with ⟨task, rest, hagenda, -⟩ | ⟨hagenda, -, time, -, rfl⟩
  · have hchanges := h.step htree hstep
    have hdoing : s.doing setup ≠ .call := by
      rw [State.doing, hagenda]
      cases task with
      | proceed a => exact absurd hagenda (hproceed a rest)
      | _ => simp
    have hsame : t.invocations = s.invocations :=
      (hchanges.induction (P := fun u _ => u.invocations = s.invocations) rfl
        fun u v between next hu hchange => (hchange.invocations_eq hdoing).trans hu)
    refine ⟨hqueued.changes h htree hchanges hdoing, hsame, ?_, ?_⟩
    · rintro a ⟨call, hcall, hasked⟩
      -- a step that is to be told first has been asked for its call
      have hwake (rest' : List Task) : s.agenda ≠ .wake a :: rest' := by
        intro heq
        have hahead := hqueued.ahead a ⟨call, hcall, hasked⟩
        rw [heq] at hahead
        exact Ahead.not_wake a rest' hahead
      obtain ⟨call', hcall'⟩ := h.callAt_step htree hcall hwake hstep
      rcases hchanges.callAt_cases h htree hdoing hcall' with ⟨old, hold, hold'⟩ | ⟨hasked', _⟩
      · rw [hcall, Option.some.injEq] at hold
        rw [← hold, hasked] at hold'
        exact ⟨call', hcall', hold'⟩
      · exact ⟨call', hcall', hasked'⟩
    · rintro a ⟨call, hcall, hasked⟩
      rcases hchanges.callAt_cases h htree hdoing hcall with ⟨old, hold, hold'⟩ | ⟨_, o, hstart⟩
      · exact .inl ⟨old, hold, by rw [← hold', hasked]⟩
      · obtain ⟨rest', hagenda', _⟩ := agenda_of_doing hstart
        exact .inr ⟨rest', hagenda'⟩
  · have hnone (a : Address) : ¬ Unasked (s.jump setup time) a :=
      fun hunasked => hqueued.not_unasked hagenda a (unasked_of_jump hunasked)
    refine ⟨⟨fun a ha => absurd ha (hnone a), fun a call hcall hasked => ?_⟩, invocations_jump ..,
      fun a ha => absurd ha (hqueued.not_unasked hagenda a), fun a ha => absurd ha (hnone a)⟩
    exact absurd ⟨call, hcall, hasked⟩ (hnone a)

/-- In every state of a run, calls that have not begun are going to. -/
theorem queued_runWithin (setup : Setup) (htree : tree.Sound) (steps : Nat) :
    Queued ((State.start setup tree).runWithin setup steps) := by
  refine Reached.start.runWithin_induction (P := Queued) htree (.start setup tree) ?_ steps
  intro s t hr hstep hqueued
  by_cases hproceed : ∃ a rest, s.agenda = .proceed a :: rest
  · obtain ⟨a, rest, hagenda⟩ := hproceed
    rw [eq_perform_of_step hstep hagenda]
    exact (hqueued.proceeds setup hagenda).queued hqueued
  · exact (hr.unasked_step htree hqueued hstep
      fun a rest hagenda => hproceed ⟨a, rest, hagenda⟩).1

end Workflow.State
