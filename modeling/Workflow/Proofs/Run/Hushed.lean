import Workflow.Proofs.Run.Clock
import Workflow.Proofs.Run.Past

/-!
# Calls below races that have been won

In the step in which a race is won, the calls below it are told to stop. So between two steps no call
below a race that has been won goes on, and at the end of a run no node is left that waits there.

* `State.Hushed` says that all these calls have been told.
* `State.hushed_runWithin` says that this holds between any two steps of a run.
* `State.Final.status_of_winner` concludes that a race that has been won has succeeded in the end.
-/

namespace Workflow.State

variable {setup : Setup} {tree : Node} {s t u : State} {hand after : Option Address} {doing : Doing}
  {a b : Address} {job : Job} {call : Call}

/-- The node in hand stays in hand. -/
theorem Change.hand_eq (hchange : Change setup doing s (some a) t (some b)) : b = a := by
  cases hchange <;> rfl

/-! ## What nodes wait for -/

/-- The nodes wait for the same. -/
structure SameStages (s t : State) : Prop where
  stage : ∀ a, (t.jobAt a).map Job.stage = (s.jobAt a).map Job.stage

namespace SameStages

theorem of_jobs (h : ∀ a, t.jobAt a = s.jobAt a) : SameStages s t :=
  ⟨fun a => by rw [h]⟩

theorem trans (h : SameStages s t) (h' : SameStages t u) : SameStages s u :=
  ⟨fun a => (h'.stage a).trans (h.stage a)⟩

theorem modifyEntry (s : State) (a : Address) (f : Entry → Entry) :
    SameStages s (s.modifyEntry a f) := by
  refine ⟨fun b => ?_⟩
  rw [jobAt_modifyEntry]
  split
  · rw [Option.map_map]
    rfl
  · rfl

theorem move (s : State) (a : Address) (target : Status) (message : String) :
    SameStages s (s.move a target message) := by
  unfold State.move
  split
  · exact of_jobs (jobAt_breakOff _ · _)
  · split
    · exact of_jobs (jobAt_breakOff _ · _)
    · exact (modifyEntry ..).trans (of_jobs (jobAt_note _ · _))

theorem settle (s : State) (a : Address) (target : Status) : SameStages s (s.settle a target) := by
  unfold State.settle
  generalize s.pendingUnder a = l
  induction l generalizing s with
  | nil => exact of_jobs fun _ => rfl
  | cons b l ih => exact (move ..).trans (ih _)

theorem succeed (s : State) (a : Address) (output : Value) (message : String) :
    SameStages s (s.succeed a output message) :=
  (modifyEntry ..).trans (move ..)

theorem fail (s : State) (a : Address) (failure : Failure) : SameStages s (s.fail a failure) :=
  ((modifyEntry ..).trans (move ..)).trans (settle ..)

theorem stop (s : State) (a : Address) : SameStages s (s.stop a) :=
  ((modifyEntry ..).trans (move ..)).trans (settle ..)

theorem failFromKids (s : State) (a : Address) (kids : List Live) :
    SameStages s (s.failFromKids a kids) := by
  unfold State.failFromKids
  simp only
  split
  · exact of_jobs (jobAt_breakOff _ · _)
  · exact fail ..

theorem finish (s : State) (a : Address) (kids : List Live) (output : Value) :
    SameStages s (s.finish a kids output) := by
  unfold State.finish
  simp only
  split
  · exact stop ..
  · split
    · exact stop ..
    · split
      · exact failFromKids ..
      · exact succeed ..

theorem finishRace (s : State) (a : Address) (frame : Frame) (kids : List Live) :
    SameStages s (s.finishRace a frame kids) := by
  unfold State.finishRace
  split
  · exact succeed ..
  · split
    · exact stop ..
    · split
      · exact succeed ..
      · exact failFromKids ..

theorem reported (h : SameStages s t) (a : Address) : SameStages s (t.reported a) :=
  h.trans (of_jobs (jobAt_reported _ _))

theorem join (s : State) (a : Address) : SameStages s (s.join a) := by
  unfold State.join
  split
  · exact of_jobs (jobAt_breakOff _ · _)
  · refine reported ?_ a
    split
    · exact finishRace ..
    · exact finish ..

theorem callAt (h : SameStages s t) (a : Address) : t.callAt a = s.callAt a := by
  have ha := h.stage a
  rw [callAt_eq, callAt_eq]
  cases hs : s.jobAt a <;> cases ht : t.jobAt a <;> rw [hs, ht] at ha
  · cases ha
  · cases ha
  · change Job.call? _ = Job.call? _
    unfold Job.call?
    rw [Option.some.inj ha]

theorem winnerAt (h : SameStages s t) (a : Address) : t.winnerAt a = s.winnerAt a := by
  have ha := h.stage a
  unfold State.winnerAt
  cases hs : s.jobAt a <;> cases ht : t.jobAt a <;> rw [hs, ht] at ha
  · cases ha
  · cases ha
  · change Job.winner _ = Job.winner _
    unfold Job.winner Job.frame?
    rw [Option.some.inj ha]

end SameStages

/-! ## Calls that have been told -/

/-- Every call below a race that has been won has been told to stop. -/
def Hushed (s : State) : Prop :=
  ∀ a call, s.Halted a → s.callAt a = some call → call.told = true

theorem halted_congr (h : ∀ b, t.winnerAt b = s.winnerAt b) : t.Halted a ↔ s.Halted a := by
  rw [halted_iff_winnerAt, halted_iff_winnerAt]
  simp only [h]

namespace Hushed

/-- No race has been won, and no call begins below one that has been. -/
theorem of_calls (h : Hushed s) (hwinner : ∀ b, t.winnerAt b = s.winnerAt b)
    (hcalls : ∀ b call', t.callAt b = some call' → ¬ s.Halted b ∨
      ∃ call, s.callAt b = some call ∧ (call.told = true → call'.told = true)) : Hushed t := by
  intro b call' hhalted hcall'
  rw [halted_congr hwinner] at hhalted
  rcases hcalls b call' hcall' with hnot | ⟨call, hcall, htold⟩
  · exact absurd hhalted hnot
  · exact htold (h b call hhalted hcall)

theorem of_stages (h : Hushed s) (hsame : SameStages s t) : Hushed t :=
  h.of_calls hsame.winnerAt fun b call' hcall =>
    .inr ⟨call', (hsame.callAt b).symm.trans hcall, id⟩

/-- A node waits for something else than a call, and has the winner that it had. -/
theorem setStage {stage : Stage} (h : Hushed s) (hjob : s.jobAt a = some job)
    (hwinner : ({ job with stage } : Job).winner = job.winner)
    (hcall : ({ job with stage } : Job).call? = none) : Hushed (s.setStage a stage) := by
  refine h.of_calls (winnerAt_setStage hjob hwinner) fun b call' hb => ?_
  rw [callAt_setStage] at hb
  split at hb
  · rename_i hba
    rw [hba, hjob] at hb
    exact absurd (hcall.symm.trans hb) nofun
  · exact .inr ⟨call', hb, id⟩

/-- A call goes on. -/
theorem setCall (call' : Call) (h : Hushed s) (hcall : s.callAt a = some call)
    (htold : call'.told = call.told) : Hushed (s.setStage a (.calling call')) := by
  refine h.of_calls (winnerAt_setCall hcall) fun b new hnew => ?_
  rw [callAt_setStage] at hnew
  split at hnew
  · rename_i hba
    obtain ⟨_, _, hstage⟩ := Option.bind_eq_some_iff.1 hnew
    rw [← Stage.calling.inj (stage_of_call? hstage), hba, htold]
    exact .inr ⟨call, hcall, id⟩
  · exact .inr ⟨new, hnew, id⟩

theorem tell (h : Hushed s) (a : Address) : Hushed (s.tell a) := by
  refine h.of_calls (winnerAt_tell s a) fun b call' hcall' => ?_
  rw [callAt_tell] at hcall'
  split at hcall'
  · obtain ⟨call, hcall, rfl⟩ := Option.map_eq_some_iff.1 hcall'
    exact .inr ⟨call, hcall, fun _ => rfl⟩
  · exact .inr ⟨call', hcall', id⟩

theorem cancelRun (h : Hushed s) : Hushed s.cancelRun :=
  cancelRun_induction (P := Hushed) s h h fun _ b ht => ht.tell b

theorem start (setup : Setup) (tree : Node) : Hushed (start setup tree) := by
  intro a call _ hcall
  obtain ⟨job, hjob, hstage⟩ := jobAt_of_callAt hcall
  obtain ⟨_, _, rfl, _⟩ := Live.jobAt_ofNode hjob
  cases hstage

/-! ## Nodes that start, and calls that go on -/

/-- The instances of a loop wait for no call. -/
theorem expansion {frame : Frame} (h : Hushed s) (hexp : Expansion s a job frame t)
    (hshape : Shape tree s) : Hushed t := by
  refine h.of_calls (winnerAt_expansion hexp hshape) fun b call hcall => ?_
  obtain ⟨body, hbody⟩ := (hshape.sound a job hexp.jobAt).exists_body hexp.kind
  obtain ⟨new, hnew, hstage⟩ := jobAt_of_callAt hcall
  rcases hexp.cases hbody hnew with ⟨habove, _⟩ | ⟨_, rfl⟩ | ⟨_, _, _, _, hfresh⟩
  · exact .inr ⟨call, (callAt_congr (hexp.jobAt_of_not_prefix habove)).symm.trans hcall, id⟩
  · cases hstage
  · obtain ⟨_, _, rfl, _⟩ := Live.jobAt_ofNode hfresh
    cases hstage

/-- Unless nodes end, a change decides no race, and a call begins only where none has been won. -/
theorem change (h : Hushed s) (hshape : Shape tree s)
    (hhand : ∀ a, hand = some a → s.statusAt a = some .running → ¬ s.Halted a)
    (hchange : Change setup doing s hand t after) (hdoing : doing ≠ .finish) : Hushed t := by
  have hsame (hwinner : ∀ b, t.winnerAt b = s.winnerAt b)
      (hcalls : ∀ b, t.callAt b = s.callAt b) : Hushed t :=
    h.of_calls hwinner fun b call hcall => .inr ⟨call, (hcalls b).symm.trans hcall, id⟩
  cases hchange with
  | begin => exact h.of_stages (.move ..)
  | leave => exact h.of_stages (.move ..)
  | bindStep => exact h.of_stages (.modifyEntry ..)
  | succeed => exact h.of_stages (.succeed ..)
  | fail => exact h.of_stages ((SameStages.modifyEntry ..).trans (.move ..))
  | stop => exact h.of_stages ((SameStages.modifyEntry ..).trans (.move ..))
  | release => exact h.of_stages (.of_jobs (jobAt_reported _ _))
  | host frame hjob _ _ hwinner => exact h.setStage hjob hwinner rfl
  | expand frame hjob hrun hkind harity hwinner hwinner' =>
    exact h.expansion ⟨hjob, hrun, hkind, harity, hwinner, hwinner', rfl⟩ hshape
  | @callOut a job agent own hjob hrun hkind hidle =>
    have hnot := hhand a rfl ((statusAt_of_jobAt hjob).trans (congrArg some hrun))
    refine h.of_calls (winnerAt_setStage hjob ?_) fun b call' hcall' => ?_
    · have hnone : job.frame? = none := by rw [Job.frame?, hidle]
      rw [Job.winner_of_frame?_eq_none hnone]
      rfl
    · change (s.setStage a _).callAt b = some call' at hcall'
      rw [callAt_setStage] at hcall'
      split at hcall'
      · rename_i hba
        exact .inl (hba ▸ hnot)
      · exact .inr ⟨call', hcall', id⟩
  | count _ _ _ _ _ hfinish => exact absurd hfinish hdoing
  | takeWake _ _ hfinish => exact absurd hfinish hdoing
  | @ask a call inputs hcall =>
    refine Hushed.of_stages (h.setCall
      { call with asked := true, acts := _, ending := _, deadline := _ } hcall ?_)
      (.of_jobs fun _ => rfl)
    rfl
  | @goOn a call acts wakeAt agenda hcall =>
    have hagenda : Hushed { s with agenda } := h
    exact hagenda.setCall _ hcall rfl
  | @answer a call outcome wakeAt deadline agenda hcall =>
    have hagenda : Hushed { s with agenda } := h
    exact (hagenda.setCall { call with outcome := some outcome, wakeAt, deadline } hcall rfl).tell a
  | tell => exact h.tell _
  | cancelRun => exact h.cancelRun
  | _ => exact h

/-- Unless nodes end, a running node in hand has just started, where no race has been won. -/
theorem hand_change (hcontrol : Control setup s hand) (hshape : Shape tree s)
    (hhand : ∀ a, hand = some a → s.statusAt a = some .running → ¬ s.Halted a)
    (hchange : Change setup doing s hand t (some b)) (hdoing : doing ≠ .finish)
    (hrun : t.statusAt b = some .running) : ¬ t.Halted b := by
  cases hand with
  | none =>
    generalize hafter : some b = after at hchange
    cases hchange with
    | @takeEnter a o rest hagenda =>
      have hproper : Proper s none (.enter a) :=
        hcontrol.proper _ (by rw [hagenda]; exact List.mem_cons_self)
      rw [Option.some.inj hafter, statusAt_agenda, hproper.1] at hrun
      cases hrun
    | takeReport _ _ _ hfinish => exact absurd hfinish hdoing
    | count _ _ _ _ _ hfinish => exact absurd hfinish hdoing
    | takeJoin _ hfinish => exact absurd hfinish hdoing
    | takeWake _ _ hfinish => exact absurd hfinish hdoing
    | _ => cases hafter
  | some a =>
    obtain rfl : b = a := hchange.hand_eq
    rw [hchange.halted_hand hshape]
    rcases hchange.move_or_quiet hshape with
      ⟨x, c, f, target, message, hx, _, hmove, ht⟩ | hquiet
    · obtain rfl := Option.some.inj hx
      rw [hmove.statusAt ht] at hrun
      split at hrun
      · rename_i hbc
        subst hbc
        cases hmove with
        | begin _ _ hhalted => exact hhalted
        | leave _ _ homitted =>
          have := homitted.isTerminal
          rw [Option.some.inj hrun] at this
          cases this
        | succeed => cases hrun
        | fail => cases hrun
        | stop => cases hrun
      · exact hhand _ rfl hrun
    · exact hhand _ rfl (hquiet.statusAt_of_ne hrun (by decide))

/-- Unless nodes end, a step begins calls only where no race has been won. -/
theorem changes (h : Hushed s) (hr : Reached setup tree s none) (htree : tree.Sound)
    (hchanges : Changes setup doing s none t none) (hdoing : doing ≠ .finish) : Hushed t := by
  refine (hr.changes_induction (P := fun u between => Hushed u ∧
    ∀ a, between = some a → u.statusAt a = some .running → ¬ u.Halted a) hchanges ⟨h, nofun⟩ ?_).1
  rintro u v between next hu hchange ⟨hhushed, hhand⟩
  have hshape := hu.shape htree
  refine ⟨hhushed.change hshape hhand hchange hdoing, ?_⟩
  rintro b rfl hrun
  exact hand_change (hu.control htree) hshape hhand hchange hdoing hrun

/-! ## Nodes that end -/

theorem wake (h : Hushed s) (a : Address) : Hushed (s.wake a) := by
  unfold State.wake
  split
  · exact h
  · rename_i call hcall
    obtain ⟨job, hjob, hstage⟩ := jobAt_of_callAt hcall
    have hnone : job.frame? = none := by rw [Job.frame?, hstage]
    have hidle : Hushed (s.setStage a .idle) :=
      h.setStage hjob (by rw [Job.winner_of_frame?_eq_none hnone]; rfl) rfl
    refine hidle.of_stages (SameStages.reported ?_ a)
    split
    · exact .succeed ..
    · exact .fail ..
    · exact .stop ..

theorem join (h : Hushed s) (a : Address) : Hushed (s.join a) :=
  h.of_stages (.join s a)

/-- The next child of a sequence is to start, or the sequence ends. -/
theorem reportNext {frame : Frame} {kids : List Live} {kid : Live} (h : Hushed s)
    (hjob : s.jobAt a = some job) (hframe : job.frame? = some frame) :
    Hushed (s.reportNext a job frame kids kid) := by
  unfold State.reportNext
  split
  · refine Hushed.of_stages (h.setStage hjob ?_ rfl) (.of_jobs (jobAt_next _ · _))
    rw [Job.winner_of_frame? hframe]
    rfl
  · exact h.of_stages (SameStages.reported (.finish ..) a)

/-- A node that runs several children notes what it knows, and once it is a race that has been won, all
calls below it are told. -/
theorem jobAt_reportOne (s : State) (a : Address) (job : Job) (frame : Frame) (i : Nat) (kid : Live)
    (b : Address) : (s.reportOne a job frame i kid).jobAt b =
      if (frame.winner.isNone ∧ (nextFrame job frame i kid).winner.isSome) ∧ a <+: b then
        ((s.setStage a (.hosting (nextFrame job frame i kid))).jobAt b).map Job.tell
      else (s.setStage a (.hosting (nextFrame job frame i kid))).jobAt b := by
  unfold State.reportOne
  simp only
  split_ifs <;> simp_all [jobAt_tellCalls]

theorem winnerAt_reportOne {frame : Frame} {i : Nat} {kid : Live} (hjob : s.jobAt a = some job)
    (b : Address) : (s.reportOne a job frame i kid).winnerAt b =
      if b = a then (nextFrame job frame i kid).winner else s.winnerAt b := by
  have htell (old : Job) : old.tell.winner = old.winner := by
    rw [Job.winner, Job.frame?_tell, Job.winner]
  have hset : (s.reportOne a job frame i kid).winnerAt b =
      (s.setStage a (.hosting (nextFrame job frame i kid))).winnerAt b := by
    rw [winnerAt, jobAt_reportOne, winnerAt]
    split
    · cases (s.setStage a (.hosting (nextFrame job frame i kid))).jobAt b with
      | none => rfl
      | some old => exact htell old
    · rfl
  rw [hset, winnerAt, jobAt_setStage]
  split
  · rename_i hb
    rw [hb, hjob]
    rfl
  · rfl

theorem reportOne {frame : Frame} {i : Nat} {kid : Live} (h : Hushed s)
    (hjob : s.jobAt a = some job) (hframe : job.frame? = some frame) :
    Hushed (s.reportOne a job frame i kid) := by
  intro b call hhalted hcall
  set after := nextFrame job frame i kid with hafter
  have hjobs := jobAt_reportOne s a job frame i kid
  rw [← hafter] at hjobs
  rw [callAt_eq, hjobs] at hcall
  by_cases hwon : (frame.winner.isNone ∧ after.winner.isSome) ∧ a <+: b
  · -- the call has been told just now
    rw [if_pos hwon] at hcall
    obtain ⟨told, htold, hcall⟩ := Option.bind_eq_some_iff.1 hcall
    obtain ⟨old, _, rfl⟩ := Option.map_eq_some_iff.1 htold
    rw [Job.call?_tell] at hcall
    obtain ⟨_, _, rfl⟩ := Option.map_eq_some_iff.1 hcall
    rfl
  · rw [if_neg hwon, ← callAt_eq, callAt_setStage] at hcall
    split at hcall
    · obtain ⟨_, _, hnone⟩ := Option.bind_eq_some_iff.1 hcall
      cases hnone
    · -- the race around the node had been won before
      refine h b call ?_ hcall
      rw [halted_iff_winnerAt] at hhalted ⊢
      obtain ⟨above, j, below, rfl, hwinner⟩ := hhalted
      refine ⟨above, j, below, rfl, ?_⟩
      rw [winnerAt_reportOne hjob] at hwinner
      split at hwinner
      · rename_i habove
        rw [habove, winnerAt_of_jobAt hjob, Job.winner_of_frame? hframe]
        by_contra hnone
        rw [Option.not_isSome_iff_eq_none] at hnone
        exact hwon ⟨⟨by rw [hnone]; rfl, hwinner⟩, habove ▸ List.prefix_append ..⟩
      · exact hwinner

/-- The node above one that has ended takes notice. -/
theorem report (h : Hushed s) (a : Address) : Hushed (s.report a) := by
  unfold State.report
  split
  · unfold State.reportKid
    split
    · exact h
    · rename_i job kids hkids
      have hjob := jobAt_of_at? hkids
      split
      · rename_i kid frame _ hframe
        split
        · exact h.reportNext hjob hframe
        · exact h.of_stages (SameStages.reported (.finish ..) _)
        · exact h.reportOne hjob hframe
      · exact h
  · exact h

/-! ## Steps -/

/-- Between two steps every call below a race that has been won has been told. -/
theorem step (h : Hushed s) (hr : Reached setup tree s none) (htree : tree.Sound)
    (hstep : s.step setup = some t) : Hushed t := by
  have hchanges := hr.step htree hstep
  unfold State.doing at hchanges
  rcases step_cases hstep with ⟨task, rest, hagenda, rfl⟩ | ⟨hagenda, _⟩
  · rw [hagenda] at hchanges
    have hrest : Hushed { s with agenda := rest } := h
    cases task with
    | enter a => exact h.changes hr htree hchanges (by nofun)
    | proceed a => exact h.changes hr htree hchanges (by nofun)
    | wake a => exact hrest.wake a
    | report a => exact hrest.report a
    | join a => exact hrest.join a
  · rw [hagenda] at hchanges
    exact h.changes hr htree hchanges (by nofun)

end Hushed

theorem hushed_runWithin (setup : Setup) (htree : tree.Sound) (steps : Nat) :
    Hushed ((State.start setup tree).runWithin setup steps) :=
  Reached.start.runWithin_induction htree (.start setup tree)
    (fun _ _ hr hstep h => h.step hr htree hstep) steps

/-- While nothing is to be done a race that has been won has succeeded: no call below it is left to
wait for. -/
theorem Hushed.status_of_winner (h : Hushed s) (hr : Reached setup tree s none) (htree : tree.Sound)
    (hlimit : setup.limit ≠ 0) (hagenda : s.agenda = []) (hjob : s.jobAt a = some job) {w : Nat}
    (hwinner : job.winner = some w) : job.status = .succeeded := by
  have hcontrol := hr.control htree
  have hshape := hr.shape htree
  obtain ⟨-, hrun | hsucceeded, -⟩ := (hr.reasons htree).winner a job w hjob hwinner
  · exfalso
    have hcall : job.call? = none := by
      obtain ⟨frame, hframe, _⟩ := Option.bind_eq_some_iff.1 hwinner
      rw [Job.call?, stage_of_frame? hframe]
    obtain ⟨i, hkid⟩ := exists_running_kid hcontrol hshape hlimit hagenda hjob hrun hcall
    obtain ⟨kid, hkid, hkidRun⟩ := jobAt_of_statusAt hkid
    obtain ⟨kids, hkids⟩ := at?_of_jobAt hkid
    obtain ⟨b, call, ⟨c, rfl⟩, hb⟩ :=
      exists_call hcontrol hshape hlimit hagenda _ (a ++ [i]) hkids hkidRun
    have hhalted : s.Halted (a ++ [i] ++ c) := by
      rw [halted_iff_winnerAt]
      refine ⟨a, i, c, by simp, ?_⟩
      rw [winnerAt_of_jobAt hjob, hwinner]
      rfl
    have htold := h _ call hhalted hb
    rw [hr.not_told htree hagenda hb] at htold
    cases htold
  · exact hsucceeded

/-- At the end a race that has been won has succeeded. -/
theorem Final.status_of_winner (h : Final setup tree s) (hjob : s.jobAt a = some job) {w : Nat}
    (hwinner : job.winner = some w) : job.status = .succeeded := by
  have hhushed : Hushed s := by
    obtain ⟨steps, hsteps⟩ := h.exists_eq_runWithin
    rw [hsteps]
    exact hushed_runWithin setup h.sound steps
  exact hhushed.status_of_winner h.reached h.sound h.limit
    (h.reached.ended_or_waits h.sound h.limit h.step).1 hjob hwinner

end Workflow.State
