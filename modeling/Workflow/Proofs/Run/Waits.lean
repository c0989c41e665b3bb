import Workflow.Proofs.Run.Chronicle
import Workflow.Proofs.Run.Steps
import Workflow.Proofs.Tree.Related

/-!
# Runs that do nothing more

A run that does nothing more has come to its end, unless it waits for a call that never answers and
that nothing can end.

* `State.Waits` is such a wait, and `State.Reached.ended_or_waits` says that there is no other.
* `State.Reached.close_eq` says that at the end nothing is left to be closed.
* `State.Final` is the end of a run, and `Setup.execute_final` says that `execute` returns it.
-/

namespace Workflow

/-- At least one child runs at once. -/
theorem Setup.slots_pos {setup : Setup} {work : Work} (count : Nat) (hsetup : setup.limit ≠ 0)
    (hwork : work.limit ≠ some 0) : 0 < setup.slots work count := by
  have hpos (limit : Option Nat) (default : Nat) (hlimit : limit ≠ some 0)
      (hdefault : 0 < default) : 0 < limit.getD default := by
    cases limit with
    | none => exact hdefault
    | some limit =>
      refine Nat.pos_of_ne_zero fun hzero => hlimit ?_
      rw [Option.getD_some] at hzero
      rw [hzero]
  cases work with
  | race limit => exact hpos limit _ hwork (Nat.lt_of_lt_of_le Nat.one_pos (Nat.le_max_right ..))
  | parallel limit => exact hpos limit _ hwork (Nat.pos_of_ne_zero hsetup)
  | loop source itemName indexName limit => exact hpos limit _ hwork (Nat.pos_of_ne_zero hsetup)
  | _ => exact Nat.one_pos

/-- The call never answers, and nothing is going to end it. -/
structure Call.Endless (call : Call) : Prop where
  asked : call.asked = true
  acts : call.acts = []
  ending : call.ending = .never
  outcome : call.outcome = none
  told : call.told = false
  wakeAt : call.wakeAt = none
  deadline : call.deadline = none

namespace State

variable {setup : Setup} {tree : Node} {s : State} {a : Address} {job : Job}

/-! ## Nodes that wait -/

/-- Fewer children are left when those in front are done. -/
theorem remaining_le_sub {hand : Option Address} {count k : Nat} (hk : k ≤ count)
    (h : ∀ i, i < k → Done s hand (a ++ [i])) : remaining s hand a count ≤ count - k := by
  classical
  have hsub : ((Finset.range count).filter fun i => ¬ Done s hand (a ++ [i])) ⊆
      (Finset.range (count - k)).image (· + k) := by
    intro i hi
    obtain ⟨hlt, hnot⟩ := Finset.mem_filter.1 hi
    rw [Finset.mem_range] at hlt
    have hle : k ≤ i := Nat.le_of_not_lt fun hik => hnot (h i hik)
    exact Finset.mem_image.2 ⟨i - k, Finset.mem_range.2 (by omega), by omega⟩
  calc remaining s hand a count
      ≤ ((Finset.range (count - k)).image (· + k)).card := Finset.card_le_card hsub
    _ ≤ (Finset.range (count - k)).card := Finset.card_image_le
    _ = count - k := Finset.card_range _

/-- While nothing is to be done only running nodes are active. -/
theorem active_iff_of_agenda (hagenda : s.agenda = []) :
    Active s none a ↔ s.statusAt a = some .running := by
  simp [Active, hagenda]

/-- While nothing is to be done a running container has a running child. -/
theorem exists_running_kid (hcontrol : Control setup s none) (hshape : Shape tree s)
    (hsetup : setup.limit ≠ 0) (hagenda : s.agenda = []) (hjob : s.jobAt a = some job)
    (hrun : job.status = .running) (hcall : job.call? = none) :
    ∃ i, s.statusAt (a ++ [i]) = some .running := by
  cases (hcontrol.node a job hjob).busy hrun (by simp) with
  | calling hstage =>
    rw [Job.call?, hstage] at hcall
    cases hcall
  | sequence _ _ _ _ hactive => exact ⟨_, (active_iff_of_agenda hagenda).1 hactive⟩
  | branch _ _ _ hactive => exact ⟨_, (active_iff_of_agenda hagenda).1 hactive⟩
  | @group frame hstage hkind hgroup =>
    by_contra hnone
    rw [not_exists] at hnone
    have hinactive (i : Nat) : ¬ Active s none (a ++ [i]) :=
      fun hactive => hnone i ((active_iff_of_agenda hagenda).1 hactive)
    have hbegun := hgroup.begun
    have hdone : ∀ i, i < frame.begun → Done s none (a ++ [i]) := by
      intro i hi
      refine ⟨?_, hinactive i⟩
      have hsome := (hshape.arity a i job hjob).2 (by omega)
      obtain ⟨kid, hkid⟩ := Option.isSome_iff_exists.1 hsome
      have hstatus := statusAt_of_jobAt hkid
      refine ⟨kid.status, hstatus, ?_⟩
      cases hkidStatus : kid.status with
      | pending =>
        rw [hkidStatus] at hstatus
        exact absurd ⟨hstatus, hinactive i⟩ (hgroup.started i hi)
      | running =>
        rw [hkidStatus] at hstatus
        exact absurd hstatus (hnone i)
      | _ => rfl
    have hleft : frame.left ≠ 0 := by
      intro hzero
      have := hgroup.join hzero
      rw [hagenda] at this
      cases this
    -- some of the slots are free although children wait
    have hslots := Setup.slots_pos job.arity hsetup (hshape.sound a job hjob).limit
    have hle : remaining s none a job.arity ≤ job.arity := remaining_le
    have hbegunLe : frame.begun ≤ job.arity := by omega
    have hsub := remaining_le_sub hbegunLe hdone
    have hremaining := hgroup.left
    omega

/-- While nothing is to be done a running node waits for a call, by itself or below. -/
theorem exists_call (hcontrol : Control setup s none) (hshape : Shape tree s)
    (hsetup : setup.limit ≠ 0) (hagenda : s.agenda = []) (live : Live) : ∀ a,
    s.root.at? a = some live → live.status = .running →
      ∃ b call, a <+: b ∧ s.callAt b = some call := by
  induction live using Live.ind with
  | mk job kids ih =>
    intro a hlive hrun
    have hjob := jobAt_of_at? hlive
    cases hcall : job.call? with
    | some call => exact ⟨a, call, List.prefix_refl a, by rw [callAt_of_jobAt hjob, hcall]⟩
    | none =>
      obtain ⟨i, hkid⟩ := exists_running_kid hcontrol hshape hsetup hagenda hjob hrun hcall
      rw [statusAt_concat hlive] at hkid
      obtain ⟨kid, hi, hkidRun⟩ := Option.map_eq_some_iff.1 hkid
      obtain ⟨b, call, hprefix, hb⟩ := ih kid (List.mem_of_getElem? hi) (a ++ [i])
        (by rw [Live.at?_concat hlive, hi]) hkidRun
      exact ⟨b, call, (List.prefix_append a [i]).trans hprefix, hb⟩

/-! ## The end -/

/-- The run waits for a call that never answers, that has no deadline, and that nothing stops. -/
structure Waits (setup : Setup) (s : State) : Prop where
  cancelAt : setup.cancelAt = none
  cancelled : s.cancelled = false
  call : ∃ a job own agent earlier inputs, s.jobAt a = some job ∧ job.status = .running ∧
    job.node.work = .step agent own ∧ (setup.executor.call agent earlier inputs).ending = .never ∧
    (setup.timeoutOf own).bind microseconds? = none

/-- Nothing is left to be done in a run that does nothing more. -/
theorem Reached.agenda_eq_nil (h : Reached setup tree s none) (htree : tree.Sound)
    (hstep : s.step setup = none) : s.agenda = [] :=
  ((step_eq_none_iff (h.control htree).sound).1 hstep).1

/-- Nothing happens by itself in a run that does nothing more but has not come to its end. -/
theorem Reached.times_eq_nil (h : Reached setup tree s none) (htree : tree.Sound)
    (hstep : s.step setup = none) (hroot : ¬ s.root.status.isTerminal) : s.times setup = [] :=
  ((step_eq_none_iff (h.control htree).sound).1 hstep).2.resolve_left hroot

theorem statusAt_root (s : State) : s.statusAt [] = some s.root.status := by
  rw [statusAt, jobAt, Live.jobAt, Live.at?_nil]
  rfl

/-- A run that does nothing more waits for such calls only. -/
theorem Reached.endless {call : Call} (h : Reached setup tree s none) (htree : tree.Sound)
    (hstep : s.step setup = none) (hcall : s.callAt a = some call) : call.Endless := by
  have hcontrol := h.control htree
  have hagenda := h.agenda_eq_nil htree hstep
  obtain ⟨job, hjob, hrun, hstage, _⟩ := hcontrol.of_callAt hcall
  have hwaiting := h.waiting htree hjob hstage
  have hnotTold := h.not_told htree hagenda hcall
  have houtcome := h.outcome_eq_none htree hagenda hcall
  have hroot : ¬ s.root.status.isTerminal := by
    have hstatus : s.statusAt [] = some .running := by
      by_cases ha : a = []
      · rw [← ha, statusAt_of_jobAt hjob, hrun]
      · exact hcontrol.statusAt_above (a := []) ha (.inr (.inr (.inr (hrun ▸ statusAt_of_jobAt hjob))))
    rw [statusAt_root, Option.some.injEq] at hstatus
    rw [hstatus]
    decide
  have htimes := h.times_eq_nil htree hstep hroot
  rw [times, List.append_eq_nil_iff, List.flatMap_eq_nil_iff] at htimes
  have hnone := htimes.1 _ (Live.mem_walk_iff.2 ⟨a, rfl, hjob⟩)
  simp only [Job.call?, hstage, Option.map_some, Option.getD_some, callTimes, houtcome,
    Option.isSome_none, Bool.false_eq_true, if_false, List.append_eq_nil_iff,
    Option.toList_eq_nil_iff] at hnone
  rcases hwaiting.alive hnotTold with hproceed | hwake | ⟨hasked, hacts, hending⟩
  · rw [hagenda] at hproceed
    cases hproceed
  · rw [hnone.2] at hwake
    cases hwake
  · exact ⟨hasked, hacts, hending, houtcome, hnotTold, hnone.2, hnone.1⟩

/-- A run that does nothing more has come to its end or waits for a call. -/
theorem Reached.ended_or_waits (h : Reached setup tree s none) (htree : tree.Sound)
    (hsetup : setup.limit ≠ 0) (hstep : s.step setup = none) :
    s.agenda = [] ∧ ((∃ status, s.statusAt [] = some status ∧ status.isTerminal) ∨
      (¬ s.root.status.isTerminal ∧ Waits setup s)) := by
  have hcontrol := h.control htree
  have hagenda := h.agenda_eq_nil htree hstep
  refine ⟨hagenda, ?_⟩
  by_cases hroot : s.root.status.isTerminal
  · exact .inl ⟨_, statusAt_root s, hroot⟩
  refine .inr ⟨hroot, ?_⟩
  -- the root runs, so that some call is waited for
  have hrun : s.root.status = .running := by
    cases hstatus : s.root.status with
    | running => rfl
    | pending =>
      refine absurd ⟨?_, ?_⟩ hcontrol.root
      · rw [statusAt_root, hstatus]
      · rw [active_iff_of_agenda hagenda, statusAt_root, hstatus]
        decide
    | _ =>
      refine absurd ?_ hroot
      rw [hstatus]
      rfl
  obtain ⟨a, call, _, hcall⟩ :=
    exists_call hcontrol (h.shape htree) hsetup hagenda _ [] (Live.at?_nil _) hrun
  obtain ⟨job, hjob, hrun', hstage, _⟩ := hcontrol.of_callAt hcall
  have hwaiting := h.waiting htree hjob hstage
  have hendless := h.endless htree hstep hcall
  have hcancelled : s.cancelled = false := by
    cases hc : s.cancelled with
    | false => rfl
    | true =>
      have htold := hwaiting.cancelled hc
      rw [hendless.told] at htold
      cases htold
  have htimes := h.times_eq_nil htree hstep hroot
  rw [times, List.append_eq_nil_iff, hcancelled] at htimes
  obtain ⟨own, hwork, htimeout⟩ := hwaiting.work
  obtain ⟨earlier, inputs, hexecutor⟩ := hwaiting.ending hendless.asked
  refine ⟨by simpa using htimes.2, hcancelled, a, job, own, call.agent, earlier, inputs, hjob, hrun',
    hwork, hexecutor.symm.trans hendless.ending, ?_⟩
  rw [← htimeout]
  exact hwaiting.deadline hendless.asked hendless.outcome hendless.deadline

/-- At the end nothing is pending. -/
theorem Reached.not_pending (h : Reached setup tree s none) (htree : tree.Sound) {status : Status}
    (hroot : s.statusAt [] = some status) (hterminal : status.isTerminal) (a : Address) :
    s.statusAt a ≠ some .pending :=
  (h.control htree).closed_none List.nil_prefix hroot hterminal

/-- At the end every node has ended. -/
theorem Reached.isTerminal (h : Reached setup tree s none) (htree : tree.Sound) {status : Status}
    (hroot : s.statusAt [] = some status) (hterminal : status.isTerminal)
    (hjob : s.jobAt a = some job) : job.status.isTerminal :=
  (h.control htree).isTerminal_below List.nil_prefix hroot hterminal hjob

/-- When a run does nothing more, nothing is left to be closed. -/
theorem Reached.close_eq (h : Reached setup tree s none) (htree : tree.Sound)
    (hsetup : setup.limit ≠ 0) (hstep : s.step setup = none) : s.close = s := by
  unfold close
  split
  · rename_i hcancelled
    rcases (h.ended_or_waits htree hsetup hstep).2 with ⟨status, hroot, hterminal⟩ | ⟨_, hwaits⟩
    · exact settle_eq_self fun a _ => h.not_pending htree hroot hterminal a
    · rw [hwaits.cancelled] at hcancelled
      cases hcancelled
  · rfl

/-! ## Executed runs -/

/-- The state is the end of the run of a tree. -/
structure Final (setup : Setup) (tree : Node) (s : State) : Prop where
  sound : tree.Sound
  limit : setup.limit ≠ 0
  reached : Reached setup tree s none
  step : s.step setup = none
  eq_runToEnd : s = (start setup tree).runToEnd setup

/-- Every run of a sound tree comes to an end, or to where it waits for ever. -/
theorem final_runToEnd (htree : tree.Sound) (hlimit : setup.limit ≠ 0) :
    Final setup tree ((start setup tree).runToEnd setup) where
  sound := htree
  limit := hlimit
  reached := Reached.start.runToEnd htree
  step := step_runToEnd _ setup
  eq_runToEnd := rfl

/-- The end of the run comes after every state of it. -/
theorem Final.exists_runWithin_eq (h : Final setup tree s) (steps : Nat) :
    ∃ more, s = ((start setup tree).runWithin setup steps).runWithin setup more := by
  obtain ⟨more, hmore⟩ := exists_runWithin ((start setup tree).runWithin setup steps) setup
  exact ⟨more, by rw [← hmore, runToEnd_runWithin, h.eq_runToEnd]⟩

/-- The end of the run is a state of it. -/
theorem Final.exists_eq_runWithin (h : Final setup tree s) :
    ∃ steps, s = (State.start setup tree).runWithin setup steps := by
  obtain ⟨more, hmore⟩ := h.exists_runWithin_eq 0
  exact ⟨more, hmore⟩

theorem Final.shape (h : Final setup tree s) : Shape tree s :=
  h.reached.shape h.sound

theorem Final.control (h : Final setup tree s) : Control setup s none :=
  h.reached.control h.sound

theorem Final.chronicle (h : Final setup tree s) : Chronicle s :=
  h.reached.chronicle h.sound

theorem Final.root_ended (h : Final setup tree s) {r : RunResult} (hr : s.outcome = .finished r) :
    r = s.result ∧ ∃ status, s.statusAt [] = some status ∧ status.isTerminal := by
  rw [outcome, h.control.sound] at hr
  simp only at hr
  split at hr
  · rename_i hterminal
    rw [Outcome.finished.injEq] at hr
    rcases (h.reached.ended_or_waits h.sound h.limit h.step).2 with hroot | ⟨hnot, _⟩
    · exact ⟨hr.symm, hroot⟩
    · exact absurd hterminal hnot
  · cases hr

/-- The run has come to its end if the root has. -/
theorem Final.outcome_of_ended (h : Final setup tree s) (hended : s.root.status.isTerminal) :
    s.outcome = .finished s.result := by
  rw [outcome, h.control.sound]
  exact if_pos hended

/-- A run comes to its end or waits for a call; nothing impossible happens. -/
theorem Final.finished_or_waits (h : Final setup tree s) :
    s.outcome = .finished s.result ∨ (s.outcome = .waiting ∧ Waits setup s) := by
  rw [outcome, h.control.sound]
  simp only
  split
  · exact .inl rfl
  · rename_i hnot
    refine .inr ⟨rfl, ?_⟩
    rcases (h.reached.ended_or_waits h.sound h.limit h.step).2 with ⟨status, hroot, hterminal⟩ | hwaits
    · refine absurd ?_ hnot
      have hstatus : s.root.status = status := by
        rw [statusAt, jobAt, Live.jobAt, Live.at?_nil] at hroot
        exact Option.some.inj hroot
      rwa [hstatus]
    · exact hwaits.2

/-- A run comes to its end if every call answers. -/
theorem Final.finished_of_answers (h : Final setup tree s)
    (hanswers : ∀ agent earlier inputs,
      (setup.executor.call agent earlier inputs).ending ≠ .never) :
    s.outcome = .finished s.result := by
  rcases h.finished_or_waits with hfinished | ⟨_, hwaits⟩
  · exact hfinished
  · obtain ⟨_, _, _, agent, earlier, inputs, _, _, _, hnever, _⟩ := hwaits.call
    exact absurd hnever (hanswers agent earlier inputs)

end State

/-- A run ends in the state that it is in when nothing is left to do. -/
theorem Setup.run_eq {setup : Setup} {tree : Node} (steps : Nat)
    (h : ((State.start setup tree).runWithin setup steps).step setup = none) :
    setup.run tree = ((State.start setup tree).runWithin setup steps).close := by
  rw [Setup.run, State.runToEnd_eq_runWithin h]

/-- What `execute` returns is the end of the run of the prepared tree. -/
theorem Setup.execute_final {setup : Setup} {tree : Node} {separator : String}
    {ids rest : IdSource} {s : State} (htree : tree.Sound)
    (h : setup.execute tree separator ids = .ok (s, rest)) :
    ∃ prepared, tree.prepare separator setup.previous ids = .ok (prepared, rest) ∧
      State.Final setup prepared s := by
  unfold execute at h
  split at h
  · cases h
  · rename_i hlimit
    split at h
    · cases h
    · rename_i prepared rest' hprepare
      rw [Except.ok.injEq, Prod.mk.injEq] at h
      obtain ⟨rfl, rfl⟩ := h
      have hfinal := State.final_runToEnd (htree.prepare hprepare) hlimit
      have hclose : setup.run prepared = (State.start setup prepared).runToEnd setup :=
        hfinal.reached.close_eq hfinal.sound hlimit hfinal.step
      rw [hclose]
      exact ⟨prepared, hprepare, hfinal⟩

end Workflow
