import Workflow.Proofs.Run.Effect

/-!
# Races that have been won

A race is won by the first candidate whose success is counted. A race that has been won stays so.

* `State.winnerAt` is the candidate that has won a race.
* `State.Change.winnerAt` says that a change keeps the winners unless it counts a candidate.
* `State.Halted.change` says that a node that a race has been won around remains so.
-/

namespace Workflow

theorem Job.winner_of_frame?_eq_none {job : Job} (h : job.frame? = none) : job.winner = none := by
  rw [winner, h]; rfl

theorem Job.winner_of_frame? {job : Job} {frame : Frame} (h : job.frame? = some frame) :
    job.winner = frame.winner := by
  rw [winner, h]; rfl

namespace State

variable {setup : Setup} {tree : Node} {s t : State} {hand after : Option Address} {doing : Doing}
  {a b : Address} {job job' : Job}

/-- The candidate that has won the race at an address. -/
def winnerAt (s : State) (a : Address) : Option Nat :=
  (s.jobAt a).bind Job.winner

theorem winnerAt_of_jobAt (h : s.jobAt a = some job) : s.winnerAt a = job.winner := by
  rw [winnerAt, h]; rfl

/-- A node that a race has been won around lies below a node with a winner. -/
theorem halted_iff_winnerAt :
    s.Halted a ↔ ∃ above i below, a = above ++ i :: below ∧ (s.winnerAt above).isSome := by
  constructor
  · rintro ⟨above, i, below, job, frame, rfl, hjob, hframe, hwinner⟩
    refine ⟨above, i, below, rfl, ?_⟩
    rwa [winnerAt_of_jobAt hjob, Job.winner_of_frame? hframe]
  · rintro ⟨above, i, below, rfl, hwinner⟩
    cases hjob : s.jobAt above with
    | none => rw [winnerAt, hjob] at hwinner; cases hwinner
    | some job =>
      rw [winnerAt_of_jobAt hjob] at hwinner
      cases hframe : job.frame? with
      | none => rw [Job.winner_of_frame?_eq_none hframe] at hwinner; cases hwinner
      | some frame =>
        rw [Job.winner_of_frame? hframe] at hwinner
        exact ⟨above, i, below, job, frame, rfl, hjob, hframe, hwinner⟩

/-! ## Changes and winners -/

theorem winnerAt_put (hjob : s.jobAt a = some job)
    (ht : ∀ b, t.jobAt b = if b = a then some job' else s.jobAt b)
    (hwinner : job'.winner = job.winner) (b : Address) : t.winnerAt b = s.winnerAt b := by
  rw [winnerAt, ht, winnerAt]
  split
  · rename_i hb
    rw [hb, hjob]
    exact hwinner
  · rfl

theorem winnerAt_setStage {stage : Stage} (hjob : s.jobAt a = some job)
    (hwinner : ({ job with stage } : Job).winner = job.winner) (b : Address) :
    (s.setStage a stage).winnerAt b = s.winnerAt b :=
  winnerAt_put hjob (jobAt_setStage_of_jobAt hjob stage) hwinner b

theorem winnerAt_setCall {call call' : Call} (hcall : s.callAt a = some call) (b : Address) :
    (s.setStage a (.calling call')).winnerAt b = s.winnerAt b := by
  obtain ⟨job, hjob, hstage⟩ := jobAt_of_callAt hcall
  refine winnerAt_setStage hjob ?_ b
  have hnone : job.frame? = none := by rw [Job.frame?, hstage]
  rw [Job.winner_of_frame?_eq_none hnone]
  rfl

theorem winnerAt_tell (s : State) (a b : Address) : (s.tell a).winnerAt b = s.winnerAt b := by
  rw [winnerAt, jobAt_tell, winnerAt]
  split
  · cases s.jobAt b with
    | none => rfl
    | some job =>
      change job.tell.winner = job.winner
      rw [Job.winner, Job.frame?_tell, Job.winner]
  · rfl

theorem winnerAt_cancelRun (s : State) (b : Address) : s.cancelRun.winnerAt b = s.winnerAt b :=
  cancelRun_induction (P := fun t => t.winnerAt b = s.winnerAt b) s rfl rfl
    fun t a ht => (winnerAt_tell t a b).trans ht

theorem winner_nextFrame (job : Job) (frame : Frame) (i : Nat) (kid : Live) :
    (nextFrame job frame i kid).winner =
      if job.node.kind = .race ∧ kid.status = .succeeded then frame.winner.or (some i)
      else frame.winner :=
  rfl

theorem winnerAt_counted (hjob : s.jobAt a = some job) (rest : List Task) (frame : Frame)
    (i : Nat) (kid : Live) (b : Address) : (s.counted rest a job frame i kid).winnerAt b =
      if b = a then (nextFrame job frame i kid).winner else s.winnerAt b := by
  rw [winnerAt, jobAt_counted hjob, winnerAt]
  split <;> rfl

theorem winnerAt_expansion {frame : Frame} (hexp : Expansion s a job frame t)
    (hshape : Shape tree s) (b : Address) : t.winnerAt b = s.winnerAt b := by
  obtain ⟨body, hbody⟩ := (hshape.sound a job hexp.jobAt).exists_body hexp.kind
  by_cases hprefix : a <+: b
  · obtain ⟨c, rfl⟩ := hprefix
    cases c with
    | nil =>
      rw [List.append_nil, winnerAt_of_jobAt hexp.jobAt_self, winnerAt_of_jobAt hexp.jobAt,
        hexp.winner]
      exact hexp.winner'
    | cons i c =>
      rw [winnerAt, winnerAt, hshape.jobAt_below_eq_none hexp.jobAt hexp.arity]
      cases hnew : t.jobAt (a ++ i :: c) with
      | none => rfl
      | some new =>
        have hidle := (Control.job_new hexp hbody hnew).2
        exact Job.winner_of_frame?_eq_none (by rw [Job.frame?, hidle])
  · rw [winnerAt, hexp.jobAt_of_not_prefix hprefix, winnerAt]

/-- A change keeps the winners unless it counts a candidate. -/
theorem Change.winnerAt (hchange : Change setup doing s hand t after)
    (hshape : Shape tree s) : (∀ b, t.winnerAt b = s.winnerAt b) ∨
      ∃ a i job frame kid rest, hand = none ∧ doing = .finish ∧
        s.agenda = .report (a ++ [i]) :: rest ∧ s.jobAt a = some job ∧
        job.node.kind.isGroup = true ∧ job.frame? = some frame ∧
        s.root.at? (a ++ [i]) = some kid ∧ t = s.counted rest a job frame i kid := by
  cases hchange with
  | count hagenda hjob hkind hframe hkid hdoing =>
    exact .inr ⟨_, _, _, _, _, _, rfl, hdoing, hagenda, hjob, hkind, hframe, hkid, rfl⟩
  | begin hpending =>
    obtain ⟨job, hjob, hstatus⟩ := jobAt_of_statusAt hpending
    exact .inl (winnerAt_put hjob (jobAt_move hjob (by rw [hstatus]; rfl) "") rfl)
  | leave _ hpending homitted =>
    obtain ⟨job, hjob, hstatus⟩ := jobAt_of_statusAt hpending
    refine .inl (winnerAt_put hjob (jobAt_move hjob ?_ "") rfl)
    rw [hstatus]
    exact homitted.canBecome
  | @bindStep a job inputs hjob =>
    have hwinner : ({ job with entry := { job.entry with inputs } } : Job).winner = job.winner := rfl
    exact .inl (winnerAt_put hjob (jobAt_modifyEntry_of_jobAt hjob _) hwinner)
  | succeed hkids hrun =>
    exact .inl (winnerAt_put (jobAt_of_at? hkids)
      (jobAt_modifyEntry_move (jobAt_of_at? hkids) (by rw [hrun]; rfl) rfl _) rfl)
  | fail hkids hrun =>
    exact .inl (winnerAt_put (jobAt_of_at? hkids)
      (jobAt_modifyEntry_move (jobAt_of_at? hkids) (by rw [hrun]; rfl) rfl _) rfl)
  | stop hkids hrun =>
    exact .inl (winnerAt_put (jobAt_of_at? hkids)
      (jobAt_modifyEntry_move (jobAt_of_at? hkids) (by rw [hrun]; rfl) rfl _) rfl)
  | release =>
    refine .inl fun b => ?_
    rw [State.winnerAt, jobAt_reported, State.winnerAt]
  | host frame hjob hrun hkind hwinner => exact .inl (winnerAt_setStage hjob hwinner)
  | expand frame hjob hrun hkind harity hwinner hwinner' =>
    exact .inl (winnerAt_expansion ⟨hjob, hrun, hkind, harity, hwinner, hwinner', rfl⟩ hshape)
  | @callOut a job agent timeout hjob hrun hkind hidle =>
    refine .inl (winnerAt_setStage hjob ?_)
    have hnone : job.frame? = none := by rw [Job.frame?, hidle]
    rw [Job.winner_of_frame?_eq_none hnone]
    rfl
  | takeWake hagenda hcall =>
    obtain ⟨job, hjob, hstage⟩ := jobAt_of_callAt hcall
    refine .inl (winnerAt_setStage (s := { s with agenda := _ }) hjob ?_)
    have hnone : job.frame? = none := by rw [Job.frame?, hstage]
    rw [Job.winner_of_frame?_eq_none hnone]
    rfl
  | ask inputs hcall => exact .inl (winnerAt_setCall hcall)
  | goOn acts wakeAt agenda hcall =>
    exact .inl (winnerAt_setCall (s := { s with agenda }) hcall)
  | answer outcome wakeAt deadline agenda hcall =>
    exact .inl fun b => (winnerAt_tell ..).trans
      (winnerAt_setCall (s := { s with agenda }) hcall b)
  | tell => exact .inl (winnerAt_tell _ _)
  | cancelRun => exact .inl (winnerAt_cancelRun _)
  | _ => exact .inl fun _ => rfl

/-- A race that has been won stays so. -/
theorem Change.winnerAt_isSome (hchange : Change setup doing s hand t after)
    (hshape : Shape tree s) (h : (s.winnerAt a).isSome) : (t.winnerAt a).isSome := by
  rcases hchange.winnerAt hshape with hsame |
    ⟨b, i, job, frame, kid, rest, _, _, _, hjob, _, hframe, _, rfl⟩
  · rwa [hsame]
  · rw [winnerAt_counted hjob]
    split
    · rename_i ha
      rw [ha, winnerAt_of_jobAt hjob, Job.winner_of_frame? hframe] at h
      rw [winner_nextFrame]
      split
      · cases hwinner : frame.winner with
        | none => rw [hwinner] at h; cases h
        | some k => rfl
      · exact h
    · exact h

theorem Halted.change (h : s.Halted a) (hchange : Change setup doing s hand t after)
    (hshape : Shape tree s) : t.Halted a := by
  rw [halted_iff_winnerAt] at h ⊢
  obtain ⟨above, i, below, ha, hwinner⟩ := h
  exact ⟨above, i, below, ha, hchange.winnerAt_isSome hshape hwinner⟩

/-- What the node in hand does decides no race. -/
theorem Change.halted_hand (hchange : Change setup doing s (some b) t after)
    (hshape : Shape tree s) : t.Halted a ↔ s.Halted a := by
  rw [halted_iff_winnerAt, halted_iff_winnerAt]
  rcases hchange.winnerAt hshape with hsame | ⟨_, _, _, _, _, _, hhand, _⟩
  · simp only [hsame]
  · cases hhand

end State
end Workflow
