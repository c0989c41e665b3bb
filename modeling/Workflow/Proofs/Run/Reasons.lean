import Workflow.Proofs.Run.Winner

/-!
# Why nodes are cancelled, skipped or have won

A node is cancelled only if the run is cancelled or a race around it has been won; the child of a
running node is skipped only if a race around it has been won or the branch above it has selected
another child; and the winner of a race is a candidate that has succeeded.

* `State.Reasons` says this of one state, and `State.Reached.reasons` of every state of a run.
-/

namespace Workflow.State

variable {setup : Setup} {tree : Node} {s t : State} {hand after : Option Address} {doing : Doing}
  {a b : Address} {job : Job}

/-- Why nodes have been cancelled, have been skipped or have won. -/
structure Reasons (s : State) (hand : Option Address) : Prop where
  cancelled : ∀ a, s.statusAt a = some .cancelled → s.cancelled = true ∨ s.Halted a
  skipped : ∀ a i job, s.jobAt a = some job → job.status = .running →
    s.statusAt (a ++ [i]) = some .skipped → s.Halted (a ++ [i]) ∨
      (job.node.kind = .branch ∧ ¬ Active s hand (a ++ [i]))
  winner : ∀ a job i, s.jobAt a = some job → job.winner = some i → job.node.kind = .race ∧
    (job.status = .running ∨ job.status = .succeeded) ∧
      s.statusAt (a ++ [i]) = some .succeeded
  /-- The candidates of a race whose success has been counted have a winner. -/
  won : ∀ a i job, s.jobAt a = some job → job.node.kind = .race →
    s.statusAt (a ++ [i]) = some .succeeded → ¬ Active s hand (a ++ [i]) → job.winner.isSome

namespace Reasons

theorem start (setup : Setup) (tree : Node) : Reasons (start setup tree) none := by
  have hjob {a : Address} {job : Job} (hjob : (State.start setup tree).jobAt a = some job) :
      job.status = .pending ∧ job.winner = none := by
    obtain ⟨path, node, rfl, _⟩ := Live.jobAt_ofNode hjob
    exact ⟨rfl, rfl⟩
  have hstatus {a : Address} {status : Status}
      (hstatus : (State.start setup tree).statusAt a = some status) : status = .pending := by
    obtain ⟨job, h, rfl⟩ := jobAt_of_statusAt hstatus
    exact (hjob h).1
  refine ⟨fun a h => ?_, fun a i job _ _ h => ?_, fun a job i h hwinner => ?_,
    fun a i job _ _ h => ?_⟩
  · cases hstatus h
  · cases hstatus h
  · rw [(hjob h).2] at hwinner
    cases hwinner
  · cases hstatus h

theorem change_cancelled (h : Reasons s hand) (hshape : Shape tree s)
    (hchange : Change setup doing s hand t after) (hstatus : t.statusAt a = some .cancelled) :
    t.cancelled = true ∨ t.Halted a := by
  have hold (hs : s.cancelled = true ∨ s.Halted a) : t.cancelled = true ∨ t.Halted a :=
    hs.imp hchange.cancelled fun hhalted => hhalted.change hchange hshape
  rcases hchange.move_or_quiet hshape with ⟨x, b, f, target, message, _, _, hmove, ht⟩ | hquiet
  · rw [hmove.statusAt ht] at hstatus
    split at hstatus
    · rename_i hab
      subst hab
      rw [Option.some.injEq] at hstatus
      subst hstatus
      refine hold ?_
      cases hmove with
      | leave _ _ homitted =>
        generalize htarget : Status.cancelled = target at homitted
        cases homitted with
        | cancelled hcancelled => exact .inl hcancelled
        | stopped =>
          split at htarget
          · exact .inl ‹_›
          · cases htarget
        | _ => cases htarget
      | stop _ _ _ hstopped => exact hstopped.cause
    · exact hold (h.cancelled a hstatus)
  · exact hold (h.cancelled a (hquiet.statusAt_of_ne hstatus (by decide)))

/-- A node that is inactive and has ended stays inactive. -/
theorem inactive_change (hcontrol : Control setup s hand) (hshape : Shape tree s)
    (hchange : Change setup doing s hand t after) {i : Nat} {status : Status}
    (hstatus : s.statusAt (a ++ [i]) = some status) (hterminal : status.isTerminal)
    (hinactive : ¬ Active s hand (a ++ [i])) : ¬ Active t after (a ++ [i]) := by
  cases hchange.active hcontrol hshape (a ++ [i]) with
  | same hsame => rwa [hsame]
  | start _ hpending =>
    rw [hstatus, Option.some.injEq] at hpending
    subst hpending
    cases hterminal
  | root hroot => simp at hroot
  | report _ _ _ _ hnot => exact hnot
  | count _ _ _ _ _ _ _ hnot => exact hnot

section Skipped

variable {i : Nat} {x : Address}

/-- A child that has been skipped stays skipped for the same reason. -/
theorem skipped_lasts {old : Job} (h : Reasons s hand) (hcontrol : Control setup s hand)
    (hshape : Shape tree s) (hchange : Change setup doing s hand t after)
    (hold : s.jobAt a = some old) (hrun : old.status = .running)
    (hskipped : s.statusAt (a ++ [i]) = some .skipped) (hjob : t.jobAt a = some job) :
    t.Halted (a ++ [i]) ∨ (job.node.kind = .branch ∧ ¬ Active t after (a ++ [i])) := by
  rcases h.skipped a i old hold hrun hskipped with hhalted | ⟨hbranch, hinactive⟩
  · exact .inl (hhalted.change hchange hshape)
  · rw [hchange.node_eq hshape hold hjob]
    exact .inr ⟨hbranch, inactive_change hcontrol hshape hchange hskipped rfl hinactive⟩

/-- Unless it is the node in hand, the child of a running node has a node in hand above it that
runs. -/
theorem not_stopped_above (hcontrol : Control setup s (some x)) (hbelow : x <+: a ++ [i])
    (hne : a ++ [i] ≠ x) (hrunning : s.statusAt a = some .running) {status : Status}
    (hx : s.statusAt x = some status) : status = .running := by
  rcases List.prefix_concat_iff.1 hbelow with heq | ⟨c, rfl⟩
  · exact absurd heq.symm hne
  · by_cases hc : c = []
    · subst hc
      rw [List.append_nil, hx, Option.some.injEq] at hrunning
      exact hrunning
    · have habove := hcontrol.statusAt_above hc (.inr (.inr (.inr hrunning)))
      rw [hx, Option.some.injEq] at habove
      exact habove

/-- The child of a running node is skipped because of a race around it, or by the branch in hand. -/
theorem halted_or_branch (hcontrol : Control setup s (some x)) (hbelow : x <+: a ++ [i])
    (hrunning : s.statusAt a = some .running) (homitted : Omitted s x (a ++ [i]) .skipped) :
    s.Halted (a ++ [i]) ∨ (a = x ∧ ∃ old, s.jobAt a = some old ∧ old.node.kind = .branch) := by
  generalize htarget : Status.skipped = target at homitted
  generalize hb : a ++ [i] = b at homitted
  cases homitted with
  | cancelled => cases htarget
  | lost _ hhalted => exact .inl hhalted
  | failed hne hfailed =>
    cases not_stopped_above hcontrol hbelow (by rwa [hb]) hrunning hfailed
  | stopped hne hstopped hor =>
    have hrun := not_stopped_above hcontrol hbelow (by rwa [hb]) hrunning hstopped
    rcases hor with rfl | rfl <;> cases hrun
  | @notChosen old k c hold _ hbranch =>
    rcases List.eq_nil_or_concat c with rfl | ⟨c, j, rfl⟩
    · obtain ⟨rfl, rfl⟩ : a = x ∧ i = k := by simpa using hb
      exact .inr ⟨rfl, old, hold, hbranch⟩
    · -- the node above would run below the node in hand
      obtain ⟨rfl, _⟩ : a = x ++ k :: c ∧ i = j := by
        rw [List.concat_eq_append, ← List.cons_append, ← List.append_assoc] at hb
        simpa using List.append_inj' hb rfl
      exact absurd (.inr (.inr (.inr hrunning)))
        (hcontrol.inactive_below_hand (List.cons_ne_nil k c))

theorem change_skipped (h : Reasons s hand) (hcontrol : Control setup s hand)
    (hshape : Shape tree s) (hchange : Change setup doing s hand t after)
    (hjob : t.jobAt a = some job) (hrun : job.status = .running)
    (hstatus : t.statusAt (a ++ [i]) = some .skipped) :
    t.Halted (a ++ [i]) ∨ (job.node.kind = .branch ∧ ¬ Active t after (a ++ [i])) := by
  have hrunning : t.statusAt a = some .running := by rw [statusAt_of_jobAt hjob, hrun]
  rcases hchange.move_or_quiet hshape with ⟨x, b, f, target, message, rfl, rfl, hmove, ht⟩ | hquiet
  · rw [hmove.statusAt ht] at hstatus hrunning
    by_cases hab : a ++ [i] = b
    · -- the child is left now
      rw [if_pos hab, Option.some.injEq] at hstatus
      subst hstatus
      rw [if_neg (by rw [← hab]; simp)] at hrunning
      subst hab
      cases hmove with
      | leave hprefix hpending homitted =>
        rcases halted_or_branch hcontrol hprefix hrunning homitted with
          hhalted | ⟨rfl, old, hold, hbranch⟩
        · exact .inl (hhalted.change hchange hshape)
        · rw [hchange.node_eq hshape hold hjob]
          exact .inr ⟨hbranch,
            (hcontrol.change hshape hchange).inactive_below_hand (List.cons_ne_nil i [])⟩
    · rw [if_neg hab] at hstatus
      by_cases hb : a = b
      · subst hb
        rw [if_pos rfl, Option.some.injEq] at hrunning
        subst hrunning
        -- below a pending node nothing has been skipped
        have hpending : s.statusAt a = some .pending := by
          cases hmove with
          | begin hpending => exact hpending
          | leave _ hpending => exact hpending
        cases hcontrol.below_pending (List.prefix_append a [i]) hpending hstatus
      · rw [if_neg hb] at hrunning
        obtain ⟨old, hold, hrunOld⟩ := jobAt_of_statusAt hrunning
        exact h.skipped_lasts hcontrol hshape hchange hold hrunOld hstatus hjob
  · have hrunningOld := hquiet.statusAt_of_ne hrunning (by decide)
    obtain ⟨old, hold, hrunOld⟩ := jobAt_of_statusAt hrunningOld
    exact h.skipped_lasts hcontrol hshape hchange hold hrunOld
      (hquiet.statusAt_of_ne hstatus (by decide)) hjob

end Skipped

section Winner

variable {i : Nat} {old : Job}

/-- A race that has been won ends only by succeeding. -/
theorem move_of_winner {x : Address} {f : Entry → Entry} {target : Status} {message : String}
    (h : Reasons s hand) (hold : s.jobAt a = some old) (hwinner : old.winner = some i)
    (hrun : old.status = .running) (hmove : Move setup doing s x a f target message) :
    target = .succeeded := by
  obtain ⟨hrace, _, hkid⟩ := h.winner a old i hold hwinner
  have hstatus : s.statusAt a = some .running := by rw [statusAt_of_jobAt hold, hrun]
  cases hmove with
  | begin hpending => rw [hstatus] at hpending; cases hpending
  | leave _ hpending => rw [hstatus] at hpending; cases hpending
  | succeed => rfl
  | fail hkids _ hfailing =>
    obtain rfl := Option.some.inj (hold.symm.trans (jobAt_of_at? hkids))
    exfalso
    cases hfailing with
    | unbound hstep => rw [hrace] at hstep; cases hstep
    | called hstep => rw [hrace] at hstep; cases hstep
    | rejected _ _ hrejected =>
      rw [statusAt_concat hkids] at hkid
      obtain ⟨kid, hmem, hkid⟩ := Option.map_eq_some_iff.1 hkid
      rw [hrejected.2 kid (List.mem_of_getElem? hmem)] at hkid
      cases hkid
    | blamed _ _ hblamed =>
      rw [(hblamed.race hrace).1] at hwinner
      cases hwinner
  | stop hkids _ _ hstopped =>
    obtain rfl := Option.some.inj (hold.symm.trans (jobAt_of_at? hkids))
    rw [(hstopped.race hrace).1] at hwinner
    cases hwinner

/-- A race that has been won goes on to run, or it has succeeded. -/
theorem status_of_winner (h : Reasons s hand) (hshape : Shape tree s)
    (hchange : Change setup doing s hand t after) (hold : s.jobAt a = some old)
    (hwinner : old.winner = some i) (hjob : t.jobAt a = some job) :
    job.status = .running ∨ job.status = .succeeded := by
  have hnew := statusAt_of_jobAt hjob
  rcases (h.winner a old i hold hwinner).2.1 with hrun | hsucceeded
  · rcases hchange.move_or_quiet hshape with ⟨x, b, f, target, message, _, _, hmove, ht⟩ | hquiet
    · rw [hmove.statusAt ht] at hnew
      split at hnew
      · rename_i hab
        subst hab
        rw [h.move_of_winner hold hwinner hrun hmove, Option.some.injEq] at hnew
        exact .inr hnew.symm
      · rw [statusAt_of_jobAt hold, Option.some.injEq] at hnew
        exact .inl (hnew.symm.trans hrun)
    · rw [hquiet.statusAt hold, statusAt_of_jobAt hold, Option.some.injEq] at hnew
      exact .inl (hnew.symm.trans hrun)
  · have hlasts := hchange.statusAt_of_isTerminal hshape
      ((statusAt_of_jobAt hold).trans (congrArg some hsucceeded)) rfl
    rw [hnew, Option.some.injEq] at hlasts
    exact .inr hlasts

/-- The winner of a race stays its winner. -/
theorem winner_lasts (h : Reasons s hand) (hshape : Shape tree s)
    (hchange : Change setup doing s hand t after) (hwinner : s.winnerAt a = some i)
    (hjob : t.jobAt a = some job) :
    job.node.kind = .race ∧ (job.status = .running ∨ job.status = .succeeded) ∧
      t.statusAt (a ++ [i]) = some .succeeded := by
  obtain ⟨old, hold, hwon⟩ := Option.bind_eq_some_iff.1 hwinner
  obtain ⟨hrace, _, hkid⟩ := h.winner a old i hold hwon
  rw [hchange.node_eq hshape hold hjob]
  exact ⟨hrace, h.status_of_winner hshape hchange hold hwon hjob,
    hchange.statusAt_of_isTerminal hshape hkid rfl⟩

theorem change_winner (h : Reasons s hand) (hcontrol : Control setup s hand)
    (hshape : Shape tree s) (hchange : Change setup doing s hand t after)
    (hjob : t.jobAt a = some job) (hwinner : job.winner = some i) :
    job.node.kind = .race ∧ (job.status = .running ∨ job.status = .succeeded) ∧
      t.statusAt (a ++ [i]) = some .succeeded := by
  have hlasts (hold : s.winnerAt a = some i) := h.winner_lasts hshape hchange hold hjob
  have hnew : t.winnerAt a = some i := by rw [winnerAt_of_jobAt hjob, hwinner]
  rcases hchange.winnerAt hshape with hsame |
    ⟨b, k, old, frame, kid, rest, rfl, _, hagenda, hold, hgroup, hframe, hkid, ht⟩
  · rw [hsame] at hnew
    exact hlasts hnew
  · rw [ht, winnerAt_counted hold] at hnew
    split at hnew
    · rename_i hab
      subst hab
      rw [winner_nextFrame] at hnew
      have hbefore : s.winnerAt a = frame.winner := by
        rw [winnerAt_of_jobAt hold, Job.winner_of_frame? hframe]
      split at hnew
      · rename_i hrace
        cases hwon : frame.winner with
        | some j =>
          rw [hwon, Option.some_or, Option.some.injEq] at hnew
          subst hnew
          exact hlasts (hbefore.trans hwon)
        | none =>
          -- the candidate that is counted wins now
          rw [hwon, Option.none_or, Option.some.injEq] at hnew
          subst hnew
          have hr := hcontrol.reporting hshape hagenda hold hgroup hframe
          rw [ht, hr.jobAt_self, Option.some.injEq] at hjob
          subst hjob
          refine ⟨hrace.1, .inl hr.run, ?_⟩
          rw [ht, statusAt_counted, State.statusAt, State.jobAt, Live.jobAt_of_at? hkid]
          exact congrArg some hrace.2
      · exact hlasts (hbefore.trans hnew)
    · exact hlasts hnew

end Winner

theorem change_won (h : Reasons s hand) (hcontrol : Control setup s hand)
    (hshape : Shape tree s) (hchange : Change setup doing s hand t after) {i : Nat}
    (hjob : t.jobAt a = some job) (hrace : job.node.kind = .race)
    (hkid : t.statusAt (a ++ [i]) = some .succeeded) (hinactive : ¬ Active t after (a ++ [i])) :
    job.winner.isSome := by
  -- the success of the candidate has been counted before
  have hold (hkidOld : s.statusAt (a ++ [i]) = some .succeeded)
      (hinactiveOld : ¬ Active s hand (a ++ [i])) : job.winner.isSome := by
    obtain ⟨kid, hkidJob, _⟩ := jobAt_of_statusAt hkidOld
    obtain ⟨old, hjobOld⟩ := jobAt_of_append hkidJob
    rw [hchange.node_eq hshape hjobOld hjob] at hrace
    have hwinner := h.won a i old hjobOld hrace hkidOld hinactiveOld
    rw [← winnerAt_of_jobAt hjobOld] at hwinner
    rw [← winnerAt_of_jobAt hjob]
    exact hchange.winnerAt_isSome hshape hwinner
  have hkidOld : s.statusAt (a ++ [i]) = some .succeeded := by
    rcases hchange.move_or_quiet hshape with ⟨x, b, f, target, message, rfl, rfl, hmove, ht⟩ | hquiet
    · rw [hmove.statusAt ht] at hkid
      split at hkid
      · -- a node that succeeds is in hand
        rename_i hab
        rw [Option.some.injEq] at hkid
        subst hkid
        generalize htarget : Status.succeeded = target at hmove
        cases hmove with
        | succeed => exact absurd (.inl (by rw [hab])) hinactive
        | leave _ _ homitted =>
          subst htarget
          cases homitted.canBecome
        | _ => cases htarget
      · exact hkid
    · exact hquiet.statusAt_of_ne hkid (by decide)
  cases hchange.active hcontrol hshape (a ++ [i]) with
  | same hsame =>
    rw [hsame] at hinactive
    exact hold hkidOld hinactive
  | start hactive => exact absurd hactive hinactive
  | root hroot => simp at hroot
  | @report p j old _ heq hjobOld hkind =>
    obtain ⟨rfl, rfl⟩ : a = p ∧ i = j := by simpa using List.append_inj' heq rfl
    rw [hchange.node_eq hshape hjobOld hjob] at hrace
    rcases hkind with hkind | hkind <;> rw [hrace] at hkind <;> cases hkind
  | @count p j old frame kid rest _ heq hjobOld hgroup hframe hkidAt ht =>
    obtain ⟨rfl, rfl⟩ : a = p ∧ i = j := by simpa using List.append_inj' heq rfl
    rw [ht, jobAt_counted hjobOld, if_pos rfl, Option.some.injEq] at hjob
    subst hjob
    have hsucceeded : kid.status = .succeeded := by
      rw [State.statusAt, State.jobAt, Live.jobAt_of_at? hkidAt] at hkidOld
      exact Option.some.inj hkidOld
    change (nextFrame old frame i kid).winner.isSome
    rw [winner_nextFrame, if_pos ⟨hrace, hsucceeded⟩]
    cases frame.winner <;> rfl

theorem change (h : Reasons s hand) (hcontrol : Control setup s hand) (hshape : Shape tree s)
    (hchange : Change setup doing s hand t after) : Reasons t after where
  cancelled _ hstatus := h.change_cancelled hshape hchange hstatus
  skipped _ _ _ hjob hrun hstatus := h.change_skipped hcontrol hshape hchange hjob hrun hstatus
  winner _ _ _ hjob hwinner := h.change_winner hcontrol hshape hchange hjob hwinner
  won _ _ _ hjob hrace hkid hinactive :=
    h.change_won hcontrol hshape hchange hjob hrace hkid hinactive

end Reasons

/-- In every state of a run nodes are cancelled, are skipped or have won for a reason. -/
theorem Reached.reasons (h : Reached setup tree s hand) (htree : tree.Sound) : Reasons s hand := by
  induction h with
  | start => exact .start setup tree
  | change hreached hchange ih =>
    exact ih.change (hreached.control htree) (hreached.shape htree) hchange

end Workflow.State
