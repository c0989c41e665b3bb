import Workflow.Proofs.Run.Chronicle

/-!
# Moments of a run

Whatever a trace tells, the run was once in a state whose trace told just what comes before.

* `State.Reached.exists_of_prefix` says that every beginning of a trace is the trace of a state.
* `State.Moment` is the state in which a move is made, and `State.Reached.exists_moment` that there is
  one for every event.
* `State.Beginning` is the state at an event that says that a node starts, and
  `State.Reached.exists_beginning` that there is one for every such event.
-/

namespace Workflow.State

variable {setup : Setup} {tree : Node} {s t : State} {hand after : Option Address} {doing : Doing}
  {a b : Address} {job : Job} {before later : List Event} {x : Event}

/-- Every beginning of the trace of a run was the whole trace once. -/
theorem Reached.exists_of_prefix (h : Reached setup tree s hand) (htree : tree.Sound)
    (hbefore : before <+: s.trace) :
    ∃ u between, Reached setup tree u between ∧ u.trace = before := by
  induction h with
  | start => exact ⟨_, none, .start, (List.prefix_nil.1 hbefore).symm⟩
  | @change s t hand after doing hreached hchange ih =>
    rcases hchange.trace_cases (hreached.shape htree) with hsame | ⟨x, hmore⟩
    · exact ih (hsame ▸ hbefore)
    · rw [hmore] at hbefore
      rcases List.prefix_concat_iff.1 hbefore with hwhole | hearlier
      · exact ⟨t, after, hreached.change hchange, hmore.trans hwhole.symm⟩
      · exact ih hearlier

/-- In the state a node is about to be moved. `before` is the trace so far, and the event tells of the
move. -/
structure Moment (setup : Setup) (tree : Node) (u : State) (a b : Address) (target : Status)
    (before : List Event) (x : Event) : Prop where
  reached : Reached setup tree u (some a)
  trace : u.trace = before
  move : ∃ doing f message, Move setup doing u a b f target message
  status : x.status = target
  path : ∃ job, u.jobAt b = some job ∧ job.entry.path = x.path

/-- For every event there is the moment of the move that it tells of. -/
theorem Reached.exists_moment (h : Reached setup tree s hand) (htree : tree.Sound)
    (htrace : s.trace = before ++ x :: later) :
    ∃ u a b target, Moment setup tree u a b target before x := by
  induction h generalizing later with
  | start => simp [State.start, State.trace] at htrace
  | @change s t hand after doing hreached hchange ih =>
    rcases hchange.move_or_quiet (hreached.shape htree) with
      ⟨a, b, f, target, message, rfl, rfl, hmove, ht⟩ | hquiet
    · obtain ⟨job, hjob, _, _, _, hmore⟩ := hmove.moved ht
      rw [htrace] at hmore
      rcases List.eq_nil_or_concat later with rfl | ⟨later, y, rfl⟩
      · -- the event is the one of this change
        obtain ⟨hbefore, hevent⟩ := List.append_inj' hmore rfl
        rw [List.cons.injEq] at hevent
        refine ⟨s, a, b, target, hreached, hbefore.symm, ⟨doing, f, message, hmove⟩, ?_, job, hjob, ?_⟩
        · rw [hevent.1]
          exact Entry.status_moved ..
        · rw [hevent.1]
          exact (hmove.path job.entry).symm
      · rw [List.concat_eq_append, ← List.cons_append, ← List.append_assoc] at hmore
        exact ih (List.append_inj' hmore rfl).1.symm
    · exact ih (hquiet.trace ▸ htrace)

/-- In the state the node at an address is in hand and about to start. `before` is the trace so far, and
the event says that the node starts. -/
structure Beginning (setup : Setup) (tree : Node) (u : State) (a : Address) (before : List Event)
    (x : Event) : Prop where
  reached : Reached setup tree u (some a)
  trace : u.trace = before
  pending : u.statusAt a = some .pending
  cancelled : u.cancelled = false
  halted : ¬ u.Halted a
  path : ∃ job, u.jobAt a = some job ∧ job.entry.path = x.path

/-- For every event that says that a node starts there is the moment at which it does. -/
theorem Reached.exists_beginning (h : Reached setup tree s hand) (htree : tree.Sound)
    (htrace : s.trace = before ++ x :: later) (hx : x.status = .running) :
    ∃ u a, Beginning setup tree u a before x := by
  obtain ⟨u, a, b, target, hmoment⟩ := h.exists_moment htree htrace
  obtain ⟨doing, f, message, hmove⟩ := hmoment.move
  have htarget : target = .running := hmoment.status.symm.trans hx
  obtain rfl := hmove.eq_of_running htarget
  subst htarget
  cases hmove with
  | begin hpending hcancelled hhalted =>
    exact ⟨u, b, hmoment.reached, hmoment.trace, hpending, hcancelled, hhalted, hmoment.path⟩
  | leave _ _ homitted => exact absurd homitted.isTerminal (by decide)

namespace Beginning

variable {u : State}

theorem jobAt (h : Beginning setup tree u a before x) : ∃ job, u.jobAt a = some job ∧
    job.status = .pending ∧ job.entry.path = x.path := by
  obtain ⟨job, hjob, hpath⟩ := h.path
  have hpending := h.pending
  rw [statusAt_of_jobAt hjob, Option.some.injEq] at hpending
  exact ⟨job, hjob, hpending, hpath⟩

/-- The node that starts is the one that the event is about. -/
theorem eq_address (h : Beginning setup tree u a before x) (htree : tree.Sound)
    (hshape : Shape tree s) (hjob : s.jobAt b = some job) (hpath : x.path = job.entry.path) :
    a = b := by
  obtain ⟨old, hold, hsame⟩ := h.path
  exact (h.reached.shape htree).address_eq hshape hold hjob (hsame.trans hpath)

/-- Whatever lies above a node that starts runs and is not in hand. -/
theorem above {c : Address} (h : Beginning setup tree u (a ++ c) before x) (htree : tree.Sound)
    (hc : c ≠ []) : ∃ job, u.jobAt a = some job ∧ job.status = .running ∧
      some (a ++ c) ≠ some a ∧ Local setup u (some (a ++ c)) a job := by
  have hcontrol := h.reached.control htree
  obtain ⟨job, hjob, hrun, hhand⟩ := hcontrol.above hc (.inl rfl)
  exact ⟨job, hjob, hrun, hhand, hcontrol.node a job hjob⟩

/-- The child in which a node starts is active. -/
theorem active_child {i : Nat} {c : Address} (h : Beginning setup tree u (a ++ i :: c) before x)
    (htree : tree.Sound) : Active u (some (a ++ i :: c)) (a ++ [i]) := by
  cases c with
  | nil => exact .inl rfl
  | cons j c =>
    have hactive : Active u (some (a ++ i :: j :: c)) (a ++ [i] ++ j :: c) :=
      .inl (by rw [List.append_assoc]; rfl)
    exact .inr (.inr (.inr ((h.reached.control htree).statusAt_above (List.cons_ne_nil j c) hactive)))

end Beginning
end Workflow.State
