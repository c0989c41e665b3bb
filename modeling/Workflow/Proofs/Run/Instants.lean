import Workflow.Proofs.Run.Punctual

/-!
# Instants of a run

Whatever a run records happened between the start of the run and now.

* `Progress.Within` says so of what is recorded of a node, `State.Within` of a state.
* `State.Final.within` says that it is so at the end of a run.
-/

namespace Workflow

/-- The instants that are recorded lie between two others. -/
structure Progress.Within (first last : Int) (p : Progress) : Prop where
  /-- So does the start. -/
  started : ∀ time ∈ p.started, first ≤ time ∧ time ≤ last
  /-- So does the end. -/
  finished : ∀ time ∈ p.finished, first ≤ time ∧ time ≤ last

namespace Progress.Within

variable {first last now : Int} {p : Progress}

theorem fresh (first last : Int) : Within first last {} :=
  ⟨nofun, nofun⟩

theorem mono (h : p.Within first last) (hle : last ≤ now) : p.Within first now where
  started time htime := ⟨(h.started time htime).1, (h.started time htime).2.trans hle⟩
  finished time htime := ⟨(h.finished time htime).1, (h.finished time htime).2.trans hle⟩

/-- A move is recorded as of now. -/
theorem moved (h : p.Within first now) (hfirst : first ≤ now) (target : Status) :
    (p.moved target now).Within first now := by
  have hnow : ∀ time ∈ some now, first ≤ time ∧ time ≤ now := by
    rintro _ ⟨⟩
    exact ⟨hfirst, le_rfl⟩
  unfold Progress.moved
  split
  · exact ⟨hnow, h.finished⟩
  · split
    · exact ⟨h.started, hnow⟩
    · exact ⟨h.started, h.finished⟩

end Progress.Within

namespace State

variable {setup : Setup} {tree : Node} {s t : State} {hand after : Option Address} {doing : Doing}
  {a b : Address} {first : Int}

/-- All instants that are recorded lie between the first one and now. -/
structure Within (first : Int) (s : State) : Prop where
  /-- So does the first one. -/
  now : first ≤ s.now
  /-- So do those of the nodes. -/
  node : ∀ a job, s.jobAt a = some job → job.entry.progress.Within first s.now
  /-- So do those of the events. -/
  trace : ∀ x ∈ s.trace, first ≤ x.time ∧ x.time ≤ s.now

namespace Within

theorem start (setup : Setup) (tree : Node) : Within setup.startAt (start setup tree) := by
  refine ⟨le_rfl, fun a job hjob => ?_, fun x hx => ?_⟩
  · obtain ⟨path, node, rfl, _⟩ := Live.jobAt_ofNode hjob
    exact .fresh _ _
  · cases hx

/-- Where no node is moved, time may pass. -/
theorem quiet (h : Within first s) (hquiet : Quiet s t) (hle : s.now ≤ t.now) : Within first t := by
  refine ⟨h.now.trans hle, fun b new hnew => ?_, fun x hx => ?_⟩
  · cases hold : s.jobAt b with
    | none =>
      rw [(hquiet.fresh b new hold hnew).progress]
      exact .fresh _ _
    | some old =>
      obtain ⟨new', hnew', _, hentry, _⟩ := hquiet.entry b old hold
      rw [hnew, Option.some.injEq] at hnew'
      subst hnew'
      have hprogress : new.entry.progress = old.entry.progress := by rw [hentry]
      rw [hprogress]
      exact (h.node b old hold).mono hle
  · rw [hquiet.trace] at hx
    exact ⟨(h.trace x hx).1, (h.trace x hx).2.trans hle⟩

/-- A move is recorded as of now. -/
theorem move {f : Entry → Entry} {target : Status} {message : String} (h : Within first s)
    (hmove : Move setup doing s a b f target message)
    (ht : t = (s.modifyEntry b f).move b target message) : Within first t := by
  obtain ⟨job, hjob, _, _, hjobs, htrace⟩ := hmove.moved ht
  have hnow : t.now = s.now := by
    rw [ht, now_move]
    rfl
  have hprogress : (f job.entry).progress = job.entry.progress := by
    cases hmove <;> rfl
  refine ⟨hnow ▸ h.now, fun c new hnew => ?_, fun x hx => ?_⟩
  · rw [hnow]
    rw [hjobs] at hnew
    split at hnew
    · cases hnew
      have hwithin := (h.node b job hjob).moved h.now target
      rwa [← hprogress] at hwithin
    · exact h.node c new hnew
  · rw [hnow]
    rw [htrace, List.mem_append, List.mem_singleton] at hx
    rcases hx with hx | rfl
    · exact h.trace x hx
    · exact ⟨h.now, le_rfl⟩

theorem step (h : Within first s) (hr : Reached setup tree s none) (htree : tree.Sound)
    (hstep : s.step setup = some t) : Within first t := by
  have hchanges := hr.step htree hstep
  by_cases hdoing : s.doing setup = .call
  · rw [hdoing] at hchanges
    exact h.quiet (hchanges.quiet_of_call hr htree) (hr.now_le_of_step htree hstep)
  · refine hr.changes_induction (P := fun u _ => Within first u) hchanges h
      fun u v hand after hu hchange hbefore => ?_
    have hshape := hu.shape htree
    rcases hchange.move_or_quiet hshape with ⟨x, b, f, target, message, _, _, hmove, ht⟩ | hquiet
    · exact hbefore.move hmove ht
    · exact hbefore.quiet hquiet (hchange.still hshape hdoing).now.ge

end Within

/-- Between any two steps of a run everything is recorded since its start. -/
theorem within_runWithin (setup : Setup) (htree : tree.Sound) (steps : Nat) :
    Within setup.startAt ((start setup tree).runWithin setup steps) :=
  Reached.start.runWithin_induction htree (.start setup tree)
    (fun _ _ hr hstep h => h.step hr htree hstep) steps

/-- At the end of a run everything is recorded since its start. -/
theorem Final.within (h : Final setup tree s) : Within setup.startAt s := by
  obtain ⟨steps, hsteps⟩ := h.exists_eq_runWithin
  rw [hsteps]
  exact within_runWithin setup h.sound steps

end State
end Workflow
