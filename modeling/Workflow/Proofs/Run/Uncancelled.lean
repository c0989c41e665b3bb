import Workflow.Proofs.Cancellation
import Workflow.Proofs.Run.Account

/-!
# Runs that are cancelled in time

Until its end is asked for, a run goes on as if that never happened. What has succeeded in it succeeds in
the same way if the run is not cancelled: a call that ends at the instant at which the run is cancelled
ends as it was to end.

* `Setup.uncancelled` is the setup whose runs are not cancelled.
* `State.runWithin_uncancelled` says that a run goes on as one that is not cancelled.
* `State.Final.account_uncancelled` says that what has succeeded would have succeeded.
-/

namespace Workflow

/-- The setup whose runs are not cancelled. -/
def Setup.uncancelled (setup : Setup) : Setup :=
  { setup with cancelAt := none }

theorem Setup.Mild.uncancelled {setup : Setup} {tree : Node} (h : setup.Mild tree) :
    setup.uncancelled.Calm tree :=
  ⟨h.executor, rfl, h.race⟩

namespace State

variable {setup : Setup} {tree : Node} {s s' t : State} {a : Address} {job : Job} {steps : Nat}

/-! ## The same steps -/

/-- When a run is cancelled matters to none of its tasks. -/
theorem perform_uncancelled (s : State) (setup : Setup) (task : Task) :
    s.perform setup.uncancelled task = s.perform setup task := by
  cases task <;> rfl

/-- Other instants at which something happens by itself are the same. -/
theorem times_eq_append (s : State) (setup : Setup) : s.times setup =
    s.times setup.uncancelled ++ if s.cancelled then [] else setup.cancelAt.toList := by
  have hnone : s.times setup.uncancelled =
      (s.root.walk []).flatMap fun node => (node.2.call?.map callTimes).getD [] := by
    rw [times, Setup.uncancelled]
    simp
  rw [hnone, times]

/-- The first instant at which something happens is the same, unless the run is cancelled then. -/
theorem min?_times_uncancelled {time : Int} (htime : (s.times setup).min? = some time)
    (hcancelAt : setup.cancelAt ≠ some time) : (s.times setup.uncancelled).min? = some time := by
  rw [times_eq_append, List.min?_eq_some_iff] at htime
  obtain ⟨hmem, hle⟩ := htime
  refine List.min?_eq_some_iff.2 ⟨(List.mem_append.1 hmem).resolve_right fun hcancel => ?_,
    fun other hother => hle other (List.mem_append_left _ hother)⟩
  split at hcancel
  · cases hcancel
  · exact hcancelAt (Option.mem_toList.1 hcancel)

/-- The clock jumps as if the run were not cancelled, unless the run is cancelled then. -/
theorem jump_uncancelled {time : Int} (h : (s.jump setup time).cancelled = false) :
    setup.cancelAt ≠ some time ∧ s.jump setup.uncancelled time = s.jump setup time := by
  have hnow := now_foldl_fire (({ s with now := max s.now time } : State).callsUnder [])
    { s with now := max s.now time }
  have hnot : ¬ setup.cancelAt.any (· ≤ max s.now time) := by
    intro hcancelAt
    unfold State.jump at h
    simp only [hnow, hcancelAt, if_true] at h
    rw [AllWaiting.cancelled_cancelRun] at h
    cases h
  refine ⟨fun hcancel => ?_, ?_⟩
  · rw [hcancel] at hnot
    simp at hnot
  · unfold State.jump
    simp only [hnow, if_neg hnot]
    rfl

/-- A step after which the end of the run has not been asked for is the same if it never is. -/
theorem step_uncancelled (hstep : s.step setup = some t) (ht : t.cancelled = false) :
    s.step setup.uncancelled = some t := by
  have hfault := fault_of_step hstep
  rcases step_cases hstep with ⟨task, rest, hagenda, rfl⟩ | ⟨hagenda, hroot, time, htime, rfl⟩
  · rw [step_of_cons hfault hagenda, perform_uncancelled]
  · obtain ⟨hcancelAt, hjump⟩ := jump_uncancelled ht
    rw [step_of_nil hfault hagenda hroot, min?_times_uncancelled htime hcancelAt, Option.map_some,
      hjump]

/-- A run that does nothing more does nothing more if it is not cancelled. -/
theorem step_uncancelled_eq_none (hfault : s.fault = none) (hstep : s.step setup = none) :
    s.step setup.uncancelled = none := by
  obtain ⟨hagenda, hend⟩ := (step_eq_none_iff hfault).1 hstep
  refine (step_eq_none_iff hfault).2 ⟨hagenda, hend.imp_right fun htimes => ?_⟩
  rw [times_eq_append, List.append_eq_nil_iff] at htimes
  exact htimes.1

/-- Until its end is asked for, a run goes on as one that is not cancelled. -/
theorem runWithin_uncancelled (htree : tree.Sound)
    (hcancelled : ((start setup tree).runWithin setup steps).cancelled = false) :
    (start setup.uncancelled tree).runWithin setup.uncancelled steps =
      (start setup tree).runWithin setup steps := by
  induction steps with
  | zero =>
    change setup.cancelAt.any (· ≤ setup.startAt) = false at hcancelled
    change start setup.uncancelled tree = start setup tree
    rw [start, start, hcancelled]
    rfl
  | succ steps ih =>
    have hreached := reached_runWithin setup htree steps
    rw [runWithin_succ] at hcancelled ⊢
    rw [runWithin_succ]
    cases hstep : ((start setup tree).runWithin setup steps).step setup with
    | none =>
      rw [hstep, Option.getD_none] at hcancelled
      rw [ih hcancelled, step_uncancelled_eq_none (hreached.control htree).sound hstep]
    | some t =>
      rw [hstep, Option.getD_some] at hcancelled
      have hbefore : ((start setup tree).runWithin setup steps).cancelled = false := by
        by_contra hnot
        rw [hreached.cancelled_of_step htree (by simpa using hnot) hstep] at hcancelled
        cases hcancelled
      rw [ih hbefore, step_uncancelled hstep hcancelled]

/-! ## What has succeeded -/

/-- What has succeeded succeeds in the same way if the run is not cancelled. -/
theorem Final.account_uncancelled (h : Final setup tree s) (h' : Final setup.uncancelled tree s')
    (hmild : setup.Mild tree) (hjob : s.jobAt a = some job) (hkind : job.node.kind = .step)
    (hstatus : job.status = .succeeded) :
    ∃ job', s'.jobAt a = some job' ∧ job'.entry.account = job.entry.account := by
  have hcalm := hmild.uncancelled
  have hshape := h.shape
  have hshape' := h'.shape
  have hstarted := (h.chronicle.node a job hjob).started_of_status (.inl hstatus)
  obtain ⟨steps, old, kids, rest, hentering⟩ := h.exists_entering hjob hstarted
  -- the step has its turn in both runs
  have hu := runWithin_uncancelled h.sound hentering.cancelled
  have hturn : Turn setup.uncancelled tree a steps := ⟨rest, by rw [hu]; exact hentering.agenda⟩
  obtain ⟨more, hmore⟩ := h'.exists_runWithin_eq (steps + 1)
  have hlt : steps < steps + 1 + more := by omega
  obtain ⟨job', hjob', _⟩ := hturn.not_pending h.sound hcalm hlt
  rw [runWithin_add, ← hmore] at hjob'
  refine ⟨job', hjob', ?_⟩
  have hnode := hshape.node_eq hshape' hjob hjob'
  cases hwork : job.node.work with
  | step agent own =>
    have haccount := h.account_of_entering hmild hjob hwork hentering (by
      rw [statusAt_of_jobAt hjob, hstatus]
      simp)
    have haccount' := h'.account_of_step hcalm hjob' (by rw [hnode, hwork]) hturn
    rw [hu, hnode, hshape.recorded?_eq hshape' setup.uncancelled hjob hjob'] at haccount'
    exact haccount'.trans haccount.symm
  | _ =>
    rw [Node.kind, hwork] at hkind
    cases hkind

end State
end Workflow
