import Workflow.Proofs.Run.Past
import Workflow.Proofs.Run.Recorded

/-!
# Steps that an earlier run has recorded

A step that an earlier run has recorded takes over what is recorded and never calls its agent. Any
other step that starts calls its agent, unless its inputs cannot be bound.

* `State.Calls` says that a node calls its agent some time in a run.
* `State.Final.takenOver` and `State.Final.calls` are the two cases.
-/

namespace Workflow.State

variable {setup : Setup} {tree : Node} {s t : State} {hand : Option Address} {a : Address}
  {job job' : Job} {earlier : Entry}

/-- In the run of the tree, the node at an address waits some time for a call of its agent. -/
def Calls (setup : Setup) (tree : Node) (a : Address) : Prop :=
  ∃ steps call, ((start setup tree).runWithin setup steps).callAt a = some call

/-- The inputs of the node could not be bound. -/
def Unbound (job : Job) : Prop :=
  job.status = .failed ∧ ∃ failure, job.entry.error = some failure ∧ failure.kind = .binding

/-! ## Steps that are recorded -/

/-- What is recorded of a node is the same in all states of a run. -/
theorem Shape.recorded?_eq (h : Shape tree s) (h' : Shape tree t) (setup : Setup)
    (hjob : s.jobAt a = some job) (hjob' : t.jobAt a = some job') :
    setup.recorded? job'.entry = setup.recorded? job.entry := by
  refine setup.recorded?_congr (h.path_eq h' hjob hjob') ?_
  rw [(h.entry a job hjob).1, (h'.entry a job' hjob').1, h.node_eq h' hjob hjob']

/-- A step that is recorded waits for no call. -/
theorem Reached.call?_of_recorded (h : Reached setup tree s hand) (htree : tree.Sound)
    (hjob : s.jobAt a = some job) (hrecorded : setup.recorded? job.entry = some earlier) :
    job.call? = none := by
  cases hcall : job.call? with
  | none => rfl
  | some call =>
    have hwaiting := h.waiting htree hjob (stage_of_call? hcall)
    rw [hwaiting.recorded] at hrecorded
    cases hrecorded

/-- At the end of a run no step runs that waits for no call. -/
theorem Final.isTerminal_of_step (h : Final setup tree s) (hjob : s.jobAt a = some job)
    (hkind : job.node.kind = .step) (hcall : job.call? = none)
    (hstarted : job.entry.progress.started.isSome) : job.status.isTerminal := by
  have hcontrol := h.control
  have hshape := h.shape
  cases hstatus : job.status with
  | pending =>
    have hfresh := ((h.chronicle.node a job hjob).of_pending hstatus).1
    rw [hfresh.progress] at hstarted
    cases hstarted
  | running =>
    have hagenda := (h.reached.ended_or_waits h.sound h.limit h.step).1
    obtain ⟨i, hkid⟩ :=
      exists_running_kid hcontrol hshape h.limit hagenda hjob hstatus hcall
    obtain ⟨kid, hkid, _⟩ := jobAt_of_statusAt hkid
    have hi := (hshape.arity a i job hjob).1 (by rw [hkid]; rfl)
    rw [Job.arity_of_kind_ne (by rw [hkind]; decide),
      (hshape.sound a job hjob).children_eq_nil hkind] at hi
    cases hi
  | _ => rfl

theorem Earned.of_step {kids : List Live} {output : Value} {message : String}
    (h : Earned setup job kids output message) (hkind : job.node.kind = .step)
    (hrecorded : setup.recorded? job.entry = some earlier) :
    job.entry.inputs = earlier.inputs ∧ output = earlier.output := by
  cases hwork : job.node.work with
  | step agent own =>
    unfold Earned at h
    rw [hwork] at h
    exact h earlier hrecorded
  | _ => rw [Node.kind, hwork] at hkind; cases hkind

/-- A step that is recorded takes over what is recorded. -/
theorem Final.takenOver (h : Final setup tree s) (hjob : s.jobAt a = some job)
    (hkind : job.node.kind = .step) (hrecorded : setup.recorded? job.entry = some earlier)
    (hstarted : job.entry.progress.started.isSome) :
    job.status = .succeeded ∧ job.entry.output = earlier.output ∧
      job.entry.inputs = earlier.inputs := by
  obtain ⟨kids, hkids⟩ := at?_of_jobAt hjob
  have hcall := h.reached.call?_of_recorded h.sound hjob hrecorded
  have hend := h.isTerminal_of_step hjob hkind hcall hstarted
  -- what is recorded of the step when it ended
  have hsince {old : Job} {before : List Live} (hsince : Since s old before job kids) :
      old.node.kind = .step ∧ setup.recorded? old.entry = some earlier := by
    rw [setup.recorded?_congr hsince.path hsince.id] at hrecorded
    exact ⟨by rw [← hsince.node, hkind], hrecorded⟩
  cases h.past.ended a job kids hkids hstarted hend with
  | succeeded hold hstatus houtput hearned =>
    obtain ⟨hstep, hsome⟩ := hsince hold
    refine ⟨hstatus, ?_⟩
    obtain ⟨hinputs, hsame⟩ := hearned.of_step hstep hsome
    rw [houtput, hold.inputs]
    exact ⟨hsame, hinputs⟩
  | failed hold _ _ _ hfailing =>
    obtain ⟨hstep, hsome⟩ := hsince hold
    cases hfailing with
    | unbound _ hnone => rw [hnone] at hsome; cases hsome
    | called _ hnone => rw [hnone] at hsome; cases hsome
    | rejected hnot => exact absurd hstep hnot
    | blamed hnot => exact absurd hstep hnot
  | stopped hold _ _ hstopped =>
    obtain ⟨hstep, hsome⟩ := hsince hold
    rw [hstopped.step hstep] at hsome
    cases hsome

/-! ## Steps that are not recorded -/

/-- A step that is not recorded calls its agent when its turn comes, unless its inputs cannot be
bound. -/
theorem Reached.call_of_enter {rest : List Task} (h : Reached setup tree s none)
    (htree : tree.Sound) (hagenda : s.agenda = .enter a :: rest) (hjob : s.jobAt a = some job)
    (hkind : job.node.kind = .step) (hrecorded : setup.recorded? job.entry = none)
    (hcancelled : s.cancelled = false) (hhalted : ¬ s.Halted a) :
    (∃ call, (({ s with agenda := rest } : State).enter setup a).callAt a = some call) ∨
      ∃ job', (({ s with agenda := rest } : State).enter setup a).jobAt a = some job' ∧
        Unbound job' := by
  obtain ⟨kids, hkids⟩ := at?_of_jobAt hjob
  obtain ⟨_, hstarted, _⟩ := h.started_of_enter htree hagenda hkids hcancelled hhalted
  have hsees : ¬ (s.root.contextAt a).halted = true := by rwa [halted_iff hjob]
  have hcancelled' : ¬ s.cancelled = true := by rw [hcancelled]; exact Bool.false_ne_true
  unfold State.enter
  rw [hkids]
  simp only
  rw [if_neg hcancelled', if_neg hsees]
  generalize hv : (({ s with agenda := rest } : State).move a .running "") = v at *
  cases hwork : job.node.work with
  | step agent own =>
    simp only
    unfold State.beginStep
    rw [hrecorded]
    simp only
    split
    · rename_i e _
      right
      have hmove : (job.moved .running s.now).status.canBecome .failed := by
        rw [hstarted.run]
        rfl
      have hjobs := jobAt_modifyEntry_move hstarted.jobAt hmove
        (f := fun entry => { entry with error := some e.toFailure }) rfl ""
      -- nothing is below a step that could be left out
      have hsettle := @settle_eq_self _ _ .skipped fun c hac hpending => by
        rw [statusAt, hjobs] at hpending
        split at hpending
        · cases hpending
        · exact hstarted.reached.not_pending_of_step htree hstarted.kids hstarted.run hkind hac
            hpending
      rw [jobAt_reported, State.fail, hsettle, hjobs, if_pos rfl]
      exact ⟨_, rfl, Job.status_moved .., e.toFailure, rfl, rfl⟩
    · rename_i inputs _
      left
      refine ⟨{ agent, timeout := setup.timeoutOf own }, ?_⟩
      rw [callAt_eq, jobAt_later, jobAt_setStage, if_pos rfl, jobAt_modifyEntry, if_pos rfl,
        hstarted.jobAt]
      rfl
  | _ => rw [Node.kind, hwork] at hkind; cases hkind

/-- A step that has started and is not recorded has called its agent, or could not bind its inputs. -/
theorem calls_or_unbound (htree : tree.Sound) {steps : Nat}
    (hjob : ((start setup tree).runWithin setup steps).jobAt a = some job)
    (hkind : job.node.kind = .step) (hrecorded : setup.recorded? job.entry = none)
    (hstarted : job.entry.progress.started.isSome) :
    Calls setup tree a ∨ ∃ steps job',
      ((start setup tree).runWithin setup steps).jobAt a = some job' ∧ Unbound job' := by
  have hstart : Reached setup tree (State.start setup tree) none := .start
  induction steps generalizing job with
  | zero =>
    obtain ⟨path, node, rfl, _⟩ := Live.jobAt_ofNode hjob
    cases hstarted
  | succ steps ih =>
    have hsucc := runWithin_succ (State.start setup tree) setup steps
    have hreached := hstart.runWithin htree steps
    generalize hs : (State.start setup tree).runWithin setup steps = s at hsucc hreached ih
    have hshape := hreached.shape htree
    have hshape' := (hstart.runWithin htree (steps + 1)).shape htree
    by_cases hbefore : ∃ old, s.jobAt a = some old ∧ old.entry.progress.started.isSome
    · obtain ⟨old, hold, holdStarted⟩ := hbefore
      refine ih hold ?_ ?_ holdStarted
      · rw [← hshape.node_eq hshape' hold hjob, hkind]
      · rw [← hshape.recorded?_eq hshape' setup hold hjob, hrecorded]
    · -- the step starts now
      have hnot (old : Job) (hold : s.jobAt a = some old) :
          ¬ old.entry.progress.started.isSome := fun h => hbefore ⟨old, hold, h⟩
      cases hstep : s.step setup with
      | none =>
        rw [hstep, Option.getD_none] at hsucc
        rw [hsucc] at hjob
        exact absurd hstarted (hnot job hjob)
      | some t =>
        rw [hstep, Option.getD_some] at hsucc
        rw [hsucc] at hjob hshape'
        obtain ⟨⟨o, hdoing⟩, hcancelled, hhalted⟩ :=
          (hreached.step htree hstep).started_of_not hreached htree hnot hjob hstarted
        obtain ⟨rest, hagenda, _⟩ := agenda_of_doing hdoing
        have hproper : Proper s none (.enter a) :=
          (hreached.control htree).proper _ (by rw [hagenda]; exact List.mem_cons_self)
        obtain ⟨old, hold, _⟩ := jobAt_of_statusAt hproper.1
        have henter : t = ({ s with agenda := rest } : State).enter setup a :=
          eq_perform_of_step hstep hagenda
        rw [hshape.node_eq hshape' hold hjob] at hkind
        rw [hshape.recorded?_eq hshape' setup hold hjob] at hrecorded
        rcases hreached.call_of_enter htree hagenda hold hkind hrecorded hcancelled hhalted with
          ⟨call, hcall⟩ | ⟨job', hjob', hunbound⟩
        · exact .inl ⟨steps + 1, call, by rw [hsucc, henter, hcall]⟩
        · exact .inr ⟨steps + 1, job', by rw [hsucc, henter, hjob'], hunbound⟩

/-- In a run, a step that has started and is not recorded calls its agent, or fails because its
inputs cannot be bound. -/
theorem Final.calls (h : Final setup tree s) (hjob : s.jobAt a = some job)
    (hkind : job.node.kind = .step) (hrecorded : setup.recorded? job.entry = none)
    (hstarted : job.entry.progress.started.isSome) : Calls setup tree a ∨ Unbound job := by
  obtain ⟨last, hlast⟩ := h.exists_eq_runWithin
  rw [hlast] at hjob
  refine (calls_or_unbound h.sound hjob hkind hrecorded hstarted).imp_right ?_
  rintro ⟨steps, job', hjob', hfailed, failure, herror, hbinding⟩
  -- the failure lasts to the end
  have hstart : Reached setup tree (State.start setup tree) none := .start
  obtain ⟨new, hnew, hentry, _⟩ := (hstart.runWithin h.sound steps).entry_runToEnd h.sound hjob'
    (by rw [hfailed]; rfl)
  rw [runToEnd_runWithin, ← h.eq_runToEnd, hlast, hjob, Option.some.injEq] at hnew
  subst hnew
  exact ⟨by rw [Job.status, hentry, ← Job.status, hfailed], failure, by rw [hentry, herror],
    hbinding⟩

end Workflow.State
