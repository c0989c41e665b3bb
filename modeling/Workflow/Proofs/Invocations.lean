import Workflow.Executor.Echo
import Workflow.Proofs.Run.Account
import Workflow.Proofs.Run.Asked
import Workflow.Proofs.Run.Recorded

/-!
# The calls of a run

The executor is asked once for every step that starts, is not taken over from an earlier run and whose
inputs have values, with the inputs that the result records, and for nothing else.

* `State.Starts` says at which point of a run a node starts, and `State.Due` that a step has to call its
  agent.
* `State.Tally` says that the calls of a state are those of the steps that had to call so far, and
  `State.Tally.next` that a step of the run keeps that.
* `Setup.invoked_of_execute` says so of the end of a run.
-/

namespace Workflow
namespace State

variable {setup : Setup} {tree : Node} {s t : State} {hand after : Option Address} {doing : Doing}
  {a b : Address} {job : Job} {kids : List Live} {rest : List Task} {steps n : Nat}
  {callers : List Address}

/-! ## Traces -/

/-- What has happened stays in the trace through later steps. -/
theorem Reached.trace_prefix (h : Reached setup tree s none) (htree : tree.Sound) (steps : Nat) :
    s.trace <+: (s.runWithin setup steps).trace := by
  refine h.runWithin_induction (P := fun u => s.trace <+: u.trace) htree List.prefix_rfl ?_ steps
  intro u v hu hstep hprefix
  exact hprefix.trans (hu.changes_induction (P := fun w _ => u.trace <+: w.trace)
    (hu.step htree hstep) List.prefix_rfl fun _ _ _ _ hw hchange hbefore =>
      hbefore.trans (hchange.trace_prefix (hw.shape htree)))

/-! ## Nodes that start -/

/-- After a number of steps of the run of the tree the turn of the node at an address comes, and nothing
keeps it from starting. -/
structure Starts (setup : Setup) (tree : Node) (a : Address) (steps : Nat) : Prop where
  turn : Turn setup tree a steps
  cancelled : ((start setup tree).runWithin setup steps).cancelled = false
  halted : ¬ ((start setup tree).runWithin setup steps).Halted a

theorem Starts.entering (h : Starts setup tree a steps) (htree : tree.Sound) : ∃ job kids rest,
    Entering setup tree ((start setup tree).runWithin setup steps) a job kids rest := by
  obtain ⟨⟨rest, hagenda⟩, hcancelled, hhalted⟩ := h
  have hreached := reached_runWithin setup htree steps
  obtain ⟨job, kids, hkids, _, hpending⟩ := hreached.pending_of_enter htree hagenda
  exact ⟨job, kids, rest, hreached, hagenda, hkids, hpending, hcancelled, hhalted⟩

/-- A node that has started is not pending later. -/
theorem Entering.not_pending_later
    (h : Entering setup tree ((start setup tree).runWithin setup steps) a job kids rest)
    (htree : tree.Sound) (hlt : steps < n) : ∃ job',
      ((start setup tree).runWithin setup n).jobAt a = some job' ∧ job'.status ≠ .pending := by
  obtain ⟨after, hafter, hnot⟩ := h.not_pending htree
  obtain ⟨more, rfl⟩ := Nat.exists_eq_add_of_lt hlt
  rw [Nat.add_right_comm, runWithin_add]
  rw [← h.runWithin_succ htree] at hafter
  obtain ⟨job', hjob', hnot', _⟩ :=
    (reached_runWithin setup htree (steps + 1)).keeps_runWithin htree hafter hnot more
  exact ⟨job', hjob', hnot'⟩

/-- A node starts at most once. -/
theorem Starts.eq {steps' : Nat} (h : Starts setup tree a steps) (h' : Starts setup tree a steps')
    (htree : tree.Sound) : steps' = steps := by
  have hnot {n m : Nat} (hn : Starts setup tree a n) (hm : Starts setup tree a m) : ¬ n < m := by
    intro hlt
    obtain ⟨_, _, _, hentering⟩ := hn.entering htree
    obtain ⟨job, hjob, hnot⟩ := hentering.not_pending_later htree hlt
    obtain ⟨_, _, _, hentering'⟩ := hm.entering htree
    have hjob' := hentering'.jobAt
    rw [hjob, Option.some.injEq] at hjob'
    exact hnot (hjob' ▸ hentering'.pending)
  have := hnot h h'
  have := hnot h' h
  omega

/-! ## Steps that have to call -/

/-- The step at an address starts as the next node, and has to call its agent: an earlier run has not
recorded it, and its inputs have values. -/
structure Calling (setup : Setup) (tree : Node) (s : State) (a : Address) : Prop where
  exists_entering : ∃ job kids rest agent own inputs, Entering setup tree s a job kids rest ∧
    job.node.work = .step agent own ∧ setup.recorded? job.entry = none ∧
    bindInputs (s.viewAt setup a) job.node.header.inputs = .ok inputs

/-- The step at an address has started within a number of steps of the run, and had to call its agent. -/
def Called (setup : Setup) (tree : Node) (n : Nat) (a : Address) : Prop :=
  ∃ k, k < n ∧ Calling setup tree ((start setup tree).runWithin setup k) a

theorem called_succ_iff : Called setup tree (n + 1) a ↔ Called setup tree n a ∨
    Calling setup tree ((start setup tree).runWithin setup n) a := by
  constructor
  · rintro ⟨k, hk, hcalling⟩
    rcases Nat.lt_succ_iff_lt_or_eq.1 hk with hlt | rfl
    · exact .inl ⟨k, hlt, hcalling⟩
    · exact .inr hcalling
  · rintro (⟨k, hk, hcalling⟩ | hcalling)
    · exact ⟨k, Nat.lt_succ_of_lt hk, hcalling⟩
    · exact ⟨n, Nat.lt_succ_self n, hcalling⟩

theorem Called.not_pending (h : Called setup tree n a) (htree : tree.Sound) : ∃ job,
    ((start setup tree).runWithin setup n).jobAt a = some job ∧ job.status ≠ .pending := by
  obtain ⟨k, hk, _, _, _, _, _, _, hentering, _⟩ := h
  exact hentering.not_pending_later htree hk

/-- A step that has to call its agent begins to wait for the call. -/
theorem Calling.unasked (h : Calling setup tree s a) (htree : tree.Sound)
    (hstep : s.step setup = some t) : Unasked t a := by
  obtain ⟨job, kids, rest, agent, own, inputs, hentering, hwork, hrecorded, hbound⟩ := h
  rw [hentering.step htree, Option.some.injEq] at hstep
  obtain ⟨new, hnew, hbegun⟩ := hentering.begun htree hwork
  rw [hstep] at hnew
  cases hbegun with
  | ended hother =>
    rcases hother with hother | ⟨e, hother⟩
    · exact absurd hrecorded hother
    · rw [hbound] at hother
      cases hother
  | calling _ _ hstage =>
    refine ⟨{ agent, timeout := setup.timeoutOf own }, ?_, rfl⟩
    rw [callAt_of_jobAt hnew, Job.call?, hstage]

/-- Only a step that has to call its agent begins to wait for a call when its turn comes. -/
theorem Reached.calling_of_unasked (h : Reached setup tree s none) (htree : tree.Sound)
    (hagenda : s.agenda = .enter a :: rest) (hstep : s.step setup = some t) (hunasked : Unasked t a) :
    Calling setup tree s a := by
  obtain ⟨job, kids, hkids, hjob, hpending⟩ := h.pending_of_enter htree hagenda
  obtain ⟨call, hcall, _⟩ := hunasked
  obtain ⟨new, hnew, hstage⟩ := jobAt_of_callAt hcall
  have hchanges := h.step htree hstep
  have ht := h.changes hchanges
  obtain ⟨hrun, _, hkind, _⟩ := (ht.control htree).of_calling hnew hstage
  have hnode := (h.shape htree).node_eq (ht.shape htree) hjob hnew
  rw [hnode] at hkind
  obtain ⟨agent, own, hwork⟩ := Work.exists_agent hkind
  -- the step has started just now
  have hstarted : new.entry.progress.started.isSome := by
    obtain ⟨x, _, _, _, hsome, _⟩ := ((ht.chronicle htree).node a new hnew).of_running hrun
    rw [hsome]
    rfl
  have hnot (old : Job) (hold : s.jobAt a = some old) : ¬ old.entry.progress.started.isSome := by
    rw [hjob, Option.some.injEq] at hold
    obtain ⟨hunstarted, _⟩ := ((h.chronicle htree).node a job hjob).of_pending hpending
    rw [← hold, hunstarted.progress]
    exact Bool.false_ne_true
  obtain ⟨_, hcancelled, hhalted⟩ := hchanges.started_of_not h htree hnot hnew hstarted
  have hentering : Entering setup tree s a job kids rest :=
    ⟨h, hagenda, hkids, hpending, hcancelled, hhalted⟩
  rw [hentering.step htree, Option.some.injEq] at hstep
  obtain ⟨new', hnew', hbegun⟩ := hentering.begun htree hwork
  rw [hstep, hnew, Option.some.injEq] at hnew'
  subst hnew'
  cases hbegun with
  | ended _ hterminal =>
    rw [hrun] at hterminal
    cases hterminal
  | calling hrecorded hbound =>
    exact ⟨job, kids, rest, agent, own, _, hentering, hwork, hrecorded, hbound⟩

/-! ## The calls of a state -/

/-- The call is that of the step at an address, with the inputs that are recorded of the step. -/
def MadeBy (s : State) (a : Address) (c : Invocation) : Prop :=
  ∃ job own, s.jobAt a = some job ∧ job.status ≠ .pending ∧ job.node.work = .step c.agent own ∧
    job.entry.inputs = c.inputs

/-- After a number of steps of the run the executor is asked for the call of the step at an address. -/
structure Asks (setup : Setup) (tree : Node) (n : Nat) (a : Address) : Prop where
  agenda : ∃ rest, ((start setup tree).runWithin setup n).agenda = .proceed a :: rest
  unasked : Unasked ((start setup tree).runWithin setup n) a

/-- The calls after a number of steps of the run are those of the steps that had to call so far, but for
those whose turn has yet to come. -/
structure Tally (setup : Setup) (tree : Node) (n : Nat) (callers : List Address) : Prop where
  nodup : callers.Nodup
  mem_iff : ∀ a, a ∈ callers ↔ Called setup tree n a ∧
    ¬ Unasked ((start setup tree).runWithin setup n) a
  unasked : ∀ a, Unasked ((start setup tree).runWithin setup n) a → Called setup tree n a
  made : List.Forall₂ (MadeBy ((start setup tree).runWithin setup n)) callers
    ((start setup tree).runWithin setup n).invocations
  /-- The calls come in the order in which the executor was asked for them. -/
  asks : ∀ i a, callers[i]? = some a → ∃ k, k < n ∧ Asks setup tree k a ∧
    ((start setup tree).runWithin setup k).invocations.length = i

theorem MadeBy.step {c : Invocation} (h : MadeBy s a c) (hr : Reached setup tree s none)
    (htree : tree.Sound) (hstep : s.step setup = some t) : MadeBy t a c := by
  obtain ⟨job, own, hjob, hstatus, hwork, hinputs⟩ := h
  obtain ⟨job', hjob', hstatus', hkeeps⟩ := hr.keeps_step htree hjob hstatus hstep
  have ht := hr.changes (hr.step htree hstep)
  have hnode := (hr.shape htree).node_eq (ht.shape htree) hjob hjob'
  exact ⟨job', own, hjob', hstatus', by rw [hnode, hwork], hkeeps.inputs.trans hinputs⟩

namespace Tally

theorem start (setup : Setup) (tree : Node) : Tally setup tree 0 [] where
  nodup := .nil
  mem_iff a := by
    refine ⟨fun hmem => absurd hmem List.not_mem_nil, ?_⟩
    rintro ⟨⟨k, hk, _⟩, _⟩
    exact absurd hk (Nat.not_lt_zero k)
  unasked a hunasked := absurd hunasked (not_unasked_start setup tree a)
  made := .nil
  asks i a hmem := by simp at hmem

/-- Who has asked by now has asked by the next step. -/
theorem asks_succ (h : Tally setup tree n callers) {i : Nat} (hmem : callers[i]? = some a) :
    ∃ k, k < n + 1 ∧ Asks setup tree k a ∧
      ((State.start setup tree).runWithin setup k).invocations.length = i := by
  obtain ⟨k, hk, hasks⟩ := h.asks i a hmem
  exact ⟨k, Nat.lt_succ_of_lt hk, hasks⟩

/-- The calls so far are those of the same steps after the next step. -/
theorem made_succ (h : Tally setup tree n callers) (htree : tree.Sound)
    (hstep : ((State.start setup tree).runWithin setup n).step setup = some t) :
    List.Forall₂ (MadeBy ((State.start setup tree).runWithin setup (n + 1))) callers
      ((State.start setup tree).runWithin setup n).invocations := by
  rw [runWithin_succ_of_step hstep]
  exact h.made.imp fun _ _ hmade => hmade.step (reached_runWithin setup htree n) htree hstep

/-- While no call goes on, the steps that have called are the same. -/
theorem next_of_quiet (h : Tally setup tree n callers) (htree : tree.Sound)
    (hstep : ((State.start setup tree).runWithin setup n).step setup = some t)
    (hproceed : ∀ a rest, ((State.start setup tree).runWithin setup n).agenda ≠ .proceed a :: rest) :
    Tally setup tree (n + 1) callers := by
  have hreached := reached_runWithin setup htree n
  have hnext := runWithin_succ_of_step hstep
  obtain ⟨-, hinvocations, hkeep, hnew⟩ :=
    hreached.unasked_step htree (queued_runWithin setup htree n) hstep hproceed
  rw [← hnext] at hinvocations hkeep hnew
  refine ⟨h.nodup, fun a => ?_, fun a hunasked => ?_, ?_, fun i a => h.asks_succ⟩
  · rw [h.mem_iff, called_succ_iff]
    constructor
    · rintro ⟨hcalled, hnot⟩
      refine ⟨.inl hcalled, fun hunasked => ?_⟩
      rcases hnew a hunasked with hunasked | ⟨rest, hagenda⟩
      · exact hnot hunasked
      · -- the turn of a step comes once
        obtain ⟨_, _, _, hjob, hpending⟩ := hreached.pending_of_enter htree hagenda
        obtain ⟨_, hjob', hstarted⟩ := hcalled.not_pending htree
        rw [hjob, Option.some.injEq] at hjob'
        exact hstarted (hjob' ▸ hpending)
    · rintro ⟨hcalled | hcalling, hnot⟩
      · exact ⟨hcalled, fun hunasked => hnot (hkeep a hunasked)⟩
      · exact absurd (hnext ▸ hcalling.unasked htree hstep) hnot
  · rw [called_succ_iff]
    rcases hnew a hunasked with hunasked' | ⟨rest, hagenda⟩
    · exact .inl (h.unasked a hunasked')
    · exact .inr (hreached.calling_of_unasked htree hagenda hstep (hnext ▸ hunasked))
  · rw [hinvocations]
    exact h.made_succ htree hstep

/-- When a step is asked for its call, it is the last one that has called. -/
theorem concat (h : Tally setup tree n callers) (hasks : Asks setup tree n a)
    (hcalled : ∀ b, Called setup tree (n + 1) b ↔ Called setup tree n b)
    (hunasked : ∀ b, Unasked ((State.start setup tree).runWithin setup (n + 1)) b ↔
      Unasked ((State.start setup tree).runWithin setup n) b ∧ b ≠ a)
    (hmade : List.Forall₂ (MadeBy ((State.start setup tree).runWithin setup (n + 1)))
      (callers ++ [a]) ((State.start setup tree).runWithin setup (n + 1)).invocations) :
    Tally setup tree (n + 1) (callers ++ [a]) := by
  have hnew : a ∉ callers := fun hmem => ((h.mem_iff a).1 hmem).2 hasks.unasked
  refine ⟨?_, fun b => ?_, fun b hb => ?_, hmade, fun i b hi => ?_⟩
  · rw [List.nodup_append]
    refine ⟨h.nodup, List.nodup_singleton a, fun b hb c hc heq => ?_⟩
    rw [List.mem_singleton] at hc
    exact hnew (hc ▸ heq ▸ hb)
  · rw [List.mem_append, List.mem_singleton, h.mem_iff, hcalled, hunasked]
    constructor
    · rintro (⟨hb, hnot⟩ | rfl)
      · exact ⟨hb, fun hand => hnot hand.1⟩
      · exact ⟨h.unasked b hasks.unasked, fun hand => hand.2 rfl⟩
    · rintro ⟨hb, hnot⟩
      by_cases hba : b = a
      · exact .inr hba
      · exact .inl ⟨hb, fun hunasked' => hnot ⟨hunasked', hba⟩⟩
  · exact (hcalled b).2 (h.unasked b ((hunasked b).1 hb).1)
  · rw [List.getElem?_append] at hi
    split at hi
    · exact h.asks_succ hi
    · obtain ⟨hlast, rfl⟩ := List.getElem?_eq_some_iff.1 hi
      rw [List.length_singleton] at hlast
      refine ⟨n, n.lt_succ_self, ?_, ?_⟩
      · rw [List.getElem_singleton]
        exact hasks
      · rw [← h.made.length_eq]
        omega

/-- When a call goes on, its step calls unless it has called. -/
theorem next_of_proceed (h : Tally setup tree n callers) (htree : tree.Sound)
    (hstep : ((State.start setup tree).runWithin setup n).step setup = some t)
    (hagenda : ((State.start setup tree).runWithin setup n).agenda = .proceed a :: rest) :
    ∃ callers', Tally setup tree (n + 1) callers' := by
  have hreached := reached_runWithin setup htree n
  have hqueued := queued_runWithin setup htree n
  have hproceeds := hqueued.proceeds setup hagenda
  have hinvocations := hqueued.invocations_proceed setup a rest
  have ht : t = ({ (State.start setup tree).runWithin setup n with agenda := rest } :
      State).proceed setup a := eq_perform_of_step hstep hagenda
  have hnext := runWithin_succ_of_step hstep
  have hmade := h.made_succ htree hstep
  rw [← ht, ← hnext] at hproceeds hinvocations
  have hcalled (b : Address) : Called setup tree (n + 1) b ↔ Called setup tree n b := by
    rw [called_succ_iff, or_iff_left_iff_imp]
    rintro ⟨_, _, _, _, _, _, hentering, _⟩
    rw [hentering.agenda] at hagenda
    cases hagenda
  rcases hinvocations with ⟨hnot, hsame⟩ | ⟨job, call, hjob, hstage, hasked, hmore⟩
  · refine ⟨callers, h.nodup, fun b => ?_, fun b hunasked => ?_, hsame ▸ hmade,
      fun i b => h.asks_succ⟩
    · rw [h.mem_iff, hcalled, hproceeds.unasked_iff]
      refine and_congr_right fun _ => not_congr ⟨fun hunasked => ⟨hunasked, ?_⟩, And.left⟩
      rintro rfl
      exact hnot hunasked
    · exact (hcalled b).2 (h.unasked b ((hproceeds.unasked_iff b).1 hunasked).1)
  · have hunasked : Unasked ((State.start setup tree).runWithin setup n) a :=
      ⟨call, by rw [callAt_of_jobAt hjob, Job.call?, hstage], hasked⟩
    obtain ⟨own, hwork, _⟩ := (hreached.waiting htree hjob hstage).work
    have hrun := ((hreached.control htree).of_calling hjob hstage).1
    have hself : MadeBy ((State.start setup tree).runWithin setup n) a
        ⟨((State.start setup tree).runWithin setup n).now, call.agent, job.entry.inputs⟩ :=
      ⟨job, own, hjob, by rw [hrun]; decide, hwork, rfl⟩
    refine ⟨callers ++ [a], h.concat ⟨⟨rest, hagenda⟩, hunasked⟩ hcalled hproceeds.unasked_iff ?_⟩
    rw [hmore]
    exact List.rel_append hmade (.cons (hnext ▸ hself.step hreached htree hstep) .nil)

end Tally

/-- The calls of every state of a run are those of the steps that had to call so far. -/
theorem exists_tally (setup : Setup) (htree : tree.Sound) (n : Nat) :
    ∃ callers, Tally setup tree n callers := by
  induction n with
  | zero => exact ⟨[], .start setup tree⟩
  | succ n ih =>
    obtain ⟨callers, h⟩ := ih
    cases hstep : ((start setup tree).runWithin setup n).step setup with
    | none =>
      have hsame : (start setup tree).runWithin setup (n + 1) =
          (start setup tree).runWithin setup n := by
        rw [runWithin_succ, hstep]
        rfl
      have hcalled (a : Address) : Called setup tree (n + 1) a ↔ Called setup tree n a := by
        rw [called_succ_iff, or_iff_left_iff_imp]
        rintro ⟨_, _, _, _, _, _, hentering, _⟩
        rw [hentering.step htree] at hstep
        cases hstep
      refine ⟨callers, h.nodup, fun a => ?_, fun a hunasked => ?_, hsame ▸ h.made,
        fun i a => h.asks_succ⟩
      · rw [hsame, hcalled]
        exact h.mem_iff a
      · rw [hsame] at hunasked
        exact (hcalled a).2 (h.unasked a hunasked)
    | some t =>
      by_cases hproceed : ∃ a rest,
          ((start setup tree).runWithin setup n).agenda = .proceed a :: rest
      · obtain ⟨a, rest, hagenda⟩ := hproceed
        exact h.next_of_proceed htree hstep hagenda
      · exact ⟨callers, h.next_of_quiet htree hstep
          fun a rest hagenda => hproceed ⟨a, rest, hagenda⟩⟩

/-! ## The end of a run -/

/-- The step at an address of the run of the tree that ends in the state has to call its agent. -/
structure Due (setup : Setup) (tree : Node) (s : State) (a : Address) (job : Job) : Prop where
  step : job.node.kind = .step
  /-- It has started. -/
  started : ∃ x ∈ s.trace, x.path = job.entry.path ∧ x.status = .running
  /-- It is not taken over from an earlier run. -/
  recorded : setup.recorded? job.entry = none
  /-- Its inputs have values when it starts. -/
  bound : ∃ steps inputs, Starts setup tree a steps ∧
    bindInputs (((start setup tree).runWithin setup steps).viewAt setup a) job.node.header.inputs =
      .ok inputs

/-- The call is that of the step at an address, with the inputs that the result of the run records. -/
def Made (s : State) (a : Address) (c : Invocation) : Prop :=
  ∃ job own, s.jobAt a = some job ∧ job.node.work = .step c.agent own ∧
    c.inputs = job.entry.inputs ∧ s.result.tree.recorded? job.entry.path = some job.entry

/-- The steps that had to call in a run are those that have started, are not taken over and have values
for their inputs. -/
theorem Final.called_iff (h : Final setup tree s) (hs : s = (start setup tree).runWithin setup n) :
    Called setup tree n a ↔ ∃ job, s.jobAt a = some job ∧ Due setup tree s a job := by
  have hshape := h.shape
  constructor
  · rintro ⟨k, hk, old, kids, rest, agent, own, inputs, hentering, hwork, hrecorded, hbound⟩
    have hold := hentering.reached.shape h.sound
    obtain ⟨job, hjob, _⟩ := hentering.not_pending_later h.sound hk
    rw [← hs] at hjob
    have hnode := hold.node_eq hshape hentering.jobAt hjob
    refine ⟨job, hjob, by rw [hnode, Node.kind, hwork]; rfl, ?_, ?_, k, inputs,
      ⟨⟨rest, hentering.agenda⟩, hentering.cancelled, hentering.halted⟩, by rw [hnode, hbound]⟩
    · -- the event of the start stays in the trace
      have hcalling : Calling setup tree ((start setup tree).runWithin setup k) a :=
        ⟨old, kids, rest, agent, own, inputs, hentering, hwork, hrecorded, hbound⟩
      obtain ⟨call, hcall, _⟩ := hcalling.unasked h.sound (hentering.step h.sound)
      rw [← hentering.runWithin_succ h.sound] at hcall
      obtain ⟨new, hnew, hstage⟩ := jobAt_of_callAt hcall
      have hafter := reached_runWithin setup h.sound (k + 1)
      have hrun := ((hafter.control h.sound).of_calling hnew hstage).1
      obtain ⟨x, hx, _, hrunning, _⟩ := ((hafter.chronicle h.sound).node a new hnew).of_running hrun
      obtain ⟨hmem, hpath⟩ := mem_eventsOf.1 (hx ▸ List.mem_singleton_self x)
      obtain ⟨more, rfl⟩ := Nat.exists_eq_add_of_lt hk
      have hprefix := hafter.trace_prefix h.sound more
      rw [← runWithin_add, Nat.add_right_comm, ← hs] at hprefix
      exact ⟨x, hprefix.subset hmem,
        hpath.trans ((hafter.shape h.sound).path_eq hshape hnew hjob).symm, hrunning⟩
    · rw [← hrecorded]
      exact hold.recorded?_eq hshape setup hentering.jobAt hjob
  · rintro ⟨job, hjob, hdue⟩
    obtain ⟨steps, inputs, hstarts, hbound⟩ := hdue.bound
    obtain ⟨old, kids, rest, hentering⟩ := hstarts.entering h.sound
    have hold := hentering.reached.shape h.sound
    have hnode := hold.node_eq hshape hentering.jobAt hjob
    have hkind := hdue.step
    rw [hnode] at hkind
    obtain ⟨agent, own, hwork⟩ := Work.exists_agent hkind
    refine ⟨steps, ?_, old, kids, rest, agent, own, inputs, hentering, hwork, ?_, by rw [← hnode, hbound]⟩
    · -- nothing is left to do at the end of the run
      by_contra hnot
      obtain ⟨more, rfl⟩ := Nat.exists_eq_add_of_le (Nat.le_of_not_lt hnot)
      have hstay : (start setup tree).runWithin setup (n + more) = s := by
        rw [runWithin_add, ← hs]
        cases more with
        | zero => rfl
        | succ more => rw [State.runWithin, h.step]
      have hstep := hentering.step h.sound
      rw [hstay, h.step] at hstep
      cases hstep
    · rw [← hold.recorded?_eq hshape setup hentering.jobAt hjob]
      exact hdue.recorded

/-- The calls at the end of a run are those of the steps that had to call. -/
theorem Final.invoked_of_tally (h : Final setup tree s)
    (hs : s = (start setup tree).runWithin setup n) (htally : Tally setup tree n callers) :
    callers.Nodup ∧ (∀ a, a ∈ callers ↔ ∃ job, s.jobAt a = some job ∧ Due setup tree s a job) ∧
      List.Forall₂ (Made s) callers s.invocations := by
  -- whoever still waits for a call has asked for it
  have hasked (a : Address) : ¬ Unasked ((start setup tree).runWithin setup n) a := by
    rw [← hs]
    rintro ⟨call, hcall, hnot⟩
    rw [(h.reached.endless h.sound h.step hcall).asked] at hnot
    cases hnot
  refine ⟨htally.nodup, fun a => ?_, ?_⟩
  · rw [htally.mem_iff, and_iff_left (hasked a)]
    exact h.called_iff hs
  · have hmade := htally.made
    rw [← hs] at hmade
    refine hmade.imp fun a c ⟨job, own, hjob, _, hwork, hinputs⟩ => ?_
    exact ⟨job, own, hjob, hwork, hinputs.symm, h.shape.recorded?_toResult hjob⟩

/-- The calls of a run are those of the steps that had to call. -/
theorem Final.invoked (h : Final setup tree s) : ∃ callers : List Address, callers.Nodup ∧
    (∀ a, a ∈ callers ↔ ∃ job, s.jobAt a = some job ∧ Due setup tree s a job) ∧
    List.Forall₂ (Made s) callers s.invocations := by
  obtain ⟨n, hs⟩ := h.exists_eq_runWithin
  obtain ⟨callers, htally⟩ := exists_tally setup h.sound n
  exact ⟨callers, h.invoked_of_tally hs htally⟩

end State

/-- In every run, the executor is asked exactly once for every step that has started, is not taken over
from an earlier run and has values for its inputs, with its agent and the inputs that the result
records. -/
theorem Setup.invoked_of_execute {setup : Setup} {tree : Node} {separator : String}
    {ids rest : IdSource} {s : State} (htree : tree.Sound)
    (h : setup.execute tree separator ids = .ok (s, rest)) :
    ∃ prepared callers, tree.prepare separator setup.previous ids = .ok (prepared, rest) ∧
      callers.Nodup ∧
      (∀ a, a ∈ callers ↔ ∃ job, s.jobAt a = some job ∧ State.Due setup prepared s a job) ∧
      List.Forall₂ (State.Made s) callers s.invocations := by
  obtain ⟨prepared, hprepare, hfinal⟩ := execute_final htree h
  obtain ⟨callers, hnodup, hmem, hmade⟩ := hfinal.invoked
  exact ⟨prepared, callers, hprepare, hnodup, hmem, hmade⟩

/-- A parallel node with two steps is such a run. -/
theorem Setup.invoked_of_execute_parallel : ∃ s rest prepared callers,
    ({ executor := Echo.executor } : Setup).execute
      (.mk {} (.parallel none) [.mk {} (.step "first" none) [], .mk {} (.step "second" none) []])
      " > " .counting = .ok (s, rest) ∧ callers.Nodup ∧
    (∀ a, a ∈ callers ↔ ∃ job, s.jobAt a = some job ∧
      State.Due { executor := Echo.executor } prepared s a job) ∧
    List.Forall₂ (State.Made s) callers s.invocations := by
  obtain ⟨s, rest, h⟩ : ∃ s rest, ({ executor := Echo.executor } : Setup).execute
      (.mk {} (.parallel none) [.mk {} (.step "first" none) [], .mk {} (.step "second" none) []])
      " > " .counting = .ok (s, rest) := ⟨_, _, rfl⟩
  have hsound : (Node.mk {} (.parallel none)
      [.mk {} (.step "first" none) [], .mk {} (.step "second" none) []]).Sound := by
    simp [Node.Sound, Node.walk, Node.walkList, Node.Fits, Node.work, Node.children, Work.limit]
  obtain ⟨prepared, callers, _, hcallers⟩ := invoked_of_execute hsound h
  exact ⟨s, rest, prepared, callers, h, hcallers⟩

end Workflow
