import Workflow.Executor.Echo
import Workflow.Proofs.Run.Chronicle
import Workflow.Proofs.Run.Recorded
import Workflow.Proofs.Run.Waits

/-!
# The lifecycle of nodes

In the result of a run every node has ended, and the trace tells how: a node is left out, or starts
and then succeeds, fails or is stopped. A node starts before and ends after the nodes below it that
start.

* `RunResult.Lifecycle` says this of a result.
* `Setup.lifecycle_of_execute` says that a run comes to such a result or waits for a call that never
  answers.
-/

namespace Workflow

/-- The trace of a result tells how its nodes came to their ends. -/
structure RunResult.Lifecycle (r : RunResult) : Prop where
  /-- Every node has ended. -/
  ended : ∀ n ∈ r.tree.walk, n.status.isTerminal
  /-- A node has started and then ended, or was left out. -/
  events : ∀ n ∈ r.tree.walk,
    (∃ x y : Event, eventsOf r.trace n.entry.path = [x, y] ∧
      x.previous = .pending ∧ x.status = .running ∧ y.previous = .running ∧ y.status = n.status ∧
      (n.status = .succeeded ∨ n.status = .failed ∨ n.status = .cancelled)) ∨
    ∃ x : Event, eventsOf r.trace n.entry.path = [x] ∧
      x.previous = .pending ∧ x.status = n.status ∧ (n.status = .skipped ∨ n.status = .cancelled)
  /-- Every event is about a node. -/
  known : ∀ x ∈ r.trace, ∃ n ∈ r.tree.walk, n.entry.path = x.path
  /-- The events in order, each from the status that the one before it left, lead to the statuses
  of the nodes. -/
  replayed : ∃ statuses, replay r.trace = some statuses ∧
    ∀ n ∈ r.tree.walk, statuses n.entry.path = n.status
  /-- A node starts before and ends after the nodes below it that start. -/
  nested : ∀ n ∈ r.tree.walk, ∀ below ∈ n.descendants, ∀ x ∈ r.trace,
    x.path = below.entry.path → x.status = .running →
    (∃ y : Event, y.path = n.entry.path ∧ y.status = .running ∧ [y, x].Sublist r.trace) ∧
    ∃ y z : Event, y.path = below.entry.path ∧ y.status.isTerminal ∧
      z.path = n.entry.path ∧ z.status.isTerminal ∧ [y, z].Sublist r.trace
  /-- The start of a node is recorded if and only if there is an event of it. -/
  started : ∀ n ∈ r.tree.walk, n.entry.progress.started.isSome ↔
    ∃ x ∈ r.trace, x.path = n.entry.path ∧ x.status = .running
  /-- A node has an error if it failed or was stopped after its start. -/
  error : ∀ n ∈ r.tree.walk, n.entry.error.isSome ↔
    n.status = .failed ∨ (n.status = .cancelled ∧ n.entry.progress.started.isSome)
  /-- Only nodes that succeeded have an output. -/
  output : ∀ n ∈ r.tree.walk, n.entry.output ≠ .null → n.status = .succeeded

namespace State

variable {setup : Setup} {tree : Node} {s : State}

/-- At the end of a run the trace tells how the nodes came to their ends. -/
theorem Final.lifecycle (h : Final setup tree s) (hroot : ∃ status, s.statusAt [] = some status ∧
    status.isTerminal) : s.result.Lifecycle := by
  have hchronicle := h.chronicle
  obtain ⟨status, hroot, hterminal⟩ := hroot
  have hended {a : Address} {job : Job} (hjob : s.jobAt a = some job) : job.status.isTerminal :=
    h.reached.isTerminal h.sound hroot hterminal hjob
  -- a node that has ended has the event of its end
  have hend {a : Address} {job : Job} {x : Event} (hjob : s.jobAt a = some job)
      (hx : x ∈ s.trace) (hpath : x.path = job.entry.path) (hrun : x.status = .running) :
      ∃ y ∈ s.trace, y.path = job.entry.path ∧ y.status.isTerminal := by
    have hnot : job.entry.status ≠ .running := by
      intro hrunning
      have := hended hjob
      rw [Job.status, hrunning] at this
      cases this
    obtain ⟨y, hy, hyEnd⟩ := (hchronicle.node a job hjob).exists_end hnot
      (mem_eventsOf.2 ⟨hx, hpath⟩) hrun
    obtain ⟨hyMem, hyPath⟩ := mem_eventsOf.1 hy
    exact ⟨y, hyMem, hyPath, hyEnd⟩
  constructor
  · intro n hn
    obtain ⟨a, job, hjob, _, hstatus, _⟩ := exists_node hn
    rw [hstatus]
    exact hended hjob
  · intro n hn
    obtain ⟨a, job, hjob, hentry, _, _⟩ := exists_node hn
    have hlived := hchronicle.node a job hjob
    have hterminal := hended hjob
    rw [Result.status, hentry]
    rw [Job.status] at hterminal
    generalize hevents : eventsOf s.trace job.entry.path = events at hlived
    cases hlived with
    | pending hfresh => rw [hfresh.status] at hterminal; cases hterminal
    | running _ _ hrun => rw [hrun] at hterminal; cases hterminal
    | @ended x y hprevious hrun hprevious' hend hstatus =>
      exact .inl ⟨x, y, hevents, hprevious, hrun, hprevious', hend, hstatus⟩
    | @left x hprevious hend hstatus => exact .inr ⟨x, hevents, hprevious, hend, hstatus⟩
  · intro x hx
    obtain ⟨a, job, hjob, hpath⟩ := hchronicle.known x hx
    obtain ⟨n, hn, hentry⟩ := h.shape.exists_result hjob
    exact ⟨n, hn, by rw [hentry, hpath]⟩
  · obtain ⟨statuses, hreplay, hstatuses, _⟩ := hchronicle.replayed
    refine ⟨statuses, hreplay, fun n hn => ?_⟩
    obtain ⟨a, job, hjob, hentry, hstatus, _⟩ := exists_node hn
    rw [hentry, hstatus]
    exact hstatuses a job hjob
  · intro n hn below hbelow x hx hpath hrun
    obtain ⟨a, job, hjob, hentry, _, hdescendants⟩ := exists_node hn
    obtain ⟨c, job', hc, hjob', hentry'⟩ := hdescendants below hbelow
    rw [hentry'] at hpath ⊢
    rw [hentry]
    obtain ⟨y, hyPath, hyRun, hsub⟩ :=
      hchronicle.starts a c job job' x hjob hjob' hc hx hpath hrun
    have hy : y ∈ s.trace := hsub.subset List.mem_cons_self
    obtain ⟨w, hw, hwPath, hwEnd⟩ := hend hjob hy hyPath hyRun
    obtain ⟨z, hzPath, hzEnd, hsub'⟩ :=
      hchronicle.ends a c job job' x w hjob hjob' hc hx hpath hrun hw hwPath hwEnd
    exact ⟨⟨y, hyPath, hyRun, hsub⟩, z, w, hzPath, hzEnd, hwPath, hwEnd, hsub'⟩
  · intro n hn
    obtain ⟨a, job, hjob, hentry, _, _⟩ := exists_node hn
    rw [hentry, (hchronicle.node a job hjob).started_iff]
    simp only [mem_eventsOf, and_assoc]
    exact Iff.rfl
  · intro n hn
    obtain ⟨a, job, hjob, hentry, hstatus, _⟩ := exists_node hn
    rw [hentry, hstatus]
    exact (hchronicle.node a job hjob).error_iff
  · intro n hn houtput
    obtain ⟨a, job, hjob, hentry, hstatus, _⟩ := exists_node hn
    rw [hentry] at houtput
    rw [hstatus]
    exact (hchronicle.node a job hjob).output houtput

end State

/-- A run makes no move that the table of statuses does not have. It comes to a result whose trace
tells how every node came to its end, unless it waits for a call that never answers. -/
theorem Setup.lifecycle_of_execute {setup : Setup} {tree : Node} {separator : String}
    {ids rest : IdSource} {s : State} (htree : tree.Sound)
    (h : setup.execute tree separator ids = .ok (s, rest)) :
    s.fault = none ∧
      ((s.outcome = .finished s.result ∧ s.result.Lifecycle) ∨
        (s.outcome = .waiting ∧ s.Waits setup)) := by
  obtain ⟨prepared, _, hfinal⟩ := execute_final htree h
  refine ⟨(hfinal.reached.control hfinal.sound).sound, ?_⟩
  rcases hfinal.finished_or_waits with hfinished | hwaits
  · exact .inl ⟨hfinished, hfinal.lifecycle (hfinal.root_ended hfinished).2⟩
  · exact .inr hwaits

/-- A race of one candidate is such a run. -/
theorem Setup.lifecycle_of_execute_race : ∃ s rest, ({ executor := Echo.executor } : Setup).execute
    (.mk {} (.race none) [.mk {} (.step "agent" none) []]) " > " .counting = .ok (s, rest) ∧
    s.fault = none ∧ ((s.outcome = .finished s.result ∧ s.result.Lifecycle) ∨
      (s.outcome = .waiting ∧ s.Waits { executor := Echo.executor })) := by
  have hsound : (Node.mk {} (.race none) [.mk {} (.step "agent" none) []]).Sound := by
    simp [Node.Sound, Node.walk, Node.walkList, Node.Fits, Node.work, Node.children, Work.limit]
  obtain ⟨s, rest, h⟩ : ∃ s rest, ({ executor := Echo.executor } : Setup).execute
      (.mk {} (.race none) [.mk {} (.step "agent" none) []]) " > " .counting = .ok (s, rest) :=
    ⟨_, _, rfl⟩
  exact ⟨s, rest, h, lifecycle_of_execute hsound h⟩

end Workflow
