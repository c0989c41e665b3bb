import Workflow.Proofs.Run.Outcomes
import Workflow.Proofs.Tree.Limits

/-!
# Runs with other limits

How many children of a node may run at once does not matter to what comes of the nodes. If all limits
are one, nodes start one at a time, in the order in which they are declared.

* `State.TwinRuns.stepsAlike` says that steps come out alike in runs that take over the same.
* `State.OneByOne` says that nothing else runs when a node starts, and that everything declared before
  it has come to its end.
* `Setup.concurrency_of_execute` is the main result.
-/

namespace Workflow

/-- Every node that runs several children at once may run one. -/
def Setup.Single (setup : Setup) (tree : Node) : Prop :=
  ∀ node ∈ tree.walk, node.kind.isGroup = true → ∀ count, setup.slots node.work count = 1

namespace State

variable {setup setup' : Setup} {tree tree' : Node} {s s' : State} {hand : Option Address}
  {a c x : Address} {i j steps : Nat} {job job' old : Job} {frame : Frame}

/-! ## One at a time -/

/-- Of the children of a node with one slot that have been asked to start all others are done. -/
theorem Group.done_of_one (h : Group setup s hand a job frame)
    (hslots : setup.slots job.node.work job.arity = 1) (hj : j < job.arity)
    (hactive : Active s hand (a ++ [j])) (hi : i < frame.begun) (hij : i ≠ j) :
    Done s hand (a ++ [i]) := by
  classical
  by_contra hnot
  have hjBegun : j < frame.begun := by
    by_contra hle
    exact (h.waiting j (by omega) hj).2 hactive
  have hcard := h.card_undone_le
  rw [hslots] at hcard
  exact hij (Finset.card_le_one.1 hcard i (Finset.mem_filter.2 ⟨Finset.mem_range.2 hi, hnot⟩) j
    (Finset.mem_filter.2 ⟨Finset.mem_range.2 hjBegun, fun hdone => hdone.2 hactive⟩))

/-- The node runs alone, and in its turn: the nodes that run are above it, and what is declared before it
has come to its end. -/
structure InTurn (s : State) (a : Address) : Prop where
  alone : ∀ x job, s.jobAt x = some job → job.status = .running → x <+: a
  ordered : ∀ c i j x job, c ++ [j] <+: a → c ++ [i] <+: x → i < j → s.jobAt x = some job →
    job.status.isTerminal

/-- In the run of the tree nodes start one by one, in the order in which they are declared. -/
def OneByOne (setup : Setup) (tree : Node) : Prop :=
  ∀ steps a, Turn setup tree a steps → InTurn ((start setup tree).runWithin setup steps) a

/-- The child of a node at which the address of an active node parts from another one has come to its end,
or comes later and has not started. -/
theorem Reached.aside (h : Reached setup tree s none) (htree : tree.Sound)
    (hsingle : setup.Single tree) (ha : Active s none a) (hright : c ++ [j] <+: a)
    (hleft : c ++ [i] <+: x) (hij : i ≠ j) (hx : s.jobAt x = some old) :
    old.status.isTerminal ∨ (j < i ∧ old.status = .pending) := by
  have hcontrol := h.control htree
  have hshape := h.shape htree
  have hactive := hcontrol.active_above ha hright
  obtain ⟨above, habove, hrun, _⟩ := hcontrol.parent hactive
  have hj := hcontrol.lt_arity hshape habove hactive
  obtain ⟨d, rfl⟩ := id hleft
  obtain ⟨kid, hkid⟩ := jobAt_of_append hx
  have hi := hshape.lt_arity habove hkid
  have hdone (hdone : Done s none (c ++ [i])) : old.status.isTerminal := by
    obtain ⟨⟨status, hstatus, hend⟩, _⟩ := hdone
    exact hcontrol.isTerminal_below hleft hstatus hend hx
  have hpending (hstatus : s.statusAt (c ++ [i]) = some .pending) : old.status = .pending :=
    hcontrol.below_pending hleft hstatus (statusAt_of_jobAt hx)
  cases (hcontrol.node c above habove).busy hrun (by simp) with
  | calling _ hstep => exact absurd hstep (hshape.kind_ne_step habove hi)
  | @sequence frame k _ _ _ _ _ hbefore hafter =>
    have hjk : ¬ k < j := fun hlt => (hafter j hlt hj).2 hactive
    have hkj : ¬ j < k := fun hlt => (hbefore j hlt).1.2 hactive
    rcases Nat.lt_or_gt_of_ne hij with hlt | hlt
    · exact .inl (hdone (hbefore i (by omega)).1)
    · exact .inr ⟨hlt, hpending (hafter i (by omega) hi).1⟩
  | @branch frame k _ _ _ _ hothers =>
    have hjk : j = k := by
      by_contra hne
      exact (hothers j hj hne).1.2 hactive
    exact .inl (hdone (hothers i hi (by omega)).1)
  | @group frame _ hkind hgroup =>
    have hslots := hsingle above.node (hshape.walk_subset above habove (Node.mem_walk_self _)) hkind
      above.arity
    by_cases hbegun : i < frame.begun
    · exact .inl (hdone (hgroup.done_of_one hslots hj hactive hbegun hij))
    · have hjBegun : j < frame.begun := by
        by_contra hle
        exact (hgroup.waiting j (by omega) hj).2 hactive
      exact .inr ⟨by omega, hpending (hgroup.waiting i (by omega) hi).1⟩

/-- If every node may run one child at once, nodes start one by one. -/
theorem oneByOne_of_single (htree : tree.Sound) (hsingle : setup.Single tree) :
    OneByOne setup tree := by
  rintro steps a ⟨rest, hagenda⟩
  have hreached := reached_runWithin setup htree steps
  have hactive : Active ((start setup tree).runWithin setup steps) none a :=
    .inr (.inl (by rw [hagenda]; exact List.mem_cons_self))
  obtain ⟨job, _, _, hjob, hpending⟩ := hreached.pending_of_enter htree hagenda
  refine ⟨fun x old hx hrun => ?_, fun c i j x old hright hleft hlt hx => ?_⟩
  · by_contra hnot
    by_cases hax : a <+: x
    · -- nothing below a node that has not started runs
      have := (hreached.control htree).below_pending hax
        (by rw [statusAt_of_jobAt hjob, hpending]) (statusAt_of_jobAt hx)
      rw [hrun] at this
      cases this
    · obtain ⟨c, i, j, hij, hleft, hright⟩ := Node.exists_parting hnot hax
      rcases hreached.aside htree hsingle hactive hright hleft hij hx with hend | ⟨_, hstatus⟩
      · rw [hrun] at hend
        cases hend
      · rw [hrun] at hstatus
        cases hstatus
  · rcases hreached.aside htree hsingle hactive hright hleft (by omega) hx with hend | ⟨hgt, _⟩
    · exact hend
    · omega

/-! ## Steps that take over the same -/

/-- Steps come out alike in runs that take over the same and in which calls end alike. -/
theorem TwinRuns.stepsAlike (h : TwinRuns setup setup' tree tree' s s')
    (haccount : ∀ agent own, setup'.account agent own = setup.account agent own)
    (hrecorded : ∀ a job job', s.jobAt a = some job → s'.jobAt a = some job' →
      setup'.recorded? job'.entry = setup.recorded? job.entry) : StepsAlike tree s s' := by
  intro a job job' hmet hkind
  obtain ⟨agent, own, bound, hfirst, hsecond⟩ := h.exists_account hmet hkind
  rw [hfirst, hsecond, haccount, hrecorded a job job' hmet.first hmet.second]

/-! ## Runs of a tree with other limits -/

/-- Nodes at one address of the runs of trees that differ in limits have the same identifier. -/
theorem Shape.id_withLimits {f : Option Nat → Option Nat} (h : Shape tree s)
    (h' : Shape (tree.withLimits f) s') (hjob : s.jobAt a = some job) (hjob' : s'.jobAt a = some job') :
    job'.node.id = job.node.id := by
  have hnode := h'.at?_placeOf hjob'
  rw [(Node.Twin.withLimits f tree).placeOf, Node.at?_withLimits, h.at?_placeOf hjob, Option.map_some,
    Option.some.injEq] at hnode
  rw [← hnode, Node.id, Node.id, Node.header_withLimits]


end State

namespace Setup

variable {setup : Setup} {tree : Node} {separator : String} {ids rest : IdSource} {s : State}

/-- If the limits of a setup and of a tree are one, every node may run one child at once. -/
theorem single_withLimits (setup : Setup) (tree : Node) :
    ({ setup with limit := 1 } : Setup).Single (tree.withLimits fun _ => some 1) := by
  intro node hnode _ count
  rw [Node.walk_withLimits, List.mem_map] at hnode
  obtain ⟨node, _, rfl⟩ := hnode
  rw [Node.work_withLimits]
  cases node.work <;> rfl

/-- Concurrency does not change results. If no binding crosses between the children of a parallel node,
there are no races, and calls depend on nothing but their agents and inputs, then the run comes to its end
with the same result, but for times, as if nodes were run one by one in the order in which they are
declared, or it waits for ever as that run does. -/
theorem concurrency_of_execute (htree : tree.Sound) (hindependent : tree.Independent)
    (hrace : ∀ node ∈ tree.walk, node.kind ≠ .race) (hsteady : setup.executor.Steady)
    (hcancelAt : setup.cancelAt = none) (h : setup.execute tree separator ids = .ok (s, rest)) :
    ∃ prepared s', (tree.withLimits fun _ => some 1).prepare separator setup.previous ids =
        .ok (prepared, rest) ∧
      ({ setup with limit := 1 } : Setup).execute (tree.withLimits fun _ => some 1) separator ids =
        .ok (s', rest) ∧
      State.OneByOne { setup with limit := 1 } prepared ∧
      ((s.outcome = .finished s.result ∧ s'.outcome = .finished s'.result ∧
          s'.result.tree.untimed = s.result.tree.untimed ∧ s'.result.status = s.result.status) ∨
        (s.outcome = .waiting ∧ s'.outcome = .waiting)) := by
  obtain ⟨prepared, hprepare, hfinal⟩ := execute_final htree h
  have hprepare' := Node.prepare_withLimits (fun _ => some 1) hprepare
  obtain ⟨s', hs'⟩ : ∃ s', ({ setup with limit := 1 } : Setup).execute
      (tree.withLimits fun _ => some 1) separator ids = .ok (s', rest) := by
    rw [execute, if_neg (by simp)]
    simp only [hprepare']
    exact ⟨_, rfl⟩
  have hlimits := htree.withLimits (f := fun _ => some 1) (by simp)
  obtain ⟨_, hprepared, hfinal'⟩ := execute_final hlimits hs'
  rw [hprepare', Except.ok.injEq, Prod.mk.injEq] at hprepared
  obtain ⟨rfl, _⟩ := hprepared
  have hcalm : setup.Calm prepared := ⟨hsteady, hcancelAt, Node.kind_ne_race_of_prepare hrace hprepare⟩
  have htwin := Node.Twin.withLimits (fun _ => some 1) prepared
  have hruns : State.TwinRuns setup { setup with limit := 1 } prepared
      (prepared.withLimits fun _ => some 1) s s' :=
    { first := hfinal
      second := hfinal'
      calm := hcalm
      calm' := ⟨hsteady, hcancelAt, Node.kind_ne_race_of_prepare
        (fun node hnode => by
          rw [Node.walk_withLimits, List.mem_map] at hnode
          obtain ⟨node, hnode, rfl⟩ := hnode
          rw [Node.kind_withLimits]
          exact hrace node hnode) hprepare'⟩
      twin := htwin
      independent := hindependent.prepare hprepare
      vars := rfl }
  have hshape := hfinal.shape
  have hshape' := hfinal'.shape
  have hsteps : State.StepsAlike prepared s s' := by
    refine hruns.stepsAlike (fun _ _ => rfl) fun a job job' hjob hjob' => ?_
    have hid : job'.entry.id = job.entry.id := by
      rw [(hshape.entry a job hjob).1, (hshape'.entry a job' hjob').1]
      exact hshape.id_withLimits hshape' hjob hjob'
    rw [recorded?, recorded?, hruns.path_eq hjob hjob', hid]
  refine ⟨_, s', hprepare', hs', State.oneByOne_of_single hfinal'.sound (setup.single_withLimits prepared), ?_⟩
  rcases hruns.outcomes hsteps with ⟨hfinished, hfinished', hsame⟩ | hwaiting
  · exact .inl ⟨hfinished, hfinished', hruns.untimed_eq hsame fun a job job' hjob hjob' =>
      hshape.id_withLimits hshape' hjob hjob', hruns.runStatus_eq hsame⟩
  · exact .inr hwaiting

/-- Two steps that may run at once are such a tree. -/
theorem concurrency_of_execute_pair : ∃ s rest prepared s',
    ({ executor := Echo.executor } : Setup).execute (.mk {} (.parallel (some 2))
      [.mk {} (.step "first" none) [], .mk {} (.step "second" none) []]) " > " .counting =
        .ok (s, rest) ∧
    State.OneByOne { executor := Echo.executor, limit := 1 } prepared ∧
    ((s.outcome = .finished s.result ∧ s'.outcome = .finished s'.result ∧
        s'.result.tree.untimed = s.result.tree.untimed ∧ s'.result.status = s.result.status) ∨
      (s.outcome = .waiting ∧ State.outcome s' = .waiting)) := by
  obtain ⟨s, rest, h⟩ : ∃ s rest, ({ executor := Echo.executor } : Setup).execute
      (.mk {} (.parallel (some 2)) [.mk {} (.step "first" none) [], .mk {} (.step "second" none) []])
      " > " .counting = .ok (s, rest) := ⟨_, _, rfl⟩
  have hsound : (Node.mk {} (.parallel (some 2))
      [.mk {} (.step "first" none) [], .mk {} (.step "second" none) []]).Sound := by
    simp [Node.Sound, Node.walk, Node.walkList, Node.Fits, Node.work, Node.children, Work.limit]
  have hindependent : (Node.mk {} (.parallel (some 2))
      [.mk {} (.step "first" none) [], .mk {} (.step "second" none) []]).Independent := by
    refine .of_expressions ?_
    simp [Node.walk, Node.walkList, Node.expressions, Node.header, Node.work, Work.binding?]
  have hrace : ∀ node ∈ (Node.mk {} (.parallel (some 2))
      [.mk {} (.step "first" none) [], .mk {} (.step "second" none) []]).walk, node.kind ≠ .race := by
    simp [Node.walk, Node.walkList, Node.kind, Node.work, Work.kind]
  obtain ⟨prepared, s', _, _, hordered, houtcome⟩ := concurrency_of_execute hsound hindependent hrace
    ⟨fun _ _ _ _ => rfl, fun _ _ _ => by simp [Echo.executor, Behaviour.immediate]⟩ rfl h
  exact ⟨s, rest, prepared, s', h, hordered, houtcome⟩

end Setup
end Workflow
