import Mathlib.Data.Fintype.Fin
import Workflow.Executor.Echo
import Workflow.Proofs.Run.Moments
import Workflow.Proofs.Run.Queue
import Workflow.Proofs.Run.Waits

/-!
# Limits on what runs at once

Of the children of a parallel node, a loop or a race never more run at once than may, and they start in
the order of their positions.

* `Setup.limitOf` is the number of children that may run at once, and `State.Reached.card_running_le` says
  that no more do in any state of a run.
* `State.Fair` says so of one node for every beginning of a trace, and that its children start in order.
* `Setup.fair_of_execute` says so of all nodes of a run.
-/

namespace Workflow

/-- The number of children that may run at once, out of a number of children: the limit of the node, if it
has one, else all for a race and what the setup says for others. -/
def Setup.limitOf (setup : Setup) (work : Work) (count : Nat) : Nat :=
  work.limit.getD (if work.kind = .race then count else setup.limit)

theorem Setup.slots_eq_limitOf {setup : Setup} {work : Work} {count : Nat}
    (hwork : work.kind.isGroup = true) (hcount : 0 < count) :
    setup.slots work count = setup.limitOf work count := by
  cases work with
  | race limit =>
    rw [slots, Nat.max_eq_left hcount]
    rfl
  | parallel limit => rfl
  | loop source itemName indexName limit => rfl
  | _ => cases hwork

/-- Only for a race without a limit does it matter how many children there are. -/
theorem Setup.limitOf_congr {setup : Setup} {work : Work} {count count' : Nat}
    (h : work.kind = .race → count = count') : setup.limitOf work count = setup.limitOf work count' := by
  unfold limitOf
  by_cases hkind : work.kind = .race
  · rw [h hkind]
  · rw [if_neg hkind, if_neg hkind]

/-- The status of the node with a path after the events. -/
def statusAfter (events : List Event) (path : String) : Status :=
  ((eventsOf events path).getLast?.map Event.status).getD .pending

theorem Lived.statusAfter {e : Entry} {events : List Event} (h : Lived e (eventsOf events e.path)) :
    statusAfter events e.path = e.status := by
  unfold Workflow.statusAfter
  generalize eventsOf events e.path = own at h
  cases h with
  | pending hfresh => exact hfresh.status.symm
  | running _ hx hrun => exact hx.trans hrun.symm
  | ended _ _ _ hy => exact hy
  | left _ hx => exact hx

namespace State

variable {setup : Setup} {tree : Node} {s u : State} {hand : Option Address} {a : Address}
  {job : Job} {kids : List Live} {frame : Frame} {i j : Nat} {x y : Event}

/-! ## Slots -/

/-- Of the children of a node no more run than may. -/
theorem Reached.card_running_le (h : Reached setup tree s hand) (htree : tree.Sound)
    (hjob : s.jobAt a = some job) (hkind : job.node.kind.isGroup = true) :
    ((Finset.range job.arity).filter fun i => s.statusAt (a ++ [i]) = some .running).card ≤
      setup.limitOf job.node.work job.arity := by
  have hcontrol := h.control htree
  rcases Finset.eq_empty_or_nonempty
    ((Finset.range job.arity).filter fun i => s.statusAt (a ++ [i]) = some .running) with
    hnone | ⟨i, hi⟩
  · rw [hnone]
    exact Nat.zero_le _
  · -- a node above one that runs waits for its children
    obtain ⟨_, hrun⟩ := Finset.mem_filter.1 hi
    obtain ⟨other, hother, hrunning, hhand⟩ := hcontrol.parent (.inr (.inr (.inr hrun)))
    rw [hjob, Option.some.injEq] at hother
    subst hother
    obtain ⟨frame, _, hgroup⟩ := hcontrol.group_of_kind hjob hrunning hhand hkind
    rw [← Setup.slots_eq_limitOf hkind hgroup.arity]
    classical
    refine (Finset.card_le_card fun i hi => ?_).trans hgroup.card_undone_le
    obtain ⟨hlt, hrun⟩ := Finset.mem_filter.1 hi
    have hactive : Active s hand (a ++ [i]) := .inr (.inr (.inr hrun))
    refine Finset.mem_filter.2 ⟨Finset.mem_range.2 ?_, fun hdone => hdone.2 hactive⟩
    by_contra hle
    exact (hgroup.waiting i (Nat.le_of_not_lt hle) (Finset.mem_range.1 hlt)).2 hactive

/-! ## Traces -/

/-- What a trace says of a node at the end of a run holds in every state with the trace. -/
theorem Reached.statusAt_of_trace (h : Reached setup tree u hand) (htree : tree.Sound)
    (hshape : Shape tree s) (hjob : s.jobAt a = some job)
    (hne : statusAfter u.trace job.entry.path ≠ .pending) :
    u.statusAt a = some (statusAfter u.trace job.entry.path) := by
  have hchronicle := h.chronicle htree
  obtain ⟨x, hx⟩ : ∃ x, x ∈ eventsOf u.trace job.entry.path := by
    refine List.exists_mem_of_ne_nil _ fun hnil => hne ?_
    rw [statusAfter, hnil]
    rfl
  obtain ⟨hmem, hpath⟩ := mem_eventsOf.1 hx
  obtain ⟨b, old, hold, hsame⟩ := hchronicle.known x hmem
  have hb : b = a := (h.shape htree).address_eq hshape hold hjob (hsame.trans hpath)
  subst hb
  rw [statusAt_of_jobAt hold, ← hpath, ← hsame, (hchronicle.node b old hold).statusAfter]
  rfl

/-- Of the children no more run at any point of the trace than may, and they start in the order of their
positions. -/
structure Fair (setup : Setup) (s : State) (job : Job) (kids : List Live) : Prop where
  limited : ∀ before, before <+: s.trace →
    (Finset.univ.filter fun i : Fin kids.length =>
      statusAfter before (kids.get i).entry.path = .running).card ≤
        setup.limitOf job.node.work kids.length
  ordered : ∀ (i j : Nat) (kid kid' : Live) (x y : Event), kids[i]? = some kid → kids[j]? = some kid' →
    [x, y].Sublist s.trace → x.path = kid.entry.path → x.status = .running →
    y.path = kid'.entry.path → y.status = .running → i < j

theorem Final.limited (h : Final setup tree s) (hkids : s.root.at? a = some (.mk job kids))
    (hkind : job.node.kind.isGroup = true) {before : List Event} (hbefore : before <+: s.trace) :
    (Finset.univ.filter fun i : Fin kids.length =>
      statusAfter before (kids.get i).entry.path = .running).card ≤
        setup.limitOf job.node.work kids.length := by
  obtain ⟨u, hand, hreached, rfl⟩ := h.reached.exists_of_prefix h.sound hbefore
  have hshape := hreached.shape h.sound
  have hrunning {i : Fin kids.length}
      (hi : statusAfter u.trace (kids.get i).entry.path = .running) :
      u.statusAt (a ++ [i.val]) = some .running := by
    have hkid : s.jobAt (a ++ [i.val]) = some (kids.get i).job := by
      rw [jobAt_concat hkids, List.getElem?_eq_getElem i.isLt]
      rfl
    change statusAfter u.trace (kids.get i).job.entry.path = .running at hi
    rw [hreached.statusAt_of_trace h.sound h.shape hkid (by rw [hi]; decide), hi]
  rcases Finset.eq_empty_or_nonempty (Finset.univ.filter fun i : Fin kids.length =>
    statusAfter u.trace (kids.get i).entry.path = .running) with hnone | ⟨i, hi⟩
  · rw [hnone]
    exact Nat.zero_le _
  · obtain ⟨kid, hkid, _⟩ := jobAt_of_statusAt (hrunning (Finset.mem_filter.1 hi).2)
    obtain ⟨old, hold⟩ := jobAt_of_append hkid
    have hnode := hshape.node_eq h.shape hold (jobAt_of_at? hkids)
    have hlimit : setup.limitOf job.node.work kids.length =
        setup.limitOf old.node.work old.arity := by
      rw [hnode]
      refine Setup.limitOf_congr fun hrace => ?_
      have hloop : old.node.kind ≠ .loop := by rw [Node.kind, hrace]; decide
      rw [h.shape.length_kids hkids, Job.arity_of_kind_ne hloop,
        Job.arity_of_kind_ne (by rwa [hnode]), hnode]
    rw [hlimit]
    refine le_trans ?_ (hreached.card_running_le h.sound hold (by rwa [← hnode]))
    refine Finset.card_le_card_of_injOn Fin.val (fun i hi => ?_) (Fin.val_injective.injOn)
    have hrun := hrunning (Finset.mem_filter.1 hi).2
    obtain ⟨kid, hkid, _⟩ := jobAt_of_statusAt hrun
    exact Finset.mem_coe.2 (Finset.mem_filter.2 ⟨Finset.mem_range.2
      ((hshape.arity a i.val old hold).1 (by rw [hkid]; rfl)), hrun⟩)

theorem Final.ordered (h : Final setup tree s) (hkids : s.root.at? a = some (.mk job kids))
    (hkind : job.node.kind.isGroup = true) {kid kid' : Live} (hi : kids[i]? = some kid)
    (hj : kids[j]? = some kid') (hsub : [x, y].Sublist s.trace) (hx : x.path = kid.entry.path)
    (hy : y.path = kid'.entry.path) (hrun : y.status = .running) : i < j := by
  have hkid : s.jobAt (a ++ [i]) = some kid.job := by rw [jobAt_concat hkids, hi]; rfl
  have hkid' : s.jobAt (a ++ [j]) = some kid'.job := by rw [jobAt_concat hkids, hj]; rfl
  obtain ⟨before, hmem, later, htrace⟩ : ∃ before, x ∈ before ∧ ∃ later,
      s.trace = before ++ y :: later := by
    obtain ⟨front, back, heq, hfront, hback⟩ := List.cons_sublist_iff.1 hsub
    obtain ⟨front', back', rfl⟩ := List.append_of_mem (List.singleton_sublist.1 hback)
    exact ⟨front ++ front', List.mem_append_left _ hfront, back', by rw [heq, List.append_assoc]⟩
  obtain ⟨u, b, hbeginning⟩ := h.reached.exists_beginning h.sound htrace hrun
  obtain rfl := hbeginning.eq_address h.sound h.shape hkid' hy
  have hreached := hbeginning.reached
  rw [← hbeginning.trace] at hmem
  -- the other child has been touched
  obtain ⟨c, old, hold, hpath⟩ := (hreached.chronicle h.sound).known x hmem
  have hc : c = a ++ [i] :=
    (hreached.shape h.sound).address_eq h.shape hold hkid (hpath.trans hx)
  subst hc
  have hnot : u.statusAt (a ++ [i]) ≠ some .pending := by
    intro hpending
    rw [statusAt_of_jobAt hold, Option.some.injEq] at hpending
    have hnone := (((hreached.chronicle h.sound).node _ old hold).of_pending hpending).2
    have := mem_eventsOf.2 ⟨hmem, hpath.symm⟩
    rw [hnone] at this
    cases this
  have hhosts : tree.Hosts a := ⟨job.node, h.shape.at?_placeOf (jobAt_of_at? hkids), hkind⟩
  obtain ⟨hlater, _⟩ := (hreached.orderly h.sound).held a j hhosts rfl hbeginning.pending
  rcases Nat.lt_trichotomy i j with hlt | rfl | hgt
  · exact hlt
  · exact absurd hbeginning.pending hnot
  · refine absurd ?_ hnot
    rw [statusAt_of_jobAt hold, hlater i _ hgt (statusAt_of_jobAt hold)]

theorem Final.fair (h : Final setup tree s) (hkids : s.root.at? a = some (.mk job kids))
    (hkind : job.node.kind.isGroup = true) : Fair setup s job kids where
  limited _ := h.limited hkids hkind
  ordered _ _ _ _ _ _ hi hj hsub hx _ hy hrun := h.ordered hkids hkind hi hj hsub hx hy hrun

end State

/-- In every run, of the children of a parallel node, a race or a loop never more run at once than may, and
they start in the order of their positions. -/
theorem Setup.fair_of_execute {setup : Setup} {tree : Node} {separator : String}
    {ids rest : IdSource} {s : State} (htree : tree.Sound)
    (h : setup.execute tree separator ids = .ok (s, rest)) :
    ∀ a job kids, s.root.at? a = some (.mk job kids) →
      job.node.kind = .parallel ∨ job.node.kind = .race ∨ job.node.kind = .loop →
      State.Fair setup s job kids := by
  obtain ⟨prepared, _, hfinal⟩ := execute_final htree h
  intro a job kids hkids hkind
  refine hfinal.fair hkids ?_
  rcases hkind with hkind | hkind | hkind <;> rw [hkind] <;> rfl

/-- The root of the run of a loop over three elements, of which two may run at once, is such a node. -/
theorem Setup.fair_of_execute_loop : ∃ s rest job kids,
    ({ executor := Echo.executor } : Setup).execute
      (.mk {} (.loop (.literal (.array [.bool true, .bool false, .bool true])) "item" none (some 2))
        [.mk {} (.step "only" none) []])
      " > " .counting = .ok (s, rest) ∧ s.root.at? [] = some (.mk job kids) ∧
    job.node.kind = .loop ∧ State.Fair { executor := Echo.executor } s job kids := by
  have hsound : (Node.mk {}
      (.loop (.literal (.array [.bool true, .bool false, .bool true])) "item" none (some 2))
      [.mk {} (.step "only" none) []]).Sound := by
    simp [Node.Sound, Node.walk, Node.walkList, Node.Fits, Node.work, Node.children, Work.limit]
  obtain ⟨s, rest, h⟩ : ∃ s rest, ({ executor := Echo.executor } : Setup).execute
      (.mk {} (.loop (.literal (.array [.bool true, .bool false, .bool true])) "item" none (some 2))
        [.mk {} (.step "only" none) []])
      " > " .counting = .ok (s, rest) := ⟨_, _, rfl⟩
  obtain ⟨prepared, hprepare, hfinal⟩ := execute_final hsound h
  obtain ⟨job, hjob, hnode, _⟩ := hfinal.shape.root
  obtain ⟨kids, hkids⟩ := State.at?_of_jobAt hjob
  have hkind : job.node.kind = .loop := by
    rw [hnode, (Node.related_prepare hprepare).kind]
    rfl
  exact ⟨s, rest, job, kids, h, hkids, hkind,
    fair_of_execute hsound h [] job kids hkids (.inr (.inr hkind))⟩

end Workflow
