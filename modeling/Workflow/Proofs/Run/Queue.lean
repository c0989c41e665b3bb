import Workflow.Proofs.Run.Chronicle
import Workflow.Proofs.Tree.Route

/-!
# The order in which children wait

The children of a node that runs several at once wait for their start in the order of their positions,
and none of them is asked to start before one in front of it.

* `State.queue` is the list of the nodes that are about to start, and `State.Change.queue` says how it
  changes.
* `State.Orderly` says that siblings stand in it in their order, before siblings that have not been
  touched, and `State.Reached.orderly` that this holds in every state of a run.
-/

namespace Workflow

/-- The node that is to start by the task. -/
def Task.enter? : Task → Option Address
  | .enter a => some a
  | _ => none

/-- The node at the address in a run of the tree runs its children at once. -/
def Node.Hosts (tree : Node) (a : Address) : Prop :=
  ∃ node, tree.at? (tree.placeOf a) = some node ∧ node.kind.isGroup = true

namespace State

variable {setup : Setup} {tree : Node} {s t : State} {hand after : Option Address} {doing : Doing}
  {a b x : Address} {job : Job} {rest : List Task} {i j k n : Nat} {status : Status}

/-! ## The queue -/

/-- The nodes that are about to start, in order. -/
def queue (s : State) : List Address :=
  s.agenda.filterMap Task.enter?

theorem mem_queue : a ∈ s.queue ↔ .enter a ∈ s.agenda := by
  rw [queue, List.mem_filterMap]
  constructor
  · rintro ⟨task, htask, ha⟩
    cases task with
    | enter b =>
      obtain rfl := Option.some.inj ha
      exact htask
    | _ => cases ha
  · exact fun ha => ⟨_, ha, rfl⟩

theorem queue_congr (h : t.agenda = s.agenda) : t.queue = s.queue := by
  rw [queue, h, queue]

/-- What is put behind everything else is not in the queue unless it is the start of a node. -/
theorem queue_append {tasks : List Task} (h : t.agenda = s.agenda ++ tasks) :
    t.queue = s.queue ++ tasks.filterMap Task.enter? := by
  rw [queue, h, List.filterMap_append, queue]

theorem queue_cons {task : Task} (h : s.agenda = task :: t.agenda) (htask : task.enter? = none) :
    t.queue = s.queue := by
  rw [queue, queue, h, List.filterMap_cons_none htask]

theorem queue_tell (s : State) (a : Address) : (s.tell a).queue = s.queue := by
  cases hcall : s.callAt a with
  | none => rw [tell_of_callAt_eq_none s a hcall]
  | some call =>
    have hagenda := agenda_tell s a hcall
    split at hagenda
    · exact queue_congr hagenda
    · rw [queue_append hagenda]
      exact List.append_nil _

/-- The progress of calls does not concern the queue. -/
theorem queue_of_filter {agenda : List Task} (h : t.agenda = agenda)
    (hfilter : agenda.filter (fun task => !task.isProceed) =
      s.agenda.filter fun task => !task.isProceed) : t.queue = s.queue := by
  have hskip (l : List Task) : (l.filter fun task => !task.isProceed).filterMap Task.enter? =
      l.filterMap Task.enter? := by
    rw [List.filterMap_filter]
    refine List.filterMap_congr fun task _ => ?_
    cases task <;> rfl
  rw [queue, queue, h, ← hskip agenda, hfilter, hskip]

/-! ## How the queue changes -/

/-- What a change does to the queue. -/
inductive QueueEffect (s : State) (hand : Option Address) (t : State) (after : Option Address) : Prop
  | same : t.queue = s.queue →
      (∀ x, after = some x → hand = some x ∨ t.statusAt x ≠ some .pending) →
      QueueEffect s hand t after
  /-- The first node is taken in hand. -/
  | taken {x : Address} : hand = none → after = some x → s.queue = x :: t.queue →
      (∀ b, t.statusAt b = s.statusAt b) → QueueEffect s hand t after
  /-- A sequence or a branch asks a child to start. -/
  | pushed {x : Address} {job : Job} {k : Nat} : after = none → s.jobAt x = some job →
      job.node.kind.isGroup = false → t.queue = (x ++ [k]) :: s.queue →
      (∀ b, t.statusAt b = s.statusAt b) → QueueEffect s hand t after
  /-- Another node in hand asks its first children to start. -/
  | filled {x : Address} {n : Nat} : hand = some x → after = none →
      t.queue = s.queue ++ (List.range n).map (fun i => x ++ [i]) →
      (∀ k status, s.statusAt (x ++ [k]) = some status → status = .pending) →
      (∀ b, t.statusAt b = s.statusAt b) → QueueEffect s hand t after
  /-- It asks another child to start. -/
  | counted {x : Address} {n : Nat} : hand = none →
      t.queue = s.queue ++ [x ++ [n]] → (∀ y, after = some y → t.statusAt y ≠ some .pending) →
      (∀ k, n ≤ k → x ++ [k] ∉ s.queue) →
      (∀ k status, n ≤ k → s.statusAt (x ++ [k]) = some status → status = .pending) →
      (∀ b, t.statusAt b = s.statusAt b) → QueueEffect s hand t after

/-- A task other than a start is taken from the agenda, and its node runs. -/
theorem QueueEffect.takeUp {task : Task} (hagenda : s.agenda = task :: t.agenda)
    (htask : task.enter? = none) (hrun : t.statusAt x = some .running) :
    QueueEffect s none t (some x) :=
  .same (queue_cons hagenda htask) fun y hy => .inr fun hpending => by
    rw [← Option.some.inj hy, hrun] at hpending
    cases hpending

/-- The queue changes in no other way. -/
theorem Change.queue (hchange : Change setup doing s hand t after) (hcontrol : Control setup s hand)
    (hshape : Shape tree s) : QueueEffect s hand t after := by
  cases hchange with
  | takeEnter hagenda =>
    refine .taken rfl rfl ?_ fun _ => rfl
    rw [State.queue, hagenda]
    rfl
  | begin | leave | succeed | fail | stop =>
    exact .same (queue_congr (agenda_move ..)) fun _ => .inl
  | bindStep | host | expand => exact .same rfl fun _ => .inl
  | release =>
    refine .same ?_ nofun
    unfold reported
    split <;> rfl
  | callOut | gather =>
    refine .same ?_ nofun
    rw [State.queue, State.later, List.filterMap_append]
    exact List.append_nil _
  | enterNext hjob _ hkind => exact .pushed rfl hjob (by rw [hkind]; rfl) rfl fun _ => rfl
  | enterChosen hjob _ hkind => exact .pushed rfl hjob (by rw [hkind]; rfl) rfl fun _ => rfl
  | @fill a job frame hjob _ _ _ _ _ _ _ hpending =>
    refine .filled (n := frame.begun) rfl rfl ?_ (fun k status hstatus => ?_) fun _ => rfl
    · rw [State.queue, List.filterMap_append, List.filterMap_map]
      exact congrArg _ (congrFun (List.filterMap_eq_map' (f := fun i => a ++ [i])) _)
    · obtain ⟨kid, hkid, _⟩ := jobAt_of_statusAt hstatus
      rw [hpending k ((hshape.arity a k job hjob).1 (by rw [hkid]; rfl)), Option.some.injEq] at hstatus
      exact hstatus.symm
  | @takeReport a i _ rest hagenda =>
    have hmem : .report (a ++ [i]) ∈ s.agenda := by rw [hagenda]; exact List.mem_cons_self
    obtain ⟨job, hjob, hrun, _⟩ := hcontrol.parent (.inr (.inr (.inl hmem)))
    exact .takeUp hagenda rfl ((statusAt_of_jobAt hjob).trans (congrArg some hrun))
  | @count a i job frame kid rest hagenda hjob hkind hframe hkid =>
    have hr := hcontrol.reporting hshape hagenda hjob hkind hframe
    have hstatuses := statusAt_counted s rest a job frame i kid
    have hrun : (s.counted rest a job frame i kid).statusAt a ≠ some .pending := by
      rw [hstatuses, statusAt_of_jobAt hjob, hr.run]
      decide
    have hafter (y : Address) (hy : (if frame.left = 1 then some a else none) = some y) :
        (s.counted rest a job frame i kid).statusAt y ≠ some .pending := by
      split at hy
      · rwa [← Option.some.inj hy]
      · cases hy
    by_cases hlt : frame.begun < job.arity
    · refine .counted (x := a) (n := frame.begun) rfl ?_ hafter (fun k hk hmem => ?_)
        (fun k status hk hstatus => ?_) hstatuses
      · rw [State.queue, State.counted, if_pos hlt, State.queue, hagenda]
        exact List.filterMap_append
      · have hactive : Active s none (a ++ [k]) := .inr (.inl (mem_queue.1 hmem))
        exact (hr.group.waiting k hk (hcontrol.lt_arity hshape hjob hactive)).2 hactive
      · obtain ⟨kid', hkid', _⟩ := jobAt_of_statusAt hstatus
        have hk' : k < job.arity := (hshape.arity a k job hjob).1 (by rw [hkid']; rfl)
        rw [(hr.group.waiting k hk hk').1, Option.some.injEq] at hstatus
        exact hstatus.symm
    · refine .same ?_ fun y hy => .inr (hafter y hy)
      rw [State.queue, State.counted, if_neg hlt, State.queue, hagenda]
      rfl
  | takeJoin hagenda =>
    obtain ⟨job, _, hjob, hrun, _⟩ := hcontrol.proper (.join _) (by rw [hagenda]; exact List.mem_cons_self)
    exact .takeUp hagenda rfl ((statusAt_of_jobAt hjob).trans (congrArg some hrun))
  | takeWake hagenda hcall =>
    obtain ⟨job, hjob, hrun, _⟩ := hcontrol.of_callAt hcall
    refine .takeUp hagenda rfl ?_
    rw [statusAt_setStage]
    exact (statusAt_of_jobAt hjob).trans (congrArg some hrun)
  | dropProceed hagenda => exact .same (queue_cons hagenda rfl) nofun
  | ask => exact .same rfl nofun
  | goOn acts wakeAt agenda _ _ hfilter => exact .same (queue_of_filter rfl hfilter) nofun
  | @answer a call outcome wakeAt deadline agenda _ _ _ hagenda =>
    refine .same ?_ nofun
    rw [queue_tell]
    rcases hagenda with rfl | heq
    · rfl
    · exact queue_cons heq rfl
  | tell => exact .same (queue_tell _ _) fun _ => .inl
  | cancelRun =>
    exact .same (cancelRun_induction (P := fun u => u.queue = s.queue) s rfl rfl
      fun u b hu => (queue_tell u b).trans hu) nofun
  | tick => exact .same rfl nofun

/-! ## Siblings in the queue -/

/-- Siblings stand in the queue in the order of their positions, and in front of siblings that have not
been touched. -/
structure Orderly (tree : Node) (s : State) (hand : Option Address) : Prop where
  sorted : s.queue.Pairwise fun x y => ∀ a j k, tree.Hosts a → x = a ++ [j] → y = a ++ [k] → j < k
  waiting : ∀ a j k status, tree.Hosts a → a ++ [j] ∈ s.queue → j < k →
    s.statusAt (a ++ [k]) = some status → status = .pending
  /-- The node in hand has been the first of its siblings in the queue. -/
  held : ∀ a j, tree.Hosts a → hand = some (a ++ [j]) → s.statusAt (a ++ [j]) = some .pending →
    (∀ k status, j < k → s.statusAt (a ++ [k]) = some status → status = .pending) ∧
      ∀ k, a ++ [k] ∈ s.queue → j < k

namespace Orderly

theorem start (setup : Setup) (tree : Node) : Orderly tree (start setup tree) none where
  sorted := List.pairwise_singleton ..
  waiting a j k status _ hmem := by
    have := mem_queue.1 hmem
    simp [State.start] at this
  held _ _ _ := nofun

/-- A node behind one in the queue stays untouched. -/
theorem pending_of_change (h : Orderly tree s hand) (hchange : Change setup doing s hand t after)
    (hcontrol : Control setup s hand) (hshape : Shape tree s) (ha : tree.Hosts a)
    (hj : a ++ [j] ∈ s.queue) (hjk : j < k) (hstatus : t.statusAt (a ++ [k]) = some status) :
    status = .pending := by
  have hpending := fun status => h.waiting a j k status ha hj hjk
  refine hchange.pending_stays hshape hpending (fun x hx hxk => ?_) hstatus
  subst hx
  rcases List.prefix_concat_iff.1 hxk with rfl | ⟨c, rfl⟩
  · -- the node in hand comes before its siblings in the queue
    obtain ⟨old, hold⟩ := hcontrol.held _ rfl
    have hself := statusAt_of_jobAt hold
    rw [hpending _ hself] at hself
    have := (h.held a k ha rfl hself).2 j hj
    omega
  · rw [List.append_assoc] at hj
    exact hcontrol.inactive_below_hand (by simp) (.inr (.inl (mem_queue.1 hj)))

/-- The order stays where the queue stays, if the node in hand stays as well or is no longer to start. -/
theorem same (h : Orderly tree s hand) (hchange : Change setup doing s hand t after)
    (hcontrol : Control setup s hand) (hshape : Shape tree s) (hqueue : t.queue = s.queue)
    (hafter : ∀ x, after = some x → hand = some x ∨ t.statusAt x ≠ some .pending) :
    Orderly tree t after := by
  refine ⟨by rw [hqueue]; exact h.sorted, fun a j k status ha hj hjk hstatus => ?_,
    fun a j ha hhand hpending => ?_⟩
  · rw [hqueue] at hj
    exact h.pending_of_change hchange hcontrol hshape ha hj hjk hstatus
  · rcases hafter _ hhand with hbefore | hnot
    · subst hbefore
      obtain ⟨old, hold⟩ := hcontrol.held _ rfl
      obtain ⟨hlater, hbehind⟩ := h.held a j ha rfl (hchange.pending_before hshape hold hpending)
      refine ⟨fun k status hjk hstatus => ?_, by rwa [hqueue]⟩
      refine hchange.pending_stays hshape (fun status => hlater k status hjk) ?_ hstatus
      rintro x hx hxk
      have heq := List.IsPrefix.eq_of_length (Option.some.inj hx ▸ hxk) (by simp)
      obtain ⟨_, rfl⟩ := (List.append_singleton_inj ..).1 heq
      exact absurd hjk (Nat.lt_irrefl _)
    · exact absurd hpending hnot

/-- The first of the queue comes before its siblings. -/
theorem taken (h : Orderly tree s none) (hqueue : s.queue = x :: t.queue)
    (hstatuses : ∀ b, t.statusAt b = s.statusAt b) : Orderly tree t (some x) := by
  have hsorted := h.sorted
  rw [hqueue, List.pairwise_cons] at hsorted
  have hmem {y : Address} (hy : y ∈ x :: t.queue) : y ∈ s.queue := by rwa [hqueue]
  refine ⟨hsorted.2, fun a j k status ha hj hjk hstatus => ?_, fun a j ha hx hpending => ⟨?_, ?_⟩⟩
  · rw [hstatuses] at hstatus
    exact h.waiting a j k status ha (hmem (List.mem_cons_of_mem _ hj)) hjk hstatus
  · intro k status hjk hstatus
    rw [hstatuses] at hstatus
    exact h.waiting a j k status ha (hmem (Option.some.inj hx ▸ List.mem_cons_self)) hjk hstatus
  · intro k hk
    exact hsorted.1 _ hk a j k ha (Option.some.inj hx) rfl

/-- The children of sequences and branches have no siblings to come before. -/
theorem pushed (h : Orderly tree s hand) (hshape : Shape tree s)
    (hjob : s.jobAt x = some job) (hkind : job.node.kind.isGroup = false)
    (hqueue : t.queue = (x ++ [k]) :: s.queue) (hstatuses : ∀ b, t.statusAt b = s.statusAt b) :
    Orderly tree t none := by
  have hnot {a : Address} {j : Nat} (ha : tree.Hosts a) (heq : x ++ [k] = a ++ [j]) : False := by
    obtain ⟨rfl, _⟩ := (List.append_singleton_inj ..).1 heq
    obtain ⟨node, hnode, hgroup⟩ := ha
    rw [hshape.at?_placeOf hjob, Option.some.injEq] at hnode
    rw [← hnode, hkind] at hgroup
    cases hgroup
  refine ⟨?_, fun a j l status ha hj hjl hstatus => ?_, nofun⟩
  · rw [hqueue, List.pairwise_cons]
    exact ⟨fun y _ a j l ha heq => (hnot ha heq).elim, h.sorted⟩
  · rw [hstatuses] at hstatus
    rw [hqueue, List.mem_cons] at hj
    rcases hj with heq | hj
    · exact (hnot ha heq.symm).elim
    · exact h.waiting a j l status ha hj hjl hstatus

/-- The first children of a node queue in the order of their positions. -/
theorem filled (h : Orderly tree s (some x)) (hcontrol : Control setup s (some x))
    (hqueue : t.queue = s.queue ++ (List.range n).map (fun i => x ++ [i]))
    (hpending : ∀ k status, s.statusAt (x ++ [k]) = some status → status = .pending)
    (hstatuses : ∀ b, t.statusAt b = s.statusAt b) : Orderly tree t none := by
  refine ⟨?_, fun a j k status ha hj hjk hstatus => ?_, nofun⟩
  · rw [hqueue, List.pairwise_append]
    refine ⟨h.sorted, ?_, fun y hy z hz a j k _ hyj hzk => ?_⟩
    · rw [List.pairwise_map]
      refine List.pairwise_lt_range.imp fun {i l} hil a j k _ hj hk => ?_
      obtain ⟨_, rfl⟩ := (List.append_singleton_inj ..).1 hj
      obtain ⟨_, rfl⟩ := (List.append_singleton_inj ..).1 hk
      exact hil
    · obtain ⟨i, _, rfl⟩ := List.mem_map.1 hz
      obtain ⟨rfl, _⟩ := (List.append_singleton_inj ..).1 hzk
      rw [hyj] at hy
      exact absurd (.inr (.inl (mem_queue.1 hy))) (hcontrol.inactive_below_hand (by simp))
  · rw [hstatuses] at hstatus
    rw [hqueue, List.mem_append] at hj
    rcases hj with hj | hj
    · exact h.waiting a j k status ha hj hjk hstatus
    · obtain ⟨i, _, heq⟩ := List.mem_map.1 hj
      obtain ⟨rfl, _⟩ := (List.append_singleton_inj ..).1 heq
      exact hpending k status hstatus

/-- Another child queues behind the siblings before it. -/
theorem counted (h : Orderly tree s none) (hqueue : t.queue = s.queue ++ [x ++ [n]])
    (hafter : ∀ y, after = some y → t.statusAt y ≠ some .pending)
    (hbehind : ∀ k, n ≤ k → x ++ [k] ∉ s.queue)
    (hpending : ∀ k status, n ≤ k → s.statusAt (x ++ [k]) = some status → status = .pending)
    (hstatuses : ∀ b, t.statusAt b = s.statusAt b) : Orderly tree t after := by
  refine ⟨?_, fun a j k status ha hj hjk hstatus => ?_,
    fun a j ha hx hself => absurd hself (hafter _ hx)⟩
  · rw [hqueue, List.pairwise_append]
    refine ⟨h.sorted, List.pairwise_singleton .., fun y hy z hz a j k _ hyj hzk => ?_⟩
    rw [List.mem_singleton] at hz
    obtain ⟨rfl, rfl⟩ := (List.append_singleton_inj ..).1 (hz.symm.trans hzk)
    rw [hyj] at hy
    exact Nat.lt_of_not_le fun hle => hbehind j hle hy
  · rw [hstatuses] at hstatus
    rw [hqueue, List.mem_append, List.mem_singleton] at hj
    rcases hj with hj | heq
    · exact h.waiting a j k status ha hj hjk hstatus
    · obtain ⟨rfl, rfl⟩ := (List.append_singleton_inj ..).1 heq
      exact hpending k status (Nat.le_of_lt hjk) hstatus

theorem change (h : Orderly tree s hand) (hchange : Change setup doing s hand t after)
    (hcontrol : Control setup s hand) (hshape : Shape tree s) : Orderly tree t after := by
  cases hchange.queue hcontrol hshape with
  | same hqueue hafter => exact h.same hchange hcontrol hshape hqueue hafter
  | taken hhand hafter hqueue hstatuses =>
    subst hhand hafter
    exact h.taken hqueue hstatuses
  | pushed hafter hjob hkind hqueue hstatuses =>
    subst hafter
    exact h.pushed hshape hjob hkind hqueue hstatuses
  | filled hhand hafter hqueue hpending hstatuses =>
    subst hhand hafter
    exact h.filled hcontrol hqueue hpending hstatuses
  | counted hhand hqueue hafter hbehind hpending hstatuses =>
    subst hhand
    exact h.counted hqueue hafter hbehind hpending hstatuses

end Orderly

theorem Reached.orderly (h : Reached setup tree s hand) (htree : tree.Sound) :
    Orderly tree s hand := by
  induction h with
  | start => exact .start setup tree
  | change hr hchange ih => exact ih.change hchange (hr.control htree) (hr.shape htree)

end State
end Workflow
