import Mathlib.Data.Finset.Card
import Mathlib.Data.Finset.Range
import Mathlib.Order.Interval.Finset.Nat
import Workflow.Proofs.Run.Shape

/-!
# Who acts

A node is active while it is in hand, runs, or is about to start or to report its end. Of the
children of a running node some have ended, some are active and some have not been touched yet;
which ones follows from what the node knows about them.

* `State.Active` is activity, and `State.Busy` says how a running node and its children fit together.
* `State.Control` is the invariant: every task of the agenda is about a node in the right state, and
  every node fits its children.
* `State.Control.above` says that everything above an active node runs, and
  `State.Control.below_pending` that nothing below a pending node has been touched.
-/

namespace Workflow.State

/-! ## Activity -/

/-- Lists that agree on the tasks of some kind have the same tasks of that kind. -/
theorem mem_iff_of_filter {tasks tasks' : List Task} {p : Task → Bool}
    (h : tasks.filter p = tasks'.filter p) {task : Task} (htask : p task = true) :
    task ∈ tasks ↔ task ∈ tasks' := by
  have hmem (l : List Task) : task ∈ l ↔ task ∈ l.filter p := by
    rw [List.mem_filter, and_iff_left htask]
  rw [hmem, h, ← hmem]

section Activity

variable (s : State) (hand : Option Address) (a : Address)

/-- The node is in hand, runs, or is about to start or to report its end. -/
def Active : Prop :=
  hand = some a ∨ .enter a ∈ s.agenda ∨ .report a ∈ s.agenda ∨ s.statusAt a = some .running

/-- The node is pending and not about to start. -/
def Untouched : Prop :=
  s.statusAt a = some .pending ∧ ¬ Active s hand a

/-- The node has ended, and the node above it has taken notice. -/
def Done : Prop :=
  (∃ status, s.statusAt a = some status ∧ status.isTerminal) ∧ ¬ Active s hand a

open Classical in
/-- The number of children, out of a number, that are not done. -/
noncomputable def remaining (count : Nat) : Nat :=
  ((Finset.range count).filter fun i => ¬ Done s hand (a ++ [i])).card

end Activity

section Remaining

variable {s t : State} {hand hand' : Option Address} {a : Address} {count : Nat}

open Classical in
/-- Nothing is left of the children once all are done. -/
theorem remaining_eq_zero_iff :
    remaining s hand a count = 0 ↔ ∀ i, i < count → Done s hand (a ++ [i]) := by
  rw [remaining, Finset.card_eq_zero, Finset.filter_eq_empty_iff]
  simp only [Finset.mem_range, not_not]

open Classical in
/-- All children are left while none is done. -/
theorem remaining_eq_count (h : ∀ i, i < count → ¬ Done s hand (a ++ [i])) :
    remaining s hand a count = count := by
  rw [remaining, Finset.filter_true_of_mem, Finset.card_range]
  exact fun i hi => h i (Finset.mem_range.1 hi)

open Classical in
/-- One child less is left when one more is done. -/
theorem remaining_eq_succ {k : Nat} (hk : k < count) (hbefore : ¬ Done s hand (a ++ [k]))
    (hafter : Done t hand' (a ++ [k]))
    (hothers : ∀ i, i ≠ k → (Done t hand' (a ++ [i]) ↔ Done s hand (a ++ [i]))) :
    remaining s hand a count = remaining t hand' a count + 1 := by
  have herase : ((Finset.range count).filter fun i => ¬ Done t hand' (a ++ [i])) =
      ((Finset.range count).filter fun i => ¬ Done s hand (a ++ [i])).erase k := by
    ext i
    simp only [Finset.mem_filter, Finset.mem_range, Finset.mem_erase, ne_eq]
    by_cases hi : i = k
    · subst hi
      simp [hafter]
    · simp [hi, hothers i hi]
  have hmem : k ∈ (Finset.range count).filter fun i => ¬ Done s hand (a ++ [i]) :=
    Finset.mem_filter.2 ⟨Finset.mem_range.2 hk, hbefore⟩
  rw [remaining, remaining, herase, Finset.card_erase_add_one hmem]

theorem remaining_le : remaining s hand a count ≤ count := by
  classical
  refine (Finset.card_filter_le _ _).trans ?_
  rw [Finset.card_range]

end Remaining

/-! ## Running nodes -/

/-- What a node that runs several children knows about them. -/
structure Group (setup : Setup) (s : State) (hand : Option Address) (a : Address) (job : Job)
    (frame : Frame) : Prop where
  /-- The node has children. -/
  arity : 0 < job.arity
  /-- For every child that is done one more has been asked to start. -/
  begun : frame.begun =
    min (setup.slots job.node.work job.arity + (job.arity - frame.left)) job.arity
  /-- The node counts the children that are not done. -/
  left : frame.left = remaining s hand a job.arity
  /-- The children that have been asked to start are in front. -/
  started : ∀ i, i < frame.begun → ¬ Untouched s hand (a ++ [i])
  waiting : ∀ i, frame.begun ≤ i → i < job.arity → Untouched s hand (a ++ [i])
  /-- Once all children are done, the node is about to end. -/
  join : frame.left = 0 → .join a ∈ s.agenda

open Classical in
/-- Of the children that have been asked to start no more are left than may run at once. -/
theorem Group.card_undone_le {setup : Setup} {s : State} {hand : Option Address} {a : Address}
    {job : Job} {frame : Frame} (h : Group setup s hand a job frame) :
    ((Finset.range frame.begun).filter fun i => ¬ Done s hand (a ++ [i])).card ≤
      setup.slots job.node.work job.arity := by
  have hbegun := h.begun
  -- those that wait are left as well
  have hsub : ((Finset.range frame.begun).filter fun i => ¬ Done s hand (a ++ [i])) ∪
      Finset.Ico frame.begun job.arity ⊆
        (Finset.range job.arity).filter fun i => ¬ Done s hand (a ++ [i]) := by
    intro i hi
    rw [Finset.mem_filter, Finset.mem_range]
    rcases Finset.mem_union.1 hi with hi | hi
    · obtain ⟨hlt, hnot⟩ := Finset.mem_filter.1 hi
      rw [Finset.mem_range] at hlt
      exact ⟨by omega, hnot⟩
    · obtain ⟨hle, hlt⟩ := Finset.mem_Ico.1 hi
      refine ⟨hlt, fun ⟨⟨status, hstatus, hend⟩, _⟩ => ?_⟩
      rw [(h.waiting i hle hlt).1, Option.some.injEq] at hstatus
      subst hstatus
      cases hend
  have hdisjoint : Disjoint ((Finset.range frame.begun).filter fun i => ¬ Done s hand (a ++ [i]))
      (Finset.Ico frame.begun job.arity) := by
    refine Finset.disjoint_left.2 fun i hi hi' => ?_
    have hlt := Finset.mem_range.1 (Finset.mem_filter.1 hi).1
    have hle := (Finset.mem_Ico.1 hi').1
    omega
  have hcard := Finset.card_le_card hsub
  rw [Finset.card_union_of_disjoint hdisjoint, Nat.card_Ico] at hcard
  have hleft : frame.left = _ := h.left
  have hle : frame.left ≤ job.arity := hleft ▸ remaining_le
  rw [remaining] at hleft
  rw [← hleft] at hcard
  omega

/-- How a running node that is not in hand fits its call or its children. -/
inductive Busy (setup : Setup) (s : State) (hand : Option Address) (a : Address) (job : Job) : Prop
  /-- A step waits for its call. -/
  | calling {call : Call} : job.stage = .calling call → job.node.kind = .step →
      (call.told = true → .wake a ∈ s.agenda) → Busy setup s hand a job
  /-- A sequence waits for one child; those before have succeeded. -/
  | sequence {frame : Frame} {k : Nat} : job.stage = .hosting frame → job.node.kind = .sequence →
      frame.begun = k + 1 → k < job.arity → Active s hand (a ++ [k]) →
      (∀ j, j < k → Done s hand (a ++ [j]) ∧ s.statusAt (a ++ [j]) = some .succeeded) →
      (∀ j, k < j → j < job.arity → Untouched s hand (a ++ [j])) → Busy setup s hand a job
  /-- A branch waits for one child; the others are skipped. -/
  | branch {frame : Frame} {k : Nat} : job.stage = .hosting frame → job.node.kind = .branch →
      k < job.arity → Active s hand (a ++ [k]) →
      (∀ j, j < job.arity → j ≠ k → Done s hand (a ++ [j]) ∧
        s.statusAt (a ++ [j]) = some .skipped) → Busy setup s hand a job
  /-- Another node waits for several children. -/
  | group {frame : Frame} : job.stage = .hosting frame → job.node.kind.isGroup = true →
      Group setup s hand a job frame → Busy setup s hand a job

/-- How a node fits its children. -/
structure Local (setup : Setup) (s : State) (hand : Option Address) (a : Address) (job : Job) :
    Prop where
  /-- A node that does not run or is in hand waits for nothing. -/
  quiet : job.status ≠ .running ∨ hand = some a →
    job.call? = none ∧ ∀ i, ¬ Active s hand (a ++ [i])
  /-- Nothing below a pending node has been touched. -/
  pending : job.status = .pending → job.stage = .idle ∧
    ∀ i status, s.statusAt (a ++ [i]) = some status → status = .pending
  /-- A node that runs and is not in hand waits for its call or its children. -/
  busy : job.status = .running → hand ≠ some a → Busy setup s hand a job

/-! ## The invariant -/

/-- The task is about a node in the right state. -/
def Proper (s : State) (hand : Option Address) : Task → Prop
  | .enter a => s.statusAt a = some .pending ∧ hand ≠ some a
  | .report a => a ≠ [] ∧ (∃ status, s.statusAt a = some status ∧ status.isTerminal) ∧
      hand ≠ some a
  | .join a => ∃ job frame, s.jobAt a = some job ∧ job.status = .running ∧
      job.stage = .hosting frame ∧ job.node.kind.isGroup = true ∧ frame.left = 0 ∧ hand ≠ some a
  | .wake a => ∃ job call, s.jobAt a = some job ∧ job.status = .running ∧
      job.stage = .calling call ∧ call.told = true ∧ hand ≠ some a
  | .proceed a => ∃ job, s.jobAt a = some job

namespace Proper

variable {s t : State} {hand hand' : Option Address} {task : Task} {x : Address} {job : Job}

theorem exists_job (h : Proper s hand task) : ∃ job, s.jobAt task.address = some job := by
  cases task with
  | enter b =>
    obtain ⟨job, hjob, _⟩ := jobAt_of_statusAt h.1
    exact ⟨job, hjob⟩
  | report b =>
    obtain ⟨_, ⟨status, hstatus, _⟩, _⟩ := h
    obtain ⟨job, hjob, _⟩ := jobAt_of_statusAt hstatus
    exact ⟨job, hjob⟩
  | join b =>
    obtain ⟨job, _, hjob, _⟩ := h
    exact ⟨job, hjob⟩
  | wake b =>
    obtain ⟨job, _, hjob, _⟩ := h
    exact ⟨job, hjob⟩
  | proceed b => exact h

/-- Of the tasks only the progress of a call may be about the node in hand. -/
theorem hand_ne (h : Proper s hand task) (htask : task.isProceed = false) :
    hand ≠ some task.address := by
  cases task with
  | enter b => exact h.2
  | report b => exact h.2.2
  | join b =>
    obtain ⟨_, _, _, _, _, _, _, hhand⟩ := h
    exact hhand
  | wake b =>
    obtain ⟨_, _, _, _, _, _, hhand⟩ := h
    exact hhand
  | proceed b => cases htask

/-- A pending node is to start, or a call of it is said to go on. -/
theorem of_pending (h : Proper s hand task) (hpending : s.statusAt task.address = some .pending) :
    task = .enter task.address ∨ task = .proceed task.address := by
  cases task with
  | enter b => exact .inl rfl
  | proceed b => exact .inr rfl
  | report b =>
    obtain ⟨_, ⟨status, hb, hterminal⟩, _⟩ := h
    change s.statusAt b = _ at hpending
    rw [hpending, Option.some.injEq] at hb
    subst hb
    cases hterminal
  | join b =>
    obtain ⟨job, _, hjob, hrun, _⟩ := h
    change s.statusAt b = _ at hpending
    rw [statusAt_of_jobAt hjob, hrun] at hpending
    cases hpending
  | wake b =>
    obtain ⟨job, _, hjob, hrun, _⟩ := h
    change s.statusAt b = _ at hpending
    rw [statusAt_of_jobAt hjob, hrun] at hpending
    cases hpending

/-- A running node is to take notice of the ends of all its children or of the end of its call, or a
call of it is said to go on. -/
theorem of_running (h : Proper s hand task) (hjob : s.jobAt task.address = some job)
    (hrun : job.status = .running) :
    task = .proceed task.address ∨
    (task = .join task.address ∧
      ∃ frame, job.stage = .hosting frame ∧ job.node.kind.isGroup = true ∧ frame.left = 0) ∨
    (task = .wake task.address ∧ ∃ call, job.stage = .calling call ∧ call.told = true) := by
  have hrunning : s.statusAt task.address = some .running := by rw [statusAt_of_jobAt hjob, hrun]
  cases task with
  | proceed b => exact .inl rfl
  | enter b =>
    have hpending := h.1
    change s.statusAt b = _ at hrunning
    rw [hrunning] at hpending
    cases hpending
  | report b =>
    obtain ⟨_, ⟨status, hb, hterminal⟩, _⟩ := h
    change s.statusAt b = _ at hrunning
    rw [hrunning, Option.some.injEq] at hb
    subst hb
    cases hterminal
  | join b =>
    obtain ⟨other, frame, hother, _, hstage, hgroup, hleft, _⟩ := h
    obtain rfl : other = job := Option.some.inj (hother.symm.trans hjob)
    exact .inr (.inl ⟨rfl, frame, hstage, hgroup, hleft⟩)
  | wake b =>
    obtain ⟨other, call, hother, _, hstage, htold, _⟩ := h
    obtain rfl : other = job := Option.some.inj (hother.symm.trans hjob)
    exact .inr (.inr ⟨rfl, call, hstage, htold⟩)

/-- A task stays about a node in the right state if the node stays as it is. -/
theorem of_job (h : Proper s hand task) (hjob : t.jobAt task.address = s.jobAt task.address)
    (hhand : task.isProceed = false → hand' ≠ some task.address) : Proper t hand' task := by
  cases task with
  | enter b => exact ⟨(congrArg (Option.map Job.status) hjob).trans h.1, hhand rfl⟩
  | report b =>
    obtain ⟨hnil, ⟨status, hstatus, hterminal⟩, _⟩ := h
    exact ⟨hnil, ⟨status, (congrArg (Option.map Job.status) hjob).trans hstatus, hterminal⟩,
      hhand rfl⟩
  | join b =>
    obtain ⟨job, frame, hjob', hrun, hstage, hgroup, hleft, _⟩ := h
    exact ⟨job, frame, hjob.trans hjob', hrun, hstage, hgroup, hleft, hhand rfl⟩
  | wake b =>
    obtain ⟨job, call, hjob', hrun, hstage, htold, _⟩ := h
    exact ⟨job, call, hjob.trans hjob', hrun, hstage, htold, hhand rfl⟩
  | proceed b =>
    obtain ⟨job, hjob'⟩ := h
    exact ⟨job, hjob.trans hjob'⟩

/-- A task stays about a node in the right state if the node in hand changes. -/
theorem of_hand (h : Proper s (some x) task)
    (hjob : task.address ≠ x → t.jobAt task.address = s.jobAt task.address)
    (hself : t.jobAt x = some job) (hhand : hand' = some x ∨ hand' = none) :
    Proper t hand' task := by
  by_cases haddress : task.address = x
  · cases task with
    | proceed b =>
      obtain rfl : b = x := haddress
      exact ⟨job, hself⟩
    | _ => exact absurd (congrArg some haddress).symm (h.hand_ne rfl)
  · refine h.of_job (hjob haddress) fun _ heq => ?_
    rcases hhand with rfl | rfl
    · exact haddress (Option.some.inj heq).symm
    · cases heq

end Proper

/-- The nodes of a run and its agenda fit together. -/
structure Control (setup : Setup) (s : State) (hand : Option Address) : Prop where
  /-- Nothing impossible has happened. -/
  sound : s.fault = none
  /-- The node in hand exists. -/
  held : ∀ a, hand = some a → ∃ job, s.jobAt a = some job
  /-- Every task is about a node in the right state. -/
  proper : ∀ task ∈ s.agenda, Proper s hand task
  /-- No task but the progress of a call stands twice in the agenda. -/
  single : (s.agenda.filter fun task => !task.isProceed).Nodup
  /-- Every node fits its children. -/
  node : ∀ a job, s.jobAt a = some job → Local setup s hand a job
  /-- Pending nodes below a node that has ended are only those that are about to be left. -/
  closed : ∀ c b, c <+: b → (∃ status, s.statusAt c = some status ∧ status.isTerminal) →
    s.statusAt b = some .pending →
    ∃ h job, hand = some h ∧ s.jobAt h = some job ∧ h <+: b ∧
      (job.status = .running → job.node.kind = .branch)
  /-- The root has been touched. -/
  root : ¬ Untouched s hand []

namespace Control

variable {setup : Setup} {s : State} {hand : Option Address} {a : Address} {job : Job}

/-! ## Active nodes -/

theorem exists_of_active (h : Control setup s hand) (ha : Active s hand a) :
    ∃ job, s.jobAt a = some job := by
  rcases ha with ha | ha | ha | ha
  · exact h.held a ha
  · obtain ⟨job, hjob, _⟩ := jobAt_of_statusAt (h.proper _ ha).1
    exact ⟨job, hjob⟩
  · obtain ⟨_, ⟨status, hstatus, _⟩, _⟩ := h.proper _ ha
    obtain ⟨job, hjob, _⟩ := jobAt_of_statusAt hstatus
    exact ⟨job, hjob⟩
  · obtain ⟨job, hjob, _⟩ := jobAt_of_statusAt ha
    exact ⟨job, hjob⟩

/-- The node above an active node runs and is not in hand. -/
theorem parent {i : Nat} (h : Control setup s hand) (ha : Active s hand (a ++ [i])) :
    ∃ job, s.jobAt a = some job ∧ job.status = .running ∧ hand ≠ some a := by
  obtain ⟨kid, hkid⟩ := h.exists_of_active ha
  obtain ⟨job, hjob⟩ := jobAt_of_append hkid
  refine ⟨job, hjob, ?_⟩
  have hlocal := h.node a job hjob
  constructor
  · by_cases hrun : job.status = .running
    · exact hrun
    · exact absurd ha ((hlocal.quiet (.inl hrun)).2 i)
  · intro hhand
    exact (hlocal.quiet (.inr hhand)).2 i ha

/-- Everything above an active node runs and is not in hand. -/
theorem above {c : Address} (h : Control setup s hand) (hc : c ≠ [])
    (ha : Active s hand (a ++ c)) :
    ∃ job, s.jobAt a = some job ∧ job.status = .running ∧ hand ≠ some a := by
  induction c using List.reverseRecOn with
  | nil => exact absurd rfl hc
  | append_singleton c i ih =>
    rw [← List.append_assoc] at ha
    obtain ⟨job, hjob, hrun, hhand⟩ := h.parent ha
    by_cases hnil : c = []
    · subst hnil
      rw [List.append_nil] at hjob hhand
      exact ⟨job, hjob, hrun, hhand⟩
    · refine ih hnil (.inr (.inr (.inr ?_)))
      rw [statusAt_of_jobAt hjob, hrun]

/-- Nothing below the node in hand is active. -/
theorem inactive_below_hand {c : Address} (h : Control setup s (some a)) (hc : c ≠ []) :
    ¬ Active s (some a) (a ++ c) := by
  intro hactive
  obtain ⟨_, _, _, hhand⟩ := h.above hc hactive
  exact hhand rfl

/-- Nothing below a node that does not run is active. -/
theorem inactive_below {c : Address} (h : Control setup s hand) (hjob : s.jobAt a = some job)
    (hstatus : job.status ≠ .running) (hc : c ≠ []) : ¬ Active s hand (a ++ c) := by
  intro hactive
  obtain ⟨job', hjob', hrun, _⟩ := h.above hc hactive
  rw [hjob, Option.some.injEq] at hjob'
  exact hstatus (hjob' ▸ hrun)

/-- Everything below a pending node is pending. -/
theorem below_pending {b : Address} {status : Status} (h : Control setup s hand) (hab : a <+: b)
    (ha : s.statusAt a = some .pending) (hb : s.statusAt b = some status) :
    status = .pending := by
  obtain ⟨c, rfl⟩ := hab
  induction c using List.reverseRecOn generalizing status with
  | nil =>
    rw [List.append_nil, ha, Option.some.injEq] at hb
    exact hb.symm
  | append_singleton c i ih =>
    rw [← List.append_assoc] at hb
    obtain ⟨kid, hkid, _⟩ := jobAt_of_statusAt hb
    obtain ⟨job, hjob⟩ := jobAt_of_append hkid
    have hpending : job.status = .pending := ih (statusAt_of_jobAt hjob)
    exact ((h.node _ job hjob).pending hpending).2 i status hb

/-- The node in hand waits for nothing. -/
theorem call?_hand (h : Control setup s (some a)) (hjob : s.jobAt a = some job) :
    job.call? = none :=
  ((h.node a job hjob).quiet (.inr rfl)).1

/-- Between tasks nothing pending lies below a node that has ended. -/
theorem closed_none {c b : Address} {status : Status} (h : Control setup s none) (hcb : c <+: b)
    (hc : s.statusAt c = some status) (hterminal : status.isTerminal) :
    s.statusAt b ≠ some .pending := by
  intro hb
  obtain ⟨_, _, hhand, _⟩ := h.closed c b hcb ⟨status, hc, hterminal⟩ hb
  cases hhand

/-- Between tasks everything below a node that has ended has ended. -/
theorem isTerminal_below {c b : Address} {status : Status} (h : Control setup s none) (hcb : c <+: b)
    (hc : s.statusAt c = some status) (hterminal : status.isTerminal) (hjob : s.jobAt b = some job) :
    job.status.isTerminal := by
  cases hstatus : job.status with
  | pending =>
    refine absurd ?_ (h.closed_none hcb hc hterminal)
    rw [statusAt_of_jobAt hjob, hstatus]
  | running =>
    exfalso
    have hrun : s.statusAt b = some .running := by rw [statusAt_of_jobAt hjob, hstatus]
    obtain ⟨d, rfl⟩ := hcb
    have hsame : s.statusAt c = some .running := by
      by_cases hd : d = []
      · rwa [hd, List.append_nil] at hrun
      · obtain ⟨above, habove, hrunning, _⟩ := h.above hd (.inr (.inr (.inr hrun)))
        rw [statusAt_of_jobAt habove, hrunning]
    rw [hc, Option.some.injEq] at hsame
    subst hsame
    cases hterminal
  | _ => rfl

/-- No node that has ended lies above or below a pending node that only running nodes lie above. -/
theorem not_ended {b c y : Address} {status : Status} (h : Control setup s hand)
    (hy : s.statusAt y = some .pending)
    (habove : ∀ c d, y = c ++ d → d ≠ [] → s.statusAt c = some .running) (hyb : y <+: b)
    (hcb : c <+: b) (hc : s.statusAt c = some status) : ¬ status.isTerminal := by
  intro hterminal
  rcases List.prefix_or_prefix_of_prefix hcb hyb with ⟨d, hd⟩ | hyc
  · by_cases hnil : d = []
    · subst hnil
      rw [List.append_nil] at hd
      rw [hd, hy, Option.some.injEq] at hc
      subst hc
      cases hterminal
    · rw [habove c d hd.symm hnil, Option.some.injEq] at hc
      subst hc
      cases hterminal
  · have := h.below_pending hyc hy hc
    subst this
    cases hterminal

/-- Only running nodes lie above an active node. -/
theorem statusAt_above {c : Address} (h : Control setup s hand) (hc : c ≠ [])
    (ha : Active s hand (a ++ c)) : s.statusAt a = some .running := by
  obtain ⟨job, hjob, hrun, _⟩ := h.above hc ha
  rw [statusAt_of_jobAt hjob, hrun]

/-- A call is made by a running step that is not in hand. -/
theorem of_callAt {call : Call} (h : Control setup s hand) (hcall : s.callAt a = some call) :
    ∃ job, s.jobAt a = some job ∧ job.status = .running ∧ job.stage = .calling call ∧
      job.node.kind = .step ∧ hand ≠ some a ∧ (call.told = true → .wake a ∈ s.agenda) := by
  obtain ⟨job, hjob, hstage⟩ := jobAt_of_callAt hcall
  have hlocal := h.node a job hjob
  have hcall? : job.call? = some call := by rw [Job.call?, hstage]
  have hrun : job.status = .running := by
    by_cases hrun : job.status = .running
    · exact hrun
    · rw [(hlocal.quiet (.inl hrun)).1] at hcall?
      cases hcall?
  have hhand : hand ≠ some a := by
    intro hhand
    rw [(hlocal.quiet (.inr hhand)).1] at hcall?
    cases hcall?
  refine ⟨job, hjob, hrun, hstage, ?_⟩
  cases hlocal.busy hrun hhand with
  | calling hstage' hkind htold =>
    rw [hstage, Stage.calling.injEq] at hstage'
    subst hstage'
    exact ⟨hkind, hhand, htold⟩
  | sequence hstage' => rw [hstage] at hstage'; cases hstage'
  | branch hstage' => rw [hstage] at hstage'; cases hstage'
  | group hstage' => rw [hstage] at hstage'; cases hstage'

/-- A step that waits for a call runs and is not in hand. -/
theorem of_calling {call : Call} (h : Control setup s hand) (hjob : s.jobAt a = some job)
    (hstage : job.stage = .calling call) :
    job.status = .running ∧ hand ≠ some a ∧ job.node.kind = .step ∧
      (call.told = true → .wake a ∈ s.agenda) := by
  have hcall : s.callAt a = some call := by rw [callAt_of_jobAt hjob, Job.call?, hstage]
  obtain ⟨job', hjob', hrun, _, hkind, hhand, htold⟩ := h.of_callAt hcall
  rw [hjob, Option.some.injEq] at hjob'
  subst hjob'
  exact ⟨hrun, hhand, hkind, htold⟩

/-- An active child is one of the children that the node should have. -/
theorem lt_arity {tree : Node} {i : Nat} (h : Control setup s hand) (hshape : Shape tree s)
    (hjob : s.jobAt a = some job) (hactive : Active s hand (a ++ [i])) : i < job.arity := by
  obtain ⟨kid, hkid⟩ := h.exists_of_active hactive
  exact (hshape.arity a i job hjob).1 (by rw [hkid]; rfl)

/-- Of the children of a sequence or a branch one is active. -/
theorem one_active {tree : Node} (h : Control setup s hand) (hshape : Shape tree s)
    (hjob : s.jobAt a = some job) (hrun : job.status = .running) (hhand : hand ≠ some a)
    (hkind : job.node.kind = .sequence ∨ job.node.kind = .branch) :
    ∃ frame k, job.stage = .hosting frame ∧ Active s hand (a ++ [k]) ∧
      ∀ j, j ≠ k → ¬ Active s hand (a ++ [j]) := by
  cases (h.node a job hjob).busy hrun hhand with
  | calling hstage hstep =>
    rw [hstep] at hkind
    rcases hkind with hkind | hkind <;> cases hkind
  | @sequence frame k hstage hseq hbegun hk hactive hbefore hafter =>
    refine ⟨frame, k, hstage, hactive, fun j hjk hj => ?_⟩
    rcases Nat.lt_or_gt_of_ne hjk with hlt | hgt
    · exact (hbefore j hlt).1.2 hj
    · exact (hafter j hgt (h.lt_arity hshape hjob hj)).2 hj
  | @branch frame k hstage hbranch hk hactive hothers =>
    refine ⟨frame, k, hstage, hactive, fun j hjk hj => ?_⟩
    exact (hothers j (h.lt_arity hshape hjob hj) hjk).1.2 hj
  | group hstage hgroup =>
    rcases hkind with hkind | hkind <;> rw [hkind] at hgroup <;> cases hgroup

end Control
end Workflow.State
