import Workflow.Proofs.Live.Fresh
import Workflow.Proofs.Run.Change

/-!
# The shape of the tree of a run

While a workflow runs the tree of its nodes keeps to the definition: the child at a position is
defined by the definition's child there and has its path, and a loop has as many instances as its
source has elements.

* `State.Shape` says this of one state, and `State.Reached.shape` of every state of a run.
-/

namespace Workflow

/-! ## What never changes -/

/-- What never changes of a node: its definition, what of its entry does not depend on the run, and
the number of its children. -/
def Job.fixed (job : Job) : Node × (String × Option String × String × Option String) × Nat :=
  (job.node, (job.entry.path, job.entry.id, job.entry.kind, job.entry.label), job.arity)

namespace Job

/-- The number of children of a node follows from its definition and from what it knows about
them. -/
theorem arity_congr {job job' : Job} (hnode : job.node = job'.node)
    (hframe : job.frame? = job'.frame?) : job.arity = job'.arity := by
  rw [arity, arity, hnode, hframe]

theorem arity_of_kind_ne {job : Job} (h : job.node.kind ≠ .loop) :
    job.arity = job.node.children.length := by
  unfold arity
  split
  · rename_i hwork
    rw [Node.kind, hwork] at h
    exact absurd rfl h
  · rfl

theorem arity_setStage {job : Job} (h : job.node.kind ≠ .loop) (stage : Stage) :
    ({ job with stage } : Job).arity = job.arity := by
  have hlength : ({ job with stage } : Job).arity = job.node.children.length := arity_of_kind_ne h
  rw [hlength, arity_of_kind_ne h]

theorem arity_of_loop {job : Job} {frame : Frame} (h : job.node.kind = .loop)
    (hframe : job.frame? = some frame) : job.arity = frame.source.length := by
  cases hwork : job.node.work with
  | loop source itemName indexName limit => simp only [arity, hwork, hframe]; rfl
  | _ => rw [Node.kind, hwork] at h; cases h

theorem arity_of_pending_loop {path : String} {node : Node} (h : node.kind = .loop) :
    (Live.pendingJob path node).arity = 0 := by
  cases hwork : node.work with
  | loop source itemName indexName limit => simp only [arity, Live.pendingJob, hwork]; rfl
  | _ => rw [Node.kind, hwork] at h; cases h

/-- The number of children that the model counts. -/
theorem count_eq_arity {job : Job} {frame : Frame} (h : job.frame? = some frame) :
    job.count frame = job.arity := by
  unfold count
  split
  · rename_i hkind
    exact (arity_of_loop hkind h).symm
  · rename_i hkind
    exact (arity_of_kind_ne hkind).symm

/-- Counting a child that has ended leaves the number of children. -/
theorem arity_nextFrame {job : Job} {frame : Frame} {i : Nat} {kid : Live}
    (hframe : job.frame? = some frame) :
    ({ job with stage := .hosting (State.nextFrame job frame i kid) } : Job).arity =
      job.arity := by
  rw [arity, arity, hframe]
  rfl

@[simp] theorem fixed_moved (job : Job) (target : Status) (now : Int) :
    (job.moved target now).fixed = job.fixed :=
  rfl

@[simp] theorem fixed_tell (job : Job) : job.tell.fixed = job.fixed := by
  rw [fixed, fixed, node_tell, entry_tell, arity_congr (node_tell job) (frame?_tell job)]

/-- Another stage with the same knowledge of the children changes nothing that is fixed. -/
theorem fixed_setStage {job : Job} {stage : Stage}
    (h : ({ job with stage } : Job).frame? = job.frame?) :
    ({ job with stage } : Job).fixed = job.fixed := by
  have harity : ({ job with stage } : Job).arity = job.arity := arity_congr rfl h
  rw [fixed, fixed, harity]

end Job

namespace State

/-! ## Children that have been counted -/

section Counted

variable {s : State} {a : Address} {job : Job}

theorem jobAt_counted (hjob : s.jobAt a = some job) (rest : List Task) (frame : Frame) (i : Nat)
    (kid : Live) (b : Address) : (s.counted rest a job frame i kid).jobAt b =
      if b = a then some { job with stage := .hosting (nextFrame job frame i kid) }
      else s.jobAt b := by
  have hstage : (({ s with agenda := rest } : State).setStage a
      (.hosting (nextFrame job frame i kid))).jobAt b =
      if b = a then some { job with stage := .hosting (nextFrame job frame i kid) }
      else s.jobAt b := by
    rw [jobAt_setStage]
    split
    · rename_i hb
      rw [hb, jobAt_agenda, hjob]
      rfl
    · rfl
  unfold counted
  split
  · exact hstage
  · exact hstage

@[simp] theorem statusAt_counted (s : State) (rest : List Task) (a : Address) (job : Job)
    (frame : Frame) (i : Nat) (kid : Live) (b : Address) :
    (s.counted rest a job frame i kid).statusAt b = s.statusAt b := by
  have hstage : (({ s with agenda := rest } : State).setStage a
      (.hosting (nextFrame job frame i kid))).statusAt b = s.statusAt b :=
    statusAt_setStage ..
  unfold counted
  split
  · exact hstage
  · exact hstage

theorem mem_agenda_counted (s : State) (rest : List Task) (a : Address) (job : Job)
    (frame : Frame) (i : Nat) (kid : Live) (task : Task) :
    task ∈ (s.counted rest a job frame i kid).agenda ↔
      task ∈ rest ∨ (frame.begun < job.arity ∧ task = .enter (a ++ [frame.begun])) := by
  unfold counted
  split
  · rename_i hlt
    change task ∈ rest ++ [.enter (a ++ [frame.begun])] ↔ _
    rw [List.mem_append, List.mem_singleton]
    simp only [hlt, true_and]
  · rename_i hlt
    simp only [hlt, false_and, or_false]
    rfl

@[simp] theorem fault_counted (s : State) (rest : List Task) (a : Address) (job : Job)
    (frame : Frame) (i : Nat) (kid : Live) :
    (s.counted rest a job frame i kid).fault = s.fault := by
  unfold counted
  split <;> rfl

end Counted

/-! ## Expansions -/

/-- A loop gets an instance for every element of its source. -/
structure Expansion (s : State) (a : Address) (job : Job) (frame : Frame) (t : State) :
    Prop where
  /-- The loop. -/
  jobAt : s.jobAt a = some job
  status : job.status = .running
  kind : job.node.kind = .loop
  /-- The loop has no instances before. -/
  arity : job.arity = 0
  /-- The loop is no race. -/
  winner : job.winner = none
  winner' : frame.winner = none
  /-- The state after. -/
  eq : t = ({ s with root := s.root.update (fun live => .mk live.job
    (Live.instances job.entry.path job.node frame.source.length)) a }).setStage a (.hosting frame)

namespace Expansion

variable {s t : State} {a : Address} {job : Job} {frame : Frame}

theorem jobAt_self (h : Expansion s a job frame t) :
    t.jobAt a = some { job with stage := .hosting frame } := by
  obtain ⟨kids, hkids⟩ := at?_of_jobAt h.jobAt
  rw [h.eq, jobAt_setStage, if_pos rfl]
  rw [State.jobAt, Live.jobAt, Live.at?_update_self _ hkids]
  rfl

theorem jobAt_of_not_prefix (h : Expansion s a job frame t) {b : Address} (hb : ¬ a <+: b) :
    t.jobAt b = s.jobAt b := by
  have hne : b ≠ a := by
    rintro rfl
    exact hb (List.prefix_refl b)
  rw [h.eq, jobAt_setStage, if_neg hne]
  exact Live.jobAt_update_of_not_prefix _ hb

/-- The instances have not started. -/
theorem jobAt_below (h : Expansion s a job frame t) {body : Node}
    (hbody : job.node.children = [body]) (i : Nat) (c : Address) :
    t.jobAt (a ++ i :: c) = if i < frame.source.length then
      (Live.ofNode (Path.child job.entry.path (Live.kidSegment job.node.work i)) body).jobAt c
      else none := by
  obtain ⟨kids, hkids⟩ := at?_of_jobAt h.jobAt
  rw [h.eq, jobAt_setStage, if_neg (by simp), State.jobAt, Live.jobAt,
    Live.at?_update_append _ hkids, Live.at?_cons, Live.getElem?_instances _ hbody]
  split
  · rfl
  · rfl

/-- A node is as before, or it is the loop, or it belongs to an instance. -/
theorem cases (h : Expansion s a job frame t) {body : Node} (hbody : job.node.children = [body])
    {b : Address} {new : Job} (hnew : t.jobAt b = some new) :
    (¬ a <+: b ∧ s.jobAt b = some new) ∨ (b = a ∧ new = { job with stage := .hosting frame }) ∨
      ∃ i c, b = a ++ i :: c ∧ i < frame.source.length ∧ (Live.ofNode (Path.child job.entry.path
        (Live.kidSegment job.node.work i)) body).jobAt c = some new := by
  by_cases hb : a <+: b
  · obtain ⟨c, rfl⟩ := hb
    cases c with
    | nil =>
      rw [List.append_nil, h.jobAt_self, Option.some.injEq] at hnew
      exact .inr (.inl ⟨List.append_nil a, hnew.symm⟩)
    | cons i c =>
      rw [h.jobAt_below hbody] at hnew
      split at hnew
      · exact .inr (.inr ⟨i, c, rfl, ‹_›, hnew⟩)
      · cases hnew
  · rw [h.jobAt_of_not_prefix hb] at hnew
    exact .inl ⟨hb, hnew⟩

end Expansion

/-! ## Changes keep what is fixed -/

/-- The states agree in what is fixed of every node. -/
def SameFixed (s t : State) : Prop :=
  ∀ b, (t.jobAt b).map Job.fixed = (s.jobAt b).map Job.fixed

namespace SameFixed

variable {s t u : State} {a : Address} {job job' : Job}

theorem refl (s : State) : SameFixed s s := fun _ => rfl

theorem trans (h : SameFixed s t) (h' : SameFixed t u) : SameFixed s u :=
  fun b => (h' b).trans (h b)

/-- A node is replaced by one that agrees with it in what is fixed. -/
theorem put (hjob : s.jobAt a = some job)
    (ht : ∀ b, t.jobAt b = if b = a then some job' else s.jobAt b)
    (hfixed : job'.fixed = job.fixed) : SameFixed s t := by
  intro b
  rw [ht]
  split
  · rename_i hb
    rw [hb, hjob, Option.map_some, Option.map_some, hfixed]
  · rfl

theorem setStage {stage : Stage} (hjob : s.jobAt a = some job)
    (hstage : ({ job with stage } : Job).fixed = job.fixed) :
    SameFixed s (s.setStage a stage) :=
  put hjob (jobAt_setStage_of_jobAt hjob stage) hstage

theorem modifyEntry_move {f : Entry → Entry} {target : Status} (message : String)
    (hjob : s.jobAt a = some job) (htarget : job.status.canBecome target)
    (hstatus : (f job.entry).status = job.status)
    (hfixed : ({ job with entry := f job.entry } : Job).fixed = job.fixed) :
    SameFixed s ((s.modifyEntry a f).move a target message) :=
  put hjob (jobAt_modifyEntry_move hjob htarget hstatus message) hfixed

/-- A move changes nothing that is fixed, whether or not the table of statuses has it. -/
theorem move (s : State) (a : Address) (target : Status) (message : String) :
    SameFixed s (s.move a target message) := by
  unfold State.move
  cases hat : s.root.at? a with
  | none => exact fun b => by simp only [jobAt_breakOff]
  | some live =>
    simp only
    cases live.entry.progress.move target s.now with
    | error e => exact fun b => by simp only [jobAt_breakOff]
    | ok progress =>
      obtain ⟨job, kids⟩ := live
      have hjob : s.jobAt a = some job := jobAt_of_at? hat
      refine put (t := _) hjob (fun b => ?_) (rfl : ({ job with
        entry := { job.entry with progress } } : Job).fixed = job.fixed)
      simp only [jobAt_note, jobAt_modifyEntry]
      split
      · rename_i hb
        rw [hb, hjob]
        rfl
      · rfl

theorem tell (s : State) (a : Address) : SameFixed s (s.tell a) := by
  intro b
  rw [jobAt_tell]
  split
  · cases s.jobAt b <;> simp
  · rfl

theorem cancelRun (s : State) : SameFixed s s.cancelRun :=
  cancelRun_induction s (refl s) (refl s) fun t b h => h.trans (tell t b)

/-- Whatever takes the place of a call leaves what is fixed. -/
theorem setCall {call call' : Call} (h : s.callAt a = some call) :
    SameFixed s (s.setStage a (.calling call')) := by
  obtain ⟨job, hjob, hstage⟩ := jobAt_of_callAt h
  exact setStage hjob (Job.fixed_setStage (by rw [Job.frame?, Job.frame?, hstage]))

end SameFixed

/-- A pending node is left with a status that is an end. -/
theorem Omitted.isTerminal {s : State} {a b : Address} {target : Status}
    (h : Omitted s a b target) : target.isTerminal := by
  cases h with
  | stopped => split <;> rfl
  | _ => rfl

theorem Omitted.canBecome {s : State} {a b : Address} {target : Status}
    (h : Omitted s a b target) : Status.pending.canBecome target := by
  cases h with
  | stopped => split <;> rfl
  | _ => rfl

/-- A change keeps what is fixed of every node, or gives a loop its instances. -/
theorem Change.fixed {setup : Setup} {doing : Doing} {hand after : Option Address} {s t : State}
    (h : Change setup doing s hand t after) :
    SameFixed s t ∨ ∃ a job frame, Expansion s a job frame t ∧
      doing = .start a (.items frame.source) := by
  cases h with
  | expand frame hjob hstatus hkind harity hwinner hwinner' hdoing =>
    exact .inr ⟨_, _, frame, ⟨hjob, hstatus, hkind, harity, hwinner, hwinner', rfl⟩, hdoing⟩
  | begin hpending =>
    obtain ⟨job, hjob, hstatus⟩ := jobAt_of_statusAt hpending
    exact .inl (.put hjob (jobAt_move hjob (by rw [hstatus]; rfl) "") (Job.fixed_moved ..))
  | leave hprefix hpending homitted =>
    obtain ⟨job, hjob, hstatus⟩ := jobAt_of_statusAt hpending
    refine .inl (.put hjob (jobAt_move hjob ?_ "") (Job.fixed_moved ..))
    rw [hstatus]
    exact homitted.canBecome
  | @bindStep a job inputs hjob =>
    have hfixed : ({ job with entry := { job.entry with inputs } } : Job).fixed = job.fixed := rfl
    exact .inl (.put hjob (jobAt_modifyEntry_of_jobAt hjob _) hfixed)
  | succeed hkids hstatus =>
    exact .inl (.modifyEntry_move _ (jobAt_of_at? hkids) (by rw [hstatus]; rfl) rfl rfl)
  | fail hkids hstatus =>
    exact .inl (.modifyEntry_move _ (jobAt_of_at? hkids) (by rw [hstatus]; rfl) rfl rfl)
  | stop hkids hstatus =>
    exact .inl (.modifyEntry_move _ (jobAt_of_at? hkids) (by rw [hstatus]; rfl) rfl rfl)
  | release => exact .inl fun b => by rw [jobAt_reported]
  | host frame hjob hstatus hkind hwinner harity =>
    refine .inl (.setStage hjob ?_)
    rw [Job.fixed, Job.fixed, harity]
  | callOut agent timeout hjob hstatus hkind =>
    refine .inl (SameFixed.setStage hjob ?_)
    have hloop : Kind.step ≠ .loop := by decide
    rw [Job.fixed, Job.fixed, Job.arity_of_kind_ne (by rwa [hkind]), Job.arity_of_kind_ne
      (by rwa [hkind])]
  | @count a i job frame kid rest hagenda hjob hgroup hframe hkid =>
    exact .inl (.put hjob (jobAt_counted hjob rest frame i kid) (by
      rw [Job.fixed, Job.fixed, Job.arity_nextFrame hframe]))
  | @takeWake a call rest hagenda hcall =>
    obtain ⟨job, hjob, hstage⟩ := jobAt_of_callAt hcall
    exact .inl (SameFixed.setStage (s := { s with agenda := rest }) hjob
      (Job.fixed_setStage (by rw [Job.frame?, Job.frame?, hstage])))
  | ask inputs hcall => exact .inl (SameFixed.setCall hcall)
  | goOn acts wakeAt agenda hcall =>
    exact .inl (SameFixed.setCall (s := { s with agenda }) hcall)
  | answer outcome wakeAt deadline agenda hcall =>
    exact .inl ((SameFixed.setCall (s := { s with agenda }) hcall).trans (SameFixed.tell _ _))
  | tell => exact .inl (SameFixed.tell _ _)
  | cancelRun => exact .inl (SameFixed.cancelRun _)
  | _ => exact .inl (SameFixed.refl _)

/-! ## The shape of the tree -/

/-- The nodes keep to the definition of the workflow. -/
structure Shape (tree : Node) (s : State) : Prop where
  /-- The root is the workflow itself. -/
  root : ∃ job, s.jobAt [] = some job ∧ job.node = tree ∧ job.entry.path = Path.root
  /-- All definitions are sound. -/
  sound : ∀ a job, s.jobAt a = some job → job.node.Sound
  /-- The entry of a node is about its definition. -/
  entry : ∀ a job, s.jobAt a = some job → job.entry.id = job.node.id ∧
    job.entry.kind = job.node.kind.name ∧ job.entry.label = job.node.label
  /-- The definition of a child is the child of the definition, and its path leads on. -/
  kid : ∀ a i job kid, s.jobAt a = some job → s.jobAt (a ++ [i]) = some kid →
    job.node.kidAt i = some kid.node ∧
      kid.entry.path = Path.child job.entry.path (Live.kidSegment job.node.work i)
  /-- A node has as many children as it should have. -/
  arity : ∀ a i job, s.jobAt a = some job → ((s.jobAt (a ++ [i])).isSome ↔ i < job.arity)

namespace Shape

variable {tree : Node} {s : State} {a : Address} {i : Nat} {job kid : Job}

/-- A node has every child that it should have. -/
theorem exists_kid (h : Shape tree s) (hjob : s.jobAt a = some job) (hi : i < job.arity) :
    ∃ kid, s.jobAt (a ++ [i]) = some kid :=
  Option.isSome_iff_exists.1 ((h.arity a i job hjob).2 hi)

/-- A node has no other children. -/
theorem lt_arity (h : Shape tree s) (hjob : s.jobAt a = some job)
    (hkid : s.jobAt (a ++ [i]) = some kid) : i < job.arity :=
  (h.arity a i job hjob).1 (Option.isSome_iff_exists.2 ⟨kid, hkid⟩)

theorem jobAt_kid_eq_none (h : Shape tree s) (hjob : s.jobAt a = some job)
    (hi : ¬ i < job.arity) : s.jobAt (a ++ [i]) = none := by
  rw [← Option.not_isSome_iff_eq_none, h.arity a i job hjob]
  exact hi

/-- Steps have no children. -/
theorem arity_of_step (h : Shape tree s) (hjob : s.jobAt a = some job)
    (hkind : job.node.kind = .step) : job.arity = 0 := by
  rw [Job.arity_of_kind_ne (by simp [hkind]), (h.sound a job hjob).children_eq_nil hkind]
  rfl

/-- A node with children is no step. -/
theorem kind_ne_step (h : Shape tree s) (hjob : s.jobAt a = some job) (hi : i < job.arity) :
    job.node.kind ≠ .step := by
  intro hkind
  rw [h.arity_of_step hjob hkind] at hi
  cases hi

end Shape

/-! ## Trees that have not started -/

section Fresh

variable {path : String} {node : Node} {a : Address} {job : Job}

theorem sound_ofNode (hnode : node.Sound) (h : (Live.ofNode path node).jobAt a = some job) :
    job.node.Sound := by
  obtain ⟨path', node', rfl, hsub⟩ := Live.jobAt_ofNode h
  exact fun n hn => hnode n (hsub hn)

theorem entry_ofNode (h : (Live.ofNode path node).jobAt a = some job) :
    job.entry.id = job.node.id ∧ job.entry.kind = job.node.kind.name ∧
      job.entry.label = job.node.label := by
  obtain ⟨path', node', rfl, _⟩ := Live.jobAt_ofNode h
  exact ⟨rfl, rfl, rfl⟩

theorem kid_ofNode {i : Nat} {kid : Job} (h : (Live.ofNode path node).jobAt a = some job)
    (hkid : (Live.ofNode path node).jobAt (a ++ [i]) = some kid) :
    job.node.kidAt i = some kid.node ∧
      kid.entry.path = Path.child job.entry.path (Live.kidSegment job.node.work i) := by
  rw [Live.jobAt_ofNode_concat h] at hkid
  split at hkid
  · cases hkid
  · rename_i hkind
    obtain ⟨child, hchild, rfl⟩ := Option.map_eq_some_iff.1 hkid
    rw [Node.kidAt_of_kind_ne hkind, hchild]
    exact ⟨rfl, rfl⟩

theorem arity_ofNode (h : (Live.ofNode path node).jobAt a = some job) (i : Nat) :
    ((Live.ofNode path node).jobAt (a ++ [i])).isSome ↔ i < job.arity := by
  rw [Live.jobAt_ofNode_concat h]
  obtain ⟨path', node', rfl, _⟩ := Live.jobAt_ofNode h
  by_cases hkind : node'.kind = .loop
  · rw [if_pos (by exact hkind), Job.arity_of_pending_loop hkind]
    simp
  · rw [if_neg (by exact hkind), Job.arity_of_kind_ne (by exact hkind), Option.isSome_map]
    simp

end Fresh

/-! ## Every state of a run -/

namespace Shape

variable {tree : Node} {s t : State}

theorem start (setup : Setup) (h : tree.Sound) : Shape tree (start setup tree) where
  root := ⟨Live.pendingJob Path.root tree, by
    rw [State.jobAt, State.start, Live.jobAt, Live.at?_nil, Option.map_some, Live.job_ofNode],
    rfl, rfl⟩
  sound := fun _ _ hjob => sound_ofNode h hjob
  entry := fun _ _ hjob => entry_ofNode hjob
  kid := fun _ _ _ _ hjob hkid => kid_ofNode hjob hkid
  arity := fun _ i _ hjob => arity_ofNode hjob i

theorem of_sameFixed (h : Shape tree s) (hsame : SameFixed s t) : Shape tree t := by
  have back {a : Address} {job : Job} (hjob : t.jobAt a = some job) :
      ∃ old, s.jobAt a = some old ∧ old.fixed = job.fixed := by
    have := hsame a
    rw [hjob, Option.map_some] at this
    exact Option.map_eq_some_iff.1 this.symm
  have hsome (a : Address) : (t.jobAt a).isSome = (s.jobAt a).isSome := by
    have := congrArg Option.isSome (hsame a)
    rwa [Option.isSome_map, Option.isSome_map] at this
  constructor
  · obtain ⟨job, hjob, hnode, hpath⟩ := h.root
    have := hsame []
    rw [hjob, Option.map_some] at this
    obtain ⟨job', hjob', hfixed⟩ := Option.map_eq_some_iff.1 this
    simp only [Job.fixed, Prod.mk.injEq] at hfixed
    exact ⟨job', hjob', hfixed.1.trans hnode, hfixed.2.1.1.trans hpath⟩
  · intro a job hjob
    obtain ⟨old, hold, hfixed⟩ := back hjob
    simp only [Job.fixed, Prod.mk.injEq] at hfixed
    rw [← hfixed.1]
    exact h.sound a old hold
  · intro a job hjob
    obtain ⟨old, hold, hfixed⟩ := back hjob
    simp only [Job.fixed, Prod.mk.injEq] at hfixed
    obtain ⟨hnode, ⟨_, hid, hkind, hlabel⟩, _⟩ := hfixed
    rw [← hnode, ← hid, ← hkind, ← hlabel]
    exact h.entry a old hold
  · intro a i job kid hjob hkid
    obtain ⟨old, hold, hfixed⟩ := back hjob
    obtain ⟨oldKid, holdKid, hfixedKid⟩ := back hkid
    simp only [Job.fixed, Prod.mk.injEq] at hfixed hfixedKid
    rw [← hfixed.1, ← hfixed.2.1.1, ← hfixedKid.1, ← hfixedKid.2.1.1]
    exact h.kid a i old oldKid hold holdKid
  · intro a i job hjob
    obtain ⟨old, hold, hfixed⟩ := back hjob
    simp only [Job.fixed, Prod.mk.injEq] at hfixed
    rw [hsome, ← hfixed.2.2]
    exact h.arity a i old hold

/-- Nothing lies below a node without children. -/
theorem jobAt_below_eq_none (h : Shape tree s) {a : Address} {job : Job}
    (hjob : s.jobAt a = some job) (harity : job.arity = 0) (i : Nat) (c : Address) :
    s.jobAt (a ++ i :: c) = none := by
  cases hbelow : s.jobAt (a ++ i :: c) with
  | none => rfl
  | some below =>
    rw [List.append_cons] at hbelow
    obtain ⟨kid, hkid⟩ := jobAt_of_append hbelow
    have := (h.arity a i job hjob).1 (by rw [hkid]; rfl)
    omega

theorem length_kids (h : Shape tree s) {a : Address} {job : Job} {kids : List Live}
    (hkids : s.root.at? a = some (.mk job kids)) : kids.length = job.arity := by
  have hlt (i : Nat) : i < kids.length ↔ i < job.arity := by
    rw [← h.arity a i job (jobAt_of_at? hkids), jobAt_concat hkids, Option.isSome_map,
      isSome_getElem?]
  rcases Nat.lt_trichotomy kids.length job.arity with hless | heq | hmore
  · exact absurd ((hlt _).2 hless) (Nat.lt_irrefl _)
  · exact heq
  · exact absurd ((hlt _).1 hmore) (Nat.lt_irrefl _)

theorem of_expansion (h : Shape tree s) {a : Address} {job : Job} {frame : Frame}
    (hexp : Expansion s a job frame t) : Shape tree t := by
  obtain ⟨body, hbody⟩ := (h.sound a job hexp.jobAt).exists_body hexp.kind
  have hbodySound : body.Sound :=
    (h.sound a job hexp.jobAt).of_mem_children (by rw [hbody]; exact List.mem_singleton_self _)
  constructor
  · obtain ⟨root, hroot, hnode, hpath⟩ := h.root
    by_cases ha : a = []
    · subst ha
      rw [hexp.jobAt, Option.some.injEq] at hroot
      subst hroot
      exact ⟨_, hexp.jobAt_self, hnode, hpath⟩
    · refine ⟨root, ?_, hnode, hpath⟩
      rwa [hexp.jobAt_of_not_prefix (by simpa using ha)]
  · intro b new hnew
    rcases hexp.cases hbody hnew with ⟨_, hold⟩ | ⟨rfl, rfl⟩ | ⟨i, c, rfl, _, hfresh⟩
    · exact h.sound b new hold
    · exact h.sound b job hexp.jobAt
    · exact sound_ofNode hbodySound hfresh
  · intro b new hnew
    rcases hexp.cases hbody hnew with ⟨_, hold⟩ | ⟨rfl, rfl⟩ | ⟨i, c, rfl, _, hfresh⟩
    · exact h.entry b new hold
    · exact h.entry b job hexp.jobAt
    · exact entry_ofNode hfresh
  · intro b i new kid hnew hkid
    rcases hexp.cases hbody hnew with ⟨hb, hold⟩ | ⟨rfl, rfl⟩ | ⟨j, c, rfl, hj, hfresh⟩
    · rcases hexp.cases hbody hkid with ⟨_, holdKid⟩ | ⟨hkid', rfl⟩ | ⟨j, c, heq, _⟩
      · exact h.kid b i new kid hold holdKid
      · exact h.kid b i new job hold (hkid' ▸ hexp.jobAt)
      · exfalso
        refine hb ⟨(j :: c).dropLast, ?_⟩
        rw [← List.dropLast_append_of_ne_nil (List.cons_ne_nil j c), ← heq,
          List.dropLast_concat]
    · rw [hexp.jobAt_below hbody] at hkid
      split at hkid
      · rw [Live.jobAt, Live.at?_nil, Option.map_some, Live.job_ofNode, Option.some.injEq] at hkid
        subst hkid
        rw [Node.kidAt_of_kind_eq (by exact hexp.kind), hbody]
        exact ⟨rfl, rfl⟩
      · cases hkid
    · rw [List.append_assoc, List.cons_append, hexp.jobAt_below hbody, if_pos hj] at hkid
      exact kid_ofNode hfresh hkid
  · intro b i new hnew
    rcases hexp.cases hbody hnew with ⟨hb, hold⟩ | ⟨rfl, rfl⟩ | ⟨j, c, rfl, hj, hfresh⟩
    · rw [← h.arity b i new hold]
      by_cases ha : b ++ [i] = a
      · rw [ha, hexp.jobAt_self, hexp.jobAt]
        rfl
      · rw [hexp.jobAt_of_not_prefix fun hprefix => ?_]
        rcases List.prefix_concat_iff.1 hprefix with heq | hprefix
        · exact ha heq.symm
        · exact hb hprefix
    · rw [hexp.jobAt_below hbody, Job.arity_of_loop (by exact hexp.kind) rfl]
      split
      · rename_i hi
        rw [Live.jobAt, Live.at?_nil]
        exact ⟨fun _ => hi, fun _ => rfl⟩
      · rename_i hi
        exact ⟨fun hnone => absurd hnone (by simp), fun hi' => absurd hi' hi⟩
    · rw [List.append_assoc, List.cons_append, hexp.jobAt_below hbody, if_pos hj]
      exact arity_ofNode hfresh i

theorem change {setup : Setup} {doing : Doing} {hand after : Option Address} (h : Shape tree s)
    (hchange : Change setup doing s hand t after) : Shape tree t := by
  rcases hchange.fixed with hsame | ⟨a, job, frame, hexp, _⟩
  · exact h.of_sameFixed hsame
  · exact h.of_expansion hexp

end Shape

/-- The nodes of a run keep to the definition of the workflow. -/
theorem Reached.shape {setup : Setup} {tree : Node} {s : State} {hand : Option Address}
    (h : Reached setup tree s hand) (htree : tree.Sound) : Shape tree s := by
  induction h with
  | start => exact .start setup htree
  | change _ hchange ih => exact ih.change hchange

end State
end Workflow
