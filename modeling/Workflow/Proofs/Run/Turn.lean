import Workflow.Proofs.Run.Fate
import Workflow.Proofs.Run.Hushed
import Workflow.Proofs.Run.Kept

/-!
# The turns of nodes

A node starts once, when its turn comes. What it is given then depends on what it sees at that moment,
and it keeps it to the end of the run.

* `State.Turn` says that the turn of a node has come, `State.Turn.eq` that it comes once, and
  `State.Final.exists_turn` that it has come for every node that has started.
* `State.viewAt` is what the bindings of a node see at its turn.
* `State.Final.notes` says what a container has been given.
-/

namespace Workflow

/-- What a node that waits for its children knows that they see. -/
def Stage.notes? : Stage → Option (Fields Value × List Value)
  | .hosting frame => some frame.notes
  | _ => none

/-- The elements of the source of a loop that opens. -/
def Opening.source : Opening → List Value
  | items elements => elements
  | _ => []

theorem Job.notes?_stage {job : Job} {notes : Fields Value × List Value} :
    job.stage.notes? = some notes ↔ ∃ frame, job.frame? = some frame ∧ frame.notes = notes := by
  rw [Job.frame?]
  cases job.stage <;> simp [Stage.notes?]

/-- A loop has one child for every element of its source that it knows of. -/
theorem Job.arity_eq_of_loop {job : Job} (hkind : job.node.kind = .loop) :
    job.arity = ((job.stage.notes?.map Prod.snd).getD []).length := by
  obtain ⟨node, entry, stage⟩ := job
  cases hwork : node.work with
  | loop source itemName indexName limit =>
    simp only [arity, hwork]
    cases stage <;> rfl
  | _ =>
    change node.work.kind = .loop at hkind
    rw [hwork] at hkind
    cases hkind

namespace State

variable {setup : Setup} {tree : Node} {s t u : State} {hand after : Option Address} {doing : Doing}
  {a b : Address} {job : Job} {kids : List Live} {rest : List Task} {steps : Nat}

/-! ## What a node sees -/

/-- What the bindings of the node at an address see if the node starts now. -/
def viewAt (s : State) (setup : Setup) (a : Address) : Surroundings :=
  (s.move a .running "").surroundings setup (s.root.contextAt a)

/-- What is to be done does not matter to what a node sees. -/
theorem viewAt_eq (setup : Setup) (rest : List Task) (hjob : s.jobAt a = some job)
    (hmove : job.status.canBecome .running) :
    (({ s with agenda := rest } : State).move a .running "").surroundings setup
      (s.root.contextAt a) = s.viewAt setup a := by
  have hmoved := move_eq (s := { s with agenda := rest }) hjob hmove ""
  rw [viewAt, surroundings, surroundings, move_eq hjob hmove, hmoved]
  rfl

/-! ## Nodes that start -/

/-- The node at an address is the next to start, and nothing keeps it from that. -/
structure Entering (setup : Setup) (tree : Node) (s : State) (a : Address) (job : Job)
    (kids : List Live) (rest : List Task) : Prop where
  reached : Reached setup tree s none
  agenda : s.agenda = .enter a :: rest
  kids : s.root.at? a = some (.mk job kids)
  pending : job.status = .pending
  cancelled : s.cancelled = false
  halted : ¬ s.Halted a

namespace Entering

theorem jobAt (h : Entering setup tree s a job kids rest) : s.jobAt a = some job :=
  jobAt_of_at? h.kids

theorem active (h : Entering setup tree s a job kids rest) : Active s none a :=
  .inr (.inl (by rw [h.agenda]; exact List.mem_cons_self))

theorem canBecome (h : Entering setup tree s a job kids rest) : job.status.canBecome .running := by
  rw [h.pending]
  rfl

/-- The node starts with the next step. -/
theorem step (h : Entering setup tree s a job kids rest) (htree : tree.Sound) :
    s.step setup = some (({ s with agenda := rest } : State).enter setup a) :=
  step_of_cons (h.reached.control htree).sound h.agenda

theorem started (h : Entering setup tree s a job kids rest) (htree : tree.Sound) :
    Started setup tree (({ s with agenda := rest } : State).move a .running "") a
      (job.moved .running s.now) kids :=
  (h.reached.started_of_enter htree h.agenda h.kids h.cancelled h.halted).2.1

theorem idle (h : Entering setup tree s a job kids rest) (htree : tree.Sound) : job.stage = .idle :=
  (h.reached.started_of_enter htree h.agenda h.kids h.cancelled h.halted).2.2

theorem not_halted (h : Entering setup tree s a job kids rest) :
    ¬ (s.root.contextAt a).halted = true := by
  rw [halted_iff h.jobAt]
  exact h.halted

theorem enter_of_step {agent : String} {own : Option Binary64}
    (h : Entering setup tree s a job kids rest) (hwork : job.node.work = .step agent own) :
    ({ s with agenda := rest } : State).enter setup a =
      (({ s with agenda := rest } : State).move a .running "").beginStep setup a job agent own
        (s.root.contextAt a) := by
  unfold State.enter
  rw [h.kids]
  simp only [h.cancelled, h.not_halted, hwork, Bool.false_eq_true, if_false]

theorem enter_of_container (h : Entering setup tree s a job kids rest)
    (hkind : job.node.kind ≠ .step) : ({ s with agenda := rest } : State).enter setup a =
      (({ s with agenda := rest } : State).move a .running "").beginContainer setup a job kids
        (s.root.contextAt a) := by
  unfold State.enter
  rw [h.kids]
  simp only [h.cancelled, h.not_halted, Bool.false_eq_true, if_false]
  cases hwork : job.node.work with
  | step =>
    rw [Node.kind, hwork] at hkind
    exact absurd rfl hkind
  | _ => rfl

/-- What happens in the step in which the node starts comes after its start. -/
theorem changes (h : Entering setup tree s a job kids rest) (htree : tree.Sound) :
    ∃ o, Changes setup (.start a o) (({ s with agenda := rest } : State).move a .running "") (some a)
      (({ s with agenda := rest } : State).enter setup a) none := by
  by_cases hkind : job.node.kind = .step
  · cases hwork : job.node.work with
    | step agent own =>
      rw [h.enter_of_step hwork]
      exact ⟨.all, (h.started htree).beginStep _ _ htree hwork (h.idle htree)⟩
    | _ =>
      rw [Node.kind, hwork] at hkind
      cases hkind
  · rw [h.enter_of_container hkind]
    exact ⟨_, (h.started htree).beginContainer _ htree hkind (h.idle htree)⟩

/-- The node is not pending any more when it has started. -/
theorem not_pending (h : Entering setup tree s a job kids rest) (htree : tree.Sound) :
    ∃ job', (({ s with agenda := rest } : State).enter setup a).jobAt a = some job' ∧
      job'.status ≠ .pending := by
  obtain ⟨o, hchanges⟩ := h.changes htree
  have hstarted := h.started htree
  refine hstarted.reached.changes_induction (P := fun u _ =>
    ∃ job', u.jobAt a = some job' ∧ job'.status ≠ .pending) hchanges
    ⟨_, hstarted.jobAt, by rw [hstarted.run]; decide⟩ ?_
  rintro u v between next hu hchange ⟨old, hold, hnot⟩
  have hshape := hu.shape htree
  obtain ⟨new, hnew, _⟩ := hchange.jobAt_some hshape hold
  have hnot' := hchange.not_pending hshape hold hnot
  rw [statusAt_of_jobAt hnew, ne_eq, Option.some.injEq] at hnot'
  exact ⟨new, hnew, hnot'⟩

end Entering

/-! ## What containers are given -/

/-- What the node at an address knows that its children see. -/
def notesAt (s : State) (a : Address) : Option (Fields Value × List Value) :=
  ((s.jobAt a).map Job.stage).bind Stage.notes?

theorem SameStages.notesAt (h : SameStages s t) (a : Address) : t.notesAt a = s.notesAt a :=
  congrArg (Option.bind · Stage.notes?) (h.stage a)

theorem exists_of_notesAt {notes : Fields Value × List Value} (h : s.notesAt a = some notes) :
    ∃ job frame, s.jobAt a = some job ∧ job.frame? = some frame ∧ frame.notes = notes := by
  obtain ⟨stage, hstage, hnotes⟩ := Option.bind_eq_some_iff.1 h
  obtain ⟨job, hjob, rfl⟩ := Option.map_eq_some_iff.1 hstage
  obtain ⟨frame, hframe, hnotes⟩ := Job.notes?_stage.1 hnotes
  exact ⟨job, frame, hjob, hframe, hnotes⟩

theorem notesAt_setStage (hjob : s.jobAt a = some job) (frame : Frame) :
    (s.setStage a (.hosting frame)).notesAt a = some frame.notes := by
  rw [notesAt, jobAt_setStage, if_pos rfl, hjob]
  rfl

theorem notesAt_openSlots (setup : Setup) (frame : Frame) (work : Work) (count : Nat)
    (hjob : s.jobAt a = some job) :
    (s.openSlots setup a frame work count).notesAt a = some frame.notes := by
  have hset (begun left : Nat) : (s.setStage a (.hosting { frame with begun, left })).notesAt a =
      some frame.notes := notesAt_setStage hjob _
  unfold State.openSlots
  simp only
  split
  · rw [(SameStages.join ..).notesAt, hset]
  · exact hset _ _

section Begin

variable {frame : Frame} (hnotes : s.notesAt a = some frame.notes)
include hnotes

theorem notesAt_beginSequence (kids : List Live) :
    (s.beginSequence a frame kids).notesAt a = some frame.notes := by
  obtain ⟨job, _, hjob, _⟩ := exists_of_notesAt hnotes
  unfold State.beginSequence
  split
  · rw [((SameStages.finish ..).reported a).notesAt, hnotes]
  · exact notesAt_setStage hjob _

theorem notesAt_beginBranch (setup : Setup) (c : Context) (condition : Binding)
    (cases_ : List Value) (kids : List Live) :
    (s.beginBranch setup a c condition cases_ kids).notesAt a = some frame.notes := by
  have hsettle (l : List Nat) (s : State) :
      SameStages s (l.foldl (fun s i => s.settle (a ++ [i]) .skipped) s) := by
    induction l generalizing s with
    | nil => exact .of_jobs fun _ => rfl
    | cons i l ih => exact (SameStages.settle ..).trans (ih _)
  unfold State.beginBranch
  rw [← hnotes]
  split
  · exact ((SameStages.fail ..).reported a).notesAt a
  · simp only
    split
    · exact ((hsettle _ s).trans (.of_jobs (jobAt_next _ · _))).notesAt a
    · exact ((SameStages.fail ..).reported a).notesAt a

theorem notesAt_beginLoop (setup : Setup) (c : Context) (job : Job) (source : Binding)
    (hsource : frame.source = []) : (s.beginLoop setup a c job frame source).notesAt a =
      some (frame.bound, (s.loopOpening setup c source).source) := by
  have hfail (failure : Failure) : ((s.fail a failure).reported a).notesAt a =
      some (frame.bound, []) := by
    rw [((SameStages.fail ..).reported a).notesAt, hnotes, Frame.notes, hsource]
  unfold State.beginLoop loopOpening
  cases source.evaluate (s.surroundings setup c) (some "source") with
  | error e => exact hfail _
  | ok value =>
    cases value with
    | array items =>
      obtain ⟨old, _, hjob, _⟩ := exists_of_notesAt hnotes
      obtain ⟨kids, hkids⟩ := at?_of_jobAt hjob
      have hupdate := Live.at?_update_append (fun live => .mk live.job
        (Live.instances job.entry.path job.node items.length)) hkids []
      rw [List.append_nil] at hupdate
      exact notesAt_openSlots setup { frame with source := items } _ _
        (s := { s with root := _ }) (Live.jobAt_of_at? hupdate)
    | _ => exact hfail _

end Begin

/-- A container that begins knows the values of its inputs, and a loop the elements of its source. -/
theorem notesAt_beginContainer {bound : Fields Value} {old : Job} (setup : Setup) (job : Job)
    (kids : List Live) (c : Context) (hold : s.jobAt a = some old)
    (hbound : bindInputs (s.surroundings setup c) job.node.header.inputs = .ok bound) :
    (s.beginContainer setup a job kids c).notesAt a =
      some (bound, (s.opening setup c job.node kids.length).source) := by
  have hnotes := notesAt_setStage hold { bound }
  have hjob' : (s.setStage a (.hosting { bound })).jobAt a =
      some { old with stage := .hosting { bound } } := by
    rw [jobAt_setStage, if_pos rfl, hold]
    rfl
  have hbranch (condition : Binding) (cases_ : List Value) :
      (s.branchOpening setup (c.binding bound) condition cases_ kids.length).source = [] := by
    unfold branchOpening
    split
    · rfl
    · simp only
      split <;> rfl
  unfold State.beginContainer opening
  rw [hbound]
  simp only
  cases job.node.work with
  | sequence => exact notesAt_beginSequence hnotes kids
  | branch condition cases_ =>
    simp only [hbranch]
    exact notesAt_beginBranch hnotes ..
  | loop source itemName indexName limit =>
    simp only [← loopOpening_setStage s setup a (.hosting { bound })]
    exact notesAt_beginLoop hnotes setup _ job source rfl
  | _ => exact notesAt_openSlots setup { bound } _ _ hjob'

theorem Entering.notesAt {bound : Fields Value} (h : Entering setup tree s a job kids rest)
    (htree : tree.Sound) (hkind : job.node.kind ≠ .step)
    (hbound : bindInputs (s.viewAt setup a) job.node.header.inputs = .ok bound) :
    (({ s with agenda := rest } : State).enter setup a).notesAt a =
      some (bound, (s.openingAt setup a).source) := by
  rw [h.enter_of_container hkind, openingAt_eq setup rest h.kids h.canBecome]
  rw [← viewAt_eq setup rest h.jobAt h.canBecome] at hbound
  exact notesAt_beginContainer setup job kids _ (h.started htree).jobAt hbound

/-- A container whose inputs have no values is refused. -/
theorem Entering.exists_bound (h : Entering setup tree s a job kids rest)
    (hopens : ∀ failure, s.openingAt setup a ≠ .refused failure) :
    ∃ bound, bindInputs (s.viewAt setup a) job.node.header.inputs = .ok bound := by
  cases hbound : bindInputs (s.viewAt setup a) job.node.header.inputs with
  | ok bound => exact ⟨bound, rfl⟩
  | error e =>
    rw [viewAt] at hbound
    refine absurd ?_ (hopens e.toFailure)
    rw [openingAt, h.kids]
    simp only [opening, hbound]

/-- A container that is refused knows of no elements. -/
theorem Entering.source_of_refused {failure : Failure} {notes : Fields Value × List Value}
    (h : Entering setup tree s a job kids rest) (htree : tree.Sound) (hkind : job.node.kind ≠ .step)
    (hopens : s.openingAt setup a = .refused failure)
    (hnotes : (({ s with agenda := rest } : State).enter setup a).notesAt a = some notes) :
    notes.2 = [] := by
  cases hbound : bindInputs (s.viewAt setup a) job.node.header.inputs with
  | ok bound =>
    rw [h.notesAt htree hkind hbound, hopens, Option.some.injEq] at hnotes
    rw [← hnotes]
    rfl
  | error e =>
    rw [← viewAt_eq setup rest h.jobAt h.canBecome] at hbound
    rw [h.enter_of_container hkind, beginContainer, hbound] at hnotes
    simp only at hnotes
    rw [((SameStages.fail ..).reported a).notesAt, State.notesAt, (h.started htree).jobAt] at hnotes
    change job.stage.notes? = some notes at hnotes
    rw [h.idle htree] at hnotes
    cases hnotes

/-! ## Turns -/

/-- After a number of steps of the run of the tree, the node at an address is the next to start. -/
def Turn (setup : Setup) (tree : Node) (a : Address) (steps : Nat) : Prop :=
  ∃ rest, ((start setup tree).runWithin setup steps).agenda = .enter a :: rest

/-- Between steps a node whose turn has come is pending. -/
theorem Reached.pending_of_enter (h : Reached setup tree s none) (htree : tree.Sound)
    (hagenda : s.agenda = .enter a :: rest) :
    ∃ job kids, s.root.at? a = some (.mk job kids) ∧ s.jobAt a = some job ∧ job.status = .pending := by
  have hproper : Proper s none (.enter a) :=
    (h.control htree).proper _ (by rw [hagenda]; exact List.mem_cons_self)
  obtain ⟨job, hjob, hstatus⟩ := jobAt_of_statusAt hproper.1
  obtain ⟨kids, hkids⟩ := at?_of_jobAt hjob
  exact ⟨job, kids, hkids, hjob, hstatus⟩

theorem Turn.entering (h : Turn setup tree a steps) (htree : tree.Sound) (hcalm : setup.Calm tree) :
    ∃ job kids rest, Entering setup tree ((State.start setup tree).runWithin setup steps) a job kids
      rest := by
  obtain ⟨rest, hagenda⟩ := h
  have hreached := reached_runWithin setup htree steps
  obtain ⟨job, kids, hkids, _, hstatus⟩ := hreached.pending_of_enter htree hagenda
  exact ⟨job, kids, rest, hreached, hagenda, hkids, hstatus,
    cancelled_runWithin htree hcalm steps, hreached.not_halted htree hcalm.race a⟩

/-! ## Nodes that have started -/

/-- Only a node that has started waits for something. -/
theorem Reached.started_of_stage (h : Reached setup tree s hand) (htree : tree.Sound)
    (hjob : s.jobAt a = some job) (hstage : job.stage ≠ .idle) :
    job.entry.progress.started.isSome := by
  induction h generalizing a job with
  | start =>
    obtain ⟨path, node, rfl, _⟩ := Live.jobAt_ofNode hjob
    exact absurd rfl hstage
  | @change s t hand after doing hreached hchange ih =>
    have hshape := hreached.shape htree
    cases hold : s.jobAt a with
    | none =>
      obtain ⟨path, node, rfl⟩ := hchange.job_new hshape hold hjob
      exact absurd rfl hstage
    | some old =>
      obtain ⟨job', hjob', heffect⟩ := hchange.jobEffect hshape hold
      rw [hjob, Option.some.injEq] at hjob'
      subst hjob'
      have hrunning (hrun : old.status = .running) : old.entry.progress.started.isSome := by
        obtain ⟨x, _, _, _, hsome, _⟩ := ((hreached.chronicle htree).node a old hold).of_running hrun
        rw [hsome]
        rfl
      cases heffect with
      | same => exact ih hold hstage
      | @moved x f target message hmove =>
        have hprogress : (f old.entry).progress = old.entry.progress := by cases hmove <;> rfl
        refine Progress.started_moved ?_ target s.now
        change (f old.entry).progress.started.isSome
        rw [hprogress]
        exact ih hold hstage
      | bound _ hrun => exact hrunning hrun
      | opened _ hrun => exact hrunning hrun
      | hosted frame hframe =>
        show old.entry.progress.started.isSome
        refine ih hold ?_
        rw [stage_of_frame? hframe]
        nofun
      | begun _ hrun => exact hrunning hrun
      | called _ hcalling =>
        show old.entry.progress.started.isSome
        refine ih hold ?_
        rw [hcalling]
        nofun
      | woken => exact absurd rfl hstage

/-- The turn of a node that is not pending has been. -/
theorem Reached.doing_ne (h : Reached setup tree s none) (htree : tree.Sound)
    (hjob : s.jobAt a = some job) (hstatus : job.status ≠ .pending) (o : Opening) :
    s.doing setup ≠ .start a o := by
  intro hstart
  obtain ⟨rest, hagenda, _⟩ := agenda_of_doing hstart
  obtain ⟨old, _, _, hold, hpending⟩ := h.pending_of_enter htree hagenda
  rw [hjob, Option.some.injEq] at hold
  rw [hold] at hstatus
  exact hstatus hpending

/-- A node whose turn has been keeps what it has been given. -/
theorem Reached.keeps_step (h : Reached setup tree s none) (htree : tree.Sound)
    (hjob : s.jobAt a = some job) (hstatus : job.status ≠ .pending) (hstep : s.step setup = some t) :
    ∃ job', t.jobAt a = some job' ∧ job'.status ≠ .pending ∧ job.Keeps job' := by
  refine h.changes_induction (P := fun u _ =>
    ∃ job', u.jobAt a = some job' ∧ job'.status ≠ .pending ∧ job.Keeps job')
    (h.step htree hstep) ⟨job, hjob, hstatus, .refl job⟩ ?_
  rintro u v between next hu hchange ⟨old, hold, hnot, hkeeps⟩
  have hshape := hu.shape htree
  obtain ⟨new, hnew, hkeeps'⟩ := hchange.keeps hshape hold (h.doing_ne htree hjob hstatus)
  have hnot' := hchange.not_pending hshape hold hnot
  rw [statusAt_of_jobAt hnew, ne_eq, Option.some.injEq] at hnot'
  exact ⟨new, hnew, hnot', hkeeps.trans hkeeps'⟩

theorem Reached.keeps_runWithin (h : Reached setup tree s none) (htree : tree.Sound)
    (hjob : s.jobAt a = some job) (hstatus : job.status ≠ .pending) (steps : Nat) :
    ∃ job', (s.runWithin setup steps).jobAt a = some job' ∧ job'.status ≠ .pending ∧
      job.Keeps job' := by
  refine h.runWithin_induction (P := fun u => ∃ job', u.jobAt a = some job' ∧
    job'.status ≠ .pending ∧ job.Keeps job') htree ⟨job, hjob, hstatus, .refl job⟩ ?_ steps
  rintro u v hu hstep ⟨old, hold, hnot, hkeeps⟩
  obtain ⟨new, hnew, hnot', hkeeps'⟩ := hu.keeps_step htree hold hnot hstep
  exact ⟨new, hnew, hnot', hkeeps.trans hkeeps'⟩

/-- A node whose turn has been keeps its children. -/
theorem Reached.arity_step (h : Reached setup tree s none) (htree : tree.Sound)
    (hjob : s.jobAt a = some job) (hstatus : job.status ≠ .pending) (hstep : s.step setup = some t) :
    ∃ job', t.jobAt a = some job' ∧ job'.status ≠ .pending ∧ job'.arity = job.arity := by
  refine h.changes_induction (P := fun u _ =>
    ∃ job', u.jobAt a = some job' ∧ job'.status ≠ .pending ∧ job'.arity = job.arity)
    (h.step htree hstep) ⟨job, hjob, hstatus, rfl⟩ ?_
  rintro u v between next hu hchange ⟨old, hold, hnot, harity⟩
  have hshape := hu.shape htree
  obtain ⟨new, hnew, _⟩ := hchange.jobAt_some hshape hold
  have hnot' := hchange.not_pending hshape hold hnot
  rw [statusAt_of_jobAt hnew, ne_eq, Option.some.injEq] at hnot'
  refine ⟨new, hnew, hnot', ?_⟩
  rcases hchange.arity_cases hshape hold hnew with hsame | ⟨frame, _, hdoing⟩
  · exact hsame.trans harity
  · exact absurd hdoing (h.doing_ne htree hjob hstatus _)

theorem Reached.arity_runWithin (h : Reached setup tree s none) (htree : tree.Sound)
    (hjob : s.jobAt a = some job) (hstatus : job.status ≠ .pending) (steps : Nat) :
    ∃ job', (s.runWithin setup steps).jobAt a = some job' ∧ job'.status ≠ .pending ∧
      job'.arity = job.arity := by
  refine h.runWithin_induction (P := fun u => ∃ job', u.jobAt a = some job' ∧
    job'.status ≠ .pending ∧ job'.arity = job.arity) htree ⟨job, hjob, hstatus, rfl⟩ ?_ steps
  rintro u v hu hstep ⟨old, hold, hnot, harity⟩
  obtain ⟨new, hnew, hnot', harity'⟩ := hu.arity_step htree hold hnot hstep
  exact ⟨new, hnew, hnot', harity'.trans harity⟩

/-- The state after the turn of a node. -/
theorem Entering.runWithin_succ
    (h : Entering setup tree ((State.start setup tree).runWithin setup steps) a job kids rest)
    (htree : tree.Sound) : (State.start setup tree).runWithin setup (steps + 1) =
      ({ (State.start setup tree).runWithin setup steps with agenda := rest } : State).enter
        setup a :=
  runWithin_succ_of_step (h.step htree)

namespace Turn

variable {steps' : Nat} (htree : tree.Sound) (hcalm : setup.Calm tree)
include htree hcalm

/-- After its turn a node is not pending any more. -/
theorem not_pending (h : Turn setup tree a steps) (hlt : steps < steps') : ∃ job,
    ((State.start setup tree).runWithin setup steps').jobAt a = some job ∧ job.status ≠ .pending := by
  obtain ⟨job, kids, rest, hentering⟩ := h.entering htree hcalm
  obtain ⟨after, hafter, hnot⟩ := hentering.not_pending htree
  obtain ⟨more, rfl⟩ := Nat.exists_eq_add_of_lt hlt
  have hreached := reached_runWithin setup htree (steps + 1)
  rw [Nat.add_right_comm, runWithin_add]
  rw [← hentering.runWithin_succ htree] at hafter
  obtain ⟨job', hjob', hnot', _⟩ := hreached.keeps_runWithin htree hafter hnot more
  exact ⟨job', hjob', hnot'⟩

/-- The turn of a node comes once. -/
theorem eq (h : Turn setup tree a steps) (h' : Turn setup tree a steps') : steps' = steps := by
  have hnot {n m : Nat} (hn : Turn setup tree a n) (hm : Turn setup tree a m) : ¬ n < m := by
    intro hlt
    obtain ⟨job, hjob, hnot⟩ := hn.not_pending htree hcalm hlt
    obtain ⟨_, _, _, hentering⟩ := hm.entering htree hcalm
    have hjob' := hentering.jobAt
    rw [hjob, Option.some.injEq] at hjob'
    rw [hjob'] at hnot
    exact hnot hentering.pending
  exact Nat.le_antisymm (Nat.le_of_not_lt (hnot h h')) (Nat.le_of_not_lt (hnot h' h))

/-- A container opens in one way. -/
theorem opens_iff {o : Opening} (h : Turn setup tree a steps) : Opens setup tree a o ↔
    ((State.start setup tree).runWithin setup steps).openingAt setup a = o := by
  obtain ⟨rest, hagenda⟩ := h
  refine ⟨?_, fun ho => ⟨steps, rest, hagenda, ho⟩⟩
  rintro ⟨steps', rest', hagenda', ho⟩
  rwa [← eq htree hcalm ⟨rest, hagenda⟩ ⟨rest', hagenda'⟩]

end Turn

/-! ## Nodes at the end of a run -/

/-- Every node that has started within a number of steps did so when its turn came. -/
theorem exists_entering_of_started (htree : tree.Sound) (n : Nat)
    (hjob : ((start setup tree).runWithin setup n).jobAt a = some job)
    (hstarted : job.entry.progress.started.isSome) : ∃ steps old kids rest, steps < n ∧
      Entering setup tree ((start setup tree).runWithin setup steps) a old kids rest := by
  induction n generalizing job with
  | zero =>
    have := ((reached_runWithin setup htree 0).chronicle htree).node a job hjob
    rw [this.started_iff] at hstarted
    obtain ⟨x, hx, _⟩ := hstarted
    cases hx
  | succ n ih =>
    have hreached := reached_runWithin setup htree n
    by_cases hbefore : ∃ old, ((start setup tree).runWithin setup n).jobAt a = some old ∧
        old.entry.progress.started.isSome
    · obtain ⟨old, hold, hstarted'⟩ := hbefore
      obtain ⟨steps, entered, kids, rest, hlt, hentering⟩ := ih hold hstarted'
      exact ⟨steps, entered, kids, rest, Nat.lt_succ_of_lt hlt, hentering⟩
    · rw [runWithin_succ] at hjob
      cases hstep : ((start setup tree).runWithin setup n).step setup with
      | none =>
        rw [hstep] at hjob
        exact absurd ⟨job, hjob, hstarted⟩ hbefore
      | some t =>
        rw [hstep] at hjob
        obtain ⟨⟨o, hdoing⟩, hcancelled, hhalted⟩ := (hreached.step htree hstep).started_of_not
          hreached htree (fun old hold hstarted' => hbefore ⟨old, hold, hstarted'⟩) hjob hstarted
        obtain ⟨rest, hagenda, _⟩ := agenda_of_doing hdoing
        obtain ⟨old, kids, hkids, _, hpending⟩ := hreached.pending_of_enter htree hagenda
        exact ⟨n, old, kids, rest, n.lt_succ_self, hreached, hagenda, hkids, hpending, hcancelled,
          hhalted⟩

namespace Final

/-- Every node that has started did so when its turn came. -/
theorem exists_entering (h : Final setup tree s) (hjob : s.jobAt a = some job)
    (hstarted : job.entry.progress.started.isSome) : ∃ steps old kids rest,
      Entering setup tree ((State.start setup tree).runWithin setup steps) a old kids rest := by
  obtain ⟨n, hn⟩ := h.exists_eq_runWithin
  rw [hn] at hjob
  obtain ⟨steps, old, kids, rest, _, hentering⟩ :=
    exists_entering_of_started h.sound n hjob hstarted
  exact ⟨steps, old, kids, rest, hentering⟩

/-- The turn of every node that has started has come. -/
theorem exists_turn (h : Final setup tree s) (hjob : s.jobAt a = some job)
    (hstarted : job.entry.progress.started.isSome) : ∃ steps, Turn setup tree a steps := by
  obtain ⟨steps, old, kids, rest, hentering⟩ := h.exists_entering hjob hstarted
  exact ⟨steps, rest, hentering.agenda⟩

theorem cancelled_eq (h : Final setup tree s) (hcalm : setup.Calm tree) : s.cancelled = false := by
  obtain ⟨steps, hsteps⟩ := h.exists_eq_runWithin
  rw [hsteps]
  exact cancelled_runWithin h.sound hcalm steps

/-- In a calm run no node has been stopped. -/
theorem not_stopped (h : Final setup tree s) (hcalm : setup.Calm tree) (a : Address) :
    s.statusAt a ≠ some .cancelled := by
  intro hstatus
  rcases (h.reached.reasons h.sound).cancelled a hstatus with hcancelled | hhalted
  · rw [h.cancelled_eq hcalm] at hcancelled
    cases hcancelled
  · exact h.reached.not_halted h.sound hcalm.race a hhalted

/-- A container that has started knows the values of its inputs, and a loop the elements of its
source. -/
theorem notes {bound : Fields Value} (h : Final setup tree s) (hcalm : setup.Calm tree)
    (hjob : s.jobAt a = some job) (hkind : job.node.kind ≠ .step) (hturn : Turn setup tree a steps)
    (hbound : bindInputs (((start setup tree).runWithin setup steps).viewAt setup a)
      job.node.header.inputs = .ok bound) : ∃ frame, job.frame? = some frame ∧
        frame.notes = (bound, (((start setup tree).runWithin setup steps).openingAt setup a).source) := by
  obtain ⟨old, kids, rest, hentering⟩ := hturn.entering h.sound hcalm
  have hreached := reached_runWithin setup h.sound (steps + 1)
  have hnode := (hentering.reached.shape h.sound).node_eq h.shape hentering.jobAt hjob
  rw [hnode] at hkind hbound
  have hnotes := hentering.notesAt h.sound hkind hbound
  rw [← hentering.runWithin_succ h.sound] at hnotes
  obtain ⟨new, frame, hnew, hframe, hnotes⟩ := exists_of_notesAt hnotes
  obtain ⟨_, hnew', hnot⟩ := hturn.not_pending h.sound hcalm (Nat.lt_succ_self steps)
  rw [hnew, Option.some.injEq] at hnew'
  subst hnew'
  obtain ⟨more, hmore⟩ := h.exists_runWithin_eq (steps + 1)
  obtain ⟨job', hjob', _, hkeeps⟩ := hreached.keeps_runWithin h.sound hnew hnot more
  rw [← hmore, hjob, Option.some.injEq] at hjob'
  subst hjob'
  rw [← hnotes]
  exact hkeeps.notes frame hframe

end Final
end State
end Workflow
