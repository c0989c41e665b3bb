import Workflow.Proofs.Live.View
import Workflow.Run.Load.Step

/-!
# The nodes of a run

The nodes of a run are read as a table from addresses to their states. Every change of a run is
described by what it does to this table, to the agenda and to the history.

* `State.jobAt` is the table, `State.statusAt` the statuses in it.
* `State.move_eq` says what a move does that the table of statuses has.
* `State.Halted` says that a race around a node has been won, and `State.halted_iff` that nodes see
  it.
-/

namespace Workflow

/-! ## Moves of one node -/

/-- How far a node has come after a move. -/
def Progress.moved (p : Progress) (target : Status) (now : Int) : Progress :=
  if target = .running then { p with status := target, started := some now }
  else if target.isTerminal then { p with status := target, finished := some now }
  else { p with status := target }

theorem Progress.move_eq {p : Progress} {target : Status} (h : p.status.canBecome target)
    (now : Int) : p.move target now = .ok (p.moved target now) := by
  rw [Progress.move, if_pos h]
  rfl

@[simp] theorem Progress.status_moved (p : Progress) (target : Status) (now : Int) :
    (p.moved target now).status = target := by
  unfold Progress.moved
  split
  · rfl
  · split <;> rfl

/-- A node that has started has started for ever. -/
theorem Progress.started_moved {p : Progress} (h : p.started.isSome) (target : Status) (now : Int) :
    (p.moved target now).started.isSome := by
  unfold Progress.moved
  split
  · rfl
  · split <;> exact h

/-- Nothing has happened to the node yet. -/
structure Entry.Unstarted (e : Entry) : Prop where
  progress : e.progress = {}
  error : e.error = none
  output : e.output = .null

theorem Entry.Unstarted.status {e : Entry} (h : e.Unstarted) : e.status = .pending := by
  rw [Entry.status, h.progress]

/-- What is recorded of a node after a move. -/
def Entry.moved (e : Entry) (target : Status) (now : Int) : Entry :=
  { e with progress := e.progress.moved target now }

@[simp] theorem Entry.status_moved (e : Entry) (target : Status) (now : Int) :
    (e.moved target now).status = target :=
  Progress.status_moved ..

/-- The state of a node after a move. -/
def Job.moved (job : Job) (target : Status) (now : Int) : Job :=
  { job with entry := job.entry.moved target now }

@[simp] theorem Job.status_moved (job : Job) (target : Status) (now : Int) :
    (job.moved target now).status = target :=
  Progress.status_moved ..

namespace State

/-! ## The table -/

/-- The state of the node at an address. -/
def jobAt (s : State) (a : Address) : Option Job :=
  s.root.jobAt a

/-- The status of the node at an address. -/
def statusAt (s : State) (a : Address) : Option Status :=
  (s.jobAt a).map Job.status

theorem statusAt_of_jobAt {s : State} {a : Address} {job : Job} (h : s.jobAt a = some job) :
    s.statusAt a = some job.status := by
  rw [statusAt, h]; rfl

theorem jobAt_of_statusAt {s : State} {a : Address} {status : Status}
    (h : s.statusAt a = some status) : ∃ job, s.jobAt a = some job ∧ job.status = status :=
  Option.map_eq_some_iff.1 h

theorem callAt_eq (s : State) (a : Address) : s.callAt a = (s.jobAt a).bind Job.call? := by
  rw [callAt, jobAt, Live.jobAt]
  cases s.root.at? a <;> rfl

theorem callAt_of_jobAt {s : State} {a : Address} {job : Job} (h : s.jobAt a = some job) :
    s.callAt a = job.call? := by
  rw [callAt_eq, h]; rfl

theorem stage_of_call? {job : Job} {call : Call} (h : job.call? = some call) :
    job.stage = .calling call := by
  unfold Job.call? at h
  split at h
  · rename_i call' hstage
    cases h
    exact hstage
  · cases h

theorem stage_of_frame? {job : Job} {frame : Frame} (h : job.frame? = some frame) :
    job.stage = .hosting frame := by
  unfold Job.frame? at h
  split at h
  · rename_i frame' hstage
    cases h
    exact hstage
  · cases h

theorem jobAt_of_callAt {s : State} {a : Address} {call : Call} (h : s.callAt a = some call) :
    ∃ job, s.jobAt a = some job ∧ job.stage = .calling call := by
  rw [callAt_eq] at h
  obtain ⟨job, hjob, hcall⟩ := Option.bind_eq_some_iff.1 h
  exact ⟨job, hjob, stage_of_call? hcall⟩

theorem at?_of_jobAt {s : State} {a : Address} {job : Job} (h : s.jobAt a = some job) :
    ∃ kids, s.root.at? a = some (.mk job kids) :=
  Live.at?_of_jobAt h

theorem jobAt_of_at? {s : State} {a : Address} {job : Job} {kids : List Live}
    (h : s.root.at? a = some (.mk job kids)) : s.jobAt a = some job :=
  Live.jobAt_of_at? h

theorem at?_setStage {s : State} {a : Address} {job : Job} {kids : List Live}
    (h : s.root.at? a = some (.mk job kids)) (stage : Stage) :
    (s.setStage a stage).root.at? a = some (.mk { job with stage } kids) :=
  Live.at?_update_self _ h

theorem at?_modifyEntry {s : State} {a : Address} {job : Job} {kids : List Live}
    (h : s.root.at? a = some (.mk job kids)) (f : Entry → Entry) :
    (s.modifyEntry a f).root.at? a = some (.mk { job with entry := f job.entry } kids) :=
  Live.at?_update_self _ h

theorem jobAt_concat {s : State} {a : Address} {job : Job} {kids : List Live}
    (h : s.root.at? a = some (.mk job kids)) (i : Nat) :
    s.jobAt (a ++ [i]) = kids[i]?.map Live.job :=
  Live.jobAt_concat h i

theorem statusAt_concat {s : State} {a : Address} {job : Job} {kids : List Live}
    (h : s.root.at? a = some (.mk job kids)) (i : Nat) :
    s.statusAt (a ++ [i]) = kids[i]?.map Live.status := by
  rw [statusAt, jobAt_concat h]
  cases kids[i]? <;> rfl

theorem jobAt_of_append {s : State} {a b : Address} {job : Job} (h : s.jobAt (a ++ b) = some job) :
    ∃ above, s.jobAt a = some above :=
  Live.jobAt_of_append h

/-! ## What changes do to the table -/

section Table

variable (s : State) (a b : Address)

@[simp] theorem jobAt_agenda (agenda : List Task) :
    ({ s with agenda } : State).jobAt b = s.jobAt b :=
  rfl

@[simp] theorem statusAt_agenda (agenda : List Task) :
    ({ s with agenda } : State).statusAt b = s.statusAt b :=
  rfl

@[simp] theorem jobAt_next (task : Task) : (s.next task).jobAt b = s.jobAt b :=
  rfl

@[simp] theorem jobAt_later (task : Task) : (s.later task).jobAt b = s.jobAt b :=
  rfl

@[simp] theorem jobAt_note (occurrence : Occurrence) : (s.note occurrence).jobAt b = s.jobAt b :=
  rfl

@[simp] theorem jobAt_breakOff (fault : Fault) : (s.breakOff fault).jobAt b = s.jobAt b :=
  rfl

theorem jobAt_modify (f : Job → Job) :
    (s.modify a f).jobAt b = if b = a then (s.jobAt b).map f else s.jobAt b :=
  Live.jobAt_modify f s.root a b

theorem jobAt_setStage (stage : Stage) :
    (s.setStage a stage).jobAt b =
      if b = a then (s.jobAt b).map (fun job => { job with stage }) else s.jobAt b :=
  jobAt_modify ..

theorem jobAt_modifyEntry (f : Entry → Entry) :
    (s.modifyEntry a f).jobAt b =
      if b = a then (s.jobAt b).map (fun job => { job with entry := f job.entry })
      else s.jobAt b :=
  jobAt_modify ..

@[simp] theorem statusAt_setStage (stage : Stage) :
    (s.setStage a stage).statusAt b = s.statusAt b := by
  rw [statusAt, statusAt, jobAt_setStage]
  split
  · rw [Option.map_map]; rfl
  · rfl

theorem statusAt_modifyEntry {f : Entry → Entry} (hf : ∀ e, (f e).status = e.status) :
    (s.modifyEntry a f).statusAt b = s.statusAt b := by
  rw [statusAt, statusAt, jobAt_modifyEntry]
  split
  · rw [Option.map_map]
    cases s.jobAt b with
    | none => rfl
    | some job => exact congrArg some (hf job.entry)
  · rfl

/-- A change of an entry that changes nothing. -/
theorem modifyEntry_id : s.modifyEntry a id = s := by
  have h : s.root.modify (fun job => { job with entry := id job.entry }) a = s.root :=
    Live.update_id (by rintro ⟨job, kids⟩; rfl) s.root a
  rw [modifyEntry, modify, h]

@[simp] theorem jobAt_reported : (s.reported a).jobAt b = s.jobAt b := by
  unfold reported
  split <;> rfl

@[simp] theorem cancelled_reported : (s.reported a).cancelled = s.cancelled := by
  unfold reported
  split <;> rfl

end Table

section Put

variable {s : State} {a : Address} {job : Job} (h : s.jobAt a = some job)

include h

/-- The node's stage changes, and the other nodes stay as they are. -/
theorem jobAt_setStage_of_jobAt (stage : Stage) (b : Address) :
    (s.setStage a stage).jobAt b = if b = a then some { job with stage } else s.jobAt b := by
  rw [jobAt_setStage]
  split
  · rename_i hb
    rw [hb, h]
    rfl
  · rfl

/-- The node's entry changes, and the other nodes stay as they are. -/
theorem jobAt_modifyEntry_of_jobAt (f : Entry → Entry) (b : Address) : (s.modifyEntry a f).jobAt b =
    if b = a then some { job with entry := f job.entry } else s.jobAt b := by
  rw [jobAt_modifyEntry]
  split
  · rename_i hb
    rw [hb, h]
    rfl
  · rfl

end Put

/-! ## Moves -/

section Move

variable {s : State} {a : Address} {job : Job} {target : Status}

/-- A move that the table of statuses has changes the node's progress and is noted. -/
theorem move_eq (h : s.jobAt a = some job) (htarget : job.status.canBecome target)
    (message : String) :
    s.move a target message =
      (s.modifyEntry a fun _ => job.entry.moved target s.now).note
        (.moved (eventOf (job.entry.moved target s.now) job.status s.now message)) := by
  obtain ⟨kids, hkids⟩ := at?_of_jobAt h
  have hmove : (Live.mk job kids).entry.progress.move target s.now =
      .ok (job.entry.progress.moved target s.now) :=
    Progress.move_eq htarget s.now
  rw [move, hkids]
  simp only [hmove]
  rfl

theorem at?_move {kids : List Live} (h : s.root.at? a = some (.mk job kids))
    (htarget : job.status.canBecome target) (message : String) :
    (s.move a target message).root.at? a = some (.mk (job.moved target s.now) kids) := by
  rw [move_eq (jobAt_of_at? h) htarget]
  exact at?_modifyEntry h fun _ => job.entry.moved target s.now

theorem jobAt_move (h : s.jobAt a = some job) (htarget : job.status.canBecome target)
    (message : String) (b : Address) :
    (s.move a target message).jobAt b =
      if b = a then some (job.moved target s.now) else s.jobAt b := by
  rw [move_eq h htarget, jobAt_note, jobAt_modifyEntry]
  split
  · rename_i hb
    rw [hb, h]
    rfl
  · rfl

theorem statusAt_move (h : s.jobAt a = some job) (htarget : job.status.canBecome target)
    (message : String) (b : Address) :
    (s.move a target message).statusAt b = if b = a then some target else s.statusAt b := by
  rw [statusAt, jobAt_move h htarget]
  split
  · exact congrArg some (Job.status_moved ..)
  · rfl

theorem fault_move_eq (h : s.jobAt a = some job) (htarget : job.status.canBecome target)
    (message : String) : (s.move a target message).fault = s.fault := by
  rw [move_eq h htarget]
  rfl

theorem history_move (h : s.jobAt a = some job) (htarget : job.status.canBecome target)
    (message : String) :
    (s.move a target message).history =
      .moved (eventOf (job.entry.moved target s.now) job.status s.now message) :: s.history := by
  rw [move_eq h htarget]
  rfl

@[simp] theorem agenda_move (s : State) (a : Address) (target : Status) (message : String) :
    (s.move a target message).agenda = s.agenda := by
  unfold move
  split
  · rfl
  · split <;> rfl

@[simp] theorem cancelled_move (s : State) (a : Address) (target : Status) (message : String) :
    (s.move a target message).cancelled = s.cancelled := by
  unfold move
  split
  · rfl
  · split <;> rfl

@[simp] theorem now_move (s : State) (a : Address) (target : Status) (message : String) :
    (s.move a target message).now = s.now := by
  unfold move
  split
  · rfl
  · split <;> rfl

/-- What is recorded of a node may change before a move, if the status stays. -/
theorem modifyEntry_of_canBecome {f : Entry → Entry} (h : s.jobAt a = some job)
    (htarget : job.status.canBecome target) (hf : (f job.entry).status = job.status) :
    (s.modifyEntry a f).jobAt a = some { job with entry := f job.entry } ∧
      ({ job with entry := f job.entry } : Job).status.canBecome target := by
  refine ⟨by rw [jobAt_modifyEntry_of_jobAt h, if_pos rfl], ?_⟩
  rw [← htarget, ← hf]
  rfl

/-- A move after what is recorded of the node has been changed. -/
theorem jobAt_modifyEntry_move {f : Entry → Entry} (h : s.jobAt a = some job)
    (htarget : job.status.canBecome target) (hf : (f job.entry).status = job.status)
    (message : String) (b : Address) :
    ((s.modifyEntry a f).move a target message).jobAt b =
      if b = a then some (({ job with entry := f job.entry } : Job).moved target s.now)
      else s.jobAt b := by
  obtain ⟨hjob, hmove⟩ := modifyEntry_of_canBecome h htarget hf
  rw [jobAt_move hjob hmove]
  split
  · rfl
  · rename_i hb
    rw [jobAt_modifyEntry, if_neg hb]

theorem history_modifyEntry_move {f : Entry → Entry} (h : s.jobAt a = some job)
    (htarget : job.status.canBecome target) (hf : (f job.entry).status = job.status)
    (message : String) :
    ((s.modifyEntry a f).move a target message).history =
      .moved (eventOf ((f job.entry).moved target s.now) job.status s.now message) ::
        s.history := by
  obtain ⟨hjob, hmove⟩ := modifyEntry_of_canBecome h htarget hf
  rw [history_move hjob hmove, ← hf]
  rfl

theorem fault_modifyEntry_move {f : Entry → Entry} (h : s.jobAt a = some job)
    (htarget : job.status.canBecome target) (hf : (f job.entry).status = job.status)
    (message : String) :
    ((s.modifyEntry a f).move a target message).fault = s.fault := by
  obtain ⟨hjob, hmove⟩ := modifyEntry_of_canBecome h htarget hf
  rw [fault_move_eq hjob hmove]
  rfl

end Move

/-! ## Calls that are told to stop -/

end State

/-- The state of a node that has been told, if it waits for a call, that the call has ended or has to
stop. -/
def Job.tell (job : Job) : Job :=
  match job.stage with
  | .calling call => { job with stage := .calling { call with told := true } }
  | _ => job

theorem Job.tell_of_calling {job : Job} {call : Call} (h : job.stage = .calling call) :
    job.tell = { job with stage := .calling { call with told := true } } := by
  rw [tell, h]

theorem Job.tell_of_call?_eq_none {job : Job} (h : job.call? = none) : job.tell = job := by
  unfold tell
  split
  · rename_i call hstage
    rw [call?, hstage] at h
    cases h
  · rfl

theorem Job.tell_tell (job : Job) : job.tell.tell = job.tell := by
  obtain ⟨node, entry, stage⟩ := job
  cases stage <;> rfl

@[simp] theorem Job.node_tell (job : Job) : job.tell.node = job.node := by
  unfold tell
  split <;> rfl

@[simp] theorem Job.entry_tell (job : Job) : job.tell.entry = job.entry := by
  unfold tell
  split <;> rfl

@[simp] theorem Job.status_tell (job : Job) : job.tell.status = job.status := by
  rw [status, entry_tell, status]

@[simp] theorem Job.frame?_tell (job : Job) : job.tell.frame? = job.frame? := by
  obtain ⟨node, entry, stage⟩ := job
  cases stage <;> rfl

theorem Job.call?_tell (job : Job) :
    job.tell.call? = job.call?.map fun call => { call with told := true } := by
  obtain ⟨node, entry, stage⟩ := job
  cases stage <;> rfl

namespace State

section Tell

variable (s : State) (a b : Address)

theorem jobAt_tell :
    (s.tell a).jobAt b = if b = a then (s.jobAt b).map Job.tell else s.jobAt b := by
  unfold tell
  split
  · rename_i call hcall
    obtain ⟨job, hjob, hstage⟩ := jobAt_of_callAt hcall
    by_cases hb : b = a
    · subst hb
      rw [if_pos rfl, hjob, Option.map_some, Job.tell_of_calling hstage]
      split
      · rename_i htold
        have hcall' : { call with told := true } = call := by rw [← htold]
        rw [hcall', ← hstage, hjob]
      · rw [jobAt_later, jobAt_setStage, if_pos rfl, hjob, Option.map_some]
    · rw [if_neg hb]
      split
      · rfl
      · rw [jobAt_later, jobAt_setStage, if_neg hb]
  · rename_i hcall
    split
    · rename_i hb
      subst hb
      cases hjob : s.jobAt b with
      | none => rfl
      | some job =>
        rw [callAt_of_jobAt hjob] at hcall
        rw [Option.map_some, Job.tell_of_call?_eq_none hcall]
    · rfl

theorem jobAt_foldl_tell (l : List Address) :
    (l.foldl tell s).jobAt b = if b ∈ l then (s.jobAt b).map Job.tell else s.jobAt b := by
  induction l generalizing s with
  | nil => simp
  | cons a l ih =>
    rw [List.foldl_cons, ih, jobAt_tell]
    by_cases hb : b = a
    · cases hjob : s.jobAt b <;> simp [hb, Job.tell_tell]
    · simp [hb]

theorem mem_callsUnder_iff :
    b ∈ s.callsUnder a ↔ a <+: b ∧ (s.callAt b).isSome := by
  unfold callsUnder
  cases ha : s.root.at? a with
  | none =>
    simp only [List.not_mem_nil, false_iff, not_and]
    rintro ⟨c, rfl⟩
    rw [callAt, Live.at?_append, ha]
    simp
  | some live =>
    simp only [List.mem_map, List.mem_filter]
    constructor
    · rintro ⟨⟨b, job⟩, ⟨hmem, hcall⟩, rfl⟩
      obtain ⟨c, rfl, hjob⟩ := Live.mem_walk_iff.1 hmem
      refine ⟨List.prefix_append a c, ?_⟩
      obtain ⟨kids, hc⟩ := Live.at?_of_jobAt hjob
      rw [callAt, Live.at?_append, ha, Option.bind_some, hc]
      exact hcall
    · rintro ⟨⟨c, rfl⟩, hcall⟩
      rw [callAt, Live.at?_append, ha, Option.bind_some] at hcall
      cases hc : live.at? c with
      | none => rw [hc] at hcall; cases hcall
      | some kid =>
        rw [hc] at hcall
        exact ⟨(a ++ c, kid.job), ⟨Live.mem_walk_iff.2 ⟨c, rfl, Live.jobAt_of_at? hc⟩, hcall⟩, rfl⟩

/-- All calls at an address and below it are told. -/
theorem jobAt_tellCalls :
    (s.tellCalls a).jobAt b = if a <+: b then (s.jobAt b).map Job.tell else s.jobAt b := by
  rw [tellCalls, jobAt_foldl_tell]
  by_cases hcall : (s.callAt b).isSome
  · simp [mem_callsUnder_iff, hcall]
  · rw [if_neg (by simp [mem_callsUnder_iff, hcall])]
    split
    · cases hjob : s.jobAt b with
      | none => rfl
      | some job =>
        rw [callAt_of_jobAt hjob, Option.not_isSome_iff_eq_none] at hcall
        rw [Option.map_some, Job.tell_of_call?_eq_none hcall]
    · rfl

theorem statusAt_tell : (s.tell a).statusAt b = s.statusAt b := by
  rw [statusAt, statusAt, jobAt_tell]
  split
  · cases s.jobAt b <;> simp
  · rfl

/-- A call that is told for the first time wakes its node. -/
theorem agenda_tell {call : Call} (h : s.callAt a = some call) :
    (s.tell a).agenda = if call.told then s.agenda else s.agenda ++ [.wake a] := by
  rw [tell, h]
  simp only
  split <;> rfl

theorem tell_of_callAt_eq_none (h : s.callAt a = none) : s.tell a = s := by
  rw [tell, h]

@[simp] theorem history_tell : (s.tell a).history = s.history := by
  unfold tell
  split
  · split <;> rfl
  · rfl

/-- What telling one node keeps, telling several nodes keeps. -/
theorem foldl_tell_induction {P : State → Prop} (l : List Address) (hs : P s)
    (htell : ∀ t b, b ∈ l → P t → P (t.tell b)) : P (l.foldl tell s) := by
  induction l generalizing s with
  | nil => exact hs
  | cons b l ih =>
    exact ih (s.tell b) (htell s b List.mem_cons_self hs)
      fun t c hc => htell t c (List.mem_cons_of_mem _ hc)

/-- What telling one node and the wish to end the run keep, the end of the run keeps. -/
theorem cancelRun_induction {P : State → Prop} (hs : P s)
    (hcancel : P { s with cancelled := true }) (htell : ∀ t b, P t → P (t.tell b)) :
    P s.cancelRun := by
  unfold cancelRun
  split
  · exact hs
  · exact foldl_tell_induction _ _ hcancel fun t b _ => htell t b

theorem jobAt_cancelRun :
    s.cancelRun.jobAt b = if s.cancelled then s.jobAt b else (s.jobAt b).map Job.tell := by
  unfold cancelRun
  split
  · rfl
  · rw [jobAt_tellCalls, if_pos List.nil_prefix]
    rfl

end Tell

/-! ## Races that have been won -/

/-- A race around the node at an address has been won. -/
def Halted (s : State) (a : Address) : Prop :=
  ∃ above i below job frame, a = above ++ i :: below ∧ s.jobAt above = some job ∧
    job.frame? = some frame ∧ frame.winner.isSome

end State

/-- A node sees that a race around it has been won. -/
theorem Live.halted_contextFrom (c : Context) (live : Live) (a : Address)
    (h : (live.jobAt a).isSome) :
    (live.contextFrom c a).halted = true ↔ c.halted = true ∨
      ∃ above i below job frame, a = above ++ i :: below ∧ live.jobAt above = some job ∧
        job.frame? = some frame ∧ frame.winner.isSome := by
  induction a generalizing live c with
  | nil => obtain ⟨job, kids⟩ := live; simp [contextFrom]
  | cons i a ih =>
    obtain ⟨job, kids⟩ := live
    rw [jobAt, at?_cons] at h
    cases hkid : kids[i]? with
    | none => rw [hkid] at h; simp at h
    | some kid =>
      rw [hkid] at h
      have hbelow : (c.below job i).halted = true ↔ c.halted = true ∨
          ∃ frame, job.frame? = some frame ∧ frame.winner.isSome := by
        unfold Context.below
        cases job.frame? <;> simp [Context.binding]
      simp only [contextFrom, hkid]
      rw [ih _ kid h, hbelow, or_assoc]
      refine or_congr_right ⟨?_, ?_⟩
      · rintro (⟨frame, hframe, hwinner⟩ | ⟨above, j, below, job', frame, rfl, hjob, hrest⟩)
        · exact ⟨[], i, a, job, frame, rfl, rfl, hframe, hwinner⟩
        · refine ⟨i :: above, j, below, job', frame, rfl, ?_, hrest⟩
          rw [jobAt, at?_cons, hkid]
          exact hjob
      · rintro ⟨above, j, below, job', frame, ha, hjob, hframe, hwinner⟩
        cases above with
        | nil =>
          rw [jobAt, at?_nil, Option.map_some, Option.some.injEq] at hjob
          subst hjob
          exact .inl ⟨frame, hframe, hwinner⟩
        | cons k above =>
          rw [List.cons_append, List.cons.injEq] at ha
          obtain ⟨rfl, rfl⟩ := ha
          rw [jobAt, at?_cons, hkid] at hjob
          exact .inr ⟨above, j, below, job', frame, rfl, hjob, hframe, hwinner⟩

namespace State

/-- A node of the tree sees exactly whether a race around it has been won. -/
theorem halted_iff {s : State} {a : Address} {job : Job} (h : s.jobAt a = some job) :
    (s.root.contextAt a).halted = true ↔ s.Halted a := by
  have := Live.halted_contextFrom {} s.root a (by rw [← jobAt, h]; rfl)
  rw [Live.contextAt, this]
  simp [Halted, jobAt]

end State
end Workflow
