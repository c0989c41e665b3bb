import Workflow.Run.Load.Basic
import Workflow.Run.Start

/-!
# What changes do to the load

Every change of a run but the start of a node leaves the load as it is or makes it smaller.

* `State.below_move` says that a node that comes to its end makes the load smaller, and with it
  `State.succeed`, `State.fail`, `State.stop`, `State.leaveOut` and `State.finish` do.
* `State.load_settle_le` and `State.load_cancelRun_le` say that what is done to nodes that have not
  started, and to calls that have to stop, does not make it larger.
* `State.fault_move` and its like say that a fault stays.
-/

namespace Workflow.State

/-! ## Faults stay -/

@[simp] theorem fault_modify (s : State) (a : Address) (f : Job → Job) :
    (s.modify a f).fault = s.fault :=
  rfl

@[simp] theorem fault_modifyEntry (s : State) (a : Address) (f : Entry → Entry) :
    (s.modifyEntry a f).fault = s.fault :=
  rfl

@[simp] theorem fault_setStage (s : State) (a : Address) (stage : Stage) :
    (s.setStage a stage).fault = s.fault :=
  rfl

@[simp] theorem fault_next (s : State) (task : Task) : (s.next task).fault = s.fault :=
  rfl

@[simp] theorem fault_later (s : State) (task : Task) : (s.later task).fault = s.fault :=
  rfl

@[simp] theorem fault_note (s : State) (occurrence : Occurrence) :
    (s.note occurrence).fault = s.fault :=
  rfl

@[simp] theorem fault_reported (s : State) (a : Address) : (s.reported a).fault = s.fault := by
  unfold reported
  split <;> rfl

@[simp] theorem fault_breakOff (s : State) (fault : Fault) :
    (s.breakOff fault).fault.isSome = true := by
  cases h : s.fault <;> simp [breakOff, h]

theorem fault_move {s : State} (h : s.fault.isSome) (a : Address) (target : Status)
    (message : String) : (s.move a target message).fault.isSome := by
  unfold move
  split
  · simp
  · split <;> simp [h]

theorem fault_foldl {α : Type} {f : State → α → State}
    (hf : ∀ s x, s.fault.isSome → (f s x).fault.isSome) (xs : List α) {s : State}
    (h : s.fault.isSome) : (xs.foldl f s).fault.isSome := by
  induction xs generalizing s with
  | nil => exact h
  | cons x xs ih => exact ih (hf s x h)

theorem fault_settle {s : State} (h : s.fault.isSome) (a : Address) (target : Status) :
    (s.settle a target).fault.isSome :=
  fault_foldl (fun _ _ h => fault_move h ..) _ h

theorem fault_succeed {s : State} (h : s.fault.isSome) (a : Address) (output : Value)
    (message : String) : (s.succeed a output message).fault.isSome :=
  fault_move (s := s.modifyEntry a _) h ..

theorem fault_fail {s : State} (h : s.fault.isSome) (a : Address) (failure : Failure) :
    (s.fail a failure).fault.isSome :=
  fault_settle (fault_move (s := s.modifyEntry a _) h ..) ..

theorem fault_stop {s : State} (h : s.fault.isSome) (a : Address) : (s.stop a).fault.isSome :=
  fault_settle (fault_move (s := s.modifyEntry a _) h ..) ..

theorem fault_failFromKids {s : State} (h : s.fault.isSome) (a : Address) (kids : List Live) :
    (s.failFromKids a kids).fault.isSome := by
  simp only [failFromKids]
  split
  · simp
  · exact fault_fail h ..

theorem fault_finish {s : State} (h : s.fault.isSome) (a : Address) (kids : List Live)
    (output : Value) : (s.finish a kids output).fault.isSome := by
  simp only [finish]
  split
  · exact fault_stop h a
  · split
    · exact fault_stop h a
    · split
      · exact fault_failFromKids h a kids
      · exact fault_succeed h ..

theorem fault_finishRace {s : State} (h : s.fault.isSome) (a : Address) (frame : Frame)
    (kids : List Live) : (s.finishRace a frame kids).fault.isSome := by
  simp only [finishRace]
  split
  · exact fault_succeed h ..
  · split
    · exact fault_stop h a
    · split
      · exact fault_succeed h ..
      · exact fault_failFromKids h a kids

theorem fault_join {s : State} (h : s.fault.isSome) (a : Address) : (s.join a).fault.isSome := by
  simp only [join]
  split
  · simp
  · rw [fault_reported]
    split
    · exact fault_finishRace h ..
    · exact fault_finish h ..

/-! ## Single changes -/

/-- A run with a fault has no load. -/
theorem load_of_fault {s : State} (h : s.fault.isSome) (k : Nat) : s.load k = 0 := by
  simp [load, h]

/-- The load of a run without a fault. -/
theorem load_of_sound {s : State} (h : s.fault = none) (k : Nat) :
    s.load k = s.root.total (fun job => job.load k) + (if k = 0 then s.currentLoad else 0) := by
  simp [load, h]

/-- A run without a fault has something to do at this instant. -/
theorem load_zero_pos {s : State} (h : s.fault = none) : 0 < s.load 0 := by
  rw [load_of_sound h, if_pos rfl, currentLoad]
  omega

/-- A run with a fault lies below every run without one. -/
theorem below_of_fault {s t : State} (hs : s.fault = none) (ht : t.fault.isSome) :
    Levels.Below t.load s.load := by
  refine ⟨0, ?_, fun k _ => ?_⟩
  · rw [load_of_fault ht]
    exact load_zero_pos hs
  · rw [load_of_fault ht]
    exact Nat.zero_le _

theorem load_next_le (s : State) (task : Task) (k : Nat) :
    (s.next task).load k ≤ s.load k + (1 - k) := by
  cases hf : s.fault with
  | some fault => simp [load, hf]
  | none =>
    have hc : (s.next task).currentLoad = s.currentLoad + 1 := by
      cases h : s.cancelled <;> simp [currentLoad, next, h]
    rw [load_of_sound (by simpa using hf), load_of_sound hf, hc]
    simp only [next]
    by_cases hk : k = 0
    · simp only [hk, if_true]
      omega
    · simp only [hk, if_false]
      omega

theorem load_later_le (s : State) (task : Task) (k : Nat) :
    (s.later task).load k ≤ s.load k + (1 - k) := by
  cases hf : s.fault with
  | some fault => simp [load, hf]
  | none =>
    have hc : (s.later task).currentLoad = s.currentLoad + 1 := by
      cases h : s.cancelled <;> simp [currentLoad, later, h]
    rw [load_of_sound (by simpa using hf), load_of_sound hf, hc]
    simp only [later]
    by_cases hk : k = 0
    · simp only [hk, if_true]
      omega
    · simp only [hk, if_false]
      omega

theorem load_reported_le (s : State) (a : Address) (k : Nat) :
    (s.reported a).load k ≤ s.load k + (1 - k) := by
  unfold reported
  split
  · omega
  · exact load_next_le ..

@[simp] theorem load_note (s : State) (occurrence : Occurrence) :
    (s.note occurrence).load = s.load :=
  rfl

/-- A change that adds at most `d` to the share of any node adds at most `d` to the load. -/
theorem load_modify_le {s : State} {f : Job → Job} {k d : Nat}
    (hf : ∀ job, (f job).load k ≤ job.load k + d) (a : Address) :
    (s.modify a f).load k ≤ s.load k + d := by
  cases h : s.fault with
  | some fault => simp [load, h]
  | none =>
    rw [load_of_sound (by simpa using h), load_of_sound h]
    have := Live.total_modify_le (fun job => job.load k) f d hf s.root a
    have hc : (s.modify a f).currentLoad = s.currentLoad := rfl
    rw [hc]
    simp only [modify]
    omega

/-- A change of a node's state changes the load as it changes the node's share. -/
theorem load_modify {s : State} (hs : s.fault = none) {f : Job → Job} {a : Address} {kid : Live}
    (h : s.root.at? a = some kid) (k : Nat) :
    (s.modify a f).load k + kid.job.load k = s.load k + (f kid.job).load k := by
  rw [load_of_sound (by simpa using hs), load_of_sound hs]
  have := Live.total_modify (fun job => job.load k) f h
  have hc : (s.modify a f).currentLoad = s.currentLoad := rfl
  rw [hc]
  simp only [modify]
  omega

/-- The load of a node does not depend on what is recorded of it beside its status. -/
theorem load_entry {job : Job} {e : Entry} (h : e.status = job.entry.status) (k : Nat) :
    ({ job with entry := e } : Job).load k = job.load k := by
  match k with
  | 0 => simp only [Job.load, Job.status, h]; rfl
  | 1 => simp only [Job.load, Job.status, h]; rfl
  | k + 2 => simp only [Job.load, Job.status, h]; rfl

/-- A change of what is recorded of a node beside its status leaves the load as it is. -/
theorem load_modifyEntry_le {s : State} {f : Entry → Entry} (hf : ∀ e, (f e).status = e.status)
    (a : Address) (k : Nat) : (s.modifyEntry a f).load k ≤ s.load k :=
  load_modify_le (d := 0) (fun job => by rw [load_entry (hf job.entry)]; omega) a

/-! ## Moves -/

/-- The status of a node that has moved. -/
theorem status_of_move {p q : Progress} {target : Status} {now : Int}
    (h : p.move target now = .ok q) :
    p.status.canBecome target ∧ q.status = target := by
  unfold Progress.move at h
  split at h
  · rename_i htarget
    refine ⟨htarget, ?_⟩
    cases h
    split
    · rfl
    · split <;> rfl
  · cases h

/-- A node that comes to its end loses load. -/
theorem job_dropsAt {job : Job} {e : Entry} (h : job.status.canBecome e.status)
    (htarget : e.status ≠ .running) :
    ∃ m, Levels.DropsAt m ({ job with entry := e } : Job).load job.load := by
  have hcases : (job.status = .pending ∧ e.status ≠ .pending) ∨
      (job.status = .running ∧ e.status ≠ .pending) := by
    revert h htarget
    cases job.status <;> cases e.status <;> decide
  have hstage : ({ job with entry := e } : Job).stageLoad = job.stageLoad := rfl
  have hunasked : ({ job with entry := e } : Job).unasked = job.unasked := rfl
  have hstatus : ({ job with entry := e } : Job).status = e.status := rfl
  rcases hcases with ⟨hjob, he⟩ | ⟨hjob, he⟩
  · refine ⟨1, ?_, fun k hk => ?_⟩
    · simp [Job.load, hunasked, hstatus, hjob, he]
    · obtain ⟨j, rfl⟩ : ∃ j, k = j + 2 := ⟨k - 2, by omega⟩
      simp [Job.load, hstatus, he]
  · refine ⟨0, ?_, fun k hk => ?_⟩
    · simp [Job.load, hstage, hstatus, hjob, htarget]
    · rcases Levels.eq_one_or_add_two hk with rfl | ⟨j, rfl⟩
      · simp [Job.load, hunasked, hstatus, he, hjob]
      · simp [Job.load, hstatus, he]

/-- What a move does to a run without a fault. -/
theorem move_cases {s : State} (a : Address) (target : Status) (message : String) :
    (s.move a target message).fault.isSome ∨
      ∃ kid e event, s.root.at? a = some kid ∧ kid.job.status.canBecome target ∧ e.status = target ∧
        s.move a target message = (s.modify a fun job => { job with entry := e }).note event := by
  unfold move
  split
  · exact .inl (by simp)
  · rename_i kid hkid
    split
    · exact .inl (by simp)
    · rename_i progress hprogress
      obtain ⟨htarget, hstatus⟩ := status_of_move hprogress
      exact .inr ⟨kid, { kid.entry with progress }, _, hkid, htarget, hstatus, rfl⟩

/-- A node that comes to its end makes the load smaller. -/
theorem below_move {s : State} (hs : s.fault = none) (a : Address) {target : Status}
    (htarget : target ≠ .running) (message : String) :
    Levels.Below (s.move a target message).load s.load := by
  rcases s.move_cases a target message with h | ⟨kid, e, event, hkid, hbecome, he, hmove⟩
  · exact below_of_fault hs h
  · rw [hmove, load_note]
    obtain ⟨m, drop, above⟩ := @job_dropsAt kid.job e (by rw [he]; exact hbecome)
      (by rw [he]; exact htarget)
    refine ⟨m, ?_, fun k hk => ?_⟩
    · have := load_modify hs (f := fun job => { job with entry := e }) hkid m
      omega
    · have := load_modify hs (f := fun job => { job with entry := e }) hkid k
      have := above k hk
      omega

/-- A node that comes to its end adds nothing to the load. -/
theorem load_move_le (s : State) (a : Address) {target : Status} (htarget : target ≠ .running)
    (message : String) (k : Nat) : (s.move a target message).load k ≤ s.load k := by
  rcases s.move_cases a target message with h | ⟨kid, e, event, hkid, hbecome, he, hmove⟩
  · rw [load_of_fault h]
    exact Nat.zero_le _
  · cases hs : s.fault with
    | some fault =>
      have : s.fault.isSome := by simp [hs]
      rw [load_of_fault (fault_move this a target message)]
      exact Nat.zero_le _
    | none =>
      rw [hmove, load_note]
      have hload := load_modify hs (f := fun job => { job with entry := e }) hkid k
      revert hload hbecome
      generalize kid.job = job
      intro hbecome hload
      have hjob : ({ job with entry := e } : Job).load k ≤ job.load k := by
        have hpending : e.status ≠ .pending := by
          rw [he]
          revert hbecome
          cases job.status <;> cases target <;> decide
        have hrunning : e.status ≠ .running := by rw [he]; exact htarget
        have hstage : ({ job with entry := e } : Job).stageLoad = job.stageLoad := rfl
        have hunasked : ({ job with entry := e } : Job).unasked = job.unasked := rfl
        have hstatus : ({ job with entry := e } : Job).status = e.status := rfl
        match k with
        | 0 => simp [Job.load, hstage, hstatus, hrunning]
        | 1 => simp [Job.load, hunasked, hstatus, hpending]
        | k + 2 => simp [Job.load, hstatus, hpending]
      omega

/-- What is folded from changes that add nothing adds nothing. -/
theorem load_foldl_le {α : Type} {f : State → α → State}
    (hf : ∀ s x k, (f s x).load k ≤ s.load k) (xs : List α) (s : State) (k : Nat) :
    (xs.foldl f s).load k ≤ s.load k := by
  induction xs generalizing s with
  | nil => exact Nat.le_refl _
  | cons x xs ih => exact Nat.le_trans (ih (f s x)) (hf s x k)

/-- Nodes that end without starting add nothing to the load. -/
theorem load_settle_le (s : State) (a : Address) {target : Status} (htarget : target ≠ .running)
    (k : Nat) :
    (s.settle a target).load k ≤ s.load k :=
  load_foldl_le (fun s b k => load_move_le s b htarget "" k) _ s k

/-! ## The end of nodes -/

theorem below_succeed {s : State} (hs : s.fault = none) (a : Address) (output : Value)
    (message : String) : Levels.Below (s.succeed a output message).load s.load :=
  (below_move (s := s.modifyEntry a _) hs a (by decide) message).of_le_right
    fun k => load_modifyEntry_le (f := fun e => { e with output }) (fun _ => rfl) a k

theorem below_fail {s : State} (hs : s.fault = none) (a : Address) (failure : Failure) :
    Levels.Below (s.fail a failure).load s.load :=
  .of_le_left (fun k => load_settle_le _ a (by decide) k) <|
    (below_move (s := s.modifyEntry a _) hs a (by decide) "").of_le_right fun k =>
      load_modifyEntry_le (f := fun e => { e with error := some failure }) (fun _ => rfl) a k

theorem below_stop {s : State} (hs : s.fault = none) (a : Address) :
    Levels.Below (s.stop a).load s.load :=
  .of_le_left (fun k => load_settle_le _ a (by split <;> decide) k) <|
    (below_move (s := s.modifyEntry a _) hs a (by decide) "").of_le_right fun k =>
      load_modifyEntry_le (f := fun e => { e with error := some ⟨.cancelled, s.stopMessage, []⟩ })
        (fun _ => rfl) a k

theorem below_leaveOut {s : State} (hs : s.fault = none) (a : Address) {target : Status}
    (htarget : target ≠ .running) : Levels.Below (s.leaveOut a target).load s.load :=
  .of_le_left (fun k => load_settle_le _ a htarget k) (below_move hs a htarget "")

theorem below_failFromKids {s : State} (hs : s.fault = none) (a : Address) (kids : List Live) :
    Levels.Below (s.failFromKids a kids).load s.load := by
  simp only [failFromKids]
  split
  · exact below_of_fault hs (by simp)
  · exact below_fail hs ..

/-- A container that comes to its end makes the load smaller. -/
theorem below_finish {s : State} (hs : s.fault = none) (a : Address) (kids : List Live)
    (output : Value) : Levels.Below (s.finish a kids output).load s.load := by
  simp only [finish]
  split
  · exact below_stop hs a
  · split
    · exact below_stop hs a
    · split
      · exact below_failFromKids hs a kids
      · exact below_succeed hs ..

/-- A race that comes to its end makes the load smaller. -/
theorem below_finishRace {s : State} (hs : s.fault = none) (a : Address) (frame : Frame)
    (kids : List Live) : Levels.Below (s.finishRace a frame kids).load s.load := by
  simp only [finishRace]
  split
  · exact below_succeed hs ..
  · split
    · exact below_stop hs a
    · split
      · exact below_succeed hs ..
      · exact below_failFromKids hs a kids

theorem load_succeed_le (s : State) (a : Address) (output : Value) (message : String) (k : Nat) :
    (s.succeed a output message).load k ≤ s.load k :=
  Nat.le_trans (load_move_le (s.modifyEntry a _) a (by decide) message k)
    (load_modifyEntry_le (f := fun e => { e with output }) (fun _ => rfl) a k)

theorem load_fail_le (s : State) (a : Address) (failure : Failure) (k : Nat) :
    (s.fail a failure).load k ≤ s.load k :=
  Nat.le_trans (load_settle_le _ a (by decide) k) <|
    Nat.le_trans (load_move_le (s.modifyEntry a _) a (by decide) "" k)
      (load_modifyEntry_le (f := fun e => { e with error := some failure }) (fun _ => rfl) a k)

theorem load_stop_le (s : State) (a : Address) (k : Nat) : (s.stop a).load k ≤ s.load k :=
  Nat.le_trans (load_settle_le _ a (by split <;> decide) k) <|
    Nat.le_trans (load_move_le (s.modifyEntry a _) a (by decide) "" k)
      (load_modifyEntry_le (f := fun e => { e with error := some ⟨.cancelled, s.stopMessage, []⟩ })
        (fun _ => rfl) a k)

/-- A run that breaks off has no load. -/
theorem load_breakOff_le (s : State) (fault : Fault) (k : Nat) :
    (s.breakOff fault).load k ≤ s.load k := by
  rw [load_of_fault (by simp)]
  exact Nat.zero_le _

theorem load_finish_le (s : State) (a : Address) (kids : List Live) (output : Value) (k : Nat) :
    (s.finish a kids output).load k ≤ s.load k := by
  simp only [finish, failFromKids]
  split
  · exact load_stop_le s a k
  · split
    · exact load_stop_le s a k
    · split
      · split
        · exact load_breakOff_le ..
        · exact load_fail_le ..
      · exact load_succeed_le ..

theorem load_finishRace_le (s : State) (a : Address) (frame : Frame) (kids : List Live) (k : Nat) :
    (s.finishRace a frame kids).load k ≤ s.load k := by
  simp only [finishRace, failFromKids]
  split
  · exact load_succeed_le ..
  · split
    · exact load_stop_le s a k
    · split
      · exact load_succeed_le ..
      · split
        · exact load_breakOff_le ..
        · exact load_fail_le ..

/-- A node whose children have come to their ends adds no more than its report. -/
theorem load_join_le (s : State) (a : Address) (k : Nat) :
    (s.join a).load k ≤ s.load k + (1 - k) := by
  simp only [join]
  split
  · exact Nat.le_trans (load_breakOff_le s _ k) (Nat.le_add_right _ _)
  · refine Nat.le_trans (load_reported_le _ a k) (Nat.add_le_add_right ?_ _)
    split
    · exact load_finishRace_le ..
    · exact load_finish_le ..

/-! ## Calls that have to stop -/

/-- The node at an address waits for the call. -/
theorem at?_of_callAt {s : State} {a : Address} {call : Call} (h : s.callAt a = some call) :
    ∃ kid, s.root.at? a = some kid ∧ kid.job.stage = .calling call := by
  unfold callAt at h
  obtain ⟨kid, hkid, hcall⟩ := Option.bind_eq_some_iff.1 h
  refine ⟨kid, hkid, ?_⟩
  unfold Job.call? at hcall
  split at hcall
  · rename_i stage hstage
    cases hcall
    exact hstage
  · cases hcall

/-- A call that waits for less makes the load smaller by as much. -/
theorem load_setStage_calling {s : State} (hs : s.fault = none) {a : Address}
    {call : Call} (after : Call) (h : s.callAt a = some call)
    (hasked : after.asked = call.asked) (k : Nat) :
    (s.setStage a (.calling after)).load k + (if k = 0 then call.load else 0) =
      s.load k + (if k = 0 then after.load else 0) := by
  obtain ⟨kid, hkid, hstage⟩ := at?_of_callAt h
  have hload := load_modify hs (f := fun job => { job with stage := .calling after }) hkid k
  have hset : s.setStage a (.calling after) =
    s.modify a fun job => { job with stage := .calling after } := rfl
  rw [hset]
  match k with
  | 0 =>
    have hstatus : ({ kid.job with stage := .calling after } : Job).status = kid.job.status := rfl
    simp only [Job.load, Job.stageLoad, hstage, hstatus] at hload
    simp only [if_true]
    omega
  | 1 =>
    have hstatus : ({ kid.job with stage := .calling after } : Job).status = kid.job.status := rfl
    simp only [Job.load, Job.unasked, hstage, hstatus, hasked] at hload
    simp only [Nat.one_ne_zero, if_false]
    omega
  | k + 2 =>
    have hstatus : ({ kid.job with stage := .calling after } : Job).status = kid.job.status := rfl
    simp only [Job.load, hstatus] at hload
    simp only [Nat.add_eq_zero_iff, Nat.reduceEqDiff, and_false, if_false]
    omega

/-- A call that is told to stop adds nothing to the load. -/
theorem load_tell_le (s : State) (a : Address) (k : Nat) : (s.tell a).load k ≤ s.load k := by
  cases hs : s.fault with
  | some fault =>
    have : (s.tell a).fault.isSome := by
      unfold tell
      split
      · split <;> simp [hs]
      · simp [hs]
    rw [load_of_fault this]
    exact Nat.zero_le _
  | none =>
    unfold tell
    split
    · rename_i call hcall
      split
      · exact Nat.le_refl _
      · rename_i htold
        have hlater := load_later_le (s.setStage a (.calling { call with told := true }))
          (.wake a) k
        have hset := load_setStage_calling hs { call with told := true } hcall rfl k
        by_cases hk : k = 0
        · subst hk
          simp only [if_true, Call.load, htold, Bool.false_eq_true, if_false] at hset
          omega
        · simp only [hk, if_false] at hset
          omega
    · exact Nat.le_refl _

theorem load_tellCalls_le (s : State) (a : Address) (k : Nat) :
    (s.tellCalls a).load k ≤ s.load k :=
  load_foldl_le load_tell_le _ s k

/-- The end of the run that is asked for adds nothing to the load, and is asked for once. -/
theorem load_cancelRun_le (s : State) (k : Nat) : s.cancelRun.load k ≤ s.load k := by
  unfold cancelRun
  split
  · exact Nat.le_refl _
  · refine Nat.le_trans (load_tellCalls_le _ [] k) ?_
    simp only [load, currentLoad]
    split
    · exact Nat.le_refl _
    · split <;> simp

end Workflow.State
