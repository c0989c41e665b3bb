import Workflow.Run.Load.Start
import Workflow.Run.Step

/-!
# Every step makes the load smaller

A task that is done is paid for by what it was there for, and an instant to which the clock jumps
has a call that goes on, or the end of the run that was asked for. So `State.step` lowers the load
(`State.below_step`), and a run cannot go on forever without waiting.
-/

namespace Workflow.State

/-! ## Calls -/

/-- A call that waits for less by `d` makes the load smaller by `d`. -/
theorem load_setStage_calling_paid {s : State} (hs : s.fault = none) {a : Address}
    {call : Call} (after : Call) (h : s.callAt a = some call)
    (hasked : after.asked = call.asked) {d : Nat} (hload : after.load + d ≤ call.load) (k : Nat) :
    (s.setStage a (.calling after)).load k + (if k = 0 then d else 0) ≤ s.load k := by
  have := load_setStage_calling hs after h hasked k
  by_cases hk : k = 0
  · subst hk
    simp only [if_true] at this ⊢
    omega
  · simp only [hk, if_false] at this ⊢
    omega

/-- A call that is made loses load on the level 1. -/
theorem below_ask {s : State} (hs : s.fault = none) (setup : Setup) {a : Address}
    (inputs : Fields Value) {call : Call} (h : s.callAt a = some call)
    (hasked : call.asked = false) :
    Levels.DropsAt 1 (s.ask setup a inputs call).load s.load := by
  obtain ⟨⟨job, kids⟩, hat, hstage⟩ := at?_of_callAt h
  simp only [Live.job] at hstage
  simp only [ask, load_note]
  generalize hafter : ({ call with
    asked := true, acts := _, ending := _, deadline := _ } : Call) = after
  have hmade : after.asked = true := by rw [← hafter]
  have hset : s.setStage a (.calling after) =
    s.modify a fun job => { job with stage := .calling after } := rfl
  rw [hset]
  refine ⟨?_, fun k hk => ?_⟩
  · have hload := load_modify hs (f := fun job => { job with stage := .calling after }) hat 1
    have hbefore : job.load 1 = (if job.status = .pending then 2 else 0) + 1 := by
      simp [Job.load, Job.unasked, hstage, hasked]
    have hthen : ({ job with stage := .calling after } : Job).load 1 =
        (if job.status = .pending then 2 else 0) + (if !after.asked then 1 else 0) := rfl
    simp only [hmade, Bool.not_true, Bool.false_eq_true, if_false] at hthen
    simp only [Live.job] at hload
    omega
  · obtain ⟨j, rfl⟩ : ∃ j, k = j + 2 := ⟨k - 2, by omega⟩
    have hload := load_modify hs (f := fun job => { job with stage := .calling after }) hat (j + 2)
    have hsame : ({ job with stage := .calling after } : Job).load (j + 2) = job.load (j + 2) := rfl
    simp only [Live.job] at hload
    omega

/-- A call that has ended, or has to stop, makes up for what it does. -/
theorem belowOrEq_act {s : State} (hs : s.fault = none) {a : Address} {call : Call}
    (h : s.callAt a = some call) : Levels.BelowOrEq (s.act a call).load s.load := by
  unfold act
  split
  · split
    · rename_i outcome _
      refine .inr fun k => Nat.le_trans (load_tell_le _ a k) ?_
      have := load_setStage_calling_paid hs { call with outcome := some outcome }
        (d := 0) h rfl (by simp [Call.load]) k
      simp only [ite_self] at this
      exact this
    · exact .inr fun k => Nat.le_refl _
  · rename_i acts hacts
    refine .inr fun k => ?_
    have h₁ := load_setStage_calling_paid hs { call with acts } (d := 2) h rfl
      (by simp only [Call.load, hacts, List.length_cons]; omega) k
    have h₂ := load_cancelRun_le (s.setStage a (.calling { call with acts })) k
    have h₃ := load_next_le (s.setStage a (.calling { call with acts })).cancelRun (.proceed a) k
    split at h₁ <;> omega
  · rename_i time acts hacts
    split
    · refine .inr fun k => ?_
      have h₁ := load_setStage_calling_paid hs { call with acts } (d := 2) h rfl
        (by simp only [Call.load, hacts, List.length_cons]; omega) k
      have h₂ := load_later_le (s.setStage a (.calling { call with acts })) (.proceed a) k
      split at h₁ <;> omega
    · refine .inr fun k => ?_
      have h₁ := load_setStage_calling_paid hs
        { call with acts, wakeAt := some (s.now + time) } (d := 0) h rfl
        (by
          simp only [Call.load, hacts, List.length_cons, Option.isSome_some, if_true]
          split <;> omega) k
      split at h₁ <;> omega

theorem belowOrEq_proceed {s : State} (hs : s.fault = none) (setup : Setup) (a : Address) :
    Levels.BelowOrEq (s.proceed setup a).load s.load := by
  cases hat : s.root.at? a with
  | none =>
    simp only [proceed, hat]
    exact .inr (load_breakOff_le s _)
  | some live =>
    simp only [proceed, hat]
    split
    · exact .inr fun k => Nat.le_refl _
    · rename_i call hcall
      have h : s.callAt a = some call := by simp [callAt, hat, hcall]
      split
      · exact .inr fun k => Nat.le_refl _
      · split
        · exact belowOrEq_act hs h
        · rename_i hasked
          refine .inl ⟨1, ?_, fun k hk => ?_⟩
          · have := (below_ask hs setup live.entry.inputs h (by simpa using hasked)).1
            have := load_next_le (s.ask setup a live.entry.inputs call) (.proceed a) 1
            omega
          · have := (below_ask hs setup live.entry.inputs h (by simpa using hasked)).2 k hk
            have := load_next_le (s.ask setup a live.entry.inputs call) (.proceed a) k
            omega

/-- A node that waits for nothing adds nothing to the load. -/
theorem load_setStage_idle_le (s : State) (a : Address) (k : Nat) :
    (s.setStage a .idle).load k ≤ s.load k := by
  refine load_modify_le (f := fun job => { job with stage := .idle }) (d := 0) (fun job => ?_) a
  match k with
  | 0 => exact Nat.add_le_add_left (Nat.zero_le _) _
  | 1 => exact Nat.add_le_add_left (Nat.zero_le _) _
  | k + 2 => exact Nat.le_refl _

theorem belowOrEq_wake {s : State} (hs : s.fault = none) (a : Address) :
    Levels.BelowOrEq (s.wake a).load s.load := by
  unfold wake
  split
  · exact .inr fun k => Nat.le_refl _
  · rename_i call _
    refine .of_le_right ?_ (load_setStage_idle_le s a)
    have hidle : (s.setStage a .idle).fault = none := hs
    simp only
    split
    · exact (below_succeed hidle ..).add_one (load_reported_le _ a)
    · exact (below_fail hidle ..).add_one (load_reported_le _ a)
    · exact (below_stop hidle a).add_one (load_reported_le _ a)

/-! ## Children -/

/-- A node whose children come to their ends makes the load smaller. -/
theorem load_setStage_hosting {s : State} (hs : s.fault = none) {a : Address} {job : Job}
    {kids : List Live} (hat : s.root.at? a = some (.mk job kids)) {frame : Frame}
    (hframe : job.frame? = some frame) (after : Frame) (k : Nat) :
    (s.setStage a (.hosting after)).load k + (if k = 0 then job.frameLoad frame else 0) =
      s.load k + (if k = 0 then job.frameLoad after else 0) := by
  have hstage : job.stage = .hosting frame := by
    unfold Job.frame? at hframe
    split at hframe
    · rename_i next hnext
      cases hframe
      exact hnext
    · cases hframe
  have hload := load_modify hs (f := fun job => { job with stage := .hosting after }) hat k
  have hset : s.setStage a (.hosting after) =
    s.modify a fun job => { job with stage := .hosting after } := rfl
  rw [hset]
  simp only [Live.job] at hload
  by_cases hk : k = 0
  · subst hk
    have hbefore : job.load 0 = (if job.status = .running then 1 else 0) + job.frameLoad frame := by
      simp [Job.load, Job.stageLoad, hstage]
    have hafter : ({ job with stage := .hosting after } : Job).load 0 =
      (if job.status = .running then 1 else 0) + job.frameLoad after := rfl
    simp only [if_true]
    omega
  · rw [if_neg hk, if_neg hk]
    rcases Levels.eq_one_or_add_two (Nat.pos_of_ne_zero hk) with rfl | ⟨j, rfl⟩
    · have hbefore : job.load 1 = if job.status = .pending then 2 else 0 := by
        simp [Job.load, Job.unasked, hstage]
      have hafter : ({ job with stage := .hosting after } : Job).load 1 =
        (if job.status = .pending then 2 else 0) + 0 := rfl
      omega
    · have hsame : ({ job with stage := .hosting after } : Job).load (j + 2) =
        job.load (j + 2) := rfl
      omega

theorem belowOrEq_reportNext {s : State} (hs : s.fault = none) {a : Address} {job : Job}
    {kids : List Live} (hat : s.root.at? a = some (.mk job kids)) {frame : Frame}
    (hframe : job.frame? = some frame) (kid : Live) :
    Levels.BelowOrEq (s.reportNext a job frame kids kid).load s.load := by
  unfold reportNext
  split
  · rename_i hbegun
    refine .inr fun k => ?_
    have hnext := load_next_le
      (s.setStage a (.hosting { frame with begun := frame.begun + 1 }))
      (.enter (a ++ [frame.begun])) k
    have hset := load_setStage_hosting hs hat hframe { frame with begun := frame.begun + 1 } k
    have hcount : job.count { frame with begun := frame.begun + 1 } = job.count frame := rfl
    simp only [Job.frameLoad, hcount] at hset
    split at hset <;> omega
  · exact (below_finish hs ..).add_one (load_reported_le _ a)

theorem belowOrEq_reportOne {s : State} (hs : s.fault = none) {a : Address} {job : Job}
    {kids : List Live} (hat : s.root.at? a = some (.mk job kids)) {frame : Frame}
    (hframe : job.frame? = some frame) (position : Nat) (kid : Live) :
    Levels.BelowOrEq (s.reportOne a job frame position kid).load s.load := by
  refine .inr fun k => ?_
  simp only [reportOne]
  have hset := load_setStage_hosting hs hat hframe (nextFrame job frame position kid) k
  have hcount : job.count (nextFrame job frame position kid) = job.count frame := rfl
  have hleft : (nextFrame job frame position kid).left = frame.left - 1 := rfl
  have hbegun : (nextFrame job frame position kid).begun =
    if frame.begun < job.count frame then frame.begun + 1 else frame.begun := rfl
  simp only [Job.frameLoad, hcount, hleft, hbegun] at hset
  generalize s.setStage a (.hosting (nextFrame job frame position kid)) = t at hset ⊢
  have hstart : (if frame.begun < job.count frame then t.later (.enter (a ++ [frame.begun]))
      else t).load k ≤ t.load k + (if frame.begun < job.count frame then 1 - k else 0) := by
    split
    · exact load_later_le ..
    · omega
  generalize (if frame.begun < job.count frame then t.later (.enter (a ++ [frame.begun]))
    else t) = u at hstart ⊢
  have htell : (if frame.winner.isNone ∧ (nextFrame job frame position kid).winner.isSome then
      u.tellCalls a else u).load k ≤ u.load k := by
    split
    · exact load_tellCalls_le u a k
    · exact Nat.le_refl _
  generalize (if frame.winner.isNone ∧ (nextFrame job frame position kid).winner.isSome then
    u.tellCalls a else u) = v at htell ⊢
  have hjoin : (if frame.left = 1 then v.later (.join a) else v).load k ≤
      v.load k + (if frame.left = 1 then 1 - k else 0) := by
    split
    · exact load_later_le ..
    · omega
  refine Nat.le_trans hjoin ?_
  by_cases hk : k = 0
  · subst hk
    simp only [if_true] at hset
    by_cases hcalls : frame.begun < job.count frame
    · simp only [hcalls, if_true] at hset hstart
      split <;> omega
    · simp only [hcalls, if_false] at hset hstart
      split <;> omega
  · simp only [hk, if_false] at hset
    split at hstart <;> split <;> omega

theorem belowOrEq_reportKid {s : State} (hs : s.fault = none) (a : Address) (position : Nat) :
    Levels.BelowOrEq (s.reportKid a position).load s.load := by
  cases hat : s.root.at? a with
  | none =>
    simp only [reportKid, hat]
    exact .inr (load_breakOff_le s _)
  | some live =>
    obtain ⟨job, kids⟩ := live
    simp only [reportKid, hat]
    split
    · rename_i kid frame _ hframe
      split
      · exact belowOrEq_reportNext hs hat hframe kid
      · exact (below_finish hs ..).add_one (load_reported_le _ a)
      · exact belowOrEq_reportOne hs hat hframe position kid
    · exact .inr (load_breakOff_le s _)

theorem belowOrEq_report {s : State} (hs : s.fault = none) (a : Address) :
    Levels.BelowOrEq (s.report a).load s.load := by
  unfold report
  split
  · exact belowOrEq_reportKid hs ..
  · exact .inr fun k => Nat.le_refl _

theorem belowOrEq_join {s : State} (hs : s.fault = none) (a : Address) :
    Levels.BelowOrEq (s.join a).load s.load := by
  cases hat : s.root.at? a with
  | none =>
    simp only [join, hat]
    exact .inr (load_breakOff_le s _)
  | some live =>
    obtain ⟨job, kids⟩ := live
    simp only [join, hat]
    split
    · exact (below_finishRace hs ..).add_one (load_reported_le _ a)
    · exact (below_finish hs ..).add_one (load_reported_le _ a)

/-- A task makes up for what is done. -/
theorem belowOrEq_perform {s : State} (hs : s.fault = none) (setup : Setup) (task : Task) :
    Levels.BelowOrEq (s.perform setup task).load s.load := by
  cases task with
  | enter a => exact belowOrEq_enter hs setup a
  | proceed a => exact belowOrEq_proceed hs setup a
  | wake a => exact belowOrEq_wake hs a
  | report a => exact belowOrEq_report hs a
  | join a => exact belowOrEq_join hs a

/-! ## The clock -/

@[simp] theorem fault_tell (s : State) (a : Address) : (s.tell a).fault = s.fault := by
  unfold tell
  split
  · split <;> rfl
  · rfl

@[simp] theorem now_tell (s : State) (a : Address) : (s.tell a).now = s.now := by
  unfold tell
  split
  · split <;> rfl
  · rfl

@[simp] theorem cancelled_tell (s : State) (a : Address) : (s.tell a).cancelled = s.cancelled := by
  unfold tell
  split
  · split <;> rfl
  · rfl

theorem callAt_setStage_ne (s : State) {a b : Address} (h : a ≠ b) (stage : Stage) :
    (s.setStage a stage).callAt b = s.callAt b := by
  have hjob := @Live.job_at?_modify_ne (fun job => { job with stage }) s.root a b h
  have hmap (live : Option Live) : (live.bind fun live => live.job.call?) =
      (live.map Live.job).bind Job.call? := by
    cases live <;> rfl
  rw [callAt, callAt, hmap, hmap]
  exact congrArg (fun job : Option Job => job.bind Job.call?) hjob

theorem callAt_tell_ne (s : State) {a b : Address} (h : a ≠ b) :
    (s.tell a).callAt b = s.callAt b := by
  unfold tell
  split
  · split
    · rfl
    · exact callAt_setStage_ne s h _
  · rfl

/-- What fires at an address changes no fault, no clock and no call at another address. -/
theorem fire_keeps (s : State) (a : Address) :
    (s.fire a).fault = s.fault ∧ (s.fire a).now = s.now ∧ (s.fire a).cancelled = s.cancelled ∧
      ∀ b, a ≠ b → (s.fire a).callAt b = s.callAt b := by
  unfold fire
  split
  · exact ⟨rfl, rfl, rfl, fun _ _ => rfl⟩
  · split
    · exact ⟨rfl, rfl, rfl, fun _ _ => rfl⟩
    · simp only
      split
      · refine ⟨?_, ?_, ?_, fun b hb => ?_⟩
        · rw [fault_tell]; rfl
        · rw [now_tell]; rfl
        · rw [cancelled_tell]; rfl
        · rw [callAt_tell_ne _ hb]
          exact callAt_setStage_ne s hb _
      · split
        · exact ⟨rfl, rfl, rfl, fun b hb => callAt_setStage_ne s hb _⟩
        · exact ⟨rfl, rfl, rfl, fun _ _ => rfl⟩

/-- A call that goes on by itself at an instant makes the load smaller. -/
theorem load_fire {s : State} (hs : s.fault = none) {a : Address} {call : Call}
    (h : s.callAt a = some call) (houtcome : call.outcome = none)
    (hdue : call.deadline.any (· ≤ s.now) ∨ call.wakeAt.any (· ≤ s.now)) (k : Nat) :
    (s.fire a).load k + (1 - k) ≤ s.load k := by
  simp only [fire, h]
  rw [if_neg (by simp [houtcome])]
  split
  · rename_i hdeadline
    have hsome : call.deadline.isSome := by
      cases hd : call.deadline with
      | none => simp [hd] at hdeadline
      | some time => rfl
    generalize timeoutFailure call.agent (call.timeout.getD (.int 0)) = failure
    refine Nat.le_trans (Nat.add_le_add_right (load_tell_le _ a k) _) ?_
    have := load_setStage_calling_paid hs { call with
      wakeAt := none, deadline := none, outcome := some (.error failure) } (d := 1) h rfl
      (by
        simp only [Call.load, hsome, Option.isSome_none, if_true, Bool.false_eq_true, if_false]
        omega) k
    split at this <;> omega
  · rename_i hdeadline
    have hwake : call.wakeAt.any (· ≤ s.now) := hdue.resolve_left hdeadline
    have hsome : call.wakeAt.isSome := by
      cases hw : call.wakeAt with
      | none => simp [hw] at hwake
      | some time => rfl
    rw [if_pos hwake]
    have hset := load_setStage_calling_paid hs { call with wakeAt := none } (d := 2) h rfl
      (by
        simp only [Call.load, hsome, Option.isSome_none, if_true, Bool.false_eq_true, if_false]
        omega) k
    have hlater := load_later_le (s.setStage a (.calling { call with wakeAt := none }))
      (.proceed a) k
    split at hset <;> omega

/-- What fires adds nothing to the load. -/
theorem load_fire_le (s : State) (a : Address) (k : Nat) : (s.fire a).load k ≤ s.load k := by
  cases hs : s.fault with
  | some fault =>
    rw [load_of_fault (by rw [(s.fire_keeps a).1, hs]; rfl)]
    exact Nat.zero_le _
  | none =>
    cases h : s.callAt a with
    | none =>
      simp only [fire, h]
      exact Nat.le_refl _
    | some call =>
      cases houtcome : call.outcome with
      | some outcome =>
        simp only [fire, h, houtcome, Option.isSome_some, if_true]
        exact Nat.le_refl _
      | none =>
        by_cases hdue : call.deadline.any (· ≤ s.now) ∨ call.wakeAt.any (· ≤ s.now)
        · exact Nat.le_trans (Nat.le_add_right _ _) (load_fire hs h houtcome hdue k)
        · have hdeadline := fun h => hdue (.inl h)
          have hwake := fun h => hdue (.inr h)
          simp only [fire, h, houtcome, Option.isSome_none, Bool.false_eq_true, if_false]
          refine Nat.le_of_eq ?_
          rw [if_neg hdeadline, if_neg hwake]

/-- Where one of several calls goes on by itself, the load becomes smaller. -/
theorem load_foldl_fire {a : Address} {call : Call} (houtcome : call.outcome = none)
    (addresses : List Address) : ∀ {s : State}, s.fault = none → s.callAt a = some call →
    (call.deadline.any (· ≤ s.now) ∨ call.wakeAt.any (· ≤ s.now)) → a ∈ addresses → ∀ k,
    (addresses.foldl fire s).load k + (1 - k) ≤ s.load k := by
  induction addresses with
  | nil => intro s _ _ _ h; cases h
  | cons b rest ih =>
    intro s hs hcall hdue hmem k
    by_cases hb : b = a
    · subst hb
      exact Nat.le_trans (Nat.add_le_add_right (load_foldl_le load_fire_le rest _ k) _)
        (load_fire hs hcall houtcome hdue k)
    · obtain ⟨hfault, hnow, _, hcalls⟩ := s.fire_keeps b
      refine Nat.le_trans (ih (by rw [hfault, hs]) (by rw [hcalls a hb, hcall])
        (by rw [hnow]; exact hdue) ?_ k) (load_fire_le s b k)
      rcases List.mem_cons.1 hmem with h | h
      · exact absurd h.symm hb
      · exact h

/-- The end of the run that is asked for makes the load smaller. -/
theorem load_cancelRun {s : State} (hs : s.fault = none) (h : s.cancelled = false) (k : Nat) :
    s.cancelRun.load k + (1 - k) ≤ s.load k := by
  unfold cancelRun
  rw [if_neg (by simp [h])]
  refine Nat.le_trans (Nat.add_le_add_right (load_tellCalls_le _ [] k) _) ?_
  rw [load_of_sound (s := { s with cancelled := true }) hs, load_of_sound hs]
  by_cases hk : k = 0
  · subst hk
    simp only [currentLoad, h, if_true, Bool.false_eq_true, if_false]
    omega
  · simp only [hk, if_false]
    omega

/-- The instant to which the clock jumps has something to do. -/
theorem load_jump {s : State} (hs : s.fault = none) (setup : Setup) {time : Int}
    (h : time ∈ s.times setup) (k : Nat) : (s.jump setup time).load k + (1 - k) ≤ s.load k := by
  simp only [jump]
  generalize hlate : ({ s with now := max s.now time } : State) = late
  have hfault : late.fault = none := by rw [← hlate]; exact hs
  have hload : late.load = s.load := by rw [← hlate]; rfl
  have hnow : time ≤ late.now := by rw [← hlate]; exact Int.le_max_right ..
  have hcancelled : late.cancelled = s.cancelled := by rw [← hlate]
  have hroot : late.root = s.root := by rw [← hlate]
  have hkeeps (addresses : List Address) : ∀ t : State,
      (addresses.foldl fire t).fault = t.fault ∧ (addresses.foldl fire t).now = t.now ∧
        (addresses.foldl fire t).cancelled = t.cancelled := by
    induction addresses with
    | nil => exact fun t => ⟨rfl, rfl, rfl⟩
    | cons a rest ih =>
      intro t
      obtain ⟨hfault, hnow, hcancelled⟩ := ih (t.fire a)
      obtain ⟨hfault', hnow', hcancelled', _⟩ := t.fire_keeps a
      exact ⟨hfault.trans hfault', hnow.trans hnow', hcancelled.trans hcancelled'⟩
  rw [← hload]
  rw [times, List.mem_append] at h
  rcases h with h | h
  · obtain ⟨node, hnode, htime⟩ := List.mem_flatMap.1 h
    obtain ⟨a, job⟩ := node
    cases hcall : job.call? with
    | none => simp [hcall] at htime
    | some call =>
      simp only [hcall, Option.map_some, Option.getD_some, callTimes] at htime
      have houtcome : call.outcome = none := by
        cases ho : call.outcome with
        | none => rfl
        | some outcome => simp [ho] at htime
      simp only [houtcome, Option.isSome_none, Bool.false_eq_true, if_false, List.mem_append,
        Option.mem_toList] at htime
      have hdue : call.deadline.any (· ≤ late.now) ∨ call.wakeAt.any (· ≤ late.now) := by
        refine htime.imp (fun htime => ?_) fun htime => ?_ <;> simp [htime, hnow]
      obtain ⟨kid, hkid, hjob⟩ := Live.at?_of_mem_walk hnode
      have hat : late.callAt a = some call := by simp [callAt, hroot, hkid, hjob, hcall]
      have hmem : a ∈ late.callsUnder [] := by
        simp only [callsUnder, hroot, Live.at?, List.mem_map, List.mem_filter]
        exact ⟨(a, job), ⟨hnode, by simp [hcall]⟩, rfl⟩
      refine Nat.le_trans (Nat.add_le_add_right ?_ _)
        (load_foldl_fire houtcome (late.callsUnder []) hfault hat hdue hmem k)
      split
      · exact load_cancelRun_le _ k
      · exact Nat.le_refl _
  · obtain ⟨hfault', hnow', hcancelled'⟩ := hkeeps (late.callsUnder []) late
    split at h
    · simp at h
    · rename_i hs'
      have hcancelAt : setup.cancelAt = some time := by simpa using h
      rw [if_pos (by rw [hcancelAt, hnow']; simpa using hnow)]
      refine Nat.le_trans (load_cancelRun (by rw [hfault', hfault])
        (by rw [hcancelled', hcancelled]; simpa using hs') k) ?_
      exact load_foldl_le load_fire_le _ _ k

/-! ## Steps -/

/-- Every step makes the load smaller. -/
theorem below_step {s t : State} {setup : Setup} (h : s.step setup = some t) :
    Levels.Below t.load s.load := by
  have hs := fault_of_step h
  rcases step_cases h with ⟨task, agenda, hagenda, rfl⟩ | ⟨_, _, time, htime, rfl⟩
  · have hs' : ({ s with agenda } : State).fault = none := hs
    refine (belowOrEq_perform hs' setup task).below fun k => ?_
    rw [load_of_sound hs', load_of_sound hs]
    by_cases hk : k = 0
    · subst hk
      simp only [if_true, currentLoad, hagenda, List.length_cons]
      omega
    · simp only [hk, if_false]
      omega
  · refine ⟨0, ?_, fun k _ => ?_⟩
    · have := load_jump hs setup (List.min?_mem htime) 0
      omega
    · have := load_jump hs setup (List.min?_mem htime) k
      omega

end Workflow.State
