import Workflow.Run.Load.Change

/-!
# What the start of a node does to the load

A node that starts makes the load smaller on the level 1, and a loop on the level of its height;
what its start adds lies on the levels below. The main statement is `State.belowOrEq_enter`.
-/

namespace Workflow.State

/-! ## Faults stay -/

theorem fault_openSlots {s : State} (h : s.fault.isSome) (setup : Setup) (a : Address)
    (frame : Frame) (work : Work) (count : Nat) :
    (s.openSlots setup a frame work count).fault.isSome := by
  simp only [openSlots]
  split
  · exact fault_join (s := s.setStage a _) h a
  · exact h

theorem fault_beginStep {s : State} (h : s.fault.isSome) (setup : Setup) (a : Address) (job : Job)
    (agent : String) (own : Option Binary64) (c : Context) :
    (s.beginStep setup a job agent own c).fault.isSome := by
  simp only [beginStep]
  split
  · rw [fault_reported]
    exact fault_succeed (s := s.modifyEntry a _) h ..
  · split
    · rw [fault_reported]
      exact fault_fail h ..
    · simpa using h

theorem fault_beginSequence {s : State} (h : s.fault.isSome) (a : Address) (frame : Frame)
    (kids : List Live) : (s.beginSequence a frame kids).fault.isSome := by
  unfold beginSequence
  split
  · rw [fault_reported]
    exact fault_finish h ..
  · simpa using h

theorem fault_beginBranch {s : State} (h : s.fault.isSome) (setup : Setup) (a : Address)
    (c : Context) (condition : Binding) (cases : List Value) (kids : List Live) :
    (s.beginBranch setup a c condition cases kids).fault.isSome := by
  simp only [beginBranch]
  split
  · rw [fault_reported]
    exact fault_fail h ..
  · split
    · rw [fault_next]
      exact fault_foldl (fun _ _ h => fault_settle h ..) _ h
    · rw [fault_reported]
      exact fault_fail h ..

theorem fault_beginLoop {s : State} (h : s.fault.isSome) (setup : Setup) (a : Address)
    (c : Context) (job : Job) (frame : Frame) (source : Binding) :
    (s.beginLoop setup a c job frame source).fault.isSome := by
  simp only [beginLoop]
  split
  · rw [fault_reported]
    exact fault_fail h ..
  · refine fault_openSlots ?_ ..
    exact h
  · rw [fault_reported]
    exact fault_fail h ..

theorem fault_beginContainer {s : State} (h : s.fault.isSome) (setup : Setup) (a : Address)
    (job : Job) (kids : List Live) (c : Context) :
    (s.beginContainer setup a job kids c).fault.isSome := by
  simp only [beginContainer]
  split
  · rw [fault_reported]
    exact fault_fail h ..
  · rename_i bound _
    have hstage : (s.setStage a (.hosting { bound })).fault.isSome := h
    split
    · exact fault_beginSequence hstage ..
    · exact fault_beginBranch hstage ..
    · exact fault_beginLoop hstage ..
    · exact fault_openSlots hstage ..

/-! ## Loads above the level 0 -/

/-- A node that waits for its children adds to the load on the level 0 alone. -/
theorem load_setStage_hosting_le (s : State) (a : Address) (frame : Frame) {k : Nat} (hk : 1 ≤ k) :
    (s.setStage a (.hosting frame)).load k ≤ s.load k := by
  refine load_modify_le (f := fun job => { job with stage := .hosting frame }) (d := 0)
    (fun job => ?_) a
  match k with
  | 1 => exact Nat.add_le_add_left (Nat.zero_le _) _
  | k + 2 => exact Nat.le_refl _

/-- A node that waits for a call adds at most one to the load on the level 1, and nothing above. -/
theorem load_setStage_calling_le (s : State) (a : Address) (call : Call) {k : Nat} (hk : 1 ≤ k) :
    (s.setStage a (.calling call)).load k ≤ s.load k + (2 - k) := by
  refine load_modify_le (f := fun job => { job with stage := .calling call }) (fun job => ?_) a
  match k with
  | 1 =>
    have hone : ({ job with stage := .calling call } : Job).load 1 =
      (if job.status = .pending then 2 else 0) + (if !call.asked then 1 else 0) := rfl
    have : (if !call.asked then 1 else 0) ≤ 1 := by split <;> omega
    rw [hone, Job.load]
    omega
  | k + 2 => exact Nat.le_add_right _ _

theorem load_openSlots_le (s : State) (setup : Setup) (a : Address) (frame : Frame) (work : Work)
    (count : Nat) {k : Nat} (hk : 1 ≤ k) :
    (s.openSlots setup a frame work count).load k ≤ s.load k := by
  have hstage := load_setStage_hosting_le s a
    { frame with begun := min (setup.slots work count) count, left := count } hk
  simp only [openSlots]
  revert hstage
  generalize s.setStage a (.hosting { frame with
    begun := min (setup.slots work count) count, left := count }) = t
  intro hstage
  split
  · have := load_join_le t a k
    omega
  · refine Nat.le_trans (Nat.le_of_eq ?_) hstage
    simp only [load]
    rw [if_neg (show k ≠ 0 by omega), if_neg (show k ≠ 0 by omega)]

theorem load_beginStep_le (s : State) (setup : Setup) (a : Address) (job : Job) (agent : String)
    (own : Option Binary64) (c : Context) {k : Nat} (hk : 1 ≤ k) :
    (s.beginStep setup a job agent own c).load k ≤ s.load k + (2 - k) := by
  simp only [beginStep]
  split
  · rename_i earlier _
    have h₁ := load_modifyEntry_le (s := s) (f := fun e => { e with inputs := earlier.inputs })
      (fun _ => rfl) a k
    have h₂ := load_succeed_le (s.modifyEntry a fun e => { e with inputs := earlier.inputs }) a
      earlier.output "reused from previous run" k
    have h₃ := load_reported_le ((s.modifyEntry a fun e =>
      { e with inputs := earlier.inputs }).succeed a earlier.output "reused from previous run") a k
    omega
  · split
    · rename_i e _
      have h₁ := load_fail_le s a e.toFailure k
      have h₂ := load_reported_le (s.fail a e.toFailure) a k
      omega
    · rename_i inputs _
      have h₁ := load_modifyEntry_le (s := s) (f := fun e => { e with inputs }) (fun _ => rfl) a k
      have h₂ := load_setStage_calling_le (s.modifyEntry a fun e => { e with inputs }) a
        { agent, timeout := setup.timeoutOf own } hk
      have h₃ := load_later_le ((s.modifyEntry a fun e => { e with inputs }).setStage a
        (.calling { agent, timeout := setup.timeoutOf own })) (.proceed a) k
      omega

theorem load_beginSequence_le (s : State) (a : Address) (frame : Frame) (kids : List Live)
    {k : Nat} (hk : 1 ≤ k) : (s.beginSequence a frame kids).load k ≤ s.load k := by
  unfold beginSequence
  split
  · have h₁ := load_finish_le s a [] (outputs []) k
    have h₂ := load_reported_le (s.finish a [] (outputs [])) a k
    omega
  · have h₁ := load_setStage_hosting_le s a { frame with begun := 1 } hk
    have h₂ := load_next_le (s.setStage a (.hosting { frame with begun := 1 }))
      (.enter (a ++ [0])) k
    omega

theorem load_fail_reported_le (s : State) (a : Address) (failure : Failure) {k : Nat}
    (hk : 1 ≤ k) : ((s.fail a failure).reported a).load k ≤ s.load k := by
  have h₁ := load_fail_le s a failure k
  have h₂ := load_reported_le (s.fail a failure) a k
  omega

theorem load_beginBranch_le (s : State) (setup : Setup) (a : Address) (c : Context)
    (condition : Binding) (cases : List Value) (kids : List Live) {k : Nat} (hk : 1 ≤ k) :
    (s.beginBranch setup a c condition cases kids).load k ≤ s.load k := by
  simp only [beginBranch]
  split
  · exact load_fail_reported_le s a _ hk
  · split
    · refine Nat.le_trans (load_next_le ..) ?_
      rw [Nat.sub_eq_zero_of_le hk]
      exact load_foldl_le (fun s i k => load_settle_le s _ (by decide) k) _ s k
    · exact load_fail_reported_le s a _ hk

/-- The instances of a loop add nothing on the level of the loop's height and above. -/
theorem load_beginLoop_le (s : State) (setup : Setup) (a : Address) (c : Context) (job : Job)
    (frame : Frame) (source : Binding) {k : Nat} (hk : job.node.height + 2 ≤ k) :
    (s.beginLoop setup a c job frame source).load k ≤ s.load k := by
  simp only [beginLoop]
  split
  · exact load_fail_reported_le s a _ (by omega)
  · rename_i items _
    refine Nat.le_trans (load_openSlots_le _ setup a _ _ _ (by omega)) ?_
    obtain ⟨j, rfl⟩ : ∃ j, k = j + 2 := ⟨k - 2, by omega⟩
    simp only [load]
    split
    · exact Nat.le_refl _
    · refine Nat.add_le_add_right ?_ _
      refine Live.total_update_le _ _ 0 (fun live => ?_) s.root a
      obtain ⟨liveJob, liveKids⟩ := live
      have := Live.totals_load_instances (k := j) job.entry.path job.node items.length (by omega)
      simp only [Live.total, Live.job]
      omega
  · exact load_fail_reported_le s a _ (by omega)

/-- A container that starts adds nothing to the load above the level 0, and a loop nothing on the
level of its height and above. -/
theorem load_beginContainer_le (s : State) (setup : Setup) (a : Address) (job : Job)
    (kids : List Live) (c : Context) {k : Nat} (hk : 1 ≤ k)
    (hloop : job.node.kind = .loop → job.node.height + 2 ≤ k) :
    (s.beginContainer setup a job kids c).load k ≤ s.load k := by
  simp only [beginContainer]
  split
  · exact load_fail_reported_le s a _ hk
  · rename_i bound _
    have hstage := load_setStage_hosting_le s a { bound } hk
    split
    · exact Nat.le_trans (load_beginSequence_le _ a _ _ hk) hstage
    · exact Nat.le_trans (load_beginBranch_le _ setup a _ _ _ _ hk) hstage
    · rename_i hwork
      have hkind : job.node.kind = .loop := by rw [Node.kind, hwork]; rfl
      exact Nat.le_trans (load_beginLoop_le _ setup a _ job _ _ (hloop hkind)) hstage
    · exact Nat.le_trans (load_openSlots_le _ setup a _ _ _ hk) hstage

/-! ## The start -/

/-- What a node that starts to run loses: 2 on the level 1, and a loop 1 on the level of its
height. -/
theorem load_move_running {s : State} (hs : s.fault = none) {a : Address} {job : Job}
    {kids : List Live} (h : s.root.at? a = some (.mk job kids)) (message : String)
    (hmove : (s.move a .running message).fault = none) :
    (s.move a .running message).load 1 + 2 ≤ s.load 1 ∧
      ∀ k, (s.move a .running message).load (k + 2) +
        (if job.node.kind = .loop ∧ job.node.height = k then 1 else 0) ≤ s.load (k + 2) := by
  rcases s.move_cases a .running message with hfault | ⟨kid, e, event, hkid, hbecome, he, hmoved⟩
  · simp [hmove] at hfault
  · rw [hkid, Option.some.injEq] at h
    subst h
    simp only [Live.job] at hbecome
    have hpending : job.status = .pending := by
      revert hbecome
      cases job.status <;> decide
    rw [hmoved, load_note]
    refine ⟨?_, fun k => ?_⟩
    · have hload := load_modify hs (f := fun job => { job with entry := e }) hkid 1
      have hbefore : job.load 1 = 2 + (if job.unasked then 1 else 0) := by simp [Job.load, hpending]
      have hafter : ({ job with entry := e } : Job).load 1 =
          0 + (if job.unasked then 1 else 0) := by
        have : ({ job with entry := e } : Job).status = .running := he
        simp only [Job.load, this]
        rfl
      simp only [Live.job] at hload
      omega
    · have hload := load_modify hs (f := fun job => { job with entry := e }) hkid (k + 2)
      have hbefore : job.load (k + 2) =
          if job.node.kind = .loop ∧ job.node.height = k then 1 else 0 := by
        simp [Job.load, hpending]
      have hafter : ({ job with entry := e } : Job).load (k + 2) = 0 := by
        have : ({ job with entry := e } : Job).status = .running := he
        simp [Job.load, this]
      simp only [Live.job] at hload
      omega

/-- The start of a node makes up for a task that is done. -/
theorem belowOrEq_enter {s : State} (hs : s.fault = none) (setup : Setup) (a : Address) :
    Levels.BelowOrEq (s.enter setup a).load s.load := by
  cases hat : s.root.at? a with
  | none =>
    simp only [enter, hat]
    exact .inr (load_breakOff_le s _)
  | some live =>
    obtain ⟨job, kids⟩ := live
    simp only [enter, hat]
    split
    · exact (below_leaveOut hs a (by decide)).add_one (load_reported_le _ a)
    · split
      · exact (below_leaveOut hs a (by decide)).add_one (load_reported_le _ a)
      · cases hmove : (s.move a .running "").fault with
        | some fault =>
          have hfault : (s.move a .running "").fault.isSome := by simp [hmove]
          refine .inl (below_of_fault hs ?_)
          split
          · exact fault_beginStep hfault ..
          · exact fault_beginContainer hfault ..
        | none =>
          obtain ⟨hone, hloop⟩ := load_move_running hs hat "" hmove
          split
          · rename_i agent own _
            refine .inl ⟨1, ?_, fun k hk => ?_⟩
            · have := load_beginStep_le (s.move a .running "") setup a job agent own
                (s.root.contextAt a) (k := 1) (by omega)
              omega
            · obtain ⟨j, rfl⟩ : ∃ j, k = j + 2 := ⟨k - 2, by omega⟩
              have := load_beginStep_le (s.move a .running "") setup a job agent own
                (s.root.contextAt a) (k := j + 2) (by omega)
              have := hloop j
              omega
          · have hbegin := fun (k : Nat) => load_beginContainer_le (s.move a .running "") setup a
              job kids (s.root.contextAt a) (k := k)
            by_cases hkind : job.node.kind = .loop
            · refine .inl ⟨job.node.height + 2, ?_, fun k hk => ?_⟩
              · have := hbegin (job.node.height + 2) (by omega) (fun _ => by omega)
                have := hloop job.node.height
                simp only [hkind, true_and, if_true] at this
                omega
              · obtain ⟨j, rfl⟩ : ∃ j, k = j + 2 := ⟨k - 2, by omega⟩
                have := hbegin (j + 2) (by omega) (fun _ => by omega)
                have := hloop j
                omega
            · refine .inl ⟨1, ?_, fun k hk => ?_⟩
              · have := hbegin 1 (by omega) (fun h => absurd h hkind)
                omega
              · obtain ⟨j, rfl⟩ : ∃ j, k = j + 2 := ⟨k - 2, by omega⟩
                have := hbegin (j + 2) (by omega) (fun h => absurd h hkind)
                have := hloop j
                omega

end Workflow.State
