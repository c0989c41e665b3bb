import Workflow.Executor.Echo
import Workflow.Proofs.Cancellation
import Workflow.Proofs.Run.Wake

/-!
# Runs whose end has been asked for

Once the end of a run has been asked for nothing starts, no time passes, and whatever is pending is
cancelled. A running step is stopped, unless its call ends at that very instant.

* `State.WindsDown` says what a step of such a run does to the nodes, and `State.Reached.windsDown`
  that every step does no more.
* `State.Frozen` says what becomes of a state in which the end has been asked for, and
  `Setup.frozen_of_execute` that this becomes of every such state of a run.
-/

namespace Workflow

/-- The step has ended as its call did. -/
def Entry.EndsAs (e : Entry) : Except Failure Value → Prop
  | .ok output => e.status = .succeeded ∧ e.output = output
  | .error failure => e.status = .failed ∧ e.error = some failure

theorem Job.endsAs_woken (job : Job) (message : String) (now : Int)
    (outcome : Except Failure Value) : (job.woken message now (some outcome)).entry.EndsAs outcome := by
  cases outcome <;> exact ⟨rfl, rfl⟩

/-- The step was stopped because the run is to end. -/
def Entry.StoppedByRun (e : Entry) : Prop :=
  e.status = .cancelled ∧ e.error = some ⟨.cancelled, Failure.runCancelled, []⟩

namespace State

variable {setup : Setup} {tree : Node} {s t u : State} {hand after : Option Address}
  {doing : Doing} {a b : Address} {job : Job} {kids : List Live}

/-! ## Moves and statuses -/

/-- A move changes the status of its node if the table of statuses has it, and else no status. -/
theorem statusAt_move_cases (s : State) (a : Address) (target : Status) (message : String) :
    (∀ b, (s.move a target message).statusAt b = s.statusAt b) ∨
      ∃ status, s.statusAt a = some status ∧ status.canBecome target ∧
        ∀ b, (s.move a target message).statusAt b = if b = a then some target else s.statusAt b := by
  cases hjob : s.jobAt a with
  | none =>
    refine .inl fun b => ?_
    unfold State.move
    split
    · rw [statusAt, jobAt_breakOff, statusAt]
    · rename_i live hlive
      rw [jobAt, Live.jobAt, hlive] at hjob
      cases hjob
  | some job =>
    by_cases htarget : job.status.canBecome target
    · exact .inr ⟨job.status, statusAt_of_jobAt hjob, htarget, statusAt_move hjob htarget message⟩
    · refine .inl fun b => ?_
      obtain ⟨kids, hkids⟩ := at?_of_jobAt hjob
      have hillegal : job.entry.progress.move target s.now =
          .error ⟨job.entry.progress.status, target⟩ := if_neg htarget
      unfold State.move
      rw [hkids]
      simp only [Live.entry, Live.job, hillegal]
      rw [statusAt, jobAt_breakOff, statusAt]

/-! ## What a run that is to end does to its nodes -/

/-- Of the nodes that are not pending at most the one in hand goes on, if it runs; pending nodes are
cancelled if anything. -/
structure WindsDown (hand : Option Address) (s t : State) : Prop where
  pending : ∀ b, s.statusAt b = some .pending →
    t.statusAt b = some .pending ∨ t.statusAt b = some .cancelled
  kept : ∀ b status, s.statusAt b = some status → status ≠ .pending →
    (hand = some b ∧ status = .running) ∨ t.statusAt b = some status

namespace WindsDown

theorem of_statusAt (h : ∀ b, t.statusAt b = s.statusAt b) : WindsDown hand s t :=
  ⟨fun b hb => .inl ((h b).trans hb), fun b _ hb _ => .inr ((h b).trans hb)⟩

theorem trans (h : WindsDown hand s t) (h' : WindsDown hand t u) : WindsDown hand s u := by
  refine ⟨fun b hb => ?_, fun b status hb hne => ?_⟩
  · rcases h.pending b hb with hpending | hcancelled
    · exact h'.pending b hpending
    · rcases h'.kept b _ hcancelled (by decide) with ⟨_, h⟩ | h
      · cases h
      · exact .inr h
  · rcases h.kept b status hb hne with hrun | hsame
    · exact .inl hrun
    · exact h'.kept b status hsame hne

/-- A pending node is cancelled, or the node that runs comes to its end. -/
theorem move (target : Status) (message : String)
    (hpending : s.statusAt b = some .pending → target = .cancelled)
    (hrun : s.statusAt b = some .running → hand = some b) : WindsDown hand s (s.move b target message) := by
  rcases statusAt_move_cases s b target message with hsame | ⟨old, hold, htarget, hmove⟩
  · exact of_statusAt hsame
  · refine ⟨fun c hc => ?_, fun c status hc hne => ?_⟩
    · rw [hmove]
      split
      · rename_i hcb
        exact .inr (by rw [hpending (hcb ▸ hc)])
      · exact .inl hc
    · rw [hmove]
      split
      · rename_i hcb
        subst hcb
        rw [hold, Option.some.injEq] at hc
        subst hc
        -- of what is not pending only what runs may be moved
        have hstatus : old = .running := by
          cases old with
          | running => rfl
          | pending => exact absurd rfl hne
          | _ => cases target <;> cases htarget
        exact .inl ⟨hrun (hstatus ▸ hold), hstatus⟩
      · exact .inr hc

theorem modifyEntry {f : Entry → Entry} (hf : ∀ e, (f e).status = e.status) :
    WindsDown hand s (s.modifyEntry b f) :=
  of_statusAt fun _ => statusAt_modifyEntry _ _ _ hf

theorem foldl_move (l : List Address) (hl : ∀ b ∈ l, s.statusAt b ≠ some .running) :
    WindsDown hand s (l.foldl (fun s b => s.move b .cancelled "") s) := by
  induction l generalizing s with
  | nil => exact .of_statusAt fun _ => rfl
  | cons b l ih =>
    rw [List.forall_mem_cons] at hl
    have hmove : WindsDown hand s (s.move b .cancelled "") :=
      .move _ _ (fun _ => rfl) fun h => absurd h hl.1
    refine hmove.trans (ih fun c hc hrun => ?_)
    rcases statusAt_move_cases s b .cancelled "" with hsame | ⟨_, _, _, hmoved⟩
    · exact hl.2 c hc ((hsame c).symm.trans hrun)
    · rw [hmoved] at hrun
      split at hrun
      · cases hrun
      · exact hl.2 c hc hrun

/-- What is pending is cancelled. -/
theorem settle (s : State) (b : Address) : WindsDown hand s (s.settle b .cancelled) :=
  .foldl_move _ fun c hc hrun => by
    rw [(mem_pendingUnder_iff.1 hc).2] at hrun
    cases hrun

theorem reported (h : WindsDown hand s t) (b : Address) : WindsDown hand s (t.reported b) :=
  h.trans (.of_statusAt fun _ => by rw [statusAt, jobAt_reported, statusAt])

theorem leaveOut (hpending : s.statusAt b = some .pending) :
    WindsDown hand s (s.leaveOut b .cancelled) := by
  refine WindsDown.trans (.move _ _ (fun _ => rfl) fun hrun => ?_) (.settle _ b)
  rw [hpending] at hrun
  cases hrun

theorem succeed (s : State) (output : Value) (message : String)
    (hself : s.statusAt a ≠ some .pending) : WindsDown (some a) s (s.succeed a output message) := by
  have hentry : ∀ e : Entry, ({ e with output } : Entry).status = e.status := fun _ => rfl
  refine WindsDown.trans (.modifyEntry hentry) (.move _ _ (fun hpending => ?_) fun _ => rfl)
  rw [statusAt_modifyEntry _ _ _ hentry] at hpending
  exact absurd hpending hself

theorem stop (hcancelled : s.cancelled = true) : WindsDown (some a) s (s.stop a) := by
  have hentry : ∀ e : Entry, ({ e with error := some ⟨.cancelled, s.stopMessage, []⟩ } :
    Entry).status = e.status := fun _ => rfl
  unfold State.stop
  rw [if_pos hcancelled]
  exact WindsDown.trans (.trans (.modifyEntry hentry) (.move _ _ (fun _ => rfl) fun _ => rfl))
    (.settle _ a)

/-- A node below which nothing is pending fails. -/
theorem fail (s : State) (failure : Failure)
    (hnone : ∀ b, a <+: b → s.statusAt b ≠ some .pending) : WindsDown (some a) s (s.fail a failure) := by
  have hentry : ∀ e : Entry, ({ e with error := some failure } : Entry).status = e.status :=
    fun _ => rfl
  have hself : (s.modifyEntry a fun e => { e with error := some failure }).statusAt a ≠
      some .pending := by
    rw [statusAt_modifyEntry _ _ _ hentry]
    exact hnone a (List.prefix_refl a)
  unfold State.fail
  rw [settle_eq_self fun c hac hpending => ?_]
  · exact WindsDown.trans (.modifyEntry hentry)
      (.move _ _ (fun hpending => absurd hpending hself) fun _ => rfl)
  · -- nothing becomes pending
    rcases statusAt_move_cases (s.modifyEntry a fun e => { e with error := some failure }) a
      .failed "" with hsame | ⟨_, _, _, hmoved⟩
    · rw [hsame, statusAt_modifyEntry _ _ _ hentry] at hpending
      exact hnone c hac hpending
    · rw [hmoved] at hpending
      split at hpending
      · cases hpending
      · rw [statusAt_modifyEntry _ _ _ hentry] at hpending
        exact hnone c hac hpending

theorem failFromKids (s : State) (kids : List Live)
    (hnone : ∀ b, a <+: b → s.statusAt b ≠ some .pending) :
    WindsDown (some a) s (s.failFromKids a kids) := by
  unfold State.failFromKids
  simp only
  split
  · exact .of_statusAt fun b => by rw [statusAt, jobAt_breakOff, statusAt]
  · exact .fail s _ hnone

/-- A container is stopped if something below it is pending. -/
theorem finish (output : Value) (hcancelled : s.cancelled = true)
    (hself : s.statusAt a ≠ some .pending)
    (hkids : ∀ b, a <+: b → s.statusAt b = some .pending → ∃ kid ∈ kids, Live.status kid = .pending) :
    WindsDown (some a) s (s.finish a kids output) := by
  unfold State.finish
  simp only
  split
  · exact .stop hcancelled
  · rename_i hstop
    split
    · exact .stop hcancelled
    · split
      · refine .failFromKids s kids fun b hab hpending => hstop ?_
        obtain ⟨kid, hmem, hkid⟩ := hkids b hab hpending
        rw [hcancelled, Bool.true_and, Bool.or_eq_true, List.contains_iff_mem,
          List.contains_iff_mem]
        exact .inr (hkid ▸ List.mem_map_of_mem hmem)
      · exact .succeed s output "" hself

/-- A race without a winner is stopped. -/
theorem finishRace (frame : Frame) (kids : List Live) (hcancelled : s.cancelled = true)
    (hself : s.statusAt a ≠ some .pending) : WindsDown (some a) s (s.finishRace a frame kids) := by
  unfold State.finishRace
  split
  · exact .succeed s _ _ hself
  · rw [if_pos (by rw [hcancelled, Bool.true_or])]
    exact .stop hcancelled

theorem tellCalls (s : State) (b : Address) : WindsDown hand s (s.tellCalls b) :=
  foldl_tell_induction (P := WindsDown hand s) s _ (.of_statusAt fun _ => rfl) fun t c _ ht =>
    ht.trans (.of_statusAt fun d => statusAt_tell t c d)

theorem setStage (s : State) (b : Address) (stage : Stage) : WindsDown hand s (s.setStage b stage) :=
  .of_statusAt fun c => statusAt_setStage s b c stage

theorem later (h : WindsDown hand s t) (task : Task) : WindsDown hand s (t.later task) :=
  h.trans (.of_statusAt fun _ => rfl)

theorem ite {p : Prop} [Decidable p] (h : WindsDown hand s t) (h' : WindsDown hand s u) :
    WindsDown hand s (if p then t else u) := by
  split
  · exact h
  · exact h'

/-- A child that has ended is counted. -/
theorem reportOne (s : State) (p : Address) (job : Job) (frame : Frame) (position : Nat)
    (kid : Live) : WindsDown hand s (s.reportOne p job frame position kid) := by
  unfold State.reportOne
  extract_lets after counted begun told
  have hcounted : WindsDown hand s counted := .setStage s p _
  have hbegun : WindsDown hand s begun := .ite (hcounted.later _) hcounted
  have htold : WindsDown hand s told := .ite (hbegun.trans (.tellCalls _ _)) hbegun
  exact .ite (htold.later _) htold

end WindsDown

/-! ## The steps of a run that is to end -/

/-- While calls go on no node changes its status. -/
theorem statusAt_proceed (s : State) (setup : Setup) (a b : Address) :
    (s.proceed setup a).statusAt b = s.statusAt b := by
  have hcancelRun (t : State) : t.cancelRun.statusAt b = t.statusAt b :=
    cancelRun_induction (P := fun u => u.statusAt b = t.statusAt b) t rfl rfl
      fun u c hu => (statusAt_tell u c b).trans hu
  unfold State.proceed
  split
  · rw [statusAt, jobAt_breakOff, statusAt]
  · split
    · rfl
    · split
      · rfl
      · split
        · unfold State.act
          split
          · split
            · rw [statusAt_tell, statusAt_setStage]
            · rfl
          · exact (hcancelRun _).trans (statusAt_setStage ..)
          · split
            · exact statusAt_setStage ..
            · exact statusAt_setStage ..
        · exact statusAt_setStage ..

/-- Only a node with a pending child has something pending below it, as long as no child runs. -/
theorem Control.exists_pending_kid (h : Control setup s none) (hjob : s.jobAt a = some job)
    (hrun : job.status = .running)
    (hkids : ∀ i, s.statusAt (a ++ [i]) ≠ some .running) (hab : a <+: b)
    (hpending : s.statusAt b = some .pending) : ∃ i, s.statusAt (a ++ [i]) = some .pending := by
  obtain ⟨c, rfl⟩ := hab
  cases c with
  | nil =>
    rw [List.append_nil, statusAt_of_jobAt hjob, hrun] at hpending
    cases hpending
  | cons i c =>
    rw [List.append_cons] at hpending
    obtain ⟨below, hbelow, _⟩ := jobAt_of_statusAt hpending
    obtain ⟨kid, hkid⟩ := jobAt_of_append hbelow
    have hstatus := statusAt_of_jobAt hkid
    refine ⟨i, ?_⟩
    cases hk : kid.status with
    | pending => rw [hstatus, hk]
    | running => exact absurd (hk ▸ hstatus) (hkids i)
    | _ => exact absurd hpending (h.closed_none (List.prefix_append _ c) hstatus (by rw [hk]; rfl))

/-- Nothing waits for a call but a step. -/
theorem Control.callAt_eq_none (h : Control setup s none) (hjob : s.jobAt a = some job)
    (hstep : job.node.kind ≠ .step ∨ job.status ≠ .running) : s.callAt a = none := by
  cases hcall : s.callAt a with
  | none => rfl
  | some call =>
    obtain ⟨job', hjob', hrun, _, hkind, _⟩ := h.of_callAt hcall
    rw [hjob, Option.some.injEq] at hjob'
    subst hjob'
    rcases hstep with h | h
    · exact absurd hkind h
    · exact absurd hrun h

namespace Reached

variable {rest : List Task}

/-- What is not started is cancelled with everything below it. -/
theorem windsDown_enter (h : Reached setup tree s none) (htree : tree.Sound)
    (hagenda : s.agenda = .enter a :: rest) (hcancelled : s.cancelled = true) :
    WindsDown (some a) s ({ s with agenda := rest }.enter setup a) := by
  have hproper : Proper s none (.enter a) :=
    (h.control htree).proper _ (by rw [hagenda]; exact List.mem_cons_self)
  obtain ⟨job, hjob, _⟩ := jobAt_of_statusAt hproper.1
  obtain ⟨kids, hkids⟩ := at?_of_jobAt hjob
  have hpop : WindsDown (some a) s { s with agenda := rest } := .of_statusAt fun _ => rfl
  unfold State.enter
  rw [show ({ s with agenda := rest } : State).root.at? a = some (.mk job kids) from hkids]
  simp only
  rw [if_pos hcancelled]
  exact WindsDown.reported (hpop.trans (.leaveOut hproper.1)) a

/-- A step whose call has ended, or has to stop, comes to its end. -/
theorem windsDown_wake (h : Reached setup tree s none) (htree : tree.Sound)
    (hagenda : s.agenda = .wake a :: rest) (hcancelled : s.cancelled = true) :
    WindsDown (some a) s ({ s with agenda := rest }.wake a) := by
  have hproper : Proper s none (.wake a) :=
    (h.control htree).proper _ (by rw [hagenda]; exact List.mem_cons_self)
  obtain ⟨job, call, hjob, hrun, hstage, _⟩ := hproper
  have hcall : ({ s with agenda := rest } : State).callAt a = some call := by
    rw [callAt_of_jobAt (s := { s with agenda := rest }) hjob, Job.call?, hstage]
  have hkind := ((h.control htree).of_calling hjob hstage).2.2.1
  have hidle : WindsDown (some a) s (({ s with agenda := rest } : State).setStage a .idle) :=
    .of_statusAt fun b => statusAt_setStage { s with agenda := rest } a b .idle
  have hnone (b : Address) (hab : a <+: b) :
      (({ s with agenda := rest } : State).setStage a .idle).statusAt b ≠ some .pending := by
    rw [statusAt_setStage]
    exact (h.shape htree).not_pending_of_step hjob hrun hkind hab
  unfold State.wake
  rw [hcall]
  simp only
  refine WindsDown.reported (hidle.trans ?_) a
  split
  · exact .succeed _ _ "" (hnone a (List.prefix_refl a))
  · exact .fail _ _ hnone
  · exact .stop hcancelled

/-- The children of a sequence or a branch that does not go on have all ended. -/
theorem windsDown_finish {kids shown : List Live} {output : Value} (h : Reached setup tree s none)
    (htree : tree.Sound) (hkids : s.root.at? a = some (.mk job kids)) (hrun : job.status = .running)
    (hcancelled : s.cancelled = true) (hrunning : ∀ j, s.statusAt (a ++ [j]) ≠ some .running)
    (hshown : ∀ j, s.statusAt (a ++ [j]) = some .pending → ∃ kid ∈ shown, Live.status kid = .pending) :
    WindsDown (some a) s ((({ s with agenda := rest } : State).finish a shown output).reported a) := by
  have hself : s.statusAt a ≠ some .pending := by
    rw [statusAt_of_jobAt (jobAt_of_at? hkids), hrun]
    decide
  have hpop : WindsDown (some a) s { s with agenda := rest } := .of_statusAt fun _ => rfl
  refine hpop.trans (WindsDown.reported (.finish (s := { s with agenda := rest }) _ hcancelled hself
    fun b hab hb => ?_) a)
  obtain ⟨j, hj⟩ := (h.control htree).exists_pending_kid (jobAt_of_at? hkids) hrun hrunning hab hb
  exact hshown j hj

/-- A container whose children have ended comes to its end. -/
theorem windsDown_join (h : Reached setup tree s none) (htree : tree.Sound)
    (hagenda : s.agenda = .join a :: rest) (hcancelled : s.cancelled = true) :
    WindsDown (some a) s ({ s with agenda := rest }.join a) ∧ s.callAt a = none := by
  obtain ⟨job, kids, frame, hj⟩ := h.joining htree hagenda
  have hjob := jobAt_of_at? hj.at?
  refine ⟨?_, by rw [callAt_of_jobAt hjob, Job.call?, hj.stage]⟩
  have hended (i : Nat) (status : Status) (hstatus : s.statusAt (a ++ [i]) = some status) :
      status.isTerminal := by
    rw [statusAt_concat hj.at?, Option.map_eq_some_iff] at hstatus
    obtain ⟨kid, hkid, rfl⟩ := hstatus
    exact hj.ended kid (List.mem_of_getElem? hkid)
  unfold State.join
  rw [show ({ s with agenda := rest } : State).root.at? a = some (.mk job kids) from hj.at?]
  simp only
  split
  · have hpop : WindsDown (some a) s { s with agenda := rest } := .of_statusAt fun _ => rfl
    refine WindsDown.reported (hpop.trans (.finishRace _ _ hcancelled ?_)) a
    change s.statusAt a ≠ _
    rw [statusAt_of_jobAt hjob, hj.run]
    decide
  · exact h.windsDown_finish htree hj.at? hj.run hcancelled (fun i hi => by cases hended i _ hi)
      fun i hi => by cases hended i _ hi

/-- The node above one that has ended takes notice. -/
theorem windsDown_report (h : Reached setup tree s none) (htree : tree.Sound)
    (hagenda : s.agenda = .report b :: rest) (hcancelled : s.cancelled = true) :
    ∃ a, WindsDown (some a) s ({ s with agenda := rest }.report b) ∧ s.callAt a = none := by
  obtain ⟨a, i, job, kids, kid, rfl, hn⟩ := h.noticing htree hagenda
  refine ⟨a, ?_, (h.control htree).callAt_eq_none hn.jobAt (.inl hn.container)⟩
  have hpop : WindsDown (some a) s { s with agenda := rest } := .of_statusAt fun _ => rfl
  have hkid := hn.statusAt_kid
  have hterminal := hn.ended
  have hnotice := hn.takesNotice h htree
  generalize ({ s with agenda := rest } : State).report (a ++ [i]) = t at hnotice ⊢
  cases hnotice with
  | sequence hseq hframe hbegun hbefore hafter =>
    unfold State.reportNext
    split
    · exact hpop.trans (.trans (.setStage _ _ _) (.of_statusAt fun _ => rfl))
    · refine h.windsDown_finish htree hn.at? hn.run hcancelled (fun j hj => ?_) fun j hj => ?_
      · have hlt := (h.control htree).lt_arity (h.shape htree) hn.jobAt (.inr (.inr (.inr hj)))
        rcases Nat.lt_trichotomy j i with hless | rfl | hmore
        · rw [hbefore j hless] at hj
          cases hj
        · rw [hkid, Option.some.injEq] at hj
          rw [hj] at hterminal
          cases hterminal
        · rw [hafter j hmore hlt] at hj
          cases hj
      · rw [statusAt_concat hn.at?, Option.map_eq_some_iff] at hj
        obtain ⟨other, hother, hstatus⟩ := hj
        exact ⟨other, List.mem_of_getElem? hother, hstatus⟩
  | branch hbranch hothers =>
    -- the chosen child has ended, and the others have been skipped
    have hended (j : Nat) (status : Status) (hj : s.statusAt (a ++ [j]) = some status) :
        status.isTerminal := by
      obtain ⟨other, hother, _⟩ := jobAt_of_statusAt hj
      have hlt := ((h.shape htree).arity a j job hn.jobAt).1 (by rw [hother]; rfl)
      by_cases hji : j = i
      · rw [hji, hkid, Option.some.injEq] at hj
        rwa [← hj]
      · rw [hothers j hlt hji, Option.some.injEq] at hj
        rw [← hj]
        rfl
    refine h.windsDown_finish htree hn.at? hn.run hcancelled (fun j hj => ?_) fun j hj => ?_
    · cases hended j _ hj
    · cases hended j _ hj
  | group hgroup hframe => exact hpop.trans (.reportOne ..)

/-- A run that is to end takes no time any more. -/
theorem agenda_ne_nil (h : Reached setup tree s none) (htree : tree.Sound)
    (hlimit : setup.limit ≠ 0) (hcancelled : s.cancelled = true) (hstep : s.step setup = some t) :
    s.agenda ≠ [] := by
  intro hagenda
  have hcontrol := h.control htree
  rcases step_cases hstep with ⟨task, rest, hcons, _⟩ | ⟨_, hroot, _⟩
  · rw [hagenda] at hcons
    cases hcons
  · have hstatus := statusAt_root s
    have hrun : s.root.status = .running := by
      cases hs : s.root.status with
      | running => rfl
      | pending =>
        refine absurd ⟨hs ▸ hstatus, ?_⟩ hcontrol.root
        rw [active_iff_of_agenda hagenda, hstatus, hs]
        decide
      | _ => exact absurd (by rw [hs]; rfl) hroot
    obtain ⟨b, call, _, hcall⟩ := exists_call hcontrol (h.shape htree) hlimit hagenda s.root []
      (Live.at?_nil ..) hrun
    obtain ⟨job', hjob', hstage⟩ := jobAt_of_callAt hcall
    have htold := (h.waiting htree hjob' hstage).cancelled hcancelled
    rw [h.not_told htree hagenda hcall] at htold
    cases htold

/-- A step of a run that is to end lets at most one node go on, and a step of the workflow only when
it is told. -/
theorem windsDown (h : Reached setup tree s none) (htree : tree.Sound) (hlimit : setup.limit ≠ 0)
    (hcancelled : s.cancelled = true) (hstep : s.step setup = some t) :
    ∃ hand, WindsDown hand s t ∧ ∀ a call, hand = some a → s.callAt a = some call →
      ∃ rest, s.agenda = .wake a :: rest ∧ t = { s with agenda := rest }.wake a := by
  obtain ⟨task, rest, hagenda⟩ :=
    List.exists_cons_of_ne_nil (h.agenda_ne_nil htree hlimit hcancelled hstep)
  obtain rfl := eq_perform_of_step hstep hagenda
  -- only a step that is told is in hand and waits for a call
  have hidle {a b : Address} {call : Call} {P : Prop} (hnone : s.callAt a = none)
      (hb : some a = some b) (hcall : s.callAt b = some call) : P := by
    rw [← Option.some.inj hb, hnone] at hcall
    cases hcall
  cases task with
  | enter a =>
    have hproper : Proper s none (.enter a) :=
      (h.control htree).proper _ (by rw [hagenda]; exact List.mem_cons_self)
    obtain ⟨job, hjob, hpending⟩ := jobAt_of_statusAt hproper.1
    have hnone := (h.control htree).callAt_eq_none hjob (.inr (by rw [hpending]; decide))
    exact ⟨some a, h.windsDown_enter htree hagenda hcancelled, fun _ _ => hidle hnone⟩
  | proceed a =>
    exact ⟨none, .of_statusAt fun b => statusAt_proceed { s with agenda := rest } setup a b,
      fun _ _ hb => by cases hb⟩
  | wake a =>
    refine ⟨some a, h.windsDown_wake htree hagenda hcancelled, fun b _ hb _ => ?_⟩
    rw [← Option.some.inj hb]
    exact ⟨rest, hagenda, rfl⟩
  | report b =>
    obtain ⟨a, hdown, hnone⟩ := h.windsDown_report htree hagenda hcancelled
    exact ⟨some a, hdown, fun _ _ => hidle hnone⟩
  | join a =>
    obtain ⟨hdown, hnone⟩ := h.windsDown_join htree hagenda hcancelled
    exact ⟨some a, hdown, fun _ _ => hidle hnone⟩

end Reached

/-! ## Steps whose calls end -/

/-- A step of a run that is to end ends as its call did when it is told, or is stopped. -/
theorem Reached.ends_of_wake {call : Call} (h : Reached setup tree s none) (rest : List Task)
    (htree : tree.Sound) (hcancelled : s.cancelled = true) (hcall : s.callAt a = some call) :
    ∃ job, ({ s with agenda := rest }.wake a).jobAt a = some job ∧
      job.status.isTerminal ∧ (call.outcome = none → job.entry.StoppedByRun) ∧
      ∀ outcome, call.outcome = some outcome → job.entry.EndsAs outcome := by
  obtain ⟨job, hjob, hstage⟩ := jobAt_of_callAt hcall
  have hmessage : s.stopMessage = Failure.runCancelled := if_pos hcancelled
  refine ⟨_, h.jobAt_wake rest htree hjob hstage, job.isTerminal_woken .., fun hnone => ?_,
    fun outcome houtcome => ?_⟩
  · rw [hmessage, hnone]
    exact ⟨rfl, rfl⟩
  · rw [houtcome]
    exact job.endsAs_woken ..

/-! ## Runs that are to end -/

/-- A change of a run that is to end starts no node. -/
theorem Changes.trace_of_cancelled (h : Changes setup doing s hand t after)
    (hr : Reached setup tree s hand) (htree : tree.Sound) (hcancelled : s.cancelled = true) :
    ∃ more, t.trace = s.trace ++ more ∧ ∀ e ∈ more, e.status ≠ .running := by
  refine (hr.changes_induction (P := fun u _ => u.cancelled = true ∧
    ∃ more, u.trace = s.trace ++ more ∧ ∀ e ∈ more, Event.status e ≠ .running) h
    ⟨hcancelled, [], by simp⟩ ?_).2
  rintro u v between next hreached hchange ⟨hu, more, htrace, hmore⟩
  refine ⟨hchange.cancelled hu, ?_⟩
  rcases hchange.move_or_quiet (hreached.shape htree) with
    ⟨b, c, f, target, message, _, _, hmove, heq⟩ | hquiet
  · obtain ⟨job, _, _, _, _, hevent⟩ := hmove.moved heq
    refine ⟨more ++ [_], by rw [hevent, htrace, List.append_assoc], fun e he => ?_⟩
    rcases List.mem_append.1 he with he | he
    · exact hmore e he
    · rw [List.mem_singleton] at he
      subst he
      change ((f job.entry).moved target u.now).status ≠ .running
      rw [Entry.status_moved]
      cases hmove with
      | begin _ hnot => rw [hu] at hnot; cases hnot
      | leave _ _ homitted =>
        rintro rfl
        have := homitted.isTerminal
        cases this
      | succeed => decide
      | fail => decide
      | stop => decide
  · exact ⟨more, by rw [hquiet.trace, htrace], hmore⟩

namespace Reached

theorem trace_runToEnd (h : Reached setup tree s none) (htree : tree.Sound)
    (hcancelled : s.cancelled = true) :
    ∃ more, (s.runToEnd setup).trace = s.trace ++ more ∧ ∀ e ∈ more, e.status ≠ .running := by
  fun_induction State.runToEnd s setup with
  | case1 s t hstep ih =>
    have hchanges := h.step htree hstep
    obtain ⟨first, hfirst, hnone⟩ := hchanges.trace_of_cancelled h htree hcancelled
    obtain ⟨more, hmore, hnone'⟩ :=
      ih (h.changes hchanges) (h.cancelled_of_step htree hcancelled hstep)
    refine ⟨first ++ more, by rw [hmore, hfirst, List.append_assoc], fun e he => ?_⟩
    rcases List.mem_append.1 he with he | he
    · exact hnone e he
    · exact hnone' e he
  | case2 s => exact ⟨[], by simp⟩

theorem now_runToEnd (h : Reached setup tree s none) (htree : tree.Sound)
    (hlimit : setup.limit ≠ 0) (hcancelled : s.cancelled = true) :
    (s.runToEnd setup).now = s.now := by
  fun_induction State.runToEnd s setup with
  | case1 s t hstep ih =>
    have hagenda := h.agenda_ne_nil htree hlimit hcancelled hstep
    rw [ih (h.changes (h.step htree hstep)) (h.cancelled_of_step htree hcancelled hstep),
      (h.advances htree hstep hagenda).now]
  | case2 => rfl

theorem pending_runToEnd (h : Reached setup tree s none) (htree : tree.Sound)
    (hlimit : setup.limit ≠ 0) (hcancelled : s.cancelled = true)
    (hpending : s.statusAt a = some .pending) :
    (s.runToEnd setup).statusAt a = some .pending ∨
      (s.runToEnd setup).statusAt a = some .cancelled := by
  fun_induction State.runToEnd s setup with
  | case1 s t hstep ih =>
    have hreached := h.changes (h.step htree hstep)
    obtain ⟨hand, hdown, _⟩ := h.windsDown htree hlimit hcancelled hstep
    rcases hdown.pending a hpending with hpending | hleft
    · exact ih hreached (h.cancelled_of_step htree hcancelled hstep) hpending
    · obtain ⟨job, hjob, hstatus⟩ := jobAt_of_statusAt hleft
      obtain ⟨job', hjob', hentry, _⟩ := hreached.entry_runToEnd htree hjob (by rw [hstatus]; rfl)
      refine .inr ?_
      rw [statusAt_of_jobAt hjob', Job.status, hentry]
      exact congrArg some hstatus
  | case2 => exact .inl hpending

/-- A running step waits for its call. -/
theorem exists_callAt (h : Reached setup tree s none) (htree : tree.Sound)
    (hjob : s.jobAt a = some job) (hrun : job.status = .running) (hkind : job.node.kind = .step) :
    ∃ call, s.callAt a = some call := by
  rw [callAt_of_jobAt hjob]
  cases ((h.control htree).node a job hjob).busy hrun nofun with
  | @calling call hstage => exact ⟨call, by rw [Job.call?, hstage]⟩
  | sequence _ hsequence => rw [hkind] at hsequence; cases hsequence
  | branch _ hbranch => rw [hkind] at hbranch; cases hbranch
  | group _ hgroup => rw [hkind] at hgroup; cases hgroup

end Reached

/-- A running step of a run that is to end is stopped, unless its call ends at this instant. -/
theorem running_runToEnd {steps : Nat} (htree : tree.Sound) (hlimit : setup.limit ≠ 0)
    (hs : s = (start setup tree).runWithin setup steps) (hcancelled : s.cancelled = true)
    (hjob : s.jobAt a = some job) (hrun : job.status = .running) (hkind : job.node.kind = .step) :
    ∃ job', (s.runToEnd setup).jobAt a = some job' ∧ (job'.entry.StoppedByRun ∨
      ∃ outcome, CallEnds setup tree a s.now outcome ∧ job'.entry.EndsAs outcome) := by
  have hstart : Reached setup tree (start setup tree) none := .start
  have hr : Reached setup tree s none := hs ▸ hstart.runWithin htree steps
  obtain ⟨call, hcall⟩ := hr.exists_callAt htree hjob hrun hkind
  fun_induction State.runToEnd s setup generalizing steps job call with
  | case1 s t hstep ih =>
    have hchanges := hr.step htree hstep
    have hreached := hr.changes hchanges
    obtain ⟨hand, hdown, hturn⟩ := hr.windsDown htree hlimit hcancelled hstep
    rcases hdown.kept a .running (hrun ▸ statusAt_of_jobAt hjob) (by decide) with
      ⟨hhand, _⟩ | hkept
    · -- the step is told
      obtain ⟨rest, _, rfl⟩ := hturn a call hhand hcall
      obtain ⟨ended, hended, hterminal, hstopped, hends⟩ :=
        hr.ends_of_wake rest htree hcancelled hcall
      obtain ⟨job', hjob', hentry, _⟩ := hreached.entry_runToEnd htree hended hterminal
      refine ⟨job', hjob', ?_⟩
      rw [hentry]
      cases houtcome : call.outcome with
      | none => exact .inl (hstopped houtcome)
      | some outcome =>
        refine .inr ⟨outcome, ?_, hends outcome houtcome⟩
        subst hs
        exact callEnds_runWithin htree steps hcall houtcome
    · -- another node's turn
      obtain ⟨job', hjob', hnode⟩ := hchanges.jobAt_some (hr.shape htree) hjob
      have hrun' : job'.status = .running := by
        rw [statusAt_of_jobAt hjob', Option.some.injEq] at hkept
        exact hkept
      have hkind' : job'.node.kind = .step := hnode ▸ hkind
      obtain ⟨call', hcall'⟩ := hreached.exists_callAt htree hjob' hrun' hkind'
      have ht : t = (start setup tree).runWithin setup (steps + 1) := by
        rw [runWithin_succ_of_step (hs ▸ hstep)]
      rw [← (hr.advances htree hstep (hr.agenda_ne_nil htree hlimit hcancelled hstep)).now]
      exact ih ht (hr.cancelled_of_step htree hcancelled hstep) hjob' hrun' hkind' hreached call'
        hcall'
  | case2 s hstep =>
    -- the step would have been told
    obtain ⟨job', hjob', hstage⟩ := jobAt_of_callAt hcall
    have htold := (hr.waiting htree hjob' hstage).cancelled hcancelled
    rw [hr.not_told htree (hr.agenda_eq_nil htree hstep) hcall] at htold
    cases htold

/-- What becomes of a state of a run in which the end of the run has been asked for. -/
structure Frozen (setup : Setup) (tree : Node) (u s : State) : Prop where
  /-- No time passes. -/
  now : s.now = u.now
  /-- Nothing starts. -/
  trace : ∃ more, s.trace = u.trace ++ more ∧ ∀ e ∈ more, e.status ≠ .running
  /-- What is pending is cancelled. -/
  pending : ∀ a, u.statusAt a = some .pending → s.statusAt a = some .cancelled
  /-- A running step is stopped, unless its call ends at this instant. -/
  running : ∀ a job, u.jobAt a = some job → job.status = .running → job.node.kind = .step →
    ∃ job', s.jobAt a = some job' ∧ (job'.entry.StoppedByRun ∨
      ∃ outcome, CallEnds setup tree a u.now outcome ∧ job'.entry.EndsAs outcome)
  /-- What has ended stays as it is. -/
  ended : ∀ a job, u.jobAt a = some job → job.status.isTerminal →
    ∃ job', s.jobAt a = some job' ∧ job'.entry = job.entry
  /-- The run comes to its end, and so do all nodes. -/
  finished : s.outcome = .finished s.result
  complete : ∀ a job, s.jobAt a = some job → job.status.isTerminal

/-- A run that is to end comes to its end at once. -/
theorem Final.frozen (h : Final setup tree s) (steps : Nat)
    (hcancelled : ((start setup tree).runWithin setup steps).cancelled = true) :
    Frozen setup tree ((start setup tree).runWithin setup steps) s := by
  have hstart : Reached setup tree (start setup tree) none := .start
  have hreached := hstart.runWithin h.sound steps
  have hend : ((start setup tree).runWithin setup steps).runToEnd setup = s := by
    rw [runToEnd_runWithin, h.eq_runToEnd]
  have hfinished : s.outcome = .finished s.result := by
    rcases h.finished_or_waits with hfinished | ⟨_, hwaits⟩
    · exact hfinished
    · have hlast := hreached.cancelled_runToEnd h.sound hcancelled
      rw [hend, hwaits.cancelled] at hlast
      cases hlast
  obtain ⟨_, status, hroot, hterminal⟩ := h.root_ended hfinished
  have hcomplete (a : Address) (job : Job) (hjob : s.jobAt a = some job) :
      job.status.isTerminal := h.reached.isTerminal h.sound hroot hterminal hjob
  refine ⟨?_, ?_, fun a hpending => ?_, fun a job hjob hrun hkind => ?_, fun a job hjob hended => ?_,
    hfinished, hcomplete⟩
  · rw [← hend]
    exact hreached.now_runToEnd h.sound h.limit hcancelled
  · rw [← hend]
    exact hreached.trace_runToEnd h.sound hcancelled
  · rcases hend ▸ hreached.pending_runToEnd h.sound h.limit hcancelled hpending with hleft | hleft
    · obtain ⟨job, hjob, hstatus⟩ := jobAt_of_statusAt hleft
      have := hcomplete a job hjob
      rw [hstatus] at this
      cases this
    · exact hleft
  · rw [← hend]
    exact running_runToEnd h.sound h.limit rfl hcancelled hjob hrun hkind
  · obtain ⟨job', hjob', hentry, _⟩ := hreached.entry_runToEnd h.sound hjob hended
    rw [hend] at hjob'
    exact ⟨job', hjob', hentry⟩

end State

/-- Once the end of a run has been asked for, before the start, in time or by a call, nothing starts,
what is pending is cancelled, running steps are stopped unless their calls end at that instant, and
every node comes to its end. -/
theorem Setup.frozen_of_execute {setup : Setup} {tree : Node} {separator : String}
    {ids rest : IdSource} {s : State} (htree : tree.Sound)
    (h : setup.execute tree separator ids = .ok (s, rest)) :
    ∃ prepared, tree.prepare separator setup.previous ids = .ok (prepared, rest) ∧
      ∀ steps, ((State.start setup prepared).runWithin setup steps).cancelled = true →
        State.Frozen setup prepared ((State.start setup prepared).runWithin setup steps) s := by
  obtain ⟨prepared, hprepare, hfinal⟩ := execute_final htree h
  exact ⟨prepared, hprepare, hfinal.frozen⟩

/-- An executor whose calls never answer, whatever they do before. -/
def Executor.silent (acts : List Act) : Executor where
  name := "SilentExecutor"
  call _ _ _ := ⟨acts, .never⟩

/-- A sequence whose first step asks for the end of the run is frozen once the step has done so. -/
theorem Setup.frozen_of_execute_sequence : ∃ setup s rest prepared,
    setup = ({ executor := .silent [.cancelRun] } : Setup) ∧
    setup.execute (.mk {} .sequence
      [.mk {} (.step "first" none) [], .mk {} (.step "second" none) []]) " > " .counting =
        .ok (s, rest) ∧
    ((State.start setup prepared).runWithin setup 4).cancelled = true ∧
    State.Frozen setup prepared ((State.start setup prepared).runWithin setup 4) s := by
  have hsound : (Node.mk {} .sequence
      [.mk {} (.step "first" none) [], .mk {} (.step "second" none) []]).Sound := by
    simp [Node.Sound, Node.walk, Node.walkList, Node.Fits, Node.work, Node.children, Work.limit]
  obtain ⟨s, rest, h⟩ : ∃ s rest, ({ executor := .silent [.cancelRun] } : Setup).execute
      (.mk {} .sequence [.mk {} (.step "first" none) [], .mk {} (.step "second" none) []])
      " > " .counting = .ok (s, rest) := ⟨_, _, rfl⟩
  obtain ⟨prepared, hprepare, hfrozen⟩ := frozen_of_execute hsound h
  have hcancelled : ((State.start { executor := .silent [.cancelRun] } prepared).runWithin
      { executor := .silent [.cancelRun] } 4).cancelled = true := by
    cases hprepare
    rfl
  exact ⟨_, s, rest, prepared, rfl, h, hcancelled, hfrozen 4 hcancelled⟩

/-- A step that runs when the end of the run is asked for need not be stopped although its call never
answers: if its deadline comes at the same instant, it fails. -/
theorem Setup.exists_failed_of_cancelled : ∃ setup s rest prepared,
    setup = ({ executor := .silent [], timeout := some (.int 1), cancelAt := some 1000000 } : Setup) ∧
    setup.execute (.mk {} (.step "agent" none) []) " > " .counting = .ok (s, rest) ∧
    (Node.mk {} (.step "agent" none) []).prepare " > " none .counting = .ok (prepared, rest) ∧
    ((State.start setup prepared).runWithin setup 4).cancelled = true ∧
    ((State.start setup prepared).runWithin setup 4).statusAt [] = some .running ∧
    (∀ agent earlier inputs, (setup.executor.call agent earlier inputs).ending = .never) ∧
    s.statusAt [] = some .failed := by
  refine ⟨_, _, _, _, rfl, rfl, rfl, rfl, rfl, fun _ _ _ => rfl, ?_⟩
  rw [Setup.run_eq 5 rfl]
  rfl

end Workflow
