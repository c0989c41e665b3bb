import Workflow.Proofs.Run.Control.Run
import Workflow.Run.Execute

/-!
# What changes do

A change either moves one node to another status or moves none.

* `State.Move` lists the moves with their reasons, and `State.Change.move_or_quiet` says that there
  are no others.
* `State.Change.active` says which nodes become active and which cease to be.
-/

namespace Workflow.State

variable {setup : Setup} {tree : Node} {s t : State} {hand after : Option Address} {doing : Doing}
  {a b : Address} {f : Entry → Entry} {target : Status} {message : String}

/-! ## Moves -/

/-- While the first node is in hand the second one is moved to the status with the message, after
its entry has been changed. -/
inductive Move (setup : Setup) (doing : Doing) (s : State) (a : Address) :
    Address → (Entry → Entry) → Status → String → Prop
  | begin {o : Opening} : s.statusAt a = some .pending → s.cancelled = false → ¬ s.Halted a →
      doing = .start a o → Move setup doing s a a id .running ""
  | leave {b : Address} {target : Status} : a <+: b → s.statusAt b = some .pending →
      Omitted s a b target → (∀ p i, b = p ++ [i] → b ≠ a → s.statusAt p ≠ some .pending) →
      Move setup doing s a b id target ""
  | succeed {job : Job} {kids : List Live} {output : Value} {message : String} :
      s.root.at? a = some (.mk job kids) → job.status = .running → doing.Fits s a job →
      Earned setup job kids output message →
      Move setup doing s a a (fun e => { e with output }) .succeeded message
  | fail {job : Job} {kids : List Live} {failure : Failure} : s.root.at? a = some (.mk job kids) →
      job.status = .running → Failing setup doing s a job kids failure →
      Move setup doing s a a (fun e => { e with error := some failure }) .failed ""
  | stop {job : Job} {kids : List Live} : s.root.at? a = some (.mk job kids) →
      job.status = .running → doing.Fits s a job → Stopped setup s a job kids →
      Move setup doing s a a
        (fun e => { e with error := some ⟨.cancelled, s.stopMessage, []⟩ }) .cancelled ""

/-- A move is one that the table of statuses has. -/
theorem Move.legal (h : Move setup doing s a b f target message) :
    ∃ job, s.jobAt b = some job ∧ job.status.canBecome target ∧
      (f job.entry).status = job.status := by
  cases h with
  | begin hpending =>
    obtain ⟨job, hjob, hstatus⟩ := jobAt_of_statusAt hpending
    exact ⟨job, hjob, by rw [hstatus]; rfl, rfl⟩
  | leave _ hpending homitted =>
    obtain ⟨job, hjob, hstatus⟩ := jobAt_of_statusAt hpending
    exact ⟨job, hjob, by rw [hstatus]; exact homitted.canBecome, rfl⟩
  | succeed hkids hrun => exact ⟨_, jobAt_of_at? hkids, by rw [hrun]; rfl, rfl⟩
  | fail hkids hrun => exact ⟨_, jobAt_of_at? hkids, by rw [hrun]; rfl, rfl⟩
  | stop hkids hrun => exact ⟨_, jobAt_of_at? hkids, by rw [hrun]; rfl, rfl⟩

theorem Move.prefix (h : Move setup doing s a b f target message) : a <+: b := by
  cases h with
  | leave hprefix => exact hprefix
  | _ => exact List.prefix_refl a

/-- No node becomes pending again. -/
theorem Move.target_ne (h : Move setup doing s a b f target message) : target ≠ .pending := by
  rintro rfl
  cases h with
  | leave _ _ homitted => exact absurd homitted.isTerminal (by decide)

/-- After a move the node has another status, the other nodes stay as they are, and the move has been
noted. -/
theorem Move.moved (h : Move setup doing s a b f target message)
    (ht : t = (s.modifyEntry b f).move b target message) :
    ∃ job, s.jobAt b = some job ∧ job.status.canBecome target ∧
      (f job.entry).status = job.status ∧
      (∀ c, t.jobAt c = if c = b then
        some (({ job with entry := f job.entry } : Job).moved target s.now) else s.jobAt c) ∧
      t.trace = s.trace ++ [eventOf ((f job.entry).moved target s.now) job.status s.now message] := by
  obtain ⟨job, hjob, hmove, hstatus⟩ := h.legal
  refine ⟨job, hjob, hmove, hstatus, ?_, ?_⟩
  · rw [ht]
    exact jobAt_modifyEntry_move hjob hmove hstatus message
  · rw [ht, trace, history_modifyEntry_move hjob hmove hstatus message]
    simp [trace, Occurrence.event?]

theorem Move.statusAt (h : Move setup doing s a b f target message)
    (ht : t = (s.modifyEntry b f).move b target message) (c : Address) :
    t.statusAt c = if c = b then some target else s.statusAt c := by
  obtain ⟨job, _, _, _, hjobs, _⟩ := h.moved ht
  rw [State.statusAt, hjobs]
  split
  · exact congrArg some (Job.status_moved ..)
  · rfl

/-- What is pending after a move has been so, and it is not the node that is moved. -/
theorem Move.pending_before {c : Address} (h : Move setup doing s a b f target message)
    (ht : t = (s.modifyEntry b f).move b target message) (hpending : t.statusAt c = some .pending) :
    c ≠ b ∧ s.statusAt c = some .pending := by
  rw [h.statusAt ht] at hpending
  split at hpending
  · exact absurd (Option.some.inj hpending) h.target_ne
  · exact ⟨‹_›, hpending⟩

/-! ## Changes without a move -/

/-- No node is moved, and those that are new have not started. -/
structure Quiet (s t : State) : Prop where
  /-- Of the entry of a node at most the inputs change, while it runs. -/
  entry : ∀ b job, s.jobAt b = some job → ∃ job', t.jobAt b = some job' ∧
    job'.node = job.node ∧ job'.entry = { job.entry with inputs := job'.entry.inputs } ∧
      (job.status ≠ .running → job'.entry = job.entry)
  fresh : ∀ b job', s.jobAt b = none → t.jobAt b = some job' → job'.entry.Unstarted
  trace : t.trace = s.trace

namespace Quiet

theorem refl (s : State) : Quiet s s :=
  ⟨fun _ job hjob => ⟨job, hjob, rfl, rfl, fun _ => rfl⟩,
    fun _ _ hnone hsome => by simp [hnone] at hsome, rfl⟩

theorem trans {u : State} (h : Quiet s t) (h' : Quiet t u) : Quiet s u := by
  refine ⟨fun b job hjob => ?_, fun b job hnone hjob => ?_, h'.trace.trans h.trace⟩
  · obtain ⟨job', hjob', hnode, hentry, hsame⟩ := h.entry b job hjob
    obtain ⟨job'', hjob'', hnode', hentry', hsame'⟩ := h'.entry b job' hjob'
    refine ⟨job'', hjob'', hnode'.trans hnode, ?_, fun hnot => ?_⟩
    · rw [hentry', hentry]
    · rw [hsame' (by rwa [Job.status, hsame hnot]), hsame hnot]
  · cases hmid : t.jobAt b with
    | none => exact h'.fresh b job hmid hjob
    | some mid =>
      obtain ⟨job', hjob', _, hentry, _⟩ := h'.entry b mid hmid
      rw [hjob, Option.some.injEq] at hjob'
      subst hjob'
      have hfresh := h.fresh b mid hnone hmid
      rw [hentry]
      exact ⟨hfresh.progress, hfresh.error, hfresh.output⟩

theorem statusAt (h : Quiet s t) {job : Job} (hjob : s.jobAt b = some job) :
    t.statusAt b = s.statusAt b := by
  obtain ⟨job', hjob', _, hentry, _⟩ := h.entry b job hjob
  rw [statusAt_of_jobAt hjob', statusAt_of_jobAt hjob, Job.status, hentry]
  rfl

/-- A node that has a status that a new node does not have has had it. -/
theorem statusAt_of_ne {status : Status} (h : Quiet s t) (hstatus : t.statusAt b = some status)
    (hne : status ≠ .pending) : s.statusAt b = some status := by
  obtain ⟨job', hjob', rfl⟩ := jobAt_of_statusAt hstatus
  cases hjob : s.jobAt b with
  | none => exact absurd (h.fresh b job' hjob hjob').status hne
  | some job => rw [← h.statusAt hjob, hstatus]

/-- A node is replaced by one with another stage. -/
theorem put {job job' : Job} (hjob : s.jobAt a = some job)
    (ht : ∀ b, t.jobAt b = if b = a then some job' else s.jobAt b) (hnode : job'.node = job.node)
    (hentry : job'.entry = { job.entry with inputs := job'.entry.inputs })
    (hsame : job.status ≠ .running → job'.entry = job.entry) (htrace : t.trace = s.trace) :
    Quiet s t := by
  refine ⟨fun b old hold => ?_, fun b new hnone hnew => ?_, htrace⟩
  · by_cases hb : b = a
    · subst hb
      rw [hjob, Option.some.injEq] at hold
      subst hold
      exact ⟨job', by rw [ht, if_pos rfl], hnode, hentry, hsame⟩
    · exact ⟨old, by rw [ht, if_neg hb, hold], rfl, rfl, fun _ => rfl⟩
  · rw [ht] at hnew
    split at hnew
    · rename_i hb
      rw [hb, hjob] at hnone
      cases hnone
    · rw [hnone] at hnew
      cases hnew

theorem setStage {job : Job} (stage : Stage) (hjob : s.jobAt a = some job)
    (htrace : t.trace = s.trace) (ht : ∀ b, t.jobAt b = (s.setStage a stage).jobAt b) :
    Quiet s t := by
  have hnode : ({ job with stage } : Job).node = job.node := rfl
  exact put hjob (fun b => (ht b).trans (jobAt_setStage_of_jobAt hjob stage b)) hnode rfl
    (fun _ => rfl) htrace

theorem tell (s : State) (a : Address) : Quiet s (s.tell a) := by
  refine ⟨fun b job hjob => ?_, fun b job hnone hjob => ?_, ?_⟩
  · rw [jobAt_tell, hjob]
    split
    · exact ⟨job.tell, rfl, Job.node_tell job, by rw [Job.entry_tell], fun _ => Job.entry_tell job⟩
    · exact ⟨job, rfl, rfl, rfl, fun _ => rfl⟩
  · rw [jobAt_tell, hnone] at hjob
    split at hjob <;> cases hjob
  · rw [State.trace, history_tell, State.trace]

theorem cancelRun (s : State) : Quiet s s.cancelRun := by
  refine cancelRun_induction (P := Quiet s) s (refl s) ?_ fun t b h => h.trans (tell t b)
  exact ⟨(refl s).entry, (refl s).fresh, rfl⟩

/-- What the table and the history do not show is no move. -/
theorem of_same (hjobs : ∀ b, t.jobAt b = s.jobAt b) (htrace : t.trace = s.trace) : Quiet s t := by
  refine ⟨fun b job hjob => ⟨job, by rw [hjobs, hjob], rfl, rfl, fun _ => rfl⟩,
    fun b job hnone hjob => ?_, htrace⟩
  rw [hjobs, hnone] at hjob
  cases hjob

end Quiet

/-- A change moves one node, at or below the node in hand, or none. -/
theorem Change.move_or_quiet (hchange : Change setup doing s hand t after)
    (hshape : Shape tree s) :
    (∃ a b f target message, hand = some a ∧ after = some a ∧
      Move setup doing s a b f target message ∧
      t = (s.modifyEntry b f).move b target message) ∨ Quiet s t := by
  cases hchange with
  | @begin a o hpending hcancelled hhalted hdoing =>
    refine .inl ⟨a, a, id, .running, "", rfl, rfl, .begin hpending hcancelled hhalted hdoing, ?_⟩
    rw [modifyEntry_id]
  | @leave a b target hprefix hpending homitted hparent =>
    refine .inl ⟨a, b, id, target, "", rfl, rfl, .leave hprefix hpending homitted hparent, ?_⟩
    rw [modifyEntry_id]
  | succeed hkids hrun hfits hearned =>
    exact .inl ⟨_, _, _, _, _, rfl, rfl, .succeed hkids hrun hfits hearned, rfl⟩
  | fail hkids hrun hfailing =>
    exact .inl ⟨_, _, _, _, _, rfl, rfl, .fail hkids hrun hfailing, rfl⟩
  | stop hkids hrun hfits hstopped =>
    exact .inl ⟨_, _, _, _, _, rfl, rfl, .stop hkids hrun hfits hstopped, rfl⟩
  | @bindStep a job inputs hjob hrun =>
    have hbound := jobAt_modifyEntry_of_jobAt hjob fun e => { e with inputs }
    exact .inr (.put hjob hbound rfl rfl (fun hnot => absurd hrun hnot) rfl)
  | release =>
    refine .inr (.of_same (fun b => jobAt_reported ..) ?_)
    unfold reported
    split <;> rfl
  | host frame hjob => exact .inr (.setStage _ hjob rfl fun _ => rfl)
  | @expand a job frame hjob hrun hkind harity hwinner hwinner' =>
    right
    have hexp : Expansion s a job frame _ := ⟨hjob, hrun, hkind, harity, hwinner, hwinner', rfl⟩
    obtain ⟨body, hbody⟩ := (hshape.sound _ _ hjob).exists_body hkind
    refine ⟨fun b old hold => ?_, fun b new hnone hnew => ?_, rfl⟩
    · by_cases hb : b = a
      · subst hb
        rw [hjob, Option.some.injEq] at hold
        subst hold
        exact ⟨_, hexp.jobAt_self, rfl, rfl, fun _ => rfl⟩
      · exact ⟨old, by rw [Control.jobAt_old hshape hexp hb hold, hold], rfl, rfl, fun _ => rfl⟩
    · rcases hexp.cases hbody hnew with ⟨_, hold⟩ | ⟨rfl, _⟩ | ⟨i, c, rfl, _, hfresh⟩
      · rw [hnone] at hold
        cases hold
      · rw [hjob] at hnone
        cases hnone
      · obtain ⟨path, node, rfl, _⟩ := Live.jobAt_ofNode hfresh
        exact ⟨rfl, rfl, rfl⟩
  | callOut agent timeout hjob => exact .inr (.setStage _ hjob rfl fun _ => rfl)
  | @count a i job frame kid rest hagenda hjob =>
    refine .inr (.put hjob (jobAt_counted hjob rest frame i kid) rfl rfl (fun _ => rfl) ?_)
    unfold counted
    split <;> rfl
  | takeWake hagenda hcall =>
    obtain ⟨job, hjob, _⟩ := jobAt_of_callAt hcall
    exact .inr (.setStage _ hjob rfl fun _ => rfl)
  | ask inputs hcall =>
    obtain ⟨job, hjob, _⟩ := jobAt_of_callAt hcall
    refine .inr (.setStage _ hjob ?_ fun _ => rfl)
    change (List.filterMap _ (_ :: s.history).reverse) = List.filterMap _ s.history.reverse
    rw [List.reverse_cons, List.filterMap_append]
    exact List.append_nil _
  | goOn acts wakeAt agenda hcall =>
    obtain ⟨job, hjob, _⟩ := jobAt_of_callAt hcall
    exact .inr (.setStage _ hjob rfl fun _ => rfl)
  | answer outcome wakeAt deadline agenda hcall =>
    obtain ⟨job, hjob, _⟩ := jobAt_of_callAt hcall
    exact .inr (Quiet.trans (t := ({ s with agenda } : State).setStage _ (.calling _))
      (.setStage _ hjob rfl fun _ => rfl) (.tell _ _))
  | tell => exact .inr (.tell _ _)
  | cancelRun => exact .inr (.cancelRun _)
  | _ => exact .inr (.of_same (fun _ => rfl) rfl)

/-- New nodes lie below a loop in hand that has had no instances. -/
theorem Change.exists_loop_of_new (hchange : Change setup doing s hand t after)
    (hcontrol : Control setup s hand) (hshape : Shape tree s) (hnone : s.jobAt b = none)
    {job : Job} (hsome : t.jobAt b = some job) : ∃ a i c loop, hand = some a ∧ b = a ++ i :: c ∧
      s.jobAt a = some loop ∧ loop.node.kind = .loop ∧ loop.status = .running ∧ loop.arity = 0 := by
  rcases hchange.fixed with hsame | ⟨a, loop, frame, hexp, _⟩
  · have hfixed := hsame b
    rw [hnone, hsome] at hfixed
    cases hfixed
  · obtain ⟨body, hbody⟩ := (hshape.sound a loop hexp.jobAt).exists_body hexp.kind
    have hhand : hand = some a := by
      by_contra hne
      cases (hcontrol.node a loop hexp.jobAt).busy hexp.status hne with
      | group _ _ hgroup => exact absurd hgroup.arity (by rw [hexp.arity]; decide)
      | calling _ hkind => rw [hexp.kind] at hkind; cases hkind
      | sequence _ hkind => rw [hexp.kind] at hkind; cases hkind
      | branch _ hkind => rw [hexp.kind] at hkind; cases hkind
    rcases hexp.cases hbody hsome with ⟨_, hold⟩ | ⟨rfl, _⟩ | ⟨i, c, rfl, _⟩
    · rw [hnone] at hold
      cases hold
    · rw [hexp.jobAt] at hnone
      cases hnone
    · exact ⟨a, i, c, loop, hhand, rfl, hexp.jobAt, hexp.kind, hexp.status, hexp.arity⟩

/-- While calls go on no node is moved. -/
theorem Changes.quiet_of_call (h : Changes setup .call s none t after) (hr : Reached setup tree s none)
    (htree : tree.Sound) : Quiet s t := by
  refine (hr.changes_induction (P := fun u between => between = none ∧ Quiet s u) h
    ⟨rfl, .refl s⟩ ?_).2
  rintro u v between next hreached hchange ⟨rfl, hu⟩
  refine ⟨?_, hu.trans ?_⟩
  · cases hchange with
    | takeEnter _ hdoing => cases hdoing
    | takeReport _ _ _ hdoing => cases hdoing
    | count _ _ _ _ _ hdoing => cases hdoing
    | takeJoin _ hdoing => cases hdoing
    | takeWake _ _ hdoing => cases hdoing
    | _ => rfl
  · rcases hchange.move_or_quiet (hreached.shape htree) with ⟨_, _, _, _, _, hhand, _⟩ | hquiet
    · cases hhand
    · exact hquiet

/-! ## Nodes that begin and cease to be active -/

/-- How a change affects whether a node is active. -/
inductive ActiveEffect (s : State) (hand : Option Address) (t : State) (after : Option Address)
    (b : Address) : Prop
  | same : (Active t after b ↔ Active s hand b) → ActiveEffect s hand t after b
  /-- The node is about to start. -/
  | start : Active t after b → s.statusAt b = some .pending → t.statusAt b = some .pending →
      ActiveEffect s hand t after b
  /-- The root has ended. -/
  | root : b = [] → ActiveEffect s hand t after b
  /-- The node above a node that has ended takes notice, and goes on or ends. -/
  | report {p : Address} {i : Nat} {job : Job} : hand = none → b = p ++ [i] →
      s.jobAt p = some job → job.node.kind = .sequence ∨ job.node.kind = .branch →
      ¬ Active t after b → ActiveEffect s hand t after b
  /-- The node above a node that has ended counts it. -/
  | count {p : Address} {i : Nat} {job : Job} {frame : Frame} {kid : Live} {rest : List Task} :
      hand = none → b = p ++ [i] → s.jobAt p = some job → job.node.kind.isGroup = true →
      job.frame? = some frame → s.root.at? b = some kid → t = s.counted rest p job frame i kid →
      ¬ Active t after b → ActiveEffect s hand t after b

/-- What does not concern the start and the end of nodes makes no difference to who is active. -/
theorem active_putCall (a : Address) (call : Call) (agenda : List Task)
    (hfilter : agenda.filter (fun task => !task.isProceed) =
      s.agenda.filter fun task => !task.isProceed) :
    Active (({ s with agenda } : State).setStage a (.calling call)) hand b ↔
      Active s hand b := by
  have hmem (task : Task) (htask : task.isProceed = false) :
      task ∈ agenda ↔ task ∈ s.agenda :=
    mem_iff_of_filter hfilter (by rw [htask]; rfl)
  refine active_congr (hmem _ rfl) (hmem _ rfl) ?_
  rw [statusAt_setStage]
  rfl

/-- The node in hand is still active when it has come to its end. -/
theorem active_end {job : Job} (message : String) (hjob : s.jobAt a = some job)
    (hrun : job.status = .running) (hstatus : (f job.entry).status = job.status)
    (htarget : Status.running.canBecome target) (b : Address) :
    Active ((s.modifyEntry a f).move a target message) (some a) b ↔ Active s (some a) b := by
  have hmove : job.status.canBecome target := by rwa [hrun]
  exact active_put (jobAt_modifyEntry_move hjob hmove hstatus message) (agenda_move ..) b

theorem active_tell (s : State) (hand : Option Address) (a b : Address) :
    Active (s.tell a) hand b ↔ Active s hand b := by
  cases hcall : s.callAt a with
  | none => rw [tell_of_callAt_eq_none _ _ hcall]
  | some call =>
    have hagenda := agenda_tell _ _ hcall
    refine active_congr ?_ ?_ (by rw [statusAt_tell])
    · rw [hagenda]
      split <;> simp
    · rw [hagenda]
      split <;> simp

theorem active_cancelRun (s : State) (hand : Option Address) (b : Address) :
    Active s.cancelRun hand b ↔ Active s hand b :=
  cancelRun_induction (P := fun t => Active t hand b ↔ Active s hand b) s Iff.rfl Iff.rfl
    fun t a ht => (active_tell t hand a b).trans ht

section Report

variable {i : Nat} {job : Job} {rest : List Task}

/-- The child whose report is taken ceases to be active, and no other node does. -/
theorem Control.active_takeReport (hcontrol : Control setup s none) (hshape : Shape tree s)
    (hagenda : s.agenda = .report (a ++ [i]) :: rest) (hjob : s.jobAt a = some job)
    (hkind : job.node.kind = .sequence ∨ job.node.kind = .branch) :
    ActiveEffect s none { s with agenda := rest } (some a) b := by
  by_cases hb : b = a ++ [i]
  · refine .report rfl hb hjob hkind ?_
    rw [hb]
    exact (hcontrol.takeReport hshape hagenda hjob hkind).inactive_below_hand (List.cons_ne_nil i [])
  · have hkid : Active s none (a ++ [i]) :=
      .inr (.inr (.inl (by rw [hagenda]; exact List.mem_cons_self)))
    obtain ⟨job', hjob', hrun, _⟩ := hcontrol.parent hkid
    refine .same (Control.active_rest (t := { s with agenda := rest }) hagenda rfl (fun _ => rfl)
      ?_ ?_)
    · rw [statusAt_of_jobAt hjob', hrun]
    · simp [Ne.symm hb]

/-- The child that is counted ceases to be active, and the one that waits first becomes active. -/
theorem Control.active_count {frame : Frame} {kid : Live} (hcontrol : Control setup s none)
    (hshape : Shape tree s) (hagenda : s.agenda = .report (a ++ [i]) :: rest)
    (hjob : s.jobAt a = some job) (hkind : job.node.kind.isGroup = true)
    (hframe : job.frame? = some frame) (hkid : s.root.at? (a ++ [i]) = some kid) :
    ActiveEffect s none (s.counted rest a job frame i kid) (if frame.left = 1 then some a else none)
      b := by
  have hr := hcontrol.reporting hshape hagenda hjob hkind hframe
  have hactive := hr.active_iff hcontrol kid b
  by_cases hb : b = a ++ [i]
  · refine .count rfl hb hjob hkind hframe (hb ▸ hkid) rfl ?_
    rw [hb, hr.active_kid_iff hcontrol]
    rintro (⟨hne, _⟩ | ⟨hlt, heq⟩)
    · exact hne rfl
    · exact hr.begun_ne hlt heq.symm
  · by_cases hnext : frame.begun < job.arity ∧ b = a ++ [frame.begun]
    · have hpending := (hr.group.waiting _ (Nat.le_refl _) hnext.1).1
      rw [← hnext.2] at hpending
      exact .start (hactive.2 (.inr hnext)) hpending ((statusAt_counted ..).trans hpending)
    · exact .same (hactive.trans ((or_iff_left hnext).trans (and_iff_right hb)))

end Report

/-- A change makes nodes active only as they are about to start, and lets them be active no longer
only when notice is taken of their ends. -/
theorem Change.active (hchange : Change setup doing s hand t after)
    (hcontrol : Control setup s hand) (hshape : Shape tree s) (b : Address) :
    ActiveEffect s hand t after b := by
  cases hchange with
  | takeEnter hagenda => exact .same (Control.active_takeEnter hagenda b)
  | begin hpending =>
    obtain ⟨job, hjob, hstatus⟩ := jobAt_of_statusAt hpending
    have hmove : job.status.canBecome .running := by rw [hstatus]; rfl
    exact .same (active_put (jobAt_move hjob hmove "") (agenda_move ..) b)
  | leave _ hpending homitted => exact .same (Control.active_move hpending homitted b)
  | @bindStep a job inputs hjob =>
    have hstatus : (s.modifyEntry a fun e => { e with inputs }).statusAt b = s.statusAt b :=
      statusAt_modifyEntry s a b fun _ => rfl
    exact .same (active_congr Iff.rfl Iff.rfl (by rw [hstatus]))
  | succeed hkids hrun => exact .same (active_end _ (jobAt_of_at? hkids) hrun rfl rfl b)
  | fail hkids hrun => exact .same (active_end _ (jobAt_of_at? hkids) hrun rfl rfl b)
  | stop hkids hrun => exact .same (active_end _ (jobAt_of_at? hkids) hrun rfl rfl b)
  | release hstatus hterminal =>
    by_cases hb : b = []
    · exact .root hb
    · exact .same (Control.active_reported s hb)
  | host frame hjob => exact .same (active_congr Iff.rfl Iff.rfl (by rw [statusAt_setStage]))
  | expand frame hjob hrun hkind harity hwinner hwinner' =>
    exact .same (Control.active_expand hshape ⟨hjob, hrun, hkind, harity, hwinner, hwinner', rfl⟩ b)
  | callOut agent timeout hjob hrun => exact .same (Control.active_callOut hjob hrun _ b)
  | @enterNext a job frame k hjob hrun hkind _ hframe hbegun hk hbefore hafter =>
    have hactive := Control.active_next_enter hjob hrun k b
    by_cases hb : b = a ++ [k]
    · have hpending := hafter k (Nat.le_refl k) hk
      rw [← hb] at hpending
      exact .start (hactive.2 (.inl hb)) hpending hpending
    · exact .same (hactive.trans (or_iff_right hb))
  | @enterChosen a job frame k hjob hrun hkind _ hframe hk hpending =>
    have hactive := Control.active_next_enter hjob hrun k b
    by_cases hb : b = a ++ [k]
    · rw [← hb] at hpending
      exact .start (hactive.2 (.inl hb)) hpending hpending
    · exact .same (hactive.trans (or_iff_right hb))
  | @fill a job frame hjob hrun hkind _ hframe hbegun hleft harity hkids =>
    have hactive := Control.active_fill frame.begun hjob hrun b
    by_cases hb : ∃ i, i < frame.begun ∧ b = a ++ [i]
    · obtain ⟨i, hi, rfl⟩ := hb
      have hpending := hkids i (by omega)
      exact .start (hactive.2 (.inl ⟨i, hi, rfl⟩)) hpending hpending
    · exact .same (hactive.trans (or_iff_right hb))
  | gather hjob hrun => exact .same (Control.active_later_join hjob hrun b)
  | takeReport hagenda hjob hkind => exact hcontrol.active_takeReport hshape hagenda hjob hkind
  | count hagenda hjob hkind hframe hkid =>
    exact hcontrol.active_count hshape hagenda hjob hkind hframe hkid
  | @takeJoin a rest hagenda =>
    obtain ⟨job, frame, hjob, hrun, _⟩ :=
      hcontrol.proper (.join a) (by rw [hagenda]; exact List.mem_cons_self)
    refine .same (Control.active_rest (t := { s with agenda := rest }) hagenda rfl (fun _ => rfl)
      ?_ (by simp))
    rw [statusAt_of_jobAt hjob, hrun]
  | takeWake hagenda hcall =>
    obtain ⟨job, hjob, hrun, _⟩ := hcontrol.of_callAt hcall
    refine .same (Control.active_rest hagenda rfl (fun _ => ?_) ?_ (by simp))
    · rw [statusAt_setStage]
      rfl
    · rw [statusAt_of_jobAt hjob, hrun]
  | dropProceed hagenda =>
    refine .same (active_congr ?_ ?_ Iff.rfl)
    · rw [hagenda]
      simp
    · rw [hagenda]
      simp
  | ask inputs hcall => exact .same (active_putCall _ _ s.agenda rfl)
  | goOn acts wakeAt agenda hcall _ hfilter => exact .same (active_putCall _ _ agenda hfilter)
  | answer outcome wakeAt deadline agenda hcall _ _ hagenda =>
    refine .same ((active_tell ..).trans (active_putCall _ _ agenda ?_))
    rcases hagenda with heq | heq
    · rw [heq]
    · rw [heq, List.filter_cons]
      rfl
  | tell => exact .same (active_tell ..)
  | cancelRun => exact .same (active_cancelRun ..)
  | tick => exact .same Iff.rfl

/-! ## What lasts -/

/-- Nodes do not vanish. -/
theorem Change.jobAt_some (hchange : Change setup doing s hand t after)
    (hshape : Shape tree s) {job : Job} (hjob : s.jobAt b = some job) :
    ∃ job', t.jobAt b = some job' ∧ job'.node = job.node := by
  rcases hchange.move_or_quiet hshape with ⟨a, c, f, target, message, _, _, hmove, ht⟩ | hquiet
  · obtain ⟨old, hold, _, _, hjobs, _⟩ := hmove.moved ht
    by_cases hb : b = c
    · subst hb
      rw [hjob, Option.some.injEq] at hold
      subst hold
      refine ⟨({ job with entry := f job.entry } : Job).moved target s.now, ?_, rfl⟩
      rw [hjobs, if_pos rfl]
    · exact ⟨job, by rw [hjobs, if_neg hb, hjob], rfl⟩
  · obtain ⟨job', hjob', hnode, _⟩ := hquiet.entry b job hjob
    exact ⟨job', hjob', hnode⟩

/-- A node that was there before does the same work. -/
theorem Change.node_eq (hchange : Change setup doing s hand t after) (hshape : Shape tree s)
    {old new : Job} (hold : s.jobAt b = some old) (hnew : t.jobAt b = some new) :
    new.node = old.node := by
  obtain ⟨job, hjob, hnode⟩ := hchange.jobAt_some hshape hold
  obtain rfl : new = job := Option.some.inj (hnew.symm.trans hjob)
  exact hnode

theorem Changes.jobAt_some (h : Changes setup doing s hand t after) (hshape : Shape tree s) {job : Job}
    (hjob : s.jobAt b = some job) : ∃ job', t.jobAt b = some job' ∧ job'.node = job.node := by
  refine (h.induction (P := fun u _ => Shape tree u ∧ ∃ job', u.jobAt b = some job' ∧
    job'.node = job.node) ⟨hshape, job, hjob, rfl⟩ ?_).2
  rintro u v between next ⟨hu, old, hold, hnode⟩ hchange
  obtain ⟨new, hnew, hnode'⟩ := hchange.jobAt_some hu hold
  exact ⟨hu.change hchange, new, hnew, hnode'.trans hnode⟩

/-- A node that has ended stays as it has ended. -/
theorem Change.statusAt_of_isTerminal (hchange : Change setup doing s hand t after)
    (hshape : Shape tree s) {status : Status} (hstatus : s.statusAt b = some status)
    (hterminal : status.isTerminal) : t.statusAt b = some status := by
  obtain ⟨job, hjob, rfl⟩ := jobAt_of_statusAt hstatus
  rcases hchange.move_or_quiet hshape with ⟨a, c, f, target, message, _, _, hmove, ht⟩ | hquiet
  · rw [hmove.statusAt ht]
    split
    · rename_i hb
      subst hb
      obtain ⟨old, hold, hlegal, _⟩ := hmove.legal
      rw [hjob, Option.some.injEq] at hold
      subst hold
      rw [Status.isTerminal, List.isEmpty_iff] at hterminal
      rw [Status.canBecome, hterminal] at hlegal
      cases hlegal
    · exact hstatus
  · rw [hquiet.statusAt hjob, hstatus]

/-- What is pending stays so unless it is the node in hand or lies below it. -/
theorem Change.pending_stays {status : Status} (hchange : Change setup doing s hand t after)
    (hshape : Shape tree s) (hpending : ∀ status, s.statusAt b = some status → status = .pending)
    (hhand : ∀ x, hand = some x → ¬ x <+: b) (hstatus : t.statusAt b = some status) :
    status = .pending := by
  rcases hchange.move_or_quiet hshape with ⟨x, c, f, target, message, hx, _, hmove, ht⟩ | hquiet
  · rw [hmove.statusAt ht, if_neg] at hstatus
    · exact hpending status hstatus
    · rintro rfl
      exact hhand x hx hmove.prefix
  · by_contra hne
    exact hne (hpending status (hquiet.statusAt_of_ne hstatus hne))

/-- What is pending has been so. -/
theorem Change.pending_before {job : Job} (hchange : Change setup doing s hand t after)
    (hshape : Shape tree s) (hjob : s.jobAt b = some job) (hpending : t.statusAt b = some .pending) :
    s.statusAt b = some .pending := by
  rcases hchange.move_or_quiet hshape with ⟨x, c, f, target, message, _, _, hmove, ht⟩ | hquiet
  · exact (hmove.pending_before ht hpending).2
  · rwa [hquiet.statusAt hjob] at hpending

/-- A change adds at most one event to the trace. -/
theorem Change.trace_cases (hchange : Change setup doing s hand t after) (hshape : Shape tree s) :
    t.trace = s.trace ∨ ∃ x, t.trace = s.trace ++ [x] := by
  rcases hchange.move_or_quiet hshape with ⟨a, b, f, target, message, _, _, hmove, ht⟩ | hquiet
  · obtain ⟨_, _, _, _, _, htrace⟩ := hmove.moved ht
    exact .inr ⟨_, htrace⟩
  · exact .inl hquiet.trace

/-- What has happened stays in the trace. -/
theorem Change.trace_prefix (hchange : Change setup doing s hand t after) (hshape : Shape tree s) :
    s.trace <+: t.trace := by
  rcases hchange.trace_cases hshape with hsame | ⟨x, hmore⟩
  · rw [hsame]
  · rw [hmore]
    exact List.prefix_append ..

/-- The wish to end the run lasts. -/
theorem Change.cancelled (hchange : Change setup doing s hand t after)
    (h : s.cancelled = true) : t.cancelled = true := by
  cases hchange with
  | begin => rwa [cancelled_move]
  | leave => rwa [cancelled_move]
  | succeed => exact (cancelled_move ..).trans h
  | fail => exact (cancelled_move ..).trans h
  | stop => exact (cancelled_move ..).trans h
  | release => rwa [cancelled_reported]
  | count =>
    unfold counted
    split
    · exact h
    · exact h
  | answer => exact (cancelled_tell ..).trans h
  | tell => rwa [cancelled_tell]
  | cancelRun =>
    rw [State.cancelRun, if_pos h]
    exact h
  | _ => exact h

/-- Only calls ask for the end of the run, and only while no node is in hand. -/
theorem Change.cancelled_eq (hchange : Change setup doing s hand t after)
    (h : hand.isSome ∨ doing ≠ .call) : t.cancelled = s.cancelled := by
  cases hchange with
  | begin => exact cancelled_move ..
  | leave => exact cancelled_move ..
  | succeed => exact cancelled_move ..
  | fail => exact cancelled_move ..
  | stop => exact cancelled_move ..
  | release => exact cancelled_reported ..
  | count =>
    unfold counted
    split <;> rfl
  | answer => exact cancelled_tell ..
  | tell => exact cancelled_tell ..
  | cancelRun hcall =>
    rcases h with h | h
    · cases h
    · exact absurd hcall h
  | _ => rfl

end Workflow.State
