import Workflow.Proofs.Run.Ends
import Workflow.Proofs.Run.Turn

/-!
# Nodes that are left out

A node that is skipped is skipped with everything below it, also in a run that has been cancelled
meanwhile, and a container that starts leaves nodes out by skipping them only.

* `State.Omission` says what is known of skipped nodes while nodes are left out one after the other, and
  `State.Reached.omission` that it holds in every state of a run.
* `State.Reached.skipped_below` says that everything below a skipped node is skipped.
* `State.Choosing` says what is known while a branch starts, and `State.Entering.skipped_or_entering` that each
  of its children is skipped then or is the next to start.
-/

namespace Workflow.State

variable {setup : Setup} {tree : Node} {s t : State} {hand after : Option Address} {doing : Doing}
  {a b p x : Address} {job : Job} {kids : List Live} {rest : List Task} {status : Status} {i : Nat}

/-- Above a node in hand everything runs. -/
theorem Control.not_hand_below (h : Control setup s (some (p ++ [i])))
    (hp : s.statusAt p = some .skipped) : False := by
  obtain ⟨job, hjob, hrun, _⟩ := h.parent (.inl rfl)
  rw [statusAt_of_jobAt hjob, hrun] at hp
  cases hp

/-- What lies right below a skipped node has been there before. -/
theorem Change.exists_kid_of_skipped (hchange : Change setup doing s hand t after)
    (htree : Shape tree s) (hp : s.statusAt p = some .skipped)
    (hkid : t.statusAt (p ++ [i]) = some status) : ∃ kid, s.jobAt (p ++ [i]) = some kid := by
  obtain ⟨job, hjob, hskipped⟩ := jobAt_of_statusAt hp
  obtain ⟨kid, hkid, _⟩ := jobAt_of_statusAt hkid
  obtain ⟨job', hjob'⟩ := jobAt_of_append hkid
  have harity := hchange.arity_eq htree hjob hjob' (by rw [hskipped]; decide)
  refine htree.exists_kid hjob ?_
  rw [← harity]
  exact ((htree.change hchange).arity p i job' hjob').1 (by rw [hkid]; rfl)

/-! ## Skipped nodes -/

/-- What is known of nodes that are skipped. -/
structure Omission (s : State) (hand : Option Address) : Prop where
  /-- What lies right below a skipped node is skipped or about to be left out. -/
  below : ∀ p i status, s.statusAt p = some .skipped → s.statusAt (p ++ [i]) = some status →
    status = .skipped ∨ status = .pending
  /-- In a cancelled run only a node that has failed leaves nodes out below a skipped node. -/
  failed : ∀ x p i, hand = some x → s.cancelled = true → x <+: p → s.statusAt p = some .skipped →
    s.statusAt (p ++ [i]) = some .pending → s.statusAt x = some .failed
  /-- In a cancelled run a branch that is taken up again has nothing left to choose from. -/
  branch : ∀ x job b, hand = some x → s.cancelled = true → s.jobAt x = some job →
    job.node.kind = .branch → job.status = .running → x <+: b → b ≠ x →
    s.statusAt b ≠ some .pending

namespace Omission

theorem start (setup : Setup) (tree : Node) : Omission (start setup tree) none := by
  refine ⟨fun p i status _ hstatus => ?_, fun _ _ _ hhand => (nomatch hhand),
    fun _ _ _ hhand => (nomatch hhand)⟩
  obtain ⟨kid, hkid, rfl⟩ := jobAt_of_statusAt hstatus
  obtain ⟨path, node, rfl, _⟩ := Live.jobAt_ofNode hkid
  exact .inr rfl

/-- Below a skipped node pending nodes are skipped. -/
theorem target_eq {f : Entry → Entry} {target : Status} {message : String}
    (h : Omission s (some x)) (hcontrol : Control setup s (some x))
    (hmove : Move setup doing s x (p ++ [i]) f target message)
    (hp : s.statusAt p = some .skipped) : target = .skipped := by
  have hne : p ++ [i] ≠ x := by
    rintro rfl
    exact hcontrol.not_hand_below hp
  generalize hb : p ++ [i] = b at hmove hne
  cases hmove with
  | leave hprefix hpending homitted =>
    have hxp : x <+: p := by
      rw [← hb] at hprefix
      rcases List.prefix_concat_iff.1 hprefix with heq | hxp
      · exact absurd (hb.symm.trans heq.symm) hne
      · exact hxp
    cases homitted with
    | cancelled => exact absurd rfl hne
    | stopped _ hstatus hend =>
      split
      · rename_i hcancelled
        have hfailed := h.failed x p i rfl hcancelled hxp hp (by rw [hb]; exact hpending)
        rw [hfailed, Option.some.injEq] at hstatus
        subst hstatus
        rcases hend with hend | hend <;> cases hend
      · rfl
    | _ => rfl
  | _ => exact absurd rfl hne

section Move

variable {f : Entry → Entry} {target : Status} {message : String} (h : Omission s (some x))
  (hmove : Move setup doing s x b f target message)
  (ht : t = (s.modifyEntry b f).move b target message)
include h hmove ht

theorem move_below (hcontrol : Control setup s (some x)) (hp : t.statusAt p = some .skipped)
    (hstatus : t.statusAt (p ++ [i]) = some status) : status = .skipped ∨ status = .pending := by
  have hstatuses := hmove.statusAt ht
  rw [hstatuses] at hp
  split at hp
  · rename_i hpb
    subst hpb
    rw [Option.some.injEq] at hp
    subst hp
    rw [hstatuses, if_neg (by simp)] at hstatus
    cases hmove with
    | leave _ hpending =>
      exact .inr (hcontrol.below_pending (List.prefix_append p [i]) hpending hstatus)
  · rw [hstatuses] at hstatus
    split at hstatus
    · rename_i hpb
      rw [Option.some.injEq] at hstatus
      subst hstatus hpb
      exact .inl (h.target_eq hcontrol hmove hp)
    · exact h.below p i status hp hstatus

theorem move_failed (hc : s.cancelled = true) (hxp : x <+: p) (hp : t.statusAt p = some .skipped)
    (hpending : t.statusAt (p ++ [i]) = some .pending) : t.statusAt x = some .failed := by
  have hstatuses := hmove.statusAt ht
  obtain ⟨_, hbefore⟩ := hmove.pending_before ht hpending
  rw [hstatuses] at hp
  split at hp
  · -- the node is skipped just now
    rename_i hpb
    subst hpb
    rw [Option.some.injEq] at hp
    subst hp
    generalize htarget : Status.skipped = target at hmove
    cases hmove with
    | leave _ hpendingSelf homitted =>
      cases homitted with
      | cancelled => cases htarget
      | lost hnot => rw [hc] at hnot; cases hnot
      | failed hpx hfailed => rw [hstatuses, if_neg (Ne.symm hpx), hfailed]
      | stopped => rw [if_pos hc] at htarget; cases htarget
      | notChosen hjob hrun hkind =>
        exact absurd hpendingSelf (h.branch x _ _ rfl hc hjob hkind hrun hxp (by simp))
    | _ => cases htarget
  · have hfailed := h.failed x p i rfl hc hxp hp hbefore
    rw [hstatuses]
    split
    · rename_i hxb
      obtain ⟨old, hold, hlegal, _⟩ := hmove.legal
      rw [hxb, statusAt_of_jobAt hold, Option.some.injEq] at hfailed
      rw [hfailed] at hlegal
      cases target <;> cases hlegal
    · exact hfailed

theorem move_branch {c : Address} (hc : s.cancelled = true) (hjob : t.jobAt x = some job)
    (hkind : job.node.kind = .branch) (hrun : job.status = .running) (hxc : x <+: c) (hcx : c ≠ x) :
    t.statusAt c ≠ some .pending := by
  obtain ⟨_, _, _, _, hjobs, _⟩ := hmove.moved ht
  intro hpending
  obtain ⟨_, hbefore⟩ := hmove.pending_before ht hpending
  rw [hjobs] at hjob
  split at hjob
  · rename_i hxb
    subst hxb
    rw [← Option.some.inj hjob, Job.status_moved] at hrun
    subst hrun
    cases hmove with
    | begin _ hnot => rw [hc] at hnot; cases hnot
    | leave _ _ homitted => exact absurd homitted.isTerminal (by decide)
  · exact h.branch x job c rfl hc hjob hkind hrun hxc hcx hbefore

theorem move (hcontrol : Control setup s (some x)) : Omission t (some x) := by
  have hcancelled : t.cancelled = s.cancelled := by
    rw [ht]
    exact cancelled_move ..
  refine ⟨fun p i status => h.move_below hmove ht hcontrol, fun y p i hy hc => ?_,
    fun y job c hy hc => ?_⟩
  · obtain rfl := Option.some.inj hy
    exact h.move_failed hmove ht (hcancelled ▸ hc)
  · obtain rfl := Option.some.inj hy
    exact h.move_branch hmove ht (hcancelled ▸ hc)

end Move

/-- A branch is taken up again when the child that it had chosen has ended, and nothing below it is
pending then. -/
theorem not_pending_of_report (hcontrol : Control setup s none) (hshape : Shape tree s)
    (hagenda : .report (a ++ [i]) ∈ s.agenda) (hjob : s.jobAt a = some job)
    (hkind : job.node.kind = .branch) (hab : a <+: b) (hba : b ≠ a) :
    s.statusAt b ≠ some .pending := by
  obtain ⟨_, ⟨status, hstatus, hterminal⟩, _⟩ := hcontrol.proper _ hagenda
  have hactive : Active s none (a ++ [i]) := .inr (.inr (.inl hagenda))
  obtain ⟨other, hother, hrun, _⟩ := hcontrol.parent hactive
  rw [hjob, Option.some.injEq] at hother
  subst hother
  obtain ⟨d, rfl⟩ := hab
  cases d with
  | nil => exact absurd (List.append_nil a) hba
  | cons j d =>
    intro hpending
    rw [List.append_cons] at hpending
    obtain ⟨below, hbelow, _⟩ := jobAt_of_statusAt hpending
    obtain ⟨kid, hkid⟩ := jobAt_of_append hbelow
    have hj : j < job.arity := (hshape.arity a j job hjob).1 (by rw [hkid]; rfl)
    have hi : i < job.arity := hcontrol.lt_arity hshape hjob hactive
    cases (hcontrol.node a job hjob).busy hrun (by simp) with
    | @branch frame k _ _ hk hchosen hothers =>
      have hik : i = k := by
        by_contra hne
        exact (hothers i hi hne).1.2 hactive
      by_cases hjk : j = k
      · rw [hjk, ← hik] at hpending
        exact hcontrol.closed_none (List.prefix_append _ d) hstatus hterminal hpending
      · exact hcontrol.closed_none (List.prefix_append _ d) (hothers j hj hjk).2 rfl hpending
    | calling _ hstep => rw [hkind] at hstep; cases hstep
    | sequence _ hsequence => rw [hkind] at hsequence; cases hsequence
    | group _ hgroup => rw [hkind] at hgroup; cases hgroup

/-- When a branch is taken up again, nothing below it is pending. -/
theorem not_pending_of_taken {after : Option Address} (hchange : Change setup doing s none t after)
    (hcontrol : Control setup s none) (hshape : Shape tree s) (hafter : after = some a)
    (hjob : s.jobAt a = some job) (hkind : job.node.kind = .branch) (hrun : job.status = .running)
    (hab : a <+: b) (hba : b ≠ a) : s.statusAt b ≠ some .pending := by
  cases hchange with
  | takeEnter hagenda =>
    obtain rfl := Option.some.inj hafter
    have hpending := (hcontrol.proper (.enter _) (by rw [hagenda]; exact List.mem_cons_self)).1
    rw [statusAt_of_jobAt hjob, hrun] at hpending
    cases hpending
  | takeReport hagenda =>
    obtain rfl := Option.some.inj hafter
    exact not_pending_of_report hcontrol hshape (by rw [hagenda]; exact List.mem_cons_self) hjob
      hkind hab hba
  | count hagenda hcounted hgroup =>
    split at hafter
    · obtain rfl := Option.some.inj hafter
      rw [hjob, Option.some.injEq] at hcounted
      rw [← hcounted, hkind] at hgroup
      cases hgroup
    · cases hafter
  | takeJoin hagenda =>
    obtain rfl := Option.some.inj hafter
    obtain ⟨other, _, hother, _, _, hgroup, _⟩ :=
      hcontrol.proper (.join _) (by rw [hagenda]; exact List.mem_cons_self)
    rw [hjob, Option.some.injEq] at hother
    rw [← hother, hkind] at hgroup
    cases hgroup
  | takeWake _ hcall =>
    obtain rfl := Option.some.inj hafter
    obtain ⟨other, hother, _, _, hstep, _⟩ := hcontrol.of_callAt hcall
    rw [hjob, Option.some.injEq] at hother
    rw [← hother, hkind] at hstep
    cases hstep
  | _ => cases hafter

/-- A change without a move takes no node in hand that could leave out nodes below a skipped one. -/
theorem quiet (h : Omission s hand) (hchange : Change setup doing s hand t after)
    (hcontrol : Control setup s hand) (hshape : Shape tree s) (hquiet : Quiet s t) :
    Omission t after := by
  refine ⟨fun p i status hp hstatus => ?_, fun x p i hx hc hxp hp hpending => ?_,
    fun x job b hx hc hjob hkind hrun hxb hbx hpending => ?_⟩
  · have hpOld := hquiet.statusAt_of_ne hp (by decide)
    by_cases hpending : status = .pending
    · exact .inr hpending
    · exact h.below p i status hpOld (hquiet.statusAt_of_ne hstatus hpending)
  · have hpOld := hquiet.statusAt_of_ne hp (by decide)
    obtain ⟨kid, hkid⟩ := hchange.exists_kid_of_skipped hshape hpOld hpending
    have hpendingOld : s.statusAt (p ++ [i]) = some .pending := by
      rw [← hquiet.statusAt hkid, hpending]
    cases hand with
    | none => exact absurd hpendingOld (hcontrol.closed_none (List.prefix_append p [i]) hpOld rfl)
    | some y =>
      subst hx
      obtain rfl := hchange.hand_eq
      rw [hchange.cancelled_eq (.inl rfl)] at hc
      have hfailed := h.failed x p i rfl hc hxp hpOld hpendingOld
      obtain ⟨old, hold, _⟩ := jobAt_of_statusAt hfailed
      rw [hquiet.statusAt hold, hfailed]
  · have hstatus : s.statusAt x = some .running :=
      hquiet.statusAt_of_ne (by rw [statusAt_of_jobAt hjob, hrun]) (by decide)
    obtain ⟨old, hold, hrunOld⟩ := jobAt_of_statusAt hstatus
    have hnode := hshape.node_eq (hshape.change hchange) hold hjob
    rw [hnode] at hkind
    have hpendingOld : s.statusAt b = some .pending := by
      cases hbOld : s.jobAt b with
      | some below => rw [← hquiet.statusAt hbOld, hpending]
      | none =>
        obtain ⟨below, hbelow, _⟩ := jobAt_of_statusAt hpending
        obtain ⟨y, _, _, loop, rfl, _, hloop, hloopKind, _⟩ :=
          hchange.exists_loop_of_new hcontrol hshape hbOld hbelow
        subst hx
        obtain rfl := hchange.hand_eq
        rw [hold, Option.some.injEq] at hloop
        rw [← hloop, hkind] at hloopKind
        cases hloopKind
    cases hand with
    | none =>
      exact not_pending_of_taken hchange hcontrol hshape hx hold hkind hrunOld hxb hbx hpendingOld
    | some y =>
      subst hx
      obtain rfl := hchange.hand_eq
      rw [hchange.cancelled_eq (.inl rfl)] at hc
      exact h.branch x old b rfl hc hold hkind hrunOld hxb hbx hpendingOld

theorem change (h : Omission s hand) (hchange : Change setup doing s hand t after)
    (hcontrol : Control setup s hand) (hshape : Shape tree s) : Omission t after := by
  rcases hchange.move_or_quiet hshape with ⟨a, b, f, target, message, rfl, rfl, hmove, ht⟩ | hquiet
  · exact h.move hmove ht hcontrol
  · exact h.quiet hchange hcontrol hshape hquiet

end Omission

theorem Reached.omission (h : Reached setup tree s hand) (htree : tree.Sound) : Omission s hand := by
  induction h with
  | start => exact .start setup tree
  | change hreached hchange ih =>
    exact ih.change hchange (hreached.control htree) (hreached.shape htree)

/-- Between tasks everything below a skipped node is skipped. -/
theorem Reached.skipped_below (h : Reached setup tree s none) (htree : tree.Sound) (hpb : p <+: b)
    (hp : s.statusAt p = some .skipped) (hjob : s.jobAt b = some job) : job.status = .skipped := by
  obtain ⟨c, rfl⟩ := hpb
  induction c using List.reverseRecOn generalizing job with
  | nil =>
    rw [List.append_nil] at hjob
    rwa [statusAt_of_jobAt hjob, Option.some.injEq] at hp
  | append_singleton c i ih =>
    rw [← List.append_assoc] at hjob
    obtain ⟨above, habove⟩ := jobAt_of_append hjob
    have hskipped : s.statusAt (p ++ c) = some .skipped := by
      rw [statusAt_of_jobAt habove, ih habove]
    rcases (h.omission htree).below _ i _ hskipped (statusAt_of_jobAt hjob) with hsame | hpending
    · exact hsame
    · refine absurd ?_ ((h.control htree).closed_none (List.prefix_append _ [i]) hskipped rfl)
      rw [statusAt_of_jobAt hjob, hpending]

/-! ## Branches that start -/

/-- What is known while the branch at an address starts: what lies below it waits or is skipped, and in
the end either the branch has ended or the child that it has chosen is the next to start. -/
structure Choosing (s : State) (hand : Option Address) (a : Address) : Prop where
  held : hand = some a ∨ hand = none
  cancelled : s.cancelled = false
  halted : ¬ s.Halted a
  below : ∀ i c status, s.statusAt (a ++ i :: c) = some status →
    status = .pending ∨ status = .skipped
  chosen : hand = none → (∃ status, s.statusAt a = some status ∧ status.isTerminal) ∨
    ∃ k rest, s.agenda = .enter (a ++ [k]) :: rest

namespace Choosing

variable {o : Opening}

theorem change_below (h : Choosing s hand a) (hchange : Change setup (.start a o) s hand t after)
    (hshape : Shape tree s) (c : Address) (hstatus : t.statusAt (a ++ i :: c) = some status) :
    status = .pending ∨ status = .skipped := by
  rcases hchange.move_or_quiet hshape with ⟨x, b, f, target, message, rfl, rfl, hmove, ht⟩ | hquiet
  · have hxa : x = a := by
      rcases h.held with hx | hx
      · exact Option.some.inj hx
      · cases hx
    subst hxa
    rw [hmove.statusAt ht] at hstatus
    split at hstatus
    · rename_i hb
      subst hb
      rw [Option.some.injEq] at hstatus
      subst hstatus
      generalize hb : x ++ i :: c = b at hmove
      have hbx : b ≠ x := by
        rw [← hb]
        simp
      cases hmove with
      | leave _ _ homitted =>
        cases homitted with
        | stopped => rw [h.cancelled]; exact .inr rfl
        | failed => exact .inr rfl
        | notChosen => exact .inr rfl
        | _ => exact absurd rfl hbx
      | _ => exact absurd rfl hbx
    · exact h.below i c status hstatus
  · by_cases hpending : status = .pending
    · exact .inl hpending
    · exact h.below i c status (hquiet.statusAt_of_ne hstatus hpending)

/-- The branch gives itself back when it has ended or has chosen a child. -/
theorem change_chosen {after : Option Address} (h : Choosing s hand a)
    (hchange : Change setup (.start a o) s hand t after) (hjob : s.jobAt a = some job)
    (hkind : job.node.kind = .branch) (hafter : after = none) :
    (∃ status, t.statusAt a = some status ∧ status.isTerminal) ∨
      ∃ k rest, t.agenda = .enter (a ++ [k]) :: rest := by
  have hself {x : Address} {other : Job} (hx : hand = some x) (hother : s.jobAt x = some other) :
      other.node.kind = .branch := by
    rcases h.held with ha | ha
    · rw [hx, Option.some.injEq] at ha
      rw [ha, hjob, Option.some.injEq] at hother
      rw [← hother, hkind]
    · rw [hx] at ha
      cases ha
  cases hchange with
  | @release x status hstatus hterminal =>
    rcases h.held with ha | ha
    · rw [Option.some.injEq] at ha
      refine .inl ⟨status, ?_, hterminal⟩
      rw [State.statusAt, jobAt_reported, ← ha]
      exact hstatus
    · cases ha
  | callOut agent own hstep _ hkindStep => rw [hself rfl hstep] at hkindStep; cases hkindStep
  | enterNext hseq _ hkindSeq => rw [hself rfl hseq] at hkindSeq; cases hkindSeq
  | @enterChosen x _ _ k =>
    rcases h.held with ha | ha
    · exact .inr ⟨k, s.agenda, by rw [← Option.some.inj ha]; rfl⟩
    · cases ha
  | fill hgroup _ hkindGroup => rw [hself rfl hgroup] at hkindGroup; cases hkindGroup
  | gather hgroup _ hkindGroup => rw [hself rfl hgroup] at hkindGroup; cases hkindGroup
  | @tell _ x =>
    rcases h.chosen hafter with ⟨status, hstatus, hterminal⟩ | ⟨k, rest, hagenda⟩
    · exact .inl ⟨status, by rw [statusAt_tell, hstatus], hterminal⟩
    · obtain ⟨more, hmore⟩ : ∃ more, (s.tell x).agenda = .enter (a ++ [k]) :: more := by
        cases hcall : s.callAt x with
        | none => exact ⟨rest, by rw [tell_of_callAt_eq_none _ _ hcall, hagenda]⟩
        | some call =>
          rw [agenda_tell _ _ hcall, hagenda]
          split
          · exact ⟨rest, rfl⟩
          · exact ⟨rest ++ [.wake x], rfl⟩
      exact .inr ⟨k, more, hmore⟩
  | takeReport _ _ _ hdoing => cases hdoing
  | count _ _ _ _ _ hdoing => cases hdoing
  | dropProceed _ _ hdoing => cases hdoing
  | ask _ _ _ _ _ hdoing => cases hdoing
  | goOn _ _ _ _ _ _ _ _ hdoing => cases hdoing
  | answer _ _ _ _ _ _ _ _ hdoing => cases hdoing
  | cancelRun hdoing => cases hdoing
  | tick _ hdoing => cases hdoing
  | _ => cases hafter

theorem change (h : Choosing s hand a) (hchange : Change setup (.start a o) s hand t after)
    (hshape : Shape tree s) (hjob : s.jobAt a = some job) (hkind : job.node.kind = .branch) :
    Choosing t after a where
  held := by
    rcases h.held with rfl | rfl
    · cases after with
      | none => exact .inr rfl
      | some b => exact .inl (by rw [hchange.hand_eq])
    · cases hchange with
      | takeEnter _ hdoing =>
        rw [Doing.start.injEq] at hdoing
        exact .inl (by rw [hdoing.1])
      | takeReport _ _ _ hdoing => cases hdoing
      | count _ _ _ _ _ hdoing => cases hdoing
      | takeJoin _ hdoing => cases hdoing
      | takeWake _ _ hdoing => cases hdoing
      | _ => exact .inr rfl
  cancelled := by
    rw [hchange.cancelled_eq (.inr (by simp)), h.cancelled]
  halted := by
    rcases hchange.winnerAt hshape with hsame | ⟨_, _, _, _, _, _, _, hdoing, _⟩
    · rw [halted_congr hsame]
      exact h.halted
    · cases hdoing
  below _ c _ hstatus := h.change_below hchange hshape c hstatus
  chosen := h.change_chosen hchange hjob hkind

end Choosing

namespace Entering

theorem choosing (h : Entering setup tree s a job kids rest) (htree : tree.Sound)
    (hkind : job.node.kind = .branch) :
    Choosing (({ s with agenda := rest } : State).enter setup a) none a := by
  have hstarted := h.started htree
  have hbegun : Choosing (({ s with agenda := rest } : State).move a .running "") (some a) a :=
    ⟨.inl rfl, hstarted.cancelled, hstarted.halted,
      fun i c status hstatus => .inl (hstarted.below i c status hstatus), fun hnone => (nomatch hnone)⟩
  obtain ⟨o, hchanges⟩ := h.changes htree
  refine (hstarted.reached.changes_induction (P := fun u between =>
    Choosing u between a ∧ ∃ job', u.jobAt a = some job' ∧ job'.node.kind = .branch) hchanges
    ⟨hbegun, _, hstarted.jobAt, hkind⟩ ?_).1
  rintro u v between next hu hchange ⟨hchoosing, old, hold, hbranch⟩
  have hshape := hu.shape htree
  obtain ⟨new, hnew, hnode⟩ := hchange.jobAt_some hshape hold
  exact ⟨hchoosing.change hchange hshape hold hbranch, new, hnew, by rw [hnode, hbranch]⟩

/-- When a branch has started, each of its children has been skipped or is the next to start. -/
theorem skipped_or_entering (h : Entering setup tree s a job kids rest) (htree : tree.Sound)
    (hkind : job.node.kind = .branch) (hreached : Reached setup tree t none)
    (ht : t = ({ s with agenda := rest } : State).enter setup a) {kid : Job}
    (hkid : t.jobAt (a ++ [i]) = some kid) :
    t.statusAt (a ++ [i]) = some .skipped ∨
      ∃ kids rest, Entering setup tree t (a ++ [i]) kid kids rest := by
  obtain ⟨job', hjob', hnot⟩ := h.not_pending htree
  have hchoosing := h.choosing htree hkind
  rw [← ht] at hjob' hchoosing
  have hcontrol := hreached.control htree
  have hshape := hreached.shape htree
  have hnode := (h.reached.shape htree).node_eq hshape h.jobAt hjob'
  have hbranch : job'.node.kind = .branch := by rw [hnode, hkind]
  have hkidStatus := statusAt_of_jobAt hkid
  rcases hchoosing.below i [] _ hkidStatus with hpending | hskipped
  · right
    have hopen {status : Status} (hstatus : t.statusAt a = some status) : ¬ status.isTerminal := by
      intro hterminal
      refine hcontrol.closed_none (List.prefix_append a [i]) hstatus hterminal ?_
      rw [hkidStatus, hpending]
    have hrun : job'.status = .running := by
      cases hstatus : job'.status with
      | pending => exact absurd hstatus hnot
      | running => rfl
      | _ => exact absurd rfl (hopen (by rw [statusAt_of_jobAt hjob', hstatus]))
    cases (hcontrol.node a job' hjob').busy hrun (by simp) with
    | @branch frame k _ _ hk hactive hothers =>
      have honly {j : Nat} (hj : Active t none (a ++ [j])) : j = k := by
        by_contra hjk
        exact (hothers j (hcontrol.lt_arity hshape hjob' hj) hjk).1.2 hj
      -- the pending child is the one that the branch has chosen
      have hik : i = k := by
        by_contra hne
        have hi : i < job'.arity := (hshape.arity a i job' hjob').1 (by rw [hkid]; rfl)
        rw [(hothers i hi hne).2, Option.some.injEq] at hkidStatus
        rw [← hkidStatus] at hpending
        cases hpending
      rcases hchoosing.chosen rfl with ⟨status, hstatus, hterminal⟩ | ⟨j, more, hagenda⟩
      · exact absurd hterminal (hopen hstatus)
      · have hjk := honly (.inr (.inl (by rw [hagenda]; exact List.mem_cons_self)))
        obtain ⟨kids', hkids'⟩ := at?_of_jobAt hkid
        have hwinner := hreached.winnerAt_eq_none htree hjob' (by rw [hbranch]; decide)
        exact ⟨kids', more, hreached, by rw [hagenda, hjk, hik], hkids', hpending,
          hchoosing.cancelled, fun hhalted => hchoosing.halted (Reached.halted_of_kid hwinner hhalted)⟩
    | calling _ hstep => rw [hbranch] at hstep; cases hstep
    | sequence _ hsequence => rw [hbranch] at hsequence; cases hsequence
    | group _ hgroup => rw [hbranch] at hgroup; cases hgroup
  · exact .inl (by rw [hkidStatus, hskipped])

end Entering
end Workflow.State
