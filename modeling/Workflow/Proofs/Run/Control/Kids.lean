import Workflow.Proofs.Run.Control.Call

/-!
# Changes of children

The invariant goes on to hold when nodes are left without a start, when a loop gets its instances,
and when a node counts that one of its children has ended.
-/

namespace Workflow.State.Control

variable {setup : Setup} {tree : Node} {s t : State} {hand : Option Address} {a x y : Address}
  {job : Job} {frame : Frame} {rest : List Task} {target : Status}

/-! ## Nodes that are left without a start -/

/-- A node that is left without a start is as active as before. -/
theorem active_move (hpending : s.statusAt y = some .pending) (homitted : Omitted s x y target)
    (b : Address) : Active (s.move y target "") hand b ↔ Active s hand b := by
  obtain ⟨job, hjob, hstatus⟩ := jobAt_of_statusAt hpending
  have hmove : job.status.canBecome target := by rw [hstatus]; exact homitted.canBecome
  have hterminal := homitted.isTerminal
  refine active_congr (by rw [agenda_move]) (by rw [agenda_move]) ?_
  rw [statusAt_move hjob hmove]
  split
  · rename_i hb
    rw [hb, hpending]
    refine iff_of_false ?_ (by simp)
    rintro heq
    rw [Option.some.injEq] at heq
    subst heq
    cases hterminal
  · rfl

/-- What is known when a pending node below the node in hand is left without a start. -/
structure Leaving (s : State) (x y : Address) (job : Job) (target : Status) : Prop where
  below : x <+: y
  ne : y ≠ x
  jobAt : s.jobAt y = some job
  pending : job.status = .pending
  omitted : Omitted s x y target

namespace Leaving

variable (hl : Leaving s x y job target)

include hl

theorem canBecome : job.status.canBecome target := by
  rw [hl.pending]
  exact hl.omitted.canBecome

theorem statusAt_eq : s.statusAt y = some .pending := by
  rw [statusAt_of_jobAt hl.jobAt, hl.pending]

theorem target_ne : target ≠ .pending ∧ target ≠ .running := by
  have hterminal := hl.omitted.isTerminal
  constructor <;> rintro rfl <;> cases hterminal

theorem jobAt_self : (s.move y target "").jobAt y = some (job.moved target s.now) := by
  rw [jobAt_move hl.jobAt hl.canBecome, if_pos rfl]

theorem jobAt_ne {b : Address} (hb : b ≠ y) : (s.move y target "").jobAt b = s.jobAt b := by
  rw [jobAt_move hl.jobAt hl.canBecome, if_neg hb]

theorem statusAt_ne {b : Address} (hb : b ≠ y) :
    (s.move y target "").statusAt b = s.statusAt b := by
  rw [statusAt, hl.jobAt_ne hb, statusAt]

theorem active_iff (b : Address) : Active (s.move y target "") (some x) b ↔ Active s (some x) b :=
  active_move hl.statusAt_eq hl.omitted b

/-- The node that is left is not active. -/
theorem inactive (h : Control setup s (some x)) : ¬ Active s (some x) y := by
  obtain ⟨c, rfl⟩ := hl.below
  refine h.inactive_below_hand ?_
  rintro rfl
  exact hl.ne (List.append_nil x)

/-- Nothing waits for a pending node but the progress of a call. -/
theorem proper (h : Control setup s (some x)) {task : Task} (htask : task ∈ s.agenda) :
    Proper (s.move y target "") (some x) task := by
  have hproper := h.proper task htask
  by_cases haddress : task.address = y
  · rcases hproper.of_pending (haddress ▸ hl.statusAt_eq) with heq | heq
    · rw [heq, haddress] at htask
      exact absurd (.inr (.inl htask)) (hl.inactive h)
    · rw [heq, haddress]
      exact ⟨_, hl.jobAt_self⟩
  · exact hproper.of_job (hl.jobAt_ne haddress) hproper.hand_ne

/-- The node that is left fits its children: it waits for nothing. -/
theorem local_self (h : Control setup s (some x)) :
    Local setup (s.move y target "") (some x) y (job.moved target s.now) := by
  have hnot : job.status ≠ .running := by
    rw [hl.pending]
    decide
  refine ⟨fun _ => ⟨((h.node y job hl.jobAt).quiet (.inl hnot)).1, fun i => ?_⟩, fun hp => ?_,
    fun hrun => ?_⟩
  · rw [hl.active_iff]
    exact h.inactive_below hl.jobAt hnot (List.cons_ne_nil i [])
  · rw [Job.status_moved] at hp
    exact absurd hp hl.target_ne.1
  · rw [Job.status_moved] at hrun
    exact absurd hrun hl.target_ne.2

/-- The node above is in hand or does not run, so that it expects nothing of the child. -/
theorem local_parent {p : Address} {i : Nat} {other : Job} (h : Control setup s (some x))
    (hp : y = p ++ [i]) (hother : s.jobAt p = some other) (hpending : other.status ≠ .pending) :
    Local setup (s.move y target "") (some x) p other := by
  have hlocal := h.node p other hother
  have hwaits : other.status ≠ .running ∨ some x = some p := by
    by_cases hpx : p = x
    · exact .inr (by rw [hpx])
    · refine .inl fun hrun => ?_
      rcases List.prefix_concat_iff.1 (hp ▸ hl.below) with heq | ⟨c, rfl⟩
      · exact hl.ne (hp.trans heq.symm)
      · refine h.inactive_below_hand (a := x) (c := c) ?_ ?_
        · rintro rfl
          exact hpx (List.append_nil x)
        · exact .inr (.inr (.inr (by rw [statusAt_of_jobAt hother, hrun])))
  refine ⟨fun hquiet => ⟨(hlocal.quiet hquiet).1, fun j => ?_⟩, fun hp => absurd hp hpending,
    fun hrun hhand => ?_⟩
  · rw [hl.active_iff]
    exact (hlocal.quiet hquiet).2 j
  · exact hwaits.elim (absurd hrun) fun heq => absurd heq hhand

/-- Only a branch leaves nodes without a start while it runs. -/
theorem branch_of_running {held : Job} (hheld : s.jobAt x = some held)
    (hrun : held.status = .running) : held.node.kind = .branch := by
  have hnot {status : Status} (hx : s.statusAt x = some status) (hstatus : status ≠ .running) :
      held.node.kind = .branch := by
    rw [statusAt_of_jobAt hheld, hrun, Option.some.injEq] at hx
    exact absurd hx.symm hstatus
  cases hl.omitted with
  | cancelled => exact absurd rfl hl.ne
  | lost => exact absurd rfl hl.ne
  | failed _ hx => exact hnot hx (by decide)
  | stopped _ hx hor => exact hnot hx (by rcases hor with rfl | rfl <;> decide)
  | notChosen hx _ hbranch =>
    rw [hheld, Option.some.injEq] at hx
    rw [hx]
    exact hbranch

/-- Pending nodes below a node that has ended are below the node in hand. -/
theorem closed (h : Control setup s (some x)) {b c : Address} (hcb : c <+: b)
    (hc : ∃ status, (s.move y target "").statusAt c = some status ∧ status.isTerminal)
    (hb : (s.move y target "").statusAt b = some .pending) :
    ∃ z held, some x = some z ∧ (s.move y target "").jobAt z = some held ∧ z <+: b ∧
      (held.status = .running → held.node.kind = .branch) := by
  have hby : b ≠ y := by
    rintro rfl
    rw [statusAt_of_jobAt hl.jobAt_self, Job.status_moved, Option.some.injEq] at hb
    exact hl.target_ne.1 hb
  rw [hl.statusAt_ne hby] at hb
  obtain ⟨held, hheld⟩ := h.held x rfl
  have hself : (s.move y target "").jobAt x = some held := by
    rw [hl.jobAt_ne (Ne.symm hl.ne)]
    exact hheld
  by_cases hcy : c = y
  · subst hcy
    exact ⟨x, held, rfl, hself, hl.below.trans hcb, hl.branch_of_running hheld⟩
  · rw [hl.statusAt_ne hcy] at hc
    obtain ⟨z, old, hz, hold, hzb, hbranch⟩ := h.closed c b hcb hc hb
    obtain rfl : x = z := Option.some.inj hz
    obtain rfl : held = old := Option.some.inj (hheld.symm.trans hold)
    exact ⟨x, held, rfl, hself, hzb, hbranch⟩

/-- A pending node below the node in hand is left without a start. -/
theorem control (h : Control setup s (some x))
    (hparent : ∀ p i, y = p ++ [i] → s.statusAt p ≠ some .pending) :
    Control setup (s.move y target "") (some x) := by
  constructor
  · rw [fault_move_eq hl.jobAt hl.canBecome]
    exact h.sound
  · intro b hb
    rw [hl.jobAt_ne fun hby => hl.inactive h (hby ▸ .inl hb)]
    exact h.held b hb
  · rw [agenda_move]
    exact fun task => hl.proper h
  · rw [agenda_move]
    exact h.single
  · intro b other hother
    by_cases hb : b = y
    · subst hb
      rw [hl.jobAt_self, Option.some.injEq] at hother
      subst hother
      exact hl.local_self h
    · rw [hl.jobAt_ne hb] at hother
      by_cases hkid : ∃ i, y = b ++ [i]
      · obtain ⟨i, hi⟩ := hkid
        refine hl.local_parent h hi hother fun hp => hparent b i hi ?_
        rw [statusAt_of_jobAt hother, hp]
      · have hsame : SameKids s (some x) (s.move y target "") (some x) b := fun i =>
          ⟨hl.active_iff _, fun _ => hl.statusAt_ne fun heq => hkid ⟨i, heq.symm⟩⟩
        refine (h.node b other hother).congr Iff.rfl hsame ?_ ?_
        · rw [agenda_move]
          exact id
        · rw [agenda_move]
          exact id
  · exact fun c b hcb hc hb => hl.closed h hcb hc hb
  · rintro ⟨hp, hroot⟩
    rw [hl.active_iff] at hroot
    have hy : [] ≠ y := by
      rintro rfl
      exact hl.ne (List.prefix_nil.1 hl.below).symm
    rw [hl.statusAt_ne hy] at hp
    exact h.root ⟨hp, hroot⟩

end Leaving

/-- A pending node at or below the node in hand is left without a start. -/
theorem leave (h : Control setup s (some x)) (hxy : x <+: y)
    (hpending : s.statusAt y = some .pending) (homitted : Omitted s x y target)
    (hparent : ∀ p i, y = p ++ [i] → y ≠ x → s.statusAt p ≠ some .pending) :
    Control setup (s.move y target "") (some x) := by
  obtain ⟨job, hjob, hstatus⟩ := jobAt_of_statusAt hpending
  by_cases hyx : y = x
  · subst hyx
    have hterminal := homitted.isTerminal
    have hmove : job.status.canBecome target := by rw [hstatus]; exact homitted.canBecome
    have hcall := h.call?_hand hjob
    refine h.put hjob (jobAt_move hjob hmove "") (agenda_move ..) (fault_move_eq hjob hmove "") hcall
      ?_ rfl ?_
    · rw [Job.status_moved]
      rintro rfl
      cases hterminal
    · rw [Job.status_moved]
      rintro rfl
      cases hterminal
  · exact Leaving.control ⟨hxy, hyx, hjob, hstatus, homitted⟩ h fun p i hp => hparent p i hp hyx

/-! ## Instances -/

/-- An instance that is new has not started. -/
theorem job_new (hexp : Expansion s x job frame t) {body : Node}
    (hbody : job.node.children = [body]) {i : Nat} {c : Address} {new : Job}
    (hjob : t.jobAt (x ++ i :: c) = some new) : new.status = .pending ∧ new.stage = .idle := by
  rw [hexp.jobAt_below hbody] at hjob
  split at hjob
  · obtain ⟨path, node, rfl, _⟩ := Live.jobAt_ofNode hjob
    exact ⟨rfl, rfl⟩
  · cases hjob

/-- Other nodes that there are stay as they are. -/
theorem jobAt_old (hshape : Shape tree s) (hexp : Expansion s x job frame t) {b : Address}
    {old : Job} (hb : b ≠ x) (hold : s.jobAt b = some old) : t.jobAt b = s.jobAt b := by
  refine hexp.jobAt_of_not_prefix ?_
  rintro ⟨c, rfl⟩
  cases c with
  | nil => exact hb (List.append_nil x)
  | cons i c =>
    rw [hshape.jobAt_below_eq_none hexp.jobAt hexp.arity] at hold
    cases hold

/-- Instances that are new are not active. -/
theorem active_expand (hshape : Shape tree s) (hexp : Expansion s x job frame t) (b : Address) :
    Active t hand b ↔ Active s hand b := by
  obtain ⟨body, hbody⟩ := (hshape.sound x job hexp.jobAt).exists_body hexp.kind
  have hagenda : t.agenda = s.agenda := by rw [hexp.eq]; rfl
  refine active_congr (by rw [hagenda]) (by rw [hagenda]) ?_
  by_cases hb : b = x
  · rw [hb, statusAt_of_jobAt hexp.jobAt_self, statusAt_of_jobAt hexp.jobAt]
    rfl
  · constructor
    · intro hrun
      obtain ⟨new, hjob, hstatus⟩ := jobAt_of_statusAt hrun
      rcases hexp.cases hbody hjob with ⟨_, hold⟩ | ⟨hbx, _⟩ | ⟨i, c, rfl, _⟩
      · rw [statusAt_of_jobAt hold, hstatus]
      · exact absurd hbx hb
      · rw [(job_new hexp hbody hjob).1] at hstatus
        cases hstatus
    · intro hrun
      obtain ⟨old, hold, _⟩ := jobAt_of_statusAt hrun
      rw [statusAt, jobAt_old hshape hexp hb hold, ← statusAt]
      exact hrun

/-- What has ended is no instance that is new, nor below one. -/
theorem ended_before (hshape : Shape tree s) (hexp : Expansion s x job frame t) {c : Address}
    {status : Status} (hc : t.statusAt c = some status) (hterminal : status.isTerminal) :
    ¬ x <+: c ∧ s.statusAt c = some status := by
  obtain ⟨body, hbody⟩ := (hshape.sound x job hexp.jobAt).exists_body hexp.kind
  obtain ⟨ended, hended, rfl⟩ := jobAt_of_statusAt hc
  rcases hexp.cases hbody hended with ⟨hxc, hold⟩ | ⟨_, rfl⟩ | ⟨i, d, rfl, _⟩
  · exact ⟨hxc, statusAt_of_jobAt hold⟩
  · change job.status.isTerminal = true at hterminal
    rw [hexp.status] at hterminal
    cases hterminal
  · rw [(job_new hexp hbody hended).1] at hterminal
    cases hterminal

section Expand

variable (h : Control setup s (some x)) (hshape : Shape tree s) (hexp : Expansion s x job frame t)

include h hshape hexp

theorem inactive_new (i : Nat) (c : Address) : ¬ Active t (some x) (x ++ i :: c) := by
  rw [active_expand hshape hexp]
  exact h.inactive_below_hand (List.cons_ne_nil i c)

/-- Every node fits its children: the loop is in hand, and its instances have not started. -/
theorem local_expand {b : Address} {other : Job} (hother : t.jobAt b = some other) :
    Local setup t (some x) b other := by
  obtain ⟨body, hbody⟩ := (hshape.sound x job hexp.jobAt).exists_body hexp.kind
  have hagenda : t.agenda = s.agenda := by rw [hexp.eq]; rfl
  rcases hexp.cases hbody hother with ⟨hxb, hold⟩ | ⟨rfl, rfl⟩ | ⟨i, c, rfl, _, _⟩
  · have hsame : SameKids s (some x) t (some x) b := by
      refine fun i => ⟨active_expand hshape hexp _, fun hinactive => ?_⟩
      rw [statusAt, hexp.jobAt_of_not_prefix, statusAt]
      intro hprefix
      rcases List.prefix_concat_iff.1 hprefix with rfl | hprefix
      · exact hinactive (.inl rfl)
      · exact hxb hprefix
    refine (h.node b other hold).congr Iff.rfl hsame ?_ ?_
    · rw [hagenda]
      exact id
    · rw [hagenda]
      exact id
  · refine ⟨fun _ => ⟨rfl, fun i => h.inactive_new hshape hexp i []⟩, fun hp => ?_,
      fun _ hhand => absurd rfl hhand⟩
    cases hexp.status.symm.trans hp
  · obtain ⟨hpending, hidle⟩ := job_new hexp hbody hother
    refine ⟨fun _ => ⟨by rw [Job.call?, hidle], fun j => ?_⟩, fun _ => ⟨hidle, ?_⟩, fun hrun => ?_⟩
    · rw [List.append_assoc]
      exact h.inactive_new hshape hexp i (c ++ [j])
    · intro j status hstatus
      obtain ⟨kid, hkid, rfl⟩ := jobAt_of_statusAt hstatus
      rw [List.append_assoc] at hkid
      exact (job_new hexp hbody hkid).1
    · rw [hpending] at hrun
      cases hrun

/-- Nothing pending lies below a node that has ended. -/
theorem not_pending_below {b c : Address} {status : Status} (hcb : c <+: b)
    (hc : t.statusAt c = some status) (hterminal : status.isTerminal) :
    t.statusAt b ≠ some .pending := by
  intro hb
  obtain ⟨hxc, hold⟩ := ended_before hshape hexp hc hterminal
  by_cases hxb : x <+: b
  · -- the node that has ended would lie above the loop
    obtain ⟨d, rfl⟩ := (List.prefix_or_prefix_of_prefix hcb hxb).resolve_right hxc
    have hd : d ≠ [] := by
      rintro rfl
      exact hxc (by rw [List.append_nil])
    rw [h.statusAt_above hd (.inl rfl), Option.some.injEq] at hold
    subst hold
    cases hterminal
  · rw [statusAt, hexp.jobAt_of_not_prefix hxb, ← statusAt] at hb
    obtain ⟨z, _, hz, _, hzb, _⟩ := h.closed c b hcb ⟨status, hold, hterminal⟩ hb
    rw [Option.some.injEq] at hz
    exact hxb (hz ▸ hzb)

/-- The loop in hand gets its instances. -/
theorem expand : Control setup t (some x) := by
  have hagenda : t.agenda = s.agenda := by rw [hexp.eq]; rfl
  have hkeep (b : Address) (hb : b ≠ x) (hsome : ∃ old, s.jobAt b = some old) :
      t.jobAt b = s.jobAt b := by
    obtain ⟨old, hold⟩ := hsome
    exact jobAt_old hshape hexp hb hold
  constructor
  · rw [hexp.eq]
    exact h.sound
  · intro b hb
    rw [Option.some.injEq] at hb
    exact ⟨_, hb ▸ hexp.jobAt_self⟩
  · rw [hagenda]
    intro task htask
    have hproper := h.proper task htask
    exact hproper.of_hand (fun hb => hkeep _ hb hproper.exists_job) hexp.jobAt_self (.inl rfl)
  · rw [hagenda]
    exact h.single
  · exact fun b other => h.local_expand hshape hexp
  · rintro c b hcb ⟨status, hc, hterminal⟩ hb
    exact absurd hb (h.not_pending_below hshape hexp hcb hc hterminal)
  · rintro ⟨hp, hroot⟩
    rw [active_expand hshape hexp] at hroot
    refine h.root ⟨?_, hroot⟩
    have hx : [] ≠ x := by
      rintro rfl
      exact hroot (.inl rfl)
    obtain ⟨root, hjob, _⟩ := hshape.root
    rwa [statusAt, hkeep [] hx ⟨root, hjob⟩] at hp

end Expand

/-! ## Children that have ended -/

/-- The group that a running node with several children is. -/
theorem group_of_kind (h : Control setup s hand) (hjob : s.jobAt a = some job)
    (hrun : job.status = .running) (hhand : hand ≠ some a)
    (hkind : job.node.kind.isGroup = true) :
    ∃ frame, job.stage = .hosting frame ∧ Group setup s hand a job frame := by
  cases (h.node a job hjob).busy hrun hhand with
  | calling _ hstep => rw [hstep] at hkind; cases hkind
  | sequence _ hseq => rw [hseq] at hkind; cases hkind
  | branch _ hbranch => rw [hbranch] at hkind; cases hkind
  | group hstage _ hgroup => exact ⟨_, hstage, hgroup⟩

/-- What is known when a child of a node that runs several reports that it has ended. -/
structure Reporting (setup : Setup) (s : State) (a : Address) (i : Nat) (job : Job) (frame : Frame)
    (rest : List Task) : Prop where
  agenda : s.agenda = .report (a ++ [i]) :: rest
  jobAt : s.jobAt a = some job
  run : job.status = .running
  stage : job.stage = .hosting frame
  kind : job.node.kind.isGroup = true
  group : Group setup s none a job frame
  /-- The child has ended and is active. -/
  ended : ∃ status, s.statusAt (a ++ [i]) = some status ∧ status.isTerminal
  active : Active s none (a ++ [i])
  lt_arity : i < job.arity

theorem reporting {i : Nat} (h : Control setup s none) (hshape : Shape tree s)
    (hagenda : s.agenda = .report (a ++ [i]) :: rest) (hjob : s.jobAt a = some job)
    (hkind : job.node.kind.isGroup = true) (hframe : job.frame? = some frame) :
    Reporting setup s a i job frame rest := by
  have hmem : .report (a ++ [i]) ∈ s.agenda := by rw [hagenda]; exact List.mem_cons_self
  have hkid : Active s none (a ++ [i]) := .inr (.inr (.inl hmem))
  obtain ⟨job', hjob', hrun, hhand⟩ := h.parent hkid
  rw [hjob, Option.some.injEq] at hjob'
  subst hjob'
  obtain ⟨frame', hstage, hgroup⟩ := h.group_of_kind hjob hrun hhand hkind
  rw [stage_of_frame? hframe, Stage.hosting.injEq] at hstage
  subst hstage
  exact ⟨hagenda, hjob, hrun, stage_of_frame? hframe, hkind, hgroup, (h.proper _ hmem).2.1, hkid,
    h.lt_arity hshape hjob hkid⟩

namespace Reporting

variable {i : Nat} (hr : Reporting setup s a i job frame rest)

include hr

theorem frame?_eq : job.frame? = some frame := by
  rw [Job.frame?, hr.stage]

theorem statusAt_eq : s.statusAt a = some .running := by
  rw [statusAt_of_jobAt hr.jobAt, hr.run]

/-- The child that waits first is another one. -/
theorem begun_ne (hlt : frame.begun < job.arity) : frame.begun ≠ i := by
  rintro heq
  have := (hr.group.waiting _ (Nat.le_refl _) hlt).2
  rw [heq] at this
  exact this hr.active

/-- The child that has reported is no longer active, and the next one is if there is one. -/
theorem active_iff (h : Control setup s none) (kid : Live) (b : Address) :
    Active (s.counted rest a job frame i kid) (if frame.left = 1 then some a else none) b ↔
      (b ≠ a ++ [i] ∧ Active s none b) ∨ (frame.begun < job.arity ∧ b = a ++ [frame.begun]) := by
  obtain ⟨status, hstatus, hterminal⟩ := hr.ended
  unfold Active
  rw [mem_agenda_counted, mem_agenda_counted, statusAt_counted, hr.agenda]
  simp only [List.mem_cons, reduceCtorEq, and_false, or_false, false_or, Task.enter.injEq,
    Task.report.injEq]
  constructor
  · rintro (hb | (hb | hb) | hb | hb)
    · split at hb
      · rw [Option.some.injEq] at hb
        subst hb
        exact .inl ⟨by simp, .inr (.inr hr.statusAt_eq)⟩
      · cases hb
    · refine .inl ⟨?_, .inl hb⟩
      rintro rfl
      have := (h.proper (.enter (a ++ [i]))
        (by rw [hr.agenda]; exact List.mem_cons_of_mem _ hb)).1
      rw [hstatus, Option.some.injEq] at this
      subst this
      cases hterminal
    · exact .inr hb
    · refine .inl ⟨?_, .inr (.inl (.inr hb))⟩
      rintro rfl
      exact h.not_mem_rest hr.agenda rfl hb
    · refine .inl ⟨?_, .inr (.inr hb)⟩
      rintro rfl
      rw [hstatus, Option.some.injEq] at hb
      subst hb
      cases hterminal
  · rintro (⟨hbi, hb | (hb | hb) | hb⟩ | hb)
    · exact .inr (.inl (.inl hb))
    · exact absurd hb hbi
    · exact .inr (.inr (.inl hb))
    · exact .inr (.inr (.inr hb))
    · exact .inr (.inl (.inr hb))

theorem active_kid_iff (h : Control setup s none) (kid : Live) (j : Nat) :
    Active (s.counted rest a job frame i kid) (if frame.left = 1 then some a else none)
      (a ++ [j]) ↔
      (j ≠ i ∧ Active s none (a ++ [j])) ∨ (frame.begun < job.arity ∧ j = frame.begun) := by
  rw [hr.active_iff h]
  simp

/-- One child less is left. -/
theorem left_eq (h : Control setup s none) (kid : Live) :
    frame.left = remaining (s.counted rest a job frame i kid)
      (if frame.left = 1 then some a else none) a job.arity + 1 := by
  have hnext (hlt : frame.begun < job.arity) := hr.group.waiting _ (Nat.le_refl _) hlt
  refine hr.group.left.trans
    (remaining_eq_succ hr.lt_arity (fun hdone => hdone.2 hr.active) ⟨?_, ?_⟩ fun j hj => ?_)
  · obtain ⟨status, hstatus, hterminal⟩ := hr.ended
    exact ⟨status, by rw [statusAt_counted, hstatus], hterminal⟩
  · rw [hr.active_kid_iff h]
    rintro (⟨hne, _⟩ | ⟨hlt, heq⟩)
    · exact hne rfl
    · exact hr.begun_ne hlt heq.symm
  · unfold Done
    rw [statusAt_counted, hr.active_kid_iff h]
    by_cases hlt : frame.begun < job.arity ∧ j = frame.begun
    · obtain ⟨hlt, rfl⟩ := hlt
      constructor
      · rintro ⟨_, hnot⟩
        exact absurd (.inr ⟨hlt, rfl⟩) hnot
      · rintro ⟨⟨other, hother, hend⟩, _⟩
        rw [(hnext hlt).1, Option.some.injEq] at hother
        subst hother
        cases hend
    · simp [hj, hlt]

theorem begun_nextFrame (kid : Live) : (nextFrame job frame i kid).begun =
    if frame.begun < job.arity then frame.begun + 1 else frame.begun := by
  rw [nextFrame, Job.count_eq_arity hr.frame?_eq]

/-- The node goes on to wait for several children. -/
theorem group_counted (h : Control setup s none) (kid : Live) (hleft : frame.left ≠ 1) :
    Group setup (s.counted rest a job frame i kid) (if frame.left = 1 then some a else none) a
      { job with stage := .hosting (nextFrame job frame i kid) } (nextFrame job frame i kid) := by
  have harity : ({ job with stage := .hosting (nextFrame job frame i kid) } : Job).arity =
      job.arity := Job.arity_nextFrame hr.frame?_eq
  have hbegun := hr.begun_nextFrame kid
  have hleftEq := hr.left_eq h kid
  constructor
  · rw [harity]
    exact hr.group.arity
  · have hle : remaining s none a job.arity ≤ job.arity := remaining_le
    have hleftOld := hr.group.left
    have hbegunOld := hr.group.begun
    rw [hbegun, harity]
    change _ = min (setup.slots job.node.work job.arity + (job.arity - (frame.left - 1))) _
    split
    · omega
    · omega
  · rw [harity]
    change frame.left - 1 = _
    omega
  · intro j hj huntouched
    rw [hbegun] at hj
    have hpending := huntouched.1
    rw [statusAt_counted] at hpending
    by_cases hlt : frame.begun < job.arity ∧ j = frame.begun
    · exact huntouched.2 ((hr.active_kid_iff h kid j).2 (.inr hlt))
    · have hj' : j < frame.begun := by
        by_contra hge
        split at hj
        · exact hlt ⟨‹_›, by omega⟩
        · omega
      have hji : j ≠ i := by
        rintro rfl
        obtain ⟨status, hstatus, hterminal⟩ := hr.ended
        rw [hstatus, Option.some.injEq] at hpending
        subst hpending
        cases hterminal
      refine hr.group.started j hj' ⟨hpending, fun hj => huntouched.2 ?_⟩
      exact (hr.active_kid_iff h kid j).2 (.inl ⟨hji, hj⟩)
  · intro j hj hj'
    rw [harity] at hj'
    rw [hbegun] at hj
    have hwaiting := hr.group.waiting j (by split at hj <;> omega) hj'
    refine ⟨(statusAt_counted ..).trans hwaiting.1, ?_⟩
    rw [hr.active_kid_iff h]
    rintro (⟨_, hold⟩ | ⟨hlt, rfl⟩)
    · exact hwaiting.2 hold
    · rw [if_pos hlt] at hj
      omega
  · intro hzero
    change frame.left - 1 = 0 at hzero
    omega

theorem jobAt_self (kid : Live) : (s.counted rest a job frame i kid).jobAt a =
    some { job with stage := .hosting (nextFrame job frame i kid) } := by
  rw [jobAt_counted hr.jobAt, if_pos rfl]

theorem jobAt_ne (kid : Live) {b : Address} (hb : b ≠ a) :
    (s.counted rest a job frame i kid).jobAt b = s.jobAt b := by
  rw [jobAt_counted hr.jobAt, if_neg hb]

theorem mem_agenda (kid : Live) {task : Task} (htask : task ∈ s.agenda)
    (hreport : task ≠ .report (a ++ [i])) : task ∈ (s.counted rest a job frame i kid).agenda := by
  rw [hr.agenda, List.mem_cons] at htask
  exact (mem_agenda_counted ..).2 (.inl (htask.resolve_left hreport))

omit hr in
/-- The node comes into hand when no child is left. -/
theorem hand_eq {b : Address} (hb : (if frame.left = 1 then some a else none) = some b) :
    b = a ∧ frame.left = 1 := by
  split at hb
  · rw [Option.some.injEq] at hb
    exact ⟨hb.symm, ‹_›⟩
  · cases hb

theorem about_counted (h : Control setup s none) (kid : Live) :
    About s none (s.counted rest a job frame i kid) (if frame.left = 1 then some a else none) a where
  other b hb := iff_of_false (fun hb' => hb (hand_eq hb').1) (by simp)
  job b hb := hr.jobAt_ne kid hb
  active p j hp := by
    rw [hr.active_iff h]
    have hpi (k : Nat) : p ++ [j] ≠ a ++ [k] := fun heq => hp (List.append_inj' heq rfl).1
    simp [hpi]
  status _ := statusAt_counted ..
  wake b _ hb := hr.mem_agenda kid hb (by simp)
  join b _ hb := hr.mem_agenda kid hb (by simp)

/-- The node still waits for children, and for nothing else; a child that starts is pending. -/
theorem proper_counted (h : Control setup s none) (kid : Live) {task : Task}
    (htask : task ∈ (s.counted rest a job frame i kid).agenda) :
    Proper (s.counted rest a job frame i kid) (if frame.left = 1 then some a else none) task := by
  rcases (mem_agenda_counted s rest a job frame i kid task).1 htask with hold | ⟨hlt, rfl⟩
  · have hproper := h.proper task (by rw [hr.agenda]; exact List.mem_cons_of_mem _ hold)
    by_cases haddress : task.address = a
    · rcases hproper.of_running (haddress ▸ hr.jobAt) hr.run with
        heq | ⟨_, other, hhosting, _, hzero⟩ | ⟨_, call, hcalling, _⟩
      · rw [heq, haddress]
        exact ⟨_, hr.jobAt_self kid⟩
      · rw [hr.stage, Stage.hosting.injEq] at hhosting
        subst hhosting
        have := hr.left_eq h kid
        omega
      · rw [hr.stage] at hcalling
        cases hcalling
    · exact hproper.of_job (hr.jobAt_ne kid haddress) fun _ hb => haddress (hand_eq hb).1
  · have hnext := hr.group.waiting _ (Nat.le_refl _) hlt
    refine ⟨(statusAt_counted ..).trans hnext.1, fun hb => ?_⟩
    have := (hand_eq hb).1
    simp at this

/-- The child that starts has not been about to start. -/
theorem single_counted (h : Control setup s none) (kid : Live) :
    ((s.counted rest a job frame i kid).agenda.filter fun task => !task.isProceed).Nodup := by
  have hrest := h.single_rest hr.agenda
  unfold counted
  split
  · rename_i hlt
    change ((rest ++ [Task.enter (a ++ [frame.begun])]).filter fun task =>
      !Task.isProceed task).Nodup
    rw [List.filter_append, List.nodup_append]
    refine ⟨hrest, (List.nodup_singleton _).sublist List.filter_sublist, ?_⟩
    rintro task htask other hother rfl
    rw [List.mem_filter] at htask hother
    rw [List.mem_singleton] at hother
    obtain ⟨rfl, _⟩ := hother
    refine (hr.group.waiting _ (Nat.le_refl _) hlt).2 (.inr (.inl ?_))
    rw [hr.agenda]
    exact List.mem_cons_of_mem _ htask.1
  · exact hrest

/-- The node goes on to wait for its children, or it is in hand and all of them are done. -/
theorem local_counted (h : Control setup s none) (hshape : Shape tree s) (kid : Live) :
    Local setup (s.counted rest a job frame i kid) (if frame.left = 1 then some a else none) a
      { job with stage := .hosting (nextFrame job frame i kid) } := by
  refine ⟨fun hquiet => ⟨rfl, fun j hj => ?_⟩, fun hp => ?_, fun _ hnot => ?_⟩
  · rcases hquiet with hquiet | hquiet
    · exact absurd hr.run hquiet
    · have hleft := hr.left_eq h kid
      have hall := remaining_eq_zero_iff.1 (Nat.succ.inj (hleft.symm.trans (hand_eq hquiet).2))
      rcases (hr.active_kid_iff h kid j).1 hj with ⟨_, hold⟩ | ⟨hlt, rfl⟩
      · exact (hall j (h.lt_arity hshape hr.jobAt hold)).2 hj
      · exact (hall _ hlt).2 hj
  · cases hr.run.symm.trans hp
  · refine .group rfl hr.kind (hr.group_counted h kid fun hone => ?_)
    rw [if_pos hone] at hnot
    exact hnot rfl

end Reporting

/-- A node that runs several children counts that one of them has ended. -/
theorem count {i : Nat} (kid : Live) (h : Control setup s none) (hshape : Shape tree s)
    (hr : Reporting setup s a i job frame rest) :
    Control setup (s.counted rest a job frame i kid) (if frame.left = 1 then some a else none) := by
  refine h.of_about (hr.about_counted h kid) (fault_counted ..) (fun b => statusAt_counted ..) ?_
    (fun task => hr.proper_counted h kid) (hr.single_counted h kid) ?_ ?_ ?_
  · intro b hb
    obtain ⟨rfl, _⟩ := Reporting.hand_eq hb
    exact ⟨_, hr.jobAt_self kid⟩
  · intro other hother
    rw [hr.jobAt_self, Option.some.injEq] at hother
    subst hother
    exact hr.local_counted h hshape kid
  · rintro c b hcb ⟨other, hc, hend⟩ hb
    exact absurd hb (h.closed_none hcb hc hend)
  · intro hroot
    exact .inl ((hr.active_iff h kid []).2 (.inl ⟨by simp, hroot⟩))

end Workflow.State.Control
