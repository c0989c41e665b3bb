import Workflow.Proofs.Run.Control.Frame

/-!
# Changes of the agenda

The invariant goes on to hold when tasks are taken from the agenda and put into it, as every change
of a run does that.
-/

namespace Workflow.State.Control

variable {setup : Setup} {tree : Node} {s t : State} {hand hand' : Option Address} {a x : Address}
  {job : Job} {task : Task} {rest : List Task}

/-! ## Tasks -/

/-- A task that is taken from the agenda does not stand in the rest of it. -/
theorem not_mem_rest (h : Control setup s hand) (hagenda : s.agenda = task :: rest)
    (htask : task.isProceed = false) : task ∉ rest := by
  have hsingle := h.single
  rw [hagenda, List.filter_cons_of_pos (by simp [htask]), List.nodup_cons] at hsingle
  intro hmem
  exact hsingle.1 (List.mem_filter.2 ⟨hmem, by simp [htask]⟩)

theorem single_rest (h : Control setup s hand) (hagenda : s.agenda = task :: rest) :
    (rest.filter fun task => !task.isProceed).Nodup := by
  have hsingle := h.single
  rw [hagenda] at hsingle
  exact hsingle.sublist ((List.sublist_cons_self task rest).filter _)

theorem single_cons (h : Control setup s hand) (htask : task ∉ s.agenda) :
    ((task :: s.agenda).filter fun task => !task.isProceed).Nodup := by
  rw [List.filter_cons]
  split
  · exact List.nodup_cons.2 ⟨fun hmem => htask (List.mem_filter.1 hmem).1, h.single⟩
  · exact h.single

theorem single_append (h : Control setup s hand) {tasks : List Task} (htasks : tasks.Nodup)
    (hnew : ∀ task ∈ tasks, task.isProceed = true ∨ task ∉ s.agenda) :
    ((s.agenda ++ tasks).filter fun task => !task.isProceed).Nodup := by
  rw [List.filter_append, List.nodup_append]
  refine ⟨h.single, htasks.sublist List.filter_sublist, ?_⟩
  rintro task hmem other hother rfl
  rw [List.mem_filter] at hmem hother
  rcases hnew task hother.1 with htask | htask
  · simp [htask] at hother
  · exact htask hmem.1

/-! ## Changes of the agenda and of the hand -/

/-- After a change about one node everything fits if that node does. -/
theorem of_about (h : Control setup s hand) (habout : About s hand t hand' x)
    (hfault : t.fault = s.fault) (hstatus : ∀ b, t.statusAt b = s.statusAt b)
    (hheld : ∀ a, hand' = some a → ∃ job, t.jobAt a = some job)
    (hproper : ∀ task ∈ t.agenda, Proper t hand' task)
    (hsingle : (t.agenda.filter fun task => !task.isProceed).Nodup)
    (hself : ∀ job, t.jobAt x = some job → Local setup t hand' x job)
    (hclosed : ∀ c b, c <+: b → (∃ status, s.statusAt c = some status ∧ status.isTerminal) →
      s.statusAt b = some .pending → ∃ h job, hand' = some h ∧ t.jobAt h = some job ∧ h <+: b ∧
        (job.status = .running → job.node.kind = .branch))
    (hroot : Active s hand [] → Active t hand' [] ∨ s.statusAt [] ≠ some .pending) :
    Control setup t hand' := by
  refine ⟨hfault.trans h.sound, hheld, hproper, hsingle, ?_, ?_, ?_⟩
  · intro a job hjob
    by_cases ha : a = x
    · subst ha
      exact hself job hjob
    · exact h.local_of_ne habout ha hjob
  · intro c b hcb hc hb
    rw [hstatus] at hc hb
    exact hclosed c b hcb hc hb
  · rintro ⟨hpending, hinactive⟩
    rw [hstatus] at hpending
    refine h.root ⟨hpending, fun hactive => ?_⟩
    rcases hroot hactive with h' | h'
    · exact hinactive h'
    · exact h' hpending

theorem active_takeEnter (hagenda : s.agenda = .enter a :: rest) (b : Address) :
    Active { s with agenda := rest } (some a) b ↔ Active s none b := by
  unfold Active
  rw [hagenda, statusAt_agenda]
  simp only [List.mem_cons, Task.enter.injEq, reduceCtorEq, false_or, Option.some.injEq]
  rw [eq_comm (a := a)]
  exact or_assoc.symm

/-- The node that is to start is taken from the agenda. -/
theorem takeEnter (h : Control setup s none) (hagenda : s.agenda = .enter a :: rest) :
    Control setup { s with agenda := rest } (some a) := by
  obtain ⟨hpending, _⟩ := h.proper (.enter a) (by rw [hagenda]; exact List.mem_cons_self)
  obtain ⟨job, hjob, hstatus⟩ := jobAt_of_statusAt hpending
  have hactive := active_takeEnter hagenda
  refine h.of_about (x := a) ⟨?_, fun _ _ => rfl, fun p i _ => hactive _, fun _ => rfl, ?_, ?_⟩ rfl
    (fun _ => rfl) ?_ ?_ (h.single_rest hagenda) ?_ ?_ ?_
  · intro b hb
    simp [Ne.symm hb]
  · rw [hagenda]; intro b _; simp
  · rw [hagenda]; intro b _; simp
  · intro b hb
    rw [Option.some.injEq] at hb
    exact ⟨job, hb ▸ hjob⟩
  · intro task htask
    have hproper := h.proper task (by rw [hagenda]; exact List.mem_cons_of_mem _ htask)
    refine hproper.of_job rfl fun hproceed hhand => ?_
    rw [Option.some.injEq] at hhand
    rcases hproper.of_pending (hhand ▸ hpending) with heq | heq
    · rw [heq, ← hhand] at htask
      exact h.not_mem_rest hagenda rfl htask
    · rw [heq] at hproceed
      cases hproceed
  · intro other hother
    change s.jobAt a = some other at hother
    rw [hjob, Option.some.injEq] at hother
    subst hother
    have hlocal := h.node a job hjob
    refine ⟨fun _ => ?_, hlocal.pending, fun hrun => ?_⟩
    · refine ⟨(hlocal.quiet (.inl (by rw [hstatus]; decide))).1, fun i => ?_⟩
      rw [hactive]
      exact (hlocal.quiet (.inl (by rw [hstatus]; decide))).2 i
    · rw [hstatus] at hrun
      cases hrun
  · rintro c b hcb ⟨status, hc, hterminal⟩ hb
    exact absurd hb (h.closed_none hcb hc hterminal)
  · intro hroot
    exact .inl ((hactive []).2 hroot)

theorem mem_agenda_reported (s : State) (a : Address) (task : Task) :
    task ∈ (s.reported a).agenda ↔ (a ≠ [] ∧ task = .report a) ∨ task ∈ s.agenda := by
  unfold reported
  by_cases ha : a = []
  · simp [ha]
  · simp [ha, next]

/-- A node that reports its end is as active as one in hand, unless it is the root. -/
theorem active_reported (s : State) {a b : Address} (hb : b ≠ []) :
    Active (s.reported a) none b ↔ Active s (some a) b := by
  unfold Active
  rw [mem_agenda_reported, mem_agenda_reported, statusAt, jobAt_reported, ← statusAt]
  simp only [Task.report.injEq, reduceCtorEq, and_false, false_or, Option.some.injEq]
  constructor
  · rintro (h' | (⟨_, rfl⟩ | h') | h')
    · exact .inr (.inl h')
    · exact .inl rfl
    · exact .inr (.inr (.inl h'))
    · exact .inr (.inr (.inr h'))
  · rintro (rfl | h' | h' | h')
    · exact .inr (.inl (.inl ⟨hb, rfl⟩))
    · exact .inl h'
    · exact .inr (.inl (.inr h'))
    · exact .inr (.inr h')

/-- The node in hand has ended, and the node above it is to take notice. -/
theorem release {status : Status} (h : Control setup s (some a))
    (hstatus : s.statusAt a = some status) (hterminal : status.isTerminal)
    (hnone : ∀ b, a <+: b → s.statusAt b ≠ some .pending) :
    Control setup (s.reported a) none := by
  have hjobs (b : Address) : (s.reported a).jobAt b = s.jobAt b := jobAt_reported ..
  have hstatuses (b : Address) : (s.reported a).statusAt b = s.statusAt b := by
    rw [statusAt, hjobs, statusAt]
  have hagenda := mem_agenda_reported s a
  have hactive (b : Address) (hb : b ≠ []) := active_reported s (a := a) hb
  obtain ⟨job, hjob, hjobStatus⟩ := jobAt_of_statusAt hstatus
  have hend : job.status ≠ .running ∧ job.status ≠ .pending := by
    rw [hjobStatus]
    constructor <;> rintro rfl <;> cases hterminal
  refine h.of_about (x := a) ⟨?_, fun b _ => hjobs b, fun p i _ => hactive _ (by simp),
    fun _ => hstatuses a, ?_, ?_⟩ ?_ hstatuses (by simp) ?_ ?_ ?_ ?_ ?_
  · intro b hb
    simp [Ne.symm hb]
  · intro b _ hb
    exact (hagenda _).2 (.inr hb)
  · intro b _ hb
    exact (hagenda _).2 (.inr hb)
  · unfold reported
    split <;> rfl
  · intro task htask
    rcases (hagenda task).1 htask with ⟨hnil, rfl⟩ | htask
    · exact ⟨hnil, ⟨status, (hstatuses a).trans hstatus, hterminal⟩, by simp⟩
    · exact (h.proper task htask).of_job (hjobs _) (by simp)
  · unfold reported
    split
    · exact h.single
    · refine h.single_cons fun hmem => ?_
      exact (h.proper _ hmem).2.2 rfl
  · intro other hother
    rw [hjobs, hjob, Option.some.injEq] at hother
    subst hother
    have hlocal := h.node a job hjob
    refine ⟨fun _ => ⟨(hlocal.quiet (.inr rfl)).1, fun i => ?_⟩, fun hp => absurd hp hend.2,
      fun hrun => absurd hrun hend.1⟩
    rw [hactive _ (by simp)]
    exact (hlocal.quiet (.inr rfl)).2 i
  · intro c b hcb hc hb
    obtain ⟨y, old, hy, _, hyb, _⟩ := h.closed c b hcb hc hb
    rw [Option.some.injEq] at hy
    subst hy
    exact absurd hb (hnone b hyb)
  · intro hroot
    by_cases ha : a = []
    · subst ha
      exact .inr (hnone [] List.nil_prefix)
    · rcases hroot with h' | h' | h' | h'
      · rw [Option.some.injEq] at h'
        exact absurd h' ha
      · exact .inl (.inr (.inl ((hagenda _).2 (.inr h'))))
      · exact .inl (.inr (.inr (.inl ((hagenda _).2 (.inr h')))))
      · exact .inl (.inr (.inr (.inr ((hstatuses []).trans h'))))

/-! ## Children that are to start -/

/-- The node in hand lets go after the agenda has got further tasks. -/
theorem letGo (h : Control setup s (some a)) (hjob : s.jobAt a = some job)
    (hrun : job.status = .running) (hjobs : ∀ b, t.jobAt b = s.jobAt b)
    (hfault : t.fault = s.fault) (hmem : ∀ task, task ∈ s.agenda → task ∈ t.agenda)
    (hactive : ∀ p i, p ≠ a → (Active t none (p ++ [i]) ↔ Active s (some a) (p ++ [i])))
    (hproper : ∀ task ∈ t.agenda, task ∉ s.agenda → Proper t none task)
    (hsingle : (t.agenda.filter fun task => !task.isProceed).Nodup)
    (hbusy : Busy setup t none a job)
    (hclosed : job.node.kind = .branch → ∀ c b, c <+: b → a <+: b →
      (∃ status, s.statusAt c = some status ∧ status.isTerminal) →
      s.statusAt b ≠ some .pending) : Control setup t none := by
  have hstatuses (b : Address) : t.statusAt b = s.statusAt b := by
    rw [statusAt, hjobs, statusAt]
  refine h.of_about (x := a) ⟨?_, fun b _ => hjobs b, hactive, fun _ => hstatuses a,
    fun b _ => hmem _, fun b _ => hmem _⟩ hfault hstatuses (by simp) ?_ hsingle ?_ ?_ ?_
  · intro b hb
    simp [Ne.symm hb]
  · intro task htask
    by_cases hold : task ∈ s.agenda
    · exact (h.proper task hold).of_job (hjobs _) (by simp)
    · exact hproper task htask hold
  · intro other hother
    rw [hjobs, hjob, Option.some.injEq] at hother
    subst hother
    refine ⟨fun hquiet => ?_, fun hp => ?_, fun _ _ => hbusy⟩
    · rcases hquiet with hquiet | hquiet
      · exact absurd hrun hquiet
      · cases hquiet
    · rw [hrun] at hp
      cases hp
  · intro c b hcb hc hb
    obtain ⟨y, old, hy, hold, hyb, hbranch⟩ := h.closed c b hcb hc hb
    rw [Option.some.injEq] at hy
    subst hy
    rw [hjob, Option.some.injEq] at hold
    subst hold
    exact absurd hb (hclosed (hbranch hrun) c b hcb hyb hc)
  · rintro (h' | h' | h' | h')
    · rw [Option.some.injEq] at h'
      subst h'
      exact .inl (.inr (.inr (.inr (by rw [hstatuses, statusAt_of_jobAt hjob, hrun]))))
    · exact .inl (.inr (.inl (hmem _ h')))
    · exact .inl (.inr (.inr (.inl (hmem _ h'))))
    · exact .inl (.inr (.inr (.inr ((hstatuses []).trans h'))))

/-- After the node in hand has let a child start, that child is active and nothing else is that was
not. -/
theorem active_next_enter (hjob : s.jobAt a = some job) (hrun : job.status = .running) (k : Nat)
    (b : Address) :
    Active (s.next (.enter (a ++ [k]))) none b ↔ b = a ++ [k] ∨ Active s (some a) b := by
  unfold Active
  change _ ∨ _ ∈ .enter (a ++ [k]) :: s.agenda ∨ _ ∈ .enter (a ++ [k]) :: s.agenda ∨
    s.statusAt b = _ ↔ _
  simp only [reduceCtorEq, false_or, List.mem_cons, Task.enter.injEq, Option.some.injEq]
  constructor
  · rintro ((h | h) | h | h)
    · exact .inl h
    · exact .inr (.inr (.inl h))
    · exact .inr (.inr (.inr (.inl h)))
    · exact .inr (.inr (.inr (.inr h)))
  · rintro (h | h | h | h | h)
    · exact .inl (.inl h)
    · subst h
      exact .inr (.inr (by rw [statusAt_of_jobAt hjob, hrun]))
    · exact .inl (.inr h)
    · exact .inr (.inl h)
    · exact .inr (.inr h)

/-- The node in hand lets a child start. -/
theorem letStart {k : Nat} (h : Control setup s (some a)) (hjob : s.jobAt a = some job)
    (hrun : job.status = .running) (hk : s.statusAt (a ++ [k]) = some .pending)
    (hbusy : Busy setup (s.next (.enter (a ++ [k]))) none a job)
    (hclosed : job.node.kind = .branch → ∀ c b, c <+: b → a <+: b →
      (∃ status, s.statusAt c = some status ∧ status.isTerminal) →
      s.statusAt b ≠ some .pending) :
    Control setup (s.next (.enter (a ++ [k]))) none := by
  refine h.letGo hjob hrun (fun _ => rfl) rfl (fun _ => List.mem_cons_of_mem _) ?_ ?_ ?_ hbusy
    hclosed
  · intro p i hp
    rw [active_next_enter hjob hrun]
    refine or_iff_right fun heq => hp ?_
    exact (List.append_inj' heq rfl).1
  · intro task htask hnew
    rcases List.mem_cons.1 htask with rfl | hold
    · exact ⟨hk, by simp⟩
    · exact absurd hold hnew
  · refine h.single_cons fun hmem => ?_
    exact h.inactive_below_hand (List.cons_ne_nil k []) (.inr (.inl hmem))

/-- A child that is not asked to start is as active as before. -/
theorem inactive_next_enter {j k : Nat} (h : Control setup s (some a)) (hjob : s.jobAt a = some job)
    (hrun : job.status = .running) (hjk : j ≠ k) :
    ¬ Active (s.next (.enter (a ++ [k]))) none (a ++ [j]) := by
  rw [active_next_enter hjob hrun]
  rintro (heq | hactive)
  · have := (List.append_inj' heq rfl).2
    rw [List.cons.injEq] at this
    exact hjk this.1
  · exact h.inactive_below_hand (List.cons_ne_nil j []) hactive

theorem enterNext {frame : Frame} {k : Nat} (h : Control setup s (some a))
    (hjob : s.jobAt a = some job) (hrun : job.status = .running)
    (hkind : job.node.kind = .sequence) (hframe : job.frame? = some frame)
    (hbegun : frame.begun = k + 1) (hk : k < job.arity)
    (hbefore : ∀ j, j < k → s.statusAt (a ++ [j]) = some .succeeded)
    (hafter : ∀ j, k ≤ j → j < job.arity → s.statusAt (a ++ [j]) = some .pending) :
    Control setup (s.next (.enter (a ++ [k]))) none := by
  refine h.letStart hjob hrun (hafter k (Nat.le_refl k) hk) ?_ ?_
  · refine .sequence (stage_of_frame? hframe) hkind hbegun hk ?_ ?_ ?_
    · exact .inr (.inl List.mem_cons_self)
    · intro j hj
      refine ⟨⟨⟨.succeeded, hbefore j hj, rfl⟩, ?_⟩, hbefore j hj⟩
      exact h.inactive_next_enter hjob hrun (Nat.ne_of_lt hj)
    · intro j hj hj'
      exact ⟨hafter j (Nat.le_of_lt hj) hj', h.inactive_next_enter hjob hrun (Nat.ne_of_gt hj)⟩
  · intro hbranch
    rw [hkind] at hbranch
    cases hbranch

theorem enterChosen {frame : Frame} {k : Nat} (h : Control setup s (some a))
    (hjob : s.jobAt a = some job) (hrun : job.status = .running)
    (hkind : job.node.kind = .branch) (hframe : job.frame? = some frame) (hk : k < job.arity)
    (hpending : s.statusAt (a ++ [k]) = some .pending)
    (hnone : ∀ b, a <+: b → b ≠ a → ¬ (a ++ [k]) <+: b → s.statusAt b ≠ some .pending)
    (hothers : ∀ j, j < job.arity → j ≠ k → s.statusAt (a ++ [j]) = some .skipped) :
    Control setup (s.next (.enter (a ++ [k]))) none := by
  refine h.letStart hjob hrun hpending ?_ ?_
  · refine .branch (stage_of_frame? hframe) hkind hk ?_ ?_
    · exact .inr (.inl List.mem_cons_self)
    · intro j hj hjk
      refine ⟨⟨⟨.skipped, hothers j hj hjk, rfl⟩, ?_⟩, hothers j hj hjk⟩
      exact h.inactive_next_enter hjob hrun hjk
  · rintro - c b hcb hab ⟨status, hc, hterminal⟩ hb
    by_cases hba : b = a
    · rw [hba, statusAt_of_jobAt hjob, hrun] at hb
      cases hb
    · by_cases hbelow : (a ++ [k]) <+: b
      · refine h.not_ended hpending (fun c' d hd hnil => ?_) hbelow hcb hc hterminal
        -- what lies above the child is the node in hand, or lies above it
        rcases List.eq_nil_or_concat d with rfl | ⟨d, i, rfl⟩
        · exact absurd rfl hnil
        · rw [List.concat_eq_append, ← List.append_assoc] at hd
          have hac := (List.append_inj' hd rfl).1
          by_cases hd : d = []
          · subst hd
            rw [List.append_nil] at hac
            rw [← hac, statusAt_of_jobAt hjob, hrun]
          · exact h.statusAt_above hd (.inl (by rw [hac]))
      · exact hnone b hab hba hbelow hb

theorem mem_enters {a : Address} {n : Nat} {task : Task} :
    task ∈ (List.range n).map (fun i => Task.enter (a ++ [i])) ↔
      ∃ i, i < n ∧ task = .enter (a ++ [i]) := by
  simp [eq_comm]

/-- After the node in hand has let children start, those are active and nothing else is that was
not. -/
theorem active_fill (n : Nat) (hjob : s.jobAt a = some job) (hrun : job.status = .running)
    (b : Address) :
    Active { s with agenda := s.agenda ++ (List.range n).map fun i => .enter (a ++ [i]) } none b ↔
      (∃ i, i < n ∧ b = a ++ [i]) ∨ Active s (some a) b := by
  unfold Active
  simp only [List.mem_append, mem_enters, Task.enter.injEq, reduceCtorEq, and_false,
    exists_false, or_false, false_or, Option.some.injEq, statusAt_agenda]
  constructor
  · rintro ((h | h) | h | h)
    · exact .inr (.inr (.inl h))
    · exact .inl h
    · exact .inr (.inr (.inr (.inl h)))
    · exact .inr (.inr (.inr (.inr h)))
  · rintro (h | h | h | h | h)
    · exact .inl (.inr h)
    · subst h
      exact .inr (.inr (by rw [statusAt_of_jobAt hjob, hrun]))
    · exact .inl (.inl h)
    · exact .inr (.inl h)
    · exact .inr (.inr h)

theorem fill {frame : Frame} (h : Control setup s (some a)) (hjob : s.jobAt a = some job)
    (hrun : job.status = .running) (hkind : job.node.kind.isGroup = true)
    (hframe : job.frame? = some frame)
    (hbegun : frame.begun = min (setup.slots job.node.work job.arity) job.arity)
    (hleft : frame.left = job.arity) (harity : 0 < job.arity)
    (hkids : ∀ j, j < job.arity → s.statusAt (a ++ [j]) = some .pending) :
    Control setup { s with
      agenda := s.agenda ++ (List.range frame.begun).map fun i => .enter (a ++ [i]) } none := by
  have hactive := active_fill frame.begun hjob hrun
  have hkid (j : Nat) : Active { s with
      agenda := s.agenda ++ (List.range frame.begun).map fun i => .enter (a ++ [i]) } none
      (a ++ [j]) ↔ j < frame.begun := by
    rw [hactive]
    constructor
    · rintro (⟨i, hi, heq⟩ | hold)
      · have := (List.append_inj' heq rfl).2
        rw [List.cons.injEq] at this
        rwa [this.1]
      · exact absurd hold (h.inactive_below_hand (List.cons_ne_nil j []))
    · exact fun hj => .inl ⟨j, hj, rfl⟩
  refine h.letGo hjob hrun (fun _ => rfl) rfl (fun _ => List.mem_append_left _) ?_ ?_ ?_ ?_ ?_
  · intro p i hp
    rw [hactive]
    refine or_iff_right ?_
    rintro ⟨j, _, heq⟩
    exact hp (List.append_inj' heq rfl).1
  · intro task htask hnew
    rcases List.mem_append.1 htask with hold | htask
    · exact absurd hold hnew
    · obtain ⟨i, hi, rfl⟩ := mem_enters.1 htask
      exact ⟨hkids i (by omega), by simp⟩
  · refine h.single_append ?_ fun task htask => .inr fun hmem => ?_
    · refine List.Nodup.map (fun i j hij => ?_) List.nodup_range
      simpa using hij
    · obtain ⟨i, _, rfl⟩ := mem_enters.1 htask
      exact h.inactive_below_hand (List.cons_ne_nil i []) (.inr (.inl hmem))
  · refine .group (stage_of_frame? hframe) hkind ⟨harity, ?_, ?_, ?_, ?_, fun hzero => by omega⟩
    · rw [hleft, Nat.sub_self, Nat.add_zero]
      exact hbegun
    · rw [hleft, remaining_eq_count]
      intro j hj hdone
      obtain ⟨⟨status, hstatus, hterminal⟩, _⟩ := hdone
      have := hkids j hj
      rw [statusAt_agenda, this, Option.some.injEq] at hstatus
      subst hstatus
      cases hterminal
    · intro j hj huntouched
      exact huntouched.2 ((hkid j).2 hj)
    · intro j hj hj'
      refine ⟨hkids j hj', ?_⟩
      rw [hkid]
      omega
  · intro hbranch
    rw [hbranch] at hkind
    cases hkind

theorem active_later_join (hjob : s.jobAt a = some job) (hrun : job.status = .running)
    (b : Address) : Active (s.later (.join a)) none b ↔ Active s (some a) b := by
  unfold Active
  change _ ∨ _ ∈ s.agenda ++ [.join a] ∨ _ ∈ s.agenda ++ [.join a] ∨ s.statusAt b = _ ↔ _
  simp only [List.mem_append, List.mem_singleton, reduceCtorEq, or_false, false_or,
    Option.some.injEq]
  constructor
  · exact .inr
  · rintro (h | h)
    · subst h
      exact .inr (.inr (by rw [statusAt_of_jobAt hjob, hrun]))
    · exact h

theorem gather {frame : Frame} (h : Control setup s (some a)) (hjob : s.jobAt a = some job)
    (hrun : job.status = .running) (hkind : job.node.kind.isGroup = true)
    (hframe : job.frame? = some frame) (hbegun : frame.begun = job.arity) (hleft : frame.left = 0)
    (harity : 0 < job.arity) (hkids : ∀ j, j < job.arity →
      ∃ status, s.statusAt (a ++ [j]) = some status ∧ status.isTerminal) :
    Control setup (s.later (.join a)) none := by
  have hactive := active_later_join hjob hrun
  have hdone (j : Nat) (hj : j < job.arity) : Done (s.later (.join a)) none (a ++ [j]) := by
    refine ⟨hkids j hj, ?_⟩
    rw [hactive]
    exact h.inactive_below_hand (List.cons_ne_nil j [])
  refine h.letGo hjob hrun (fun _ => rfl) rfl (fun _ => List.mem_append_left _)
    (fun p i _ => hactive _) ?_ ?_ ?_ ?_
  · intro task htask hnew
    rcases List.mem_append.1 htask with hold | htask
    · exact absurd hold hnew
    · rw [List.mem_singleton] at htask
      subst htask
      exact ⟨job, frame, hjob, hrun, stage_of_frame? hframe, hkind, hleft, by simp⟩
  · refine h.single_append (List.nodup_singleton _) fun task htask => .inr fun hmem => ?_
    rw [List.mem_singleton] at htask
    subst htask
    obtain ⟨_, _, _, _, _, _, _, hhand⟩ := h.proper _ hmem
    exact hhand rfl
  · refine .group (stage_of_frame? hframe) hkind ⟨harity, ?_, ?_, ?_, ?_, ?_⟩
    · rw [hbegun, hleft, Nat.sub_zero]
      omega
    · rw [hleft, eq_comm, remaining_eq_zero_iff]
      exact hdone
    · intro j hj huntouched
      obtain ⟨status, hstatus, hterminal⟩ := hkids j (by omega)
      have := huntouched.1
      change s.statusAt _ = _ at this
      rw [hstatus, Option.some.injEq] at this
      subst this
      cases hterminal
    · intro j hj hj'
      omega
    · exact fun _ => List.mem_append_right _ (List.mem_singleton_self _)
  · intro hbranch
    rw [hbranch] at hkind
    cases hkind

/-! ## Nodes that are taken up again -/

/-- A task about a running node is taken from the agenda, and the node comes into hand. -/
theorem takeUp (stage : Stage) (h : Control setup s none) (hagenda : s.agenda = task :: rest)
    (hjob : s.jobAt a = some job) (hrun : job.status = .running)
    (hjobs : ∀ b, t.jobAt b = if b = a then some { job with stage } else s.jobAt b)
    (hfault : t.fault = s.fault) (hrest : t.agenda = rest)
    (htasks : ∀ other ∈ rest, other ≠ .join a ∧ other ≠ .wake a)
    (htask : task ≠ .enter a ∧ (∀ b, b ≠ a → task ≠ .join b ∧ task ≠ .wake b))
    (hcall : ({ job with stage } : Job).call? = none)
    (hinactive : ∀ i, ¬ Active t (some a) (a ++ [i]))
    (hactive : ∀ p i, p ≠ a → (Active t (some a) (p ++ [i]) ↔ Active s none (p ++ [i]))) :
    Control setup t (some a) := by
  have hself : t.jobAt a = some { job with stage } := by rw [hjobs, if_pos rfl]
  have hne (b : Address) (hb : b ≠ a) : t.jobAt b = s.jobAt b := by rw [hjobs, if_neg hb]
  have hstatus (b : Address) : t.statusAt b = s.statusAt b := by
    by_cases hb : b = a
    · rw [hb, statusAt_of_jobAt hself, statusAt_of_jobAt hjob]
      rfl
    · rw [statusAt, hne b hb, statusAt]
  have hrunning : s.statusAt a = some .running := by rw [statusAt_of_jobAt hjob, hrun]
  have hkeep (other : Task) (hother : other ≠ task) (hmem : other ∈ s.agenda) :
      other ∈ t.agenda := by
    rw [hagenda] at hmem
    rw [hrest]
    exact (List.mem_cons.1 hmem).resolve_left hother
  refine h.of_about (x := a) ⟨?_, hne, hactive, fun _ => hstatus a, ?_, ?_⟩ hfault hstatus ?_ ?_ ?_
    ?_ ?_ ?_
  · intro b hb
    simp [Ne.symm hb]
  · exact fun b hb => hkeep _ ((htask.2 b hb).2).symm
  · exact fun b hb => hkeep _ ((htask.2 b hb).1).symm
  · intro b hb
    rw [Option.some.injEq] at hb
    exact ⟨_, hb ▸ hself⟩
  · intro other hmem
    rw [hrest] at hmem
    have hproper := h.proper other (by rw [hagenda]; exact List.mem_cons_of_mem _ hmem)
    by_cases haddress : other.address = a
    · -- of the tasks about the node only the progress of a call is left
      rcases hproper.of_running (haddress ▸ hjob) hrun with heq | ⟨heq, _⟩ | ⟨heq, _⟩
      · rw [heq, haddress]
        exact ⟨_, hself⟩
      · exact absurd (haddress ▸ heq) (htasks _ hmem).1
      · exact absurd (haddress ▸ heq) (htasks _ hmem).2
    · refine hproper.of_job (hne _ haddress) fun _ hhand => ?_
      exact haddress (Option.some.inj hhand).symm
  · rw [hrest]
    exact h.single_rest hagenda
  · intro other hother
    rw [hself, Option.some.injEq] at hother
    subst hother
    refine ⟨fun _ => ⟨hcall, hinactive⟩, fun hp => ?_, fun _ hhand => absurd rfl hhand⟩
    rw [show ({ job with stage } : Job).status = job.status from rfl, hrun] at hp
    cases hp
  · rintro c b hcb ⟨status, hc, hterminal⟩ hb
    exact absurd hb (h.closed_none hcb hc hterminal)
  · rintro (h' | h' | h' | h')
    · cases h'
    · by_cases htask' : task = .enter []
      · have ha : a ≠ [] := by
          rintro rfl
          exact htask.1 htask'
        -- the root is above the node in hand, so that it runs
        have hroot := (h.proper _ h').1
        have hrun' := h.statusAt_above (a := []) (c := a) ha (.inr (.inr (.inr hrunning)))
        rw [hroot] at hrun'
        cases hrun'
      · exact .inl (.inr (.inl (hkeep _ (Ne.symm htask') h')))
    · exact absurd rfl (h.proper _ h').1
    · exact .inl (.inr (.inr (.inr ((hstatus []).trans h'))))

/-- While a running node is taken up, the same nodes are active unless the task has been about
one of them. -/
theorem active_rest (hagenda : s.agenda = task :: rest) (hrest : t.agenda = rest)
    (hstatus : ∀ b, t.statusAt b = s.statusAt b) (hrun : s.statusAt a = some .running)
    {b : Address} (hb : task ≠ .enter b ∧ task ≠ .report b) :
    Active t (some a) b ↔ Active s none b := by
  unfold Active
  rw [hrest, hagenda, hstatus]
  simp only [List.mem_cons, Option.some.injEq, reduceCtorEq, false_or, Ne.symm hb.1, Ne.symm hb.2]
  constructor
  · rintro (rfl | h)
    · exact .inr (.inr hrun)
    · exact h
  · exact .inr

/-- The state of a node that does not change is the state that it has. -/
theorem jobAt_eq_ite (hjob : s.jobAt a = some job) (b : Address) :
    s.jobAt b = if b = a then some job else s.jobAt b := by
  split
  · rename_i hb
    rw [hb, hjob]
  · rfl

theorem takeReport {i : Nat} (h : Control setup s none) (hshape : Shape tree s)
    (hagenda : s.agenda = .report (a ++ [i]) :: rest) (hjob : s.jobAt a = some job)
    (hkind : job.node.kind = .sequence ∨ job.node.kind = .branch) :
    Control setup { s with agenda := rest } (some a) := by
  have hmem : .report (a ++ [i]) ∈ s.agenda := by rw [hagenda]; exact List.mem_cons_self
  have hkid : Active s none (a ++ [i]) := .inr (.inr (.inl hmem))
  obtain ⟨job', hjob', hrun, hhand⟩ := h.parent hkid
  rw [hjob, Option.some.injEq] at hjob'
  subst hjob'
  have hrunning : s.statusAt a = some .running := by rw [statusAt_of_jobAt hjob, hrun]
  obtain ⟨frame, k, hstage, hk, honly⟩ := h.one_active hshape hjob hrun hhand hkind
  have hik : i = k := by
    by_contra hik
    exact honly i hik hkid
  subst hik
  refine h.takeUp job.stage hagenda hjob hrun (jobAt_eq_ite hjob) rfl rfl ?_ ?_ ?_ ?_ ?_
  · intro other hother
    have hproper := h.proper other (by rw [hagenda]; exact List.mem_cons_of_mem _ hother)
    constructor
    · rintro rfl
      obtain ⟨waiting, _, hwaiting, _, _, hgroup, _⟩ := hproper
      rw [hjob, Option.some.injEq] at hwaiting
      subst hwaiting
      rcases hkind with hkind | hkind <;> rw [hkind] at hgroup <;> cases hgroup
    · rintro rfl
      obtain ⟨waiting, _, hwaiting, _, hcalling, _⟩ := hproper
      rw [hjob, Option.some.injEq] at hwaiting
      subst hwaiting
      rw [hstage] at hcalling
      cases hcalling
  · simp
  · rw [Job.call?]
    simp only [hstage]
  · intro j hactive
    by_cases hj : j = i
    · -- the child has ended, and its report has been taken
      subst hj
      obtain ⟨_, ⟨status, hstatus, hterminal⟩, _⟩ := h.proper _ hmem
      rcases hactive with h' | h' | h' | h'
      · rw [Option.some.injEq] at h'
        simp at h'
      · have := (h.proper (.enter (a ++ [j])) (by rw [hagenda]; exact List.mem_cons_of_mem _ h')).1
        rw [hstatus, Option.some.injEq] at this
        subst this
        cases hterminal
      · exact h.not_mem_rest hagenda rfl h'
      · change s.statusAt _ = _ at h'
        rw [hstatus, Option.some.injEq] at h'
        subst h'
        cases hterminal
    · refine honly j hj ((active_rest (t := { s with agenda := rest }) hagenda rfl (fun _ => rfl)
        hrunning ?_).1 hactive)
      simp [Ne.symm hj]
  · intro p j hp
    refine active_rest (t := { s with agenda := rest }) hagenda rfl (fun _ => rfl) hrunning
      ⟨by simp, ?_⟩
    rw [ne_eq, Task.report.injEq]
    exact fun heq => hp (List.append_inj' heq rfl).1.symm

theorem takeJoin (h : Control setup s none) (hshape : Shape tree s)
    (hagenda : s.agenda = .join a :: rest) : Control setup { s with agenda := rest } (some a) := by
  have hmem : .join a ∈ s.agenda := by rw [hagenda]; exact List.mem_cons_self
  obtain ⟨job, frame, hjob, hrun, hstage, hgroup, hleft, hhand⟩ := h.proper _ hmem
  have hrunning : s.statusAt a = some .running := by rw [statusAt_of_jobAt hjob, hrun]
  have hactive (b : Address) :
      Active { s with agenda := rest } (some a) b ↔ Active s none b :=
    active_rest (t := { s with agenda := rest }) hagenda rfl (fun _ => rfl) hrunning (by simp)
  refine h.takeUp job.stage hagenda hjob hrun (jobAt_eq_ite hjob) rfl rfl ?_ ?_ ?_ ?_
    fun p i _ => hactive _
  · intro other hother
    constructor
    · rintro rfl
      exact h.not_mem_rest hagenda rfl hother
    · rintro rfl
      obtain ⟨waiting, _, hwaiting, _, hcalling, _⟩ :=
        h.proper _ (by rw [hagenda]; exact List.mem_cons_of_mem _ hother)
      rw [hjob, Option.some.injEq] at hwaiting
      subst hwaiting
      rw [hstage] at hcalling
      cases hcalling
  · refine ⟨by simp, fun b hb => ⟨?_, by simp⟩⟩
    rw [ne_eq, Task.join.injEq]
    exact Ne.symm hb
  · rw [Job.call?]
    simp only [hstage]
  · intro i hkid
    rw [hactive] at hkid
    cases (h.node a job hjob).busy hrun hhand with
    | calling hstage' => rw [hstage] at hstage'; cases hstage'
    | sequence _ hseq => rw [hseq] at hgroup; cases hgroup
    | branch _ hbranch => rw [hbranch] at hgroup; cases hgroup
    | group hstage' _ hgroup' =>
      rw [hstage, Stage.hosting.injEq] at hstage'
      subst hstage'
      have hdone := remaining_eq_zero_iff.1 (hgroup'.left.symm.trans hleft)
      exact (hdone i (h.lt_arity hshape hjob hkid)).2 hkid

theorem takeWake {call : Call} (h : Control setup s none) (hshape : Shape tree s)
    (hagenda : s.agenda = .wake a :: rest) (hcall : s.callAt a = some call) :
    Control setup (({ s with agenda := rest } : State).setStage a .idle) (some a) := by
  obtain ⟨job, hjob, hrun, hstage, hkind, hhand, _⟩ := h.of_callAt hcall
  have hrunning : s.statusAt a = some .running := by rw [statusAt_of_jobAt hjob, hrun]
  have hactive (b : Address) :
      Active (({ s with agenda := rest } : State).setStage a .idle) (some a) b ↔
        Active s none b :=
    active_rest hagenda rfl (fun _ => by rw [statusAt_setStage]; rfl) hrunning (by simp)
  refine h.takeUp .idle hagenda hjob hrun ?_ rfl rfl ?_ ?_ rfl ?_ fun p i _ => hactive _
  · intro b
    rw [jobAt_setStage]
    split
    · rename_i hb
      rw [hb, jobAt_agenda, hjob]
      rfl
    · rfl
  · intro other hother
    constructor
    · rintro rfl
      obtain ⟨waiting, _, hwaiting, _, _, hgroup, _⟩ :=
        h.proper _ (by rw [hagenda]; exact List.mem_cons_of_mem _ hother)
      rw [hjob, Option.some.injEq] at hwaiting
      subst hwaiting
      rw [hkind] at hgroup
      cases hgroup
    · rintro rfl
      exact h.not_mem_rest hagenda rfl hother
  · refine ⟨by simp, fun b hb => ⟨by simp, ?_⟩⟩
    rw [ne_eq, Task.wake.injEq]
    exact Ne.symm hb
  · intro i hkid
    rw [hactive] at hkid
    have hi := h.lt_arity hshape hjob hkid
    rw [Job.arity_of_kind_ne (by rw [hkind]; decide),
      (hshape.sound a job hjob).children_eq_nil hkind] at hi
    simp at hi

end Workflow.State.Control
