import Workflow.Proofs.Run.Control.Basic

/-!
# What a change does not touch

A change is about one node. The other nodes fit their children as before if their children are
active as before and those that are not active keep their statuses.

* `State.Local.congr` says this of one node, and `State.Control.local_of_ne` of all nodes but one.
* `State.Control.put` keeps the invariant while the node in hand changes.
-/

namespace Workflow.State

variable {setup : Setup} {s t : State} {hand hand' : Option Address} {a x : Address} {job : Job}

/-- Activity depends on the hand, on the tasks about the start and the end of the node, and on
whether it runs. -/
theorem active_congr (henter : .enter a ∈ t.agenda ↔ .enter a ∈ s.agenda)
    (hreport : .report a ∈ t.agenda ↔ .report a ∈ s.agenda)
    (hrun : t.statusAt a = some .running ↔ s.statusAt a = some .running) :
    Active t hand a ↔ Active s hand a :=
  or_congr_right (or_congr henter (or_congr hreport hrun))

/-! ## Children that stay as they are -/

/-- The children of a node are active as before, and those that are not have their statuses. -/
def SameKids (s : State) (hand : Option Address) (t : State) (hand' : Option Address)
    (a : Address) : Prop :=
  ∀ i, (Active t hand' (a ++ [i]) ↔ Active s hand (a ++ [i])) ∧
    (¬ Active s hand (a ++ [i]) → t.statusAt (a ++ [i]) = s.statusAt (a ++ [i]))

namespace SameKids

variable (h : SameKids s hand t hand' a) (i : Nat)

include h

theorem untouched_iff : Untouched t hand' (a ++ [i]) ↔ Untouched s hand (a ++ [i]) := by
  obtain ⟨hactive, hstatus⟩ := h i
  unfold Untouched
  rw [hactive]
  refine and_congr_left fun hinactive => ?_
  rw [hstatus hinactive]

theorem done_iff : Done t hand' (a ++ [i]) ↔ Done s hand (a ++ [i]) := by
  obtain ⟨hactive, hstatus⟩ := h i
  unfold Done
  rw [hactive]
  refine and_congr_left fun hinactive => ?_
  rw [hstatus hinactive]

theorem remaining_eq (count : Nat) : remaining t hand' a count = remaining s hand a count := by
  classical
  unfold remaining
  congr 1
  refine Finset.filter_congr fun j _ => ?_
  rw [h.done_iff j]

end SameKids

theorem Group.congr {frame : Frame} (h : Group setup s hand a job frame)
    (hkids : SameKids s hand t hand' a) (hjoin : .join a ∈ s.agenda → .join a ∈ t.agenda) :
    Group setup t hand' a job frame where
  arity := h.arity
  begun := h.begun
  left := by rw [hkids.remaining_eq]; exact h.left
  started i hi := by rw [hkids.untouched_iff]; exact h.started i hi
  waiting i hi hi' := by rw [hkids.untouched_iff]; exact h.waiting i hi hi'
  join hleft := hjoin (h.join hleft)

theorem Busy.congr (h : Busy setup s hand a job) (hkids : SameKids s hand t hand' a)
    (hwake : .wake a ∈ s.agenda → .wake a ∈ t.agenda)
    (hjoin : .join a ∈ s.agenda → .join a ∈ t.agenda) : Busy setup t hand' a job := by
  have done {j : Nat} {status : Status} (hdone : Done s hand (a ++ [j]) ∧
      s.statusAt (a ++ [j]) = some status) :
      Done t hand' (a ++ [j]) ∧ t.statusAt (a ++ [j]) = some status := by
    refine ⟨(hkids.done_iff j).2 hdone.1, ?_⟩
    rw [(hkids j).2 hdone.1.2]
    exact hdone.2
  cases h with
  | calling hstage hkind htold => exact .calling hstage hkind fun h => hwake (htold h)
  | sequence hstage hkind hbegun hk hactive hbefore hafter =>
    refine .sequence hstage hkind hbegun hk ((hkids _).1.2 hactive) (fun j hj => done (hbefore j hj))
      fun j hj hj' => ?_
    rw [hkids.untouched_iff]
    exact hafter j hj hj'
  | branch hstage hkind hk hactive hothers =>
    exact .branch hstage hkind hk ((hkids _).1.2 hactive) fun j hj hjk => done (hothers j hj hjk)
  | group hstage hkind hgroup => exact .group hstage hkind (hgroup.congr hkids hjoin)

theorem Local.congr (h : Local setup s hand a job) (hhand : hand' = some a ↔ hand = some a)
    (hkids : SameKids s hand t hand' a) (hwake : .wake a ∈ s.agenda → .wake a ∈ t.agenda)
    (hjoin : .join a ∈ s.agenda → .join a ∈ t.agenda) : Local setup t hand' a job where
  quiet hquiet := by
    rw [hhand] at hquiet
    refine ⟨(h.quiet hquiet).1, fun i => ?_⟩
    rw [(hkids i).1]
    exact (h.quiet hquiet).2 i
  pending hpending := by
    refine ⟨(h.pending hpending).1, fun i status hstatus => ?_⟩
    have hinactive := (h.quiet (.inl (by rw [hpending]; decide))).2 i
    rw [(hkids i).2 hinactive] at hstatus
    exact (h.pending hpending).2 i status hstatus
  busy hrun hhand' := by
    rw [ne_eq, hhand] at hhand'
    exact (h.busy hrun hhand').congr hkids hwake hjoin

/-! ## All nodes but one -/

/-- A change of the state that is about one node. -/
structure About (s : State) (hand : Option Address) (t : State) (hand' : Option Address)
    (x : Address) : Prop where
  /-- Other nodes are in hand as before. -/
  other : ∀ a, a ≠ x → (hand' = some a ↔ hand = some a)
  /-- Other nodes stay as they are. -/
  job : ∀ a, a ≠ x → t.jobAt a = s.jobAt a
  /-- Children of other nodes are active as before. -/
  active : ∀ p i, p ≠ x → (Active t hand' (p ++ [i]) ↔ Active s hand (p ++ [i]))
  /-- The node itself keeps its status unless it is active. -/
  status : ¬ Active s hand x → t.statusAt x = s.statusAt x
  /-- Other nodes are still to be woken, and to take notice of the ends of their children. -/
  wake : ∀ a, a ≠ x → .wake a ∈ s.agenda → .wake a ∈ t.agenda
  join : ∀ a, a ≠ x → .join a ∈ s.agenda → .join a ∈ t.agenda

theorem About.sameKids (h : About s hand t hand' x) (ha : a ≠ x) :
    SameKids s hand t hand' a := by
  intro i
  refine ⟨h.active a i ha, fun hinactive => ?_⟩
  by_cases hx : a ++ [i] = x
  · rw [hx] at hinactive ⊢
    exact h.status hinactive
  · rw [statusAt, h.job _ hx, statusAt]

/-- The nodes that a change is not about fit their children as before. -/
theorem Control.local_of_ne (h : Control setup s hand) (habout : About s hand t hand' x)
    (ha : a ≠ x) (hjob : t.jobAt a = some job) : Local setup t hand' a job := by
  rw [habout.job a ha] at hjob
  exact (h.node a job hjob).congr (habout.other a ha) (habout.sameKids ha) (habout.wake a ha)
    (habout.join a ha)

/-! ## Changes of the node in hand -/

section Put

variable {job' : Job}

/-- While the node in hand changes, the same nodes are active. -/
theorem active_put (ht : ∀ b, t.jobAt b = if b = x then some job' else s.jobAt b)
    (hagenda : t.agenda = s.agenda) (b : Address) :
    Active t (some x) b ↔ Active s (some x) b := by
  unfold Active
  rw [hagenda]
  by_cases hb : b = x
  · simp [hb]
  · rw [statusAt, ht, if_neg hb, statusAt]

/-- While the node in hand changes, everything else goes on to fit. -/
theorem Control.put (h : Control setup s (some x)) (hjob : s.jobAt x = some job)
    (ht : ∀ b, t.jobAt b = if b = x then some job' else s.jobAt b)
    (hagenda : t.agenda = s.agenda) (hfault : t.fault = s.fault) (hcall : job'.call? = none)
    (hstatus : job'.status ≠ .pending) (hnode : job'.node = job.node)
    (hrun : job'.status = .running → job.status = .pending ∨ job.status = .running) :
    Control setup t (some x) := by
  have hself : t.jobAt x = some job' := by rw [ht, if_pos rfl]
  have hne (b : Address) (hb : b ≠ x) : t.jobAt b = s.jobAt b := by rw [ht, if_neg hb]
  have hstatusNe (b : Address) (hb : b ≠ x) : t.statusAt b = s.statusAt b := by
    rw [statusAt, hne b hb, statusAt]
  have hactive := active_put ht hagenda
  have habout : About s (some x) t (some x) x := by
    refine ⟨fun _ _ => Iff.rfl, hne, fun p i _ => hactive _, fun hx => absurd (.inl rfl) hx, ?_, ?_⟩
    · rw [hagenda]; exact fun _ _ => id
    · rw [hagenda]; exact fun _ _ => id
  constructor
  · rw [hfault]; exact h.sound
  · intro a ha
    rw [Option.some.injEq] at ha
    exact ⟨job', ha ▸ hself⟩
  · rw [hagenda]
    intro task htask
    exact (h.proper task htask).of_hand (hne _) hself (.inl rfl)
  · rw [hagenda]; exact h.single
  · intro a other hother
    by_cases ha : a = x
    · subst ha
      refine ⟨fun _ => ?_, ?_, fun _ hhand => absurd rfl hhand⟩
      · rw [hself, Option.some.injEq] at hother
        rw [← hother]
        refine ⟨hcall, fun i => ?_⟩
        rw [hactive]
        exact h.inactive_below_hand (List.cons_ne_nil i [])
      · rw [hself, Option.some.injEq] at hother
        rw [← hother]
        exact fun hpending => absurd hpending hstatus
    · exact h.local_of_ne habout ha hother
  · intro c b hcb hterminal hpending
    have hbx : b ≠ x := by
      rintro rfl
      rw [statusAt_of_jobAt hself, Option.some.injEq] at hpending
      exact hstatus hpending
    rw [hstatusNe b hbx] at hpending
    by_cases hcx : c = x
    · subst hcx
      refine ⟨c, job', rfl, hself, hcb, fun hrun' => ?_⟩
      obtain ⟨status, hc, hterminal⟩ := hterminal
      rw [statusAt_of_jobAt hself, Option.some.injEq, hrun'] at hc
      subst hc
      cases hterminal
    · rw [hstatusNe c hcx] at hterminal
      obtain ⟨y, old, hy, hold, hyb, hbranch⟩ := h.closed c b hcb hterminal hpending
      rw [Option.some.injEq] at hy
      subst hy
      rw [hjob, Option.some.injEq] at hold
      subst hold
      refine ⟨x, job', rfl, hself, hyb, fun hrun' => ?_⟩
      rw [hnode]
      rcases hrun hrun' with hold | hold
      · -- nothing above the node in hand has ended, and everything below it is pending
        exfalso
        obtain ⟨status, hc, hterminal⟩ := hterminal
        have hx : s.statusAt x = some .pending := by rw [statusAt_of_jobAt hjob, hold]
        refine h.not_ended hx (fun c' d hd hnil => ?_) hyb hcb hc hterminal
        subst hd
        exact h.statusAt_above hnil (.inl rfl)
      · exact hbranch hold
  · rintro ⟨hpending, hinactive⟩
    rw [hactive] at hinactive
    have hx : [] ≠ x := by
      rintro rfl
      exact hinactive (.inl rfl)
    rw [hstatusNe [] hx] at hpending
    exact h.root ⟨hpending, hinactive⟩

end Put
end Workflow.State
