import Workflow.Proofs.Run.Control.Run

/-!
# Pending nodes that are settled

To settle a tree its pending nodes are moved one after the other, every node after the nodes above
it. What is pending below a node that fails, is stopped or is left out goes this way.

* `State.settled` says what the state is after that, and `State.Reached.settle` that these are
  changes of a run.
-/

namespace Workflow.State

variable {setup : Setup} {tree : Node} {s t : State} {doing : Doing}
  {a b c : Address} {target : Status}

/-! ## The nodes that are settled -/

theorem mem_pendingUnder_iff : c ∈ s.pendingUnder b ↔ b <+: c ∧ s.statusAt c = some .pending := by
  have hstatus (live : Live) (d : Address) (hb : s.root.at? b = some live) :
      s.statusAt (b ++ d) = (live.jobAt d).map Job.status := by
    rw [statusAt, jobAt, Live.jobAt, Live.at?_append, hb]
    rfl
  unfold pendingUnder
  cases hb : s.root.at? b with
  | none =>
    simp only [List.not_mem_nil, false_iff, not_and]
    rintro ⟨d, rfl⟩
    rw [statusAt, jobAt, Live.jobAt, Live.at?_append, hb]
    simp
  | some live =>
    simp only [List.mem_map, List.mem_filter, decide_eq_true_eq]
    constructor
    · rintro ⟨⟨c, job⟩, ⟨hmem, hpending⟩, rfl⟩
      obtain ⟨d, rfl, hjob⟩ := Live.mem_walk_iff.1 hmem
      refine ⟨List.prefix_append b d, ?_⟩
      rw [hstatus live d hb, hjob]
      exact congrArg some hpending
    · rintro ⟨⟨d, rfl⟩, hpending⟩
      rw [hstatus live d hb] at hpending
      obtain ⟨job, hjob, hpending⟩ := Option.map_eq_some_iff.1 hpending
      exact ⟨(b ++ d, job), ⟨Live.mem_walk_iff.2 ⟨d, rfl, hjob⟩, hpending⟩, rfl⟩

theorem pairwise_pendingUnder (s : State) (b : Address) :
    (s.pendingUnder b).Pairwise fun c d => ¬ d <+: c := by
  unfold pendingUnder
  split
  · exact .nil
  · exact (Live.pairwise_walk b _).sublist (List.filter_sublist.map _)

/-- Where nothing is pending nothing is settled. -/
theorem settle_eq_self (h : ∀ c, b <+: c → s.statusAt c ≠ some .pending) :
    s.settle b target = s := by
  have hnil : s.pendingUnder b = [] := by
    refine List.eq_nil_iff_forall_not_mem.2 fun c hc => ?_
    obtain ⟨hbc, hpending⟩ := mem_pendingUnder_iff.1 hc
    exact h c hbc hpending
  rw [settle, hnil]
  rfl

/-! ## One after the other -/

/-- The state after pending nodes of a list have been moved. -/
structure Settled (s : State) (l : List Address) (target : Status) (t : State) : Prop where
  status : ∀ c, t.statusAt c = if c ∈ l then some target else s.statusAt c
  job : ∀ c, c ∉ l → t.jobAt c = s.jobAt c
  agenda : t.agenda = s.agenda
  cancelled : t.cancelled = s.cancelled

/-- Pending nodes are left without a start one after the other, every node after those above it. -/
theorem Reached.foldl_move (l : List Address) (hr : Reached setup tree s (some a))
    (htarget : Status.pending.canBecome target)
    (hl : ∀ c ∈ l, a <+: c ∧ c ≠ a ∧ s.statusAt c = some .pending)
    (hpairwise : l.Pairwise fun c d => ¬ d <+: c)
    (hparent : ∀ c ∈ l, ∀ p i, c = p ++ [i] → s.statusAt p = some .pending → p ∈ l)
    (homitted : ∀ u, u.jobAt a = s.jobAt a → u.cancelled = s.cancelled →
      ∀ c ∈ l, Omitted u a c target) :
    Changes setup doing s (some a) (l.foldl (fun s c => s.move c target "") s) (some a) ∧
      Settled s l target (l.foldl (fun s c => s.move c target "") s) := by
  induction l generalizing s with
  | nil => exact ⟨.refl s _, by simp, by simp, rfl, rfl⟩
  | cons c l ih =>
    rw [List.pairwise_cons] at hpairwise
    obtain ⟨hbelow, hne, hpending⟩ := hl c List.mem_cons_self
    obtain ⟨job, hjob, hstatus⟩ := jobAt_of_statusAt hpending
    have hmove : job.status.canBecome target := by rwa [hstatus]
    have hnotMem : c ∉ l := fun hmem => hpairwise.1 c hmem (List.prefix_refl c)
    have hchange : Change setup doing s (some a) (s.move c target "") (some a) := by
      refine .leave hbelow hpending (homitted s rfl rfl c List.mem_cons_self)
        fun p i hp _ hpendingParent => ?_
      -- the node above would come later in the list
      rcases List.mem_cons.1 (hparent c List.mem_cons_self p i hp hpendingParent) with heq | hmem
      · rw [hp] at heq
        simpa using congrArg List.length heq
      · exact hpairwise.1 p hmem (hp ▸ List.prefix_append p [i])
    have hjobs := jobAt_move hjob hmove ""
    have hstatuses := statusAt_move hjob hmove ""
    have hself : (s.move c target "").jobAt a = s.jobAt a := by rw [hjobs, if_neg (Ne.symm hne)]
    have hl' : ∀ d ∈ l, a <+: d ∧ d ≠ a ∧ (s.move c target "").statusAt d = some .pending := by
      intro d hd
      obtain ⟨hbelow', hne', hpending'⟩ := hl d (List.mem_cons_of_mem _ hd)
      refine ⟨hbelow', hne', ?_⟩
      rw [hstatuses, if_neg (by rintro rfl; exact hnotMem hd)]
      exact hpending'
    have hparent' : ∀ d ∈ l, ∀ p i, d = p ++ [i] →
        (s.move c target "").statusAt p = some .pending → p ∈ l := by
      intro d hd p i hp hpendingParent
      rw [hstatuses] at hpendingParent
      split at hpendingParent
      · rw [Option.some.injEq] at hpendingParent
        subst hpendingParent
        cases htarget
      · rename_i hpc
        have := hparent d (List.mem_cons_of_mem _ hd) p i hp hpendingParent
        exact (List.mem_cons.1 this).resolve_left hpc
    obtain ⟨hchanges, hsettled⟩ := ih (hr.change hchange) hl' hpairwise.2 hparent'
      fun u hu hcancelled d hd => homitted u (hu.trans hself) (hcancelled.trans (cancelled_move ..))
        d (List.mem_cons_of_mem _ hd)
    refine ⟨(Changes.single hchange).trans hchanges, fun d => ?_, fun d hd => ?_, ?_, ?_⟩
    · rw [List.foldl_cons, hsettled.status, hstatuses]
      by_cases hd : d = c
      · simp [hd, hnotMem]
      · simp [hd]
    · rw [List.mem_cons, not_or] at hd
      rw [List.foldl_cons, hsettled.job d hd.2, hjobs, if_neg hd.1]
    · rw [List.foldl_cons, hsettled.agenda, agenda_move]
    · rw [List.foldl_cons, hsettled.cancelled, cancelled_move]

/-- The state after all pending nodes at or below an address have been moved. -/
structure SettledUnder (s : State) (b : Address) (target : Status) (t : State) : Prop where
  status : ∀ c, t.statusAt c =
    if b <+: c ∧ s.statusAt c = some .pending then some target else s.statusAt c
  job : ∀ c, ¬ (b <+: c ∧ s.statusAt c = some .pending) → t.jobAt c = s.jobAt c
  agenda : t.agenda = s.agenda
  cancelled : t.cancelled = s.cancelled

theorem SettledUnder.not_pending (h : SettledUnder s b target t) (htarget : target ≠ .pending)
    (hbc : b <+: c) : t.statusAt c ≠ some .pending := by
  rw [h.status]
  split
  · simpa using htarget
  · rename_i hnot
    exact fun hpending => hnot ⟨hbc, hpending⟩

/-- What is pending below the node in hand is settled. -/
theorem Reached.settle (hr : Reached setup tree s (some a)) (hab : a <+: b)
    (htarget : Status.pending.canBecome target) (hself : s.statusAt a ≠ some .pending)
    (hparent : ∀ p i, b = p ++ [i] → s.statusAt p ≠ some .pending)
    (homitted : ∀ u, u.jobAt a = s.jobAt a → u.cancelled = s.cancelled →
      ∀ c, b <+: c → c ≠ a → Omitted u a c target) :
    Changes setup doing s (some a) (s.settle b target) (some a) ∧
      SettledUnder s b target (s.settle b target) := by
  have hne {c : Address} (hc : s.statusAt c = some .pending) : c ≠ a := by
    rintro rfl
    exact hself hc
  have hl : ∀ c ∈ s.pendingUnder b, a <+: c ∧ c ≠ a ∧ s.statusAt c = some .pending := by
    intro c hc
    obtain ⟨hbc, hpending⟩ := mem_pendingUnder_iff.1 hc
    exact ⟨hab.trans hbc, hne hpending, hpending⟩
  have hparents : ∀ c ∈ s.pendingUnder b, ∀ p i, c = p ++ [i] →
      s.statusAt p = some .pending → p ∈ s.pendingUnder b := by
    intro c hc p i hp hpendingParent
    obtain ⟨hbc, hpending⟩ := mem_pendingUnder_iff.1 hc
    refine mem_pendingUnder_iff.2 ⟨?_, hpendingParent⟩
    subst hp
    rcases List.prefix_concat_iff.1 hbc with heq | hprefix
    · exact absurd hpendingParent (hparent p i heq)
    · exact hprefix
  obtain ⟨hchanges, hsettled⟩ := hr.foldl_move _ htarget hl (pairwise_pendingUnder s b) hparents
    fun u hu hcancelled c hc => homitted u hu hcancelled c (mem_pendingUnder_iff.1 hc).1
      (hne (mem_pendingUnder_iff.1 hc).2)
  refine ⟨hchanges, fun c => ?_, fun c hc => ?_, hsettled.agenda, hsettled.cancelled⟩
  · rw [State.settle, hsettled.status]
    simp only [mem_pendingUnder_iff]
  · exact hsettled.job c (by rwa [mem_pendingUnder_iff])

end Workflow.State
