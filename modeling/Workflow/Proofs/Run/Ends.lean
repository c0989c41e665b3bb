import Workflow.Proofs.Run.Calls
import Workflow.Proofs.Run.Reasons
import Workflow.Proofs.Run.Settle

/-!
# How nodes come to their ends

The functions that end the node in hand are chains of changes, after which the node above is to take
notice.
-/

namespace Workflow.State

variable {setup : Setup} {tree : Node} {s : State} {hand : Option Address} {doing : Doing} {a : Address}
  {job : Job} {kids : List Live}

namespace Reached

/-- Above the node in hand nothing is pending. -/
theorem parent_not_pending (hr : Reached setup tree s (some a)) (htree : tree.Sound) {p : Address}
    {i : Nat} (hp : a = p ++ [i]) : s.statusAt p ≠ some .pending := by
  have hrun := (hr.control htree).statusAt_above (a := p) (List.cons_ne_nil i []) (.inl (by rw [hp]))
  rw [hrun]
  decide

/-- A node that has ended reports it once nothing is pending below it. -/
theorem settle_reported (status : Status) {target : Status} (hr : Reached setup tree s (some a))
    (htree : tree.Sound) (hstatus : s.statusAt a = some status) (hterminal : status.isTerminal)
    (htarget : Status.pending.canBecome target) (hend : target.isTerminal)
    (homitted : ∀ u, u.statusAt a = some status → u.cancelled = s.cancelled →
      ∀ c, c ≠ a → Omitted u a c target) :
    Changes setup doing s (some a) ((s.settle a target).reported a) none := by
  have hself : s.statusAt a ≠ some .pending := by
    rw [hstatus]
    rintro heq
    rw [Option.some.injEq] at heq
    subst heq
    cases hterminal
  obtain ⟨hchanges, hsettled⟩ := hr.settle (List.prefix_refl a) htarget hself
    (fun p i hp => hr.parent_not_pending htree hp)
    (fun u hu hcancelled c _ hc => homitted u (by rw [statusAt, hu, ← statusAt, hstatus]) hcancelled c
      hc)
  have hend' : (s.settle a target).statusAt a = some status := by
    rw [hsettled.status, if_neg fun h => hself h.2, hstatus]
  refine hchanges.trans (.single (.release hend' hterminal fun b hab => ?_))
  refine hsettled.not_pending ?_ hab
  rintro rfl
  cases hend

theorem fail {failure : Failure} (hr : Reached setup tree s (some a)) (htree : tree.Sound)
    (hkids : s.root.at? a = some (.mk job kids)) (hrun : job.status = .running)
    (hfailing : Failing setup doing s a job kids failure) :
    Changes setup doing s (some a) ((s.fail a failure).reported a) none := by
  have hchange : Change setup doing s (some a) _ (some a) := .fail hkids hrun hfailing
  refine (Changes.single hchange).trans ?_
  refine (hr.change hchange).settle_reported .failed htree ?_ rfl rfl rfl
    fun u hu _ c hc => .failed hc hu
  have hmove : job.status.canBecome .failed := by rw [hrun]; rfl
  rw [statusAt, jobAt_modifyEntry_move (jobAt_of_at? hkids) hmove rfl, if_pos rfl]
  exact congrArg some (Job.status_moved ..)

theorem stop (hr : Reached setup tree s (some a)) (htree : tree.Sound)
    (hkids : s.root.at? a = some (.mk job kids)) (hrun : job.status = .running)
    (hfits : doing.Fits s a job) (hstopped : Stopped setup s a job kids) :
    Changes setup doing s (some a) ((s.stop a).reported a) none := by
  have hchange : Change setup doing s (some a) _ (some a) := .stop hkids hrun hfits hstopped
  refine (Changes.single hchange).trans ?_
  refine (hr.change hchange).settle_reported .cancelled htree ?_ rfl ?_ ?_
    fun u hu hcancelled c hc => ?_
  · have hmove : job.status.canBecome .cancelled := by rw [hrun]; rfl
    rw [statusAt, jobAt_modifyEntry_move (jobAt_of_at? hkids) hmove rfl, if_pos rfl]
    exact congrArg some (Job.status_moved ..)
  · split <;> rfl
  · split <;> rfl
  · have heq : s.cancelled = u.cancelled := by
      rw [hcancelled, cancelled_move]
      rfl
    rw [heq]
    exact .stopped hc hu (.inl rfl)

/-- A node that may not start is left out with everything below it. -/
theorem leaveOut {target : Status} (hr : Reached setup tree s (some a)) (htree : tree.Sound)
    (hpending : s.statusAt a = some .pending)
    (htarget : target = if s.cancelled then .cancelled else .skipped)
    (homitted : Omitted s a a target) :
    Changes setup doing s (some a) ((s.leaveOut a target).reported a) none := by
  obtain ⟨job, hjob, hstatus⟩ := jobAt_of_statusAt hpending
  have hmove : job.status.canBecome target := by rw [hstatus]; exact homitted.canBecome
  have hchange : Change setup doing s (some a) (s.move a target "") (some a) :=
    .leave (List.prefix_refl a) hpending homitted fun _ _ _ hne => absurd rfl hne
  refine (Changes.single hchange).trans ?_
  refine (hr.change hchange).settle_reported target htree ?_ homitted.isTerminal
    homitted.canBecome homitted.isTerminal fun u hu hcancelled c hc => ?_
  · rw [statusAt_move hjob hmove, if_pos rfl]
  · rw [cancelled_move] at hcancelled
    have hor : target = .cancelled ∨ target = .skipped := by
      rw [htarget]
      split
      · exact .inl rfl
      · exact .inr rfl
    have := Omitted.stopped (s := u) hc hu hor
    rwa [hcancelled, ← htarget] at this

theorem succeed {output : Value} {message : String}
    (hkids : s.root.at? a = some (.mk job kids)) (hrun : job.status = .running)
    (hfits : doing.Fits s a job) (hearned : Earned setup job kids output message)
    (hnone : ∀ b, a <+: b → s.statusAt b ≠ some .pending) :
    Changes setup doing s (some a) ((s.succeed a output message).reported a) none := by
  have hmove : job.status.canBecome .succeeded := by rw [hrun]; rfl
  have hstatus (b : Address) : (s.succeed a output message).statusAt b =
      if b = a then some .succeeded else s.statusAt b := by
    rw [statusAt, State.succeed, jobAt_modifyEntry_move (jobAt_of_at? hkids) hmove rfl]
    split
    · exact congrArg some (Job.status_moved ..)
    · rfl
  have hself : (s.succeed a output message).statusAt a = some .succeeded := by
    rw [hstatus, if_pos rfl]
  refine (Changes.single (.succeed hkids hrun hfits hearned)).trans
    (.single (.release hself rfl fun b hab => ?_))
  rw [hstatus]
  split
  · decide
  · exact hnone b hab

/-! ## Containers whose children have ended -/

/-- A node that is no race has no winner. -/
theorem winnerAt_eq_none (hr : Reached setup tree s hand) (htree : tree.Sound)
    (hjob : s.jobAt a = some job) (hkind : job.node.kind ≠ .race) : s.winnerAt a = none := by
  cases hwinner : s.winnerAt a with
  | none => rfl
  | some i =>
    rw [winnerAt_of_jobAt hjob] at hwinner
    exact absurd ((hr.reasons htree).winner a job i hjob hwinner).1 hkind

/-- A race around the child of a node without a winner is one around the node. -/
theorem halted_of_kid {i : Nat} (hwinner : s.winnerAt a = none) (h : s.Halted (a ++ [i])) :
    s.Halted a := by
  rw [halted_iff_winnerAt] at h ⊢
  obtain ⟨above, j, below, ha, hsome⟩ := h
  rcases List.eq_nil_or_concat below with rfl | ⟨below, k, rfl⟩
  · obtain ⟨rfl, _⟩ : a = above ∧ i = j := by simpa using List.append_inj' ha rfl
    rw [hwinner] at hsome
    cases hsome
  · refine ⟨above, j, below, ?_, hsome⟩
    rw [List.concat_eq_append, ← List.cons_append, ← List.append_assoc] at ha
    exact (List.append_inj' ha rfl).1

/-- The node in hand has a child with the status. -/
theorem exists_statusAt {i : Nat} {kid : Live} (hkids : s.root.at? a = some (.mk job kids))
    (hi : kids[i]? = some kid) : s.statusAt (a ++ [i]) = some kid.status := by
  rw [statusAt_concat hkids, hi]
  rfl

/-- Nothing pending lies below a running node in hand that is no branch once its children have
ended. -/
theorem not_pending_below (hr : Reached setup tree s (some a)) (htree : tree.Sound)
    (hkids : s.root.at? a = some (.mk job kids)) (hrun : job.status = .running)
    (hbranch : job.node.kind ≠ .branch) (hall : ∀ kid ∈ kids, (Live.status kid).isTerminal)
    {b : Address} (hab : a <+: b) : s.statusAt b ≠ some .pending := by
  intro hpending
  obtain ⟨c, rfl⟩ := hab
  cases c with
  | nil =>
    rw [List.append_nil, statusAt_of_jobAt (jobAt_of_at? hkids), hrun] at hpending
    cases hpending
  | cons i c =>
    -- the child above the pending node has ended
    obtain ⟨below, hbelow, _⟩ := jobAt_of_statusAt hpending
    rw [List.append_cons] at hbelow hpending
    obtain ⟨kidJob, hkidJob⟩ := jobAt_of_append hbelow
    rw [jobAt_concat hkids] at hkidJob
    obtain ⟨kid, hi, rfl⟩ := Option.map_eq_some_iff.1 hkidJob
    obtain ⟨y, old, hy, hold, _, hrunning⟩ := (hr.control htree).closed _ _
      (List.prefix_append (a ++ [i]) c)
      ⟨kid.status, exists_statusAt hkids hi, hall kid (List.mem_of_getElem? hi)⟩ hpending
    rw [Option.some.injEq] at hy
    subst hy
    rw [jobAt_of_at? hkids, Option.some.injEq] at hold
    subst hold
    exact hbranch (hrunning hrun)

/-- Nothing lies below a step. -/
theorem kids_eq_nil (hr : Reached setup tree s (some a)) (htree : tree.Sound)
    (hkids : s.root.at? a = some (.mk job kids)) (hkind : job.node.kind = .step) : kids = [] := by
  have hshape := hr.shape htree
  rw [← List.length_eq_zero_iff, hshape.length_kids hkids,
    Job.arity_of_kind_ne (by rw [hkind]; decide),
    (hshape.sound a job (jobAt_of_at? hkids)).children_eq_nil hkind]
  rfl

theorem not_pending_of_step (hr : Reached setup tree s (some a)) (htree : tree.Sound)
    (hkids : s.root.at? a = some (.mk job kids)) (hrun : job.status = .running)
    (hkind : job.node.kind = .step) {b : Address} (hab : a <+: b) :
    s.statusAt b ≠ some .pending := by
  refine hr.not_pending_below htree hkids hrun (by rw [hkind]; decide) ?_ hab
  rw [hr.kids_eq_nil htree hkids hkind]
  rintro kid ⟨⟩

/-- What the end of the children tells about a container that is to end as some of them did, with
the output if they have succeeded. -/
structure Gathered (setup : Setup) (s : State) (a : Address) (job : Job) (kids shown : List Live)
    (output : Value) : Prop where
  kind : job.node.kind ≠ .step ∧ job.node.kind ≠ .race
  sub : ∀ kid ∈ shown, kid ∈ kids
  /-- The children that do not count have not failed. -/
  failed : (shown.filter fun kid => kid.status = .failed) =
    kids.filter fun kid => kid.status = .failed
  cancelled : ∀ kid ∈ shown, Live.status kid = .cancelled → s.cancelled = true ∨ s.Halted a
  skipped : ∀ kid ∈ shown, Live.status kid = .skipped → s.Halted a
  /-- All have ended, or one of them did not succeed. -/
  ended : (∀ kid ∈ shown, (Live.status kid).isTerminal) ∨
    ∃ kid ∈ shown, (Live.status kid).isTerminal ∧ kid.status ≠ .succeeded
  group : job.node.kind.isGroup = true → ∀ kid ∈ kids, (Live.status kid).isTerminal
  /-- The children of a sequence run one after the other. -/
  sequence : job.node.kind = .sequence → kids = [] ∨ ∃ k : Nat,
    (∀ (j : Nat) (kid : Live), j < k → kids[j]? = some kid → kid.status = .succeeded) ∧
      ∀ (j : Nat) (kid : Live), k < j → kids[j]? = some kid → kid.status = .pending
  /-- Of the children of a branch only the chosen one counts. -/
  branch : job.node.kind = .branch → (∃ kid ∈ shown, Live.status kid ≠ .succeeded) →
    ∀ kid ∈ kids, Live.status kid ≠ .succeeded
  earned : (∀ kid ∈ shown, Live.status kid = .succeeded) → Earned setup job kids output "" ∧
    ∀ b, a <+: b → s.statusAt b ≠ some .pending

/-- Unless a child was stopped, was left out or has failed, all have succeeded. -/
theorem Gathered.all_succeeded {shown : List Live} {output : Value}
    (h : Gathered setup s a job kids shown output)
    (hcancelled : ∀ kid ∈ shown, Live.status kid ≠ .cancelled)
    (hfailed : ∀ kid ∈ shown, Live.status kid ≠ .failed)
    (hskipped : ∀ kid ∈ shown, Live.status kid ≠ .skipped) :
    ∀ kid ∈ shown, Live.status kid = .succeeded := by
  have hterminal {kid : Live} (hmem : kid ∈ shown) (hend : kid.status.isTerminal) :
      kid.status = .succeeded := by
    have h1 := hcancelled kid hmem
    have h2 := hfailed kid hmem
    have h3 := hskipped kid hmem
    cases hstatus : kid.status with
    | succeeded => rfl
    | pending => rw [hstatus] at hend; cases hend
    | running => rw [hstatus] at hend; cases hend
    | cancelled => exact absurd hstatus h1
    | failed => exact absurd hstatus h2
    | skipped => exact absurd hstatus h3
  rcases h.ended with hall | ⟨last, hmem, hend, hnot⟩
  · exact fun kid hmem => hterminal hmem (hall kid hmem)
  · exact absurd (hterminal hmem hend) hnot

/-- A container one of whose children did not succeed may be stopped. -/
theorem Gathered.stopped {shown : List Live} {output : Value}
    (h : Gathered setup s a job kids shown output) (hcause : s.cancelled = true ∨ s.Halted a)
    (hnot : ∃ kid ∈ shown, Live.status kid ≠ .succeeded)
    (hreason : (∃ kid ∈ shown, Live.status kid = .cancelled) ∨ s.cancelled = true ∨
      ¬ ∃ kid ∈ shown, Live.status kid = .failed) : Stopped setup s a job kids := by
  refine ⟨hcause, fun hk => absurd hk h.kind.1, fun _ _ => ⟨?_, ?_⟩,
    fun hbranch => h.branch hbranch hnot, fun hk => absurd hk h.kind.2⟩
  · obtain ⟨kid, hmem, hstatus⟩ := hnot
    exact ⟨kid, h.sub kid hmem, hstatus⟩
  · rcases hreason with ⟨kid, hmem, hstatus⟩ | hcancelled | hnoFailed
    · exact .inl ⟨kid, h.sub kid hmem, hstatus⟩
    · exact .inr (.inl hcancelled)
    · refine .inr (.inr fun kid hmem hstatus => hnoFailed ?_)
      have hfailed : kid ∈ shown.filter fun kid => kid.status = .failed := by
        rw [h.failed]
        exact List.mem_filter.2 ⟨hmem, by simpa using hstatus⟩
      exact ⟨kid, (List.mem_filter.1 hfailed).1, hstatus⟩

theorem failFromKids (hr : Reached setup tree s (some a)) (htree : tree.Sound)
    (hkids : s.root.at? a = some (.mk job kids)) (hrun : job.status = .running)
    (hfits : doing.Fits s a job) (hkind : job.node.kind ≠ .step) {shown : List Live}
    (hshown : (shown.filter fun kid => kid.status = .failed) =
      kids.filter fun kid => kid.status = .failed)
    (hfailed : ∃ kid ∈ shown, Live.status kid = .failed)
    (hgroup : job.node.kind.isGroup = true → ∀ kid ∈ kids, (Live.status kid).isTerminal)
    (hsequence : job.node.kind = .sequence → ∃ k : Nat,
      (∀ (j : Nat) (kid : Live), j < k → kids[j]? = some kid → kid.status = .succeeded) ∧
        ∀ (j : Nat) (kid : Live), k < j → kids[j]? = some kid → kid.status = .pending)
    (hrace : job.node.kind = .race → job.winner = none ∧ ∀ kid ∈ kids, Live.status kid = .failed) :
    Changes setup doing s (some a) ((s.failFromKids a shown).reported a) none := by
  obtain ⟨kid, hmem, hstatus⟩ := hfailed
  have hmem' : kid ∈ shown.filter fun kid => kid.status = .failed :=
    List.mem_filter.2 ⟨hmem, by simpa using hstatus⟩
  obtain ⟨first, rest, hfilter⟩ := List.exists_cons_of_ne_nil (List.ne_nil_of_mem hmem')
  have hstate : s.failFromKids a shown = s.fail a (childFailure first (first :: rest)) := by
    rw [State.failFromKids]
    simp only [hfilter]
    rfl
  rw [hstate]
  rw [hshown] at hfilter
  exact hr.fail htree hkids hrun
    (.blamed hkind hfits ⟨⟨first, rest, hfilter, rfl⟩, hgroup, hsequence, hrace⟩)

/-- A container whose children have ended is stopped, fails or succeeds as they did. -/
theorem finish {shown : List Live} {output : Value} (hr : Reached setup tree s (some a))
    (htree : tree.Sound) (hkids : s.root.at? a = some (.mk job kids)) (hrun : job.status = .running)
    (hfits : doing.Fits s a job) (h : Gathered setup s a job kids shown output) :
    Changes setup doing s (some a) ((s.finish a shown output).reported a) none := by
  obtain ⟨hstep, hrace⟩ := h.kind
  have hjob := jobAt_of_at? hkids
  have hcontains (status : Status) : (shown.map Live.status).contains status = true ↔
      ∃ kid ∈ shown, Live.status kid = status := by
    simp [eq_comm]
  unfold State.finish
  simp only
  split
  · rename_i hstop
    rw [Bool.or_eq_true, Bool.and_eq_true, hcontains, hcontains] at hstop
    refine hr.stop htree hkids hrun hfits ?_
    rcases hstop with ⟨kid, hmem, hstatus⟩ | ⟨hcancelled, kid, hmem, hstatus⟩
    · exact h.stopped (h.cancelled kid hmem hstatus) ⟨kid, hmem, by rw [hstatus]; decide⟩
        (.inl ⟨kid, hmem, hstatus⟩)
    · exact h.stopped (.inl hcancelled) ⟨kid, hmem, by rw [hstatus]; decide⟩
        (.inr (.inl hcancelled))
  · rename_i hnoStop
    rw [Bool.or_eq_true, Bool.and_eq_true, hcontains, hcontains, not_or] at hnoStop
    split
    · rename_i hstop
      rw [Bool.and_eq_true, Bool.and_eq_true, halted_iff hjob, Bool.not_eq_true', ← Bool.not_eq_true,
        hcontains] at hstop
      obtain ⟨⟨hhalted, hunfinished⟩, hnoFailed⟩ := hstop
      rw [List.any_eq_true] at hunfinished
      obtain ⟨status, hmem, hstatus⟩ := hunfinished
      obtain ⟨kid, hkid, rfl⟩ := List.mem_map.1 hmem
      rw [decide_eq_true_eq] at hstatus
      exact hr.stop htree hkids hrun hfits
        (h.stopped (.inr hhalted) ⟨kid, hkid, hstatus.1⟩ (.inr (.inr hnoFailed)))
    · rename_i hgo
      split
      · rename_i hfailed
        rw [hcontains] at hfailed
        refine hr.failFromKids htree hkids hrun hfits hstep h.failed hfailed h.group
          (fun hseq => ?_) fun hk => absurd hk hrace
        rcases h.sequence hseq with rfl | hk
        · obtain ⟨kid, hmem, _⟩ := hfailed
          cases h.sub kid hmem
        · exact hk
      · rename_i hnoFailed
        rw [hcontains] at hnoFailed
        have hskipped : ∀ kid ∈ shown, Live.status kid ≠ .skipped := by
          intro kid hmem hstatus
          refine hgo ?_
          rw [Bool.and_eq_true, Bool.and_eq_true, halted_iff hjob, Bool.not_eq_true',
            ← Bool.not_eq_true, hcontains]
          refine ⟨⟨h.skipped kid hmem hstatus, ?_⟩, hnoFailed⟩
          rw [List.any_eq_true]
          exact ⟨kid.status, List.mem_map_of_mem hmem, by rw [hstatus]; decide⟩
        have hall := h.all_succeeded (fun kid hmem hstatus => hnoStop.1 ⟨kid, hmem, hstatus⟩)
          (fun kid hmem hstatus => hnoFailed ⟨kid, hmem, hstatus⟩) hskipped
        obtain ⟨hearned, hnone⟩ := h.earned hall
        exact Reached.succeed hkids hrun hfits hearned hnone

/-! ## Nodes that run several children -/

/-- The children of a node in hand have ended for a reason. -/
theorem cancelled_kid (hr : Reached setup tree s (some a)) (htree : tree.Sound)
    (hkids : s.root.at? a = some (.mk job kids)) (hwinner : s.winnerAt a = none) :
    ∀ kid ∈ kids, Live.status kid = .cancelled → s.cancelled = true ∨ s.Halted a := by
  intro kid hmem hstatus
  obtain ⟨i, hi⟩ := List.getElem?_of_mem hmem
  have hkid := exists_statusAt hkids hi
  rw [hstatus] at hkid
  exact ((hr.reasons htree).cancelled _ hkid).imp_right (halted_of_kid hwinner)

theorem skipped_kid (hr : Reached setup tree s (some a)) (htree : tree.Sound)
    (hkids : s.root.at? a = some (.mk job kids)) (hrun : job.status = .running)
    (hbranch : job.node.kind ≠ .branch) (hwinner : s.winnerAt a = none) :
    ∀ kid ∈ kids, Live.status kid = .skipped → s.Halted a := by
  intro kid hmem hstatus
  obtain ⟨i, hi⟩ := List.getElem?_of_mem hmem
  have hkid := exists_statusAt hkids hi
  rw [hstatus] at hkid
  rcases (hr.reasons htree).skipped a i job (jobAt_of_at? hkids) hrun hkid with
    hhalted | ⟨hbranch', _⟩
  · exact halted_of_kid hwinner hhalted
  · exact absurd hbranch' hbranch

section Race

variable {frame : Frame}

/-- The winner of a race is one of its candidates, and has succeeded. -/
theorem exists_of_winner {i : Nat} (hr : Reached setup tree s hand) (htree : tree.Sound)
    (hkids : s.root.at? a = some (.mk job kids)) (hwinner : job.winner = some i) :
    ∃ winner, kids[i]? = some winner ∧ winner.status = .succeeded := by
  obtain ⟨_, _, hkid⟩ := (hr.reasons htree).winner a job i (jobAt_of_at? hkids) hwinner
  rw [statusAt_concat hkids] at hkid
  exact Option.map_eq_some_iff.1 hkid

/-- A candidate that has succeeded would have won. -/
theorem not_succeeded_of_winner (hr : Reached setup tree s (some a)) (htree : tree.Sound)
    (hkids : s.root.at? a = some (.mk job kids)) (hrace : job.node.kind = .race)
    (hwinner : job.winner = none) : ∀ kid ∈ kids, Live.status kid ≠ .succeeded := by
  intro kid hmem hstatus
  obtain ⟨i, hi⟩ := List.getElem?_of_mem hmem
  have hkid := exists_statusAt hkids hi
  rw [hstatus] at hkid
  have hwon := (hr.reasons htree).won a i job (jobAt_of_at? hkids) hrace hkid
    ((hr.control htree).inactive_below_hand (List.cons_ne_nil i []))
  rw [hwinner] at hwon
  cases hwon

/-- All candidates of a race without a winner that has not been stopped have failed. -/
theorem failed_of_winner (hr : Reached setup tree s (some a)) (htree : tree.Sound)
    (hkids : s.root.at? a = some (.mk job kids)) (hrun : job.status = .running)
    (hrace : job.node.kind = .race) (hwinner : job.winner = none)
    (hall : ∀ kid ∈ kids, (Live.status kid).isTerminal)
    (hgo : ¬ (s.cancelled = true ∨ s.Halted a)) : ∀ kid ∈ kids, Live.status kid = .failed := by
  have hwinnerAt : s.winnerAt a = none := by rw [winnerAt_of_jobAt (jobAt_of_at? hkids), hwinner]
  have hbranch : job.node.kind ≠ .branch := by rw [hrace]; decide
  intro kid hmem
  have hterminal := hall kid hmem
  cases hstatus : kid.status with
  | failed => rfl
  | pending => rw [hstatus] at hterminal; cases hterminal
  | running => rw [hstatus] at hterminal; cases hterminal
  | cancelled => exact absurd (hr.cancelled_kid htree hkids hwinnerAt kid hmem hstatus) hgo
  | skipped =>
    exact absurd (.inr (hr.skipped_kid htree hkids hrun hbranch hwinnerAt kid hmem hstatus)) hgo
  | succeeded => exact absurd hstatus (hr.not_succeeded_of_winner htree hkids hrace hwinner kid hmem)

/-- A race without a winner whose candidates have ended is stopped or fails. -/
theorem finishLost (hr : Reached setup tree s (some a)) (htree : tree.Sound)
    (hkids : s.root.at? a = some (.mk job kids)) (hrun : job.status = .running)
    (hfits : doing.Fits s a job) (hrace : job.node.kind = .race) (hwinner : job.winner = none)
    (hall : ∀ kid ∈ kids, (Live.status kid).isTerminal)
    (hgoes : kids ≠ [] ∨ (s.cancelled = false ∧ ¬ s.Halted a)) :
    Changes setup doing s (some a)
      ((if s.cancelled || (s.root.contextAt a).halted then s.stop a
        else if kids.isEmpty then s.succeed a .null ""
        else s.failFromKids a kids).reported a) none := by
  have hjob := jobAt_of_at? hkids
  have hstep : job.node.kind ≠ .step := by rw [hrace]; decide
  have hbranch : job.node.kind ≠ .branch := by rw [hrace]; decide
  split
  · rename_i hstop
    rw [Bool.or_eq_true, halted_iff hjob] at hstop
    refine hr.stop htree hkids hrun hfits ⟨hstop, fun hk => absurd hk hstep,
      fun _ hk => absurd hrace hk, fun hk => absurd hk hbranch,
      fun _ => ⟨hwinner, ?_, hr.not_succeeded_of_winner htree hkids hrace hwinner⟩⟩
    rcases hgoes with hne | ⟨hcancelled, hhalted⟩
    · exact hne
    · rcases hstop with hstop | hstop
      · rw [hcancelled] at hstop
        cases hstop
      · exact absurd hstop hhalted
  · rename_i hgo
    rw [Bool.or_eq_true, halted_iff hjob] at hgo
    split
    · rename_i hempty
      refine Reached.succeed hkids hrun hfits ?_ fun b hab =>
        hr.not_pending_below htree hkids hrun hbranch hall hab
      cases hwork : job.node.work with
      | race =>
        rw [Earned, hwork]
        exact .inr ⟨List.isEmpty_iff.1 hempty, rfl⟩
      | _ => rw [Node.kind, hwork] at hrace; cases hrace
    · rename_i hnonempty
      have hfailed := hr.failed_of_winner htree hkids hrun hrace hwinner hall hgo
      obtain ⟨first, hfirst⟩ := List.exists_mem_of_ne_nil kids
        fun hempty => hnonempty (List.isEmpty_iff.2 hempty)
      refine hr.failFromKids htree hkids hrun hfits hstep rfl
        ⟨first, hfirst, hfailed first hfirst⟩ (fun _ => hall) (fun hseq => ?_)
        fun _ => ⟨hwinner, hfailed⟩
      rw [hrace] at hseq
      cases hseq

/-- A race whose candidates have ended goes to its winner, is stopped or fails. -/
theorem finishRace (hr : Reached setup tree s (some a)) (htree : tree.Sound)
    (hkids : s.root.at? a = some (.mk job kids)) (hrun : job.status = .running)
    (hfits : doing.Fits s a job) (hrace : job.node.kind = .race) (hframe : job.frame? = some frame)
    (hall : ∀ kid ∈ kids, (Live.status kid).isTerminal)
    (hgoes : kids ≠ [] ∨ (s.cancelled = false ∧ ¬ s.Halted a)) :
    Changes setup doing s (some a) ((s.finishRace a frame kids).reported a) none := by
  have hwinner : job.winner = frame.winner := by rw [Job.winner, hframe]; rfl
  have hbranch : job.node.kind ≠ .branch := by rw [hrace]; decide
  unfold State.finishRace
  cases hwon : frame.winner with
  | none => exact hr.finishLost htree hkids hrun hfits hrace (hwinner.trans hwon) hall hgoes
  | some i =>
    obtain ⟨winner, hkid, hsucceeded⟩ := hr.exists_of_winner htree hkids (hwinner.trans hwon)
    rw [Option.bind_some, hkid]
    refine Reached.succeed hkids hrun hfits ?_ fun b hab =>
      hr.not_pending_below htree hkids hrun hbranch hall hab
    cases hwork : job.node.work with
    | race =>
      rw [Earned, hwork]
      exact .inl ⟨i, winner, hwinner.trans hwon, hkid, hsucceeded, rfl, rfl⟩
    | _ => rw [Node.kind, hwork] at hrace; cases hrace

end Race

/-- A node that runs several children ends when all have ended. -/
theorem join {frame : Frame} (hr : Reached setup tree s (some a)) (htree : tree.Sound)
    (hkids : s.root.at? a = some (.mk job kids)) (hrun : job.status = .running)
    (hfits : doing.Fits s a job) (hgroup : job.node.kind.isGroup = true)
    (hframe : job.frame? = some frame)
    (hall : ∀ kid ∈ kids, (Live.status kid).isTerminal)
    (hgoes : kids ≠ [] ∨ (s.cancelled = false ∧ ¬ s.Halted a)) :
    Changes setup doing s (some a) (s.join a) none := by
  have hjob := jobAt_of_at? hkids
  -- parallel nodes and loops end as their children did
  have hfinish (hrace : job.node.kind ≠ .race)
      (hearned : (∀ kid ∈ kids, Live.status kid = .succeeded) →
        Earned setup job kids (outputs kids) "") :
      Changes setup doing s (some a) ((s.finish a kids (outputs kids)).reported a) none := by
    have hstep : job.node.kind ≠ .step := by rintro hk; rw [hk] at hgroup; cases hgroup
    have hbranch : job.node.kind ≠ .branch := by rintro hk; rw [hk] at hgroup; cases hgroup
    have hwinner := hr.winnerAt_eq_none htree hjob hrace
    refine hr.finish htree hkids hrun hfits ⟨⟨hstep, hrace⟩, fun _ h => h, rfl,
      hr.cancelled_kid htree hkids hwinner, hr.skipped_kid htree hkids hrun hbranch hwinner,
      .inl hall, fun _ => hall, fun hseq => ?_, fun hk => absurd hk hbranch,
      fun hsucceeded => ⟨hearned hsucceeded, fun b hab => ?_⟩⟩
    · rw [hseq] at hgroup
      cases hgroup
    · exact hr.not_pending_below htree hkids hrun hbranch hall hab
  rw [State.join, hkids]
  cases hwork : job.node.work with
  | race limit =>
    have hrace : job.node.kind = .race := by rw [Node.kind, hwork]; rfl
    simp only [hwork, hframe, Option.getD_some]
    exact hr.finishRace htree hkids hrun hfits hrace hframe hall hgoes
  | parallel limit =>
    simp only [hwork]
    refine hfinish (by rw [Node.kind, hwork]; simp [Work.kind]) fun hsucceeded => ?_
    rw [Earned, hwork]
    exact ⟨hsucceeded, rfl⟩
  | loop source itemName indexName limit =>
    simp only [hwork]
    refine hfinish (by rw [Node.kind, hwork]; simp [Work.kind]) fun hsucceeded => ?_
    rw [Earned, hwork]
    exact ⟨hsucceeded, rfl⟩
  | _ => rw [Node.kind, hwork] at hgroup; cases hgroup

end Reached
end Workflow.State
