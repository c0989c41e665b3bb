import Workflow.Proofs.Run.Waits

/-!
# What lasts of the past

A node that has ended stays as it is, and of its children at most those that are pending are still
left out. So what led to the end of a node can be read off its children at any later time.

* `Later` relates a child of a node that has ended to what becomes of it.
* `State.Opened` says how a container that has started has opened, and `State.Ended` why a node has
  ended.
* `State.Past` says this of one state, and `State.Past.changes` that a step keeps it.
-/

namespace Workflow

/-- What may become of a child of a node that has ended. Only once the run is cancelled it may still
be cancelled. -/
inductive Later (cancelled : Bool) (kid kid' : Live) : Prop
  | same : kid'.entry = kid.entry → Later cancelled kid kid'
  | left : kid.status = .pending →
      kid'.status = .skipped ∨ (kid'.status = .cancelled ∧ cancelled = true) →
      Later cancelled kid kid'

namespace Later

variable {cancelled cancelled' : Bool} {kid kid' kid'' : Live}

theorem trans (h : Later cancelled kid kid') (h' : Later cancelled' kid' kid'')
    (hcancelled : cancelled = true → cancelled' = true) : Later cancelled' kid kid'' := by
  cases h with
  | same heq =>
    cases h' with
    | same heq' => exact .same (heq'.trans heq)
    | left hpending hleft =>
      refine .left ?_ hleft
      rw [Live.status, ← heq, ← Live.status, hpending]
  | left hpending hleft =>
    cases h' with
    | same heq' =>
      refine .left hpending ?_
      rw [Live.status, heq', ← Live.status]
      exact hleft.imp_right (And.imp_right hcancelled)
    | left hpending' =>
      rw [hpending'] at hleft
      simp at hleft

/-- A child that has ended stays as it is. -/
theorem entry_eq (h : Later cancelled kid kid') (hend : kid.status ≠ .pending) :
    kid'.entry = kid.entry := by
  cases h with
  | same heq => exact heq
  | left hpending => exact absurd hpending hend

/-- A child that counts for the end of the node above it has not been left since. -/
theorem entry_eq' (h : Later cancelled kid kid') (hskipped : kid'.status ≠ .skipped)
    (hcancelled : kid'.status ≠ .cancelled) : kid'.entry = kid.entry := by
  cases h with
  | same heq => exact heq
  | left _ hleft =>
    rcases hleft with hstatus | ⟨hstatus, _⟩
    · exact absurd hstatus hskipped
    · exact absurd hstatus hcancelled

end Later

namespace State

variable {setup : Setup} {tree : Node} {s t : State} {hand after : Option Address} {doing : Doing}
  {a b : Address} {job : Job} {kids : List Live}

/-! ## The children of a node that has ended -/

/-- What a change may make of the children of a node follows from what it makes of each. -/
theorem forall₂_kids {R : Live → Live → Prop} {job' : Job} {kids' : List Live}
    (hkids : s.root.at? a = some (.mk job kids)) (hkids' : t.root.at? a = some (.mk job' kids'))
    (hlength : kids'.length = kids.length)
    (h : ∀ i kid kid', s.root.at? (a ++ [i]) = some kid → t.root.at? (a ++ [i]) = some kid' →
      R kid kid') : List.Forall₂ R kids kids' := by
  rw [List.forall₂_iff_get]
  refine ⟨hlength.symm, fun i hi hi' => h i _ _ ?_ ?_⟩
  · rw [Live.at?_concat hkids]
    exact List.getElem?_eq_getElem hi
  · rw [Live.at?_concat hkids']
    exact List.getElem?_eq_getElem hi'

theorem Omitted.target {target : Status} (h : Omitted s a b target) :
    target = .skipped ∨ (target = .cancelled ∧ s.cancelled = true) := by
  cases h with
  | cancelled hcancelled => exact .inr ⟨rfl, hcancelled⟩
  | stopped =>
    split
    · exact .inr ⟨rfl, ‹_›⟩
    · exact .inl rfl
  | _ => exact .inl rfl

/-- A node that has ended is not changed. -/
theorem Change.entry_of_isTerminal (hchange : Change setup doing s hand t after)
    (hshape : Shape tree s) (hjob : s.jobAt b = some job) (hend : job.status.isTerminal) :
    ∃ job', t.jobAt b = some job' ∧ job'.node = job.node ∧ job'.entry = job.entry := by
  rcases hchange.move_or_quiet hshape with ⟨x, c, f, target, message, _, _, hmove, ht⟩ | hquiet
  · obtain ⟨old, hold, hlegal, _, hjobs, _⟩ := hmove.moved ht
    refine ⟨job, ?_, rfl, rfl⟩
    rw [hjobs, if_neg, hjob]
    rintro rfl
    rw [hjob, Option.some.injEq] at hold
    subst hold
    rw [Status.isTerminal, List.isEmpty_iff] at hend
    rw [Status.canBecome, hend] at hlegal
    cases hlegal
  · obtain ⟨job', hjob', hnode, _, hsame⟩ := hquiet.entry b job hjob
    refine ⟨job', hjob', hnode, hsame ?_⟩
    intro hrun
    rw [hrun] at hend
    cases hend

/-- A change leaves the number of children of a node, unless it gives a loop its instances. -/
theorem Change.arity_cases {job' : Job} (hchange : Change setup doing s hand t after)
    (hshape : Shape tree s) (hjob : s.jobAt a = some job) (hjob' : t.jobAt a = some job') :
    job'.arity = job.arity ∨
      ∃ frame, Expansion s a job frame t ∧ doing = .start a (.items frame.source) := by
  rcases hchange.fixed with hsame | ⟨x, old, frame, hexp, hdoing⟩
  · have hfixed := hsame a
    rw [hjob, hjob', Option.map_some, Option.map_some, Option.some.injEq, Job.fixed,
      Job.fixed] at hfixed
    exact .inl (congrArg (fun fixed => fixed.2.2) hfixed)
  · by_cases hax : a = x
    · subst hax
      have hold := hexp.jobAt
      rw [hjob, Option.some.injEq] at hold
      subst hold
      exact .inr ⟨frame, hexp, hdoing⟩
    · have hkept := Control.jobAt_old hshape hexp hax hjob
      rw [hjob', hjob, Option.some.injEq] at hkept
      exact .inl (congrArg Job.arity hkept)

/-- A change leaves the number of children of a node that does not run. -/
theorem Change.arity_eq {job' : Job} (hchange : Change setup doing s hand t after)
    (hshape : Shape tree s) (hjob : s.jobAt a = some job) (hjob' : t.jobAt a = some job')
    (hstatus : job.status ≠ .running) : job'.arity = job.arity := by
  rcases hchange.arity_cases hshape hjob hjob' with harity | ⟨frame, hexp, _⟩
  · exact harity
  · exact absurd hexp.status hstatus

/-- A node that has ended stays as it has ended, with its children, in the next step. -/
theorem Reached.entry_step (h : Reached setup tree s none) (htree : tree.Sound)
    (hjob : s.jobAt a = some job) (hend : job.status.isTerminal) (hstep : s.step setup = some t) :
    ∃ job', t.jobAt a = some job' ∧ job'.entry = job.entry ∧ job'.arity = job.arity := by
  refine h.changes_induction (P := fun u _ =>
    ∃ job', u.jobAt a = some job' ∧ job'.entry = job.entry ∧ job'.arity = job.arity)
    (h.step htree hstep) ⟨job, hjob, rfl, rfl⟩ ?_
  rintro u v between next hu hchange ⟨old, hold, hentry, harity⟩
  have hshape := hu.shape htree
  have hended : old.status.isTerminal := by rwa [Job.status, hentry]
  have hnot : old.status ≠ .running := by
    intro hrun
    rw [hrun] at hended
    cases hended
  obtain ⟨new, hnew, _, hentry'⟩ := hchange.entry_of_isTerminal hshape hold hended
  exact ⟨new, hnew, hentry'.trans hentry, (hchange.arity_eq hshape hold hnew hnot).trans harity⟩

/-- A node that has ended stays as it has ended, with its children, to the end of the run. -/
theorem Reached.entry_runToEnd (h : Reached setup tree s none) (htree : tree.Sound)
    (hjob : s.jobAt a = some job) (hend : job.status.isTerminal) :
    ∃ job', (s.runToEnd setup).jobAt a = some job' ∧ job'.entry = job.entry ∧
      job'.arity = job.arity := by
  fun_induction State.runToEnd s setup generalizing job with
  | case1 s t hstep ih =>
    obtain ⟨job', hjob', hentry, harity⟩ := h.entry_step htree hjob hend hstep
    obtain ⟨last, hlast, hsame, hsame'⟩ := ih (h.changes (h.step htree hstep)) hjob'
      (by rwa [Job.status, hentry])
    exact ⟨last, hlast, hsame.trans hentry, hsame'.trans harity⟩
  | case2 s => exact ⟨job, hjob, rfl, rfl⟩

/-- A node that has ended stays as it has ended to the end of the run. -/
theorem Reached.statusAt_runToEnd {status : Status} (h : Reached setup tree s none)
    (htree : tree.Sound) (hstatus : s.statusAt a = some status) (hend : status.isTerminal) :
    (s.runToEnd setup).statusAt a = some status := by
  obtain ⟨job, hjob, rfl⟩ := jobAt_of_statusAt hstatus
  obtain ⟨job', hjob', hentry, _⟩ := h.entry_runToEnd htree hjob hend
  rw [statusAt_of_jobAt hjob', Job.status, hentry, Job.status]

/-- A node that has ended stays as it has ended in all later states of the run. -/
theorem Reached.statusAt_runWithin {status : Status} (h : Reached setup tree s none)
    (htree : tree.Sound) (hstatus : s.statusAt a = some status) (hend : status.isTerminal)
    (steps : Nat) : (s.runWithin setup steps).statusAt a = some status := by
  refine h.runWithin_induction (P := fun u => u.statusAt a = some status) htree hstatus ?_ steps
  intro u v hu hstep hbefore
  obtain ⟨job, hjob, rfl⟩ := jobAt_of_statusAt hbefore
  obtain ⟨job', hjob', hentry, _⟩ := hu.entry_step htree hjob hend hstep
  rw [statusAt_of_jobAt hjob', Job.status, hentry, Job.status]

/-- A change leaves the number of children of a node that has ended. -/
theorem Change.length_kids {job' : Job} {kids' : List Live}
    (hchange : Change setup doing s hand t after) (hshape : Shape tree s)
    (hkids : s.root.at? a = some (.mk job kids)) (hkids' : t.root.at? a = some (.mk job' kids'))
    (hend : job.status ≠ .running) : kids'.length = kids.length := by
  rw [hshape.length_kids hkids, (hshape.change hchange).length_kids hkids']
  exact hchange.arity_eq hshape (jobAt_of_at? hkids) (jobAt_of_at? hkids') hend

/-- The children of a node that has ended are at most left out. -/
theorem Change.later {job' : Job} {kids' : List Live} (hchange : Change setup doing s hand t after)
    (hcontrol : Control setup s hand) (hshape : Shape tree s)
    (hkids : s.root.at? a = some (.mk job kids)) (hkids' : t.root.at? a = some (.mk job' kids'))
    (hend : job.status.isTerminal) : List.Forall₂ (Later t.cancelled) kids kids' := by
  have hnot : job.status ≠ .running := by
    intro hrun
    rw [hrun] at hend
    cases hend
  refine forall₂_kids hkids hkids' (hchange.length_kids hshape hkids hkids' hnot)
    fun i kid kid' hkid hkid' => ?_
  have hkidJob := Live.jobAt_of_at? hkid
  have hkidJob' := Live.jobAt_of_at? hkid'
  have hinactive : ¬ Active s hand (a ++ [i]) := by
    intro hactive
    obtain ⟨above, habove, hrun, _⟩ := hcontrol.parent hactive
    rw [jobAt_of_at? hkids, Option.some.injEq] at habove
    rw [habove] at hnot
    exact hnot hrun
  rcases hchange.move_or_quiet hshape with ⟨x, c, f, target, message, rfl, _, hmove, ht⟩ | hquiet
  · obtain ⟨old, hold, _, _, hjobs, _⟩ := hmove.moved ht
    have hkidStatus' := hmove.statusAt ht (a ++ [i])
    by_cases hc : a ++ [i] = c
    · subst hc
      -- a child that is moved is in hand unless it is left out
      cases hmove with
      | leave _ hpending homitted =>
        refine .left ?_ ?_
        · rw [State.statusAt, State.jobAt, hkidJob] at hpending
          exact Option.some.inj hpending
        · rw [if_pos rfl, State.statusAt, State.jobAt, hkidJob'] at hkidStatus'
          rw [show kid'.status = target from Option.some.inj hkidStatus']
          exact homitted.target.imp_right (And.imp_right hchange.cancelled)
      | _ => exact absurd (.inl rfl) hinactive
    · have := hjobs (a ++ [i])
      rw [if_neg hc, State.jobAt, State.jobAt, hkidJob, hkidJob', Option.some.injEq] at this
      exact .same (congrArg Job.entry this)
  · obtain ⟨job', hjob', _, _, hsame⟩ := hquiet.entry (a ++ [i]) kid.job hkidJob
    rw [State.jobAt, hkidJob', Option.some.injEq] at hjob'
    refine .same ?_
    rw [Live.entry, hjob', hsame]
    · rfl
    · intro hrun
      exact hinactive (.inr (.inr (.inr ((statusAt_of_jobAt hkidJob).trans (congrArg some hrun)))))

/-! ## How nodes opened and ended -/

/-- How a container that has started has opened: it is just opening, it has the children that it was
to run, or it could not start. -/
inductive Opened (P : Address → Opening → Prop) (doing : Doing) (s : State) (hand : Option Address)
    (a : Address) (job : Job) : Prop
  | opening {o : Opening} : hand = some a → job.status = .running → doing = .start a o →
      Opened P doing s hand a job
  | fits {o : Opening} : P a o → o.Fits s a job → Opened P doing s hand a job
  | refused {failure : Failure} : P a (.refused failure) → job.status = .failed →
      job.entry.error = some failure → Opened P doing s hand a job

/-- A node that ended, with its children then and what has become of them. -/
structure Since (s : State) (old : Job) (before : List Live) (job : Job) (kids : List Live) :
    Prop where
  node : job.node = old.node
  path : job.entry.path = old.entry.path
  id : job.entry.id = old.entry.id
  inputs : job.entry.inputs = old.entry.inputs
  kids : List.Forall₂ (Later s.cancelled) before kids

/-- Why a node that had started ended as it did. -/
inductive Ended (setup : Setup) (P : Address → Opening → Prop) (s : State) (a : Address) (job : Job)
    (kids : List Live) : Prop
  | succeeded {old : Job} {before : List Live} {output : Value} {message : String} :
      Since s old before job kids → job.status = .succeeded → job.entry.output = output →
      Earned setup old before output message → Ended setup P s a job kids
  | failed {u : State} {doing : Doing} {old : Job} {before : List Live} {failure : Failure} :
      Since s old before job kids → job.status = .failed → job.entry.error = some failure →
      (∀ b o, doing = .start b o → P b o) → Failing setup doing u a old before failure →
      Ended setup P s a job kids
  | stopped {u : State} {old : Job} {before : List Live} : Since s old before job kids →
      job.status = .cancelled → (u.cancelled = true → s.cancelled = true) →
      Stopped setup u a old before → Ended setup P s a job kids

theorem Since.next {old job' : Job} {before kids' : List Live} (h : Since s old before job kids)
    (hnode : job'.node = job.node) (hentry : job'.entry = job.entry)
    (hkids : List.Forall₂ (Later t.cancelled) kids kids')
    (hcancelled : s.cancelled = true → t.cancelled = true) : Since t old before job' kids' where
  node := hnode.trans h.node
  path := by rw [hentry, h.path]
  id := by rw [hentry, h.id]
  inputs := by rw [hentry, h.inputs]
  kids := by
    refine List.forall₂_iff_get.2 ⟨h.kids.length_eq.trans hkids.length_eq, fun i hi hi' => ?_⟩
    have hi'' : i < kids.length := by rwa [hkids.length_eq]
    exact (h.kids.get hi hi'').trans (hkids.get hi'' hi') hcancelled

/-- A node that has ended stays as it has ended. -/
theorem Ended.next {P : Address → Opening → Prop} {job' : Job} {kids' : List Live}
    (h : Ended setup P s a job kids) (hnode : job'.node = job.node)
    (hentry : job'.entry = job.entry) (hkids : List.Forall₂ (Later t.cancelled) kids kids')
    (hcancelled : s.cancelled = true → t.cancelled = true) : Ended setup P t a job' kids' := by
  have hstatus : job'.status = job.status := by rw [Job.status, hentry, Job.status]
  cases h with
  | succeeded hsince hsucceeded houtput hearned =>
    exact .succeeded (hsince.next hnode hentry hkids hcancelled) (hstatus.trans hsucceeded)
      (by rw [hentry, houtput]) hearned
  | failed hsince hfailed herror hP hfailing =>
    exact .failed (hsince.next hnode hentry hkids hcancelled) (hstatus.trans hfailed)
      (by rw [hentry, herror]) hP hfailing
  | stopped hsince hstopped hu hcause =>
    exact .stopped (hsince.next hnode hentry hkids hcancelled) (hstatus.trans hstopped)
      (fun h => hcancelled (hu h)) hcause

/-- What is known of the past of the nodes of a state. `P` is how containers open. -/
structure Past (setup : Setup) (P : Address → Opening → Prop) (doing : Doing) (s : State)
    (hand : Option Address) : Prop where
  opened : ∀ a job, s.jobAt a = some job → job.entry.progress.started.isSome →
    job.node.kind ≠ .step → Opened P doing s hand a job
  ended : ∀ a job kids, s.root.at? a = some (.mk job kids) → job.entry.progress.started.isSome →
    job.status.isTerminal → Ended setup P s a job kids

namespace Past

variable {P : Address → Opening → Prop}

theorem start (doing : Doing) (setup : Setup) (tree : Node) :
    Past setup P doing (start setup tree) none := by
  have hnot {a : Address} {job : Job} (hjob : (State.start setup tree).jobAt a = some job) :
      ¬ job.entry.progress.started.isSome := by
    obtain ⟨path, node, rfl, _⟩ := Live.jobAt_ofNode hjob
    exact Bool.false_ne_true
  exact ⟨fun a job hjob hstarted => absurd hstarted (hnot hjob),
    fun a job kids hkids hstarted => absurd hstarted (hnot (jobAt_of_at? hkids))⟩

/-- Between two steps no container is opening. -/
theorem step (h : Past setup P doing s none) (doing' : Doing) : Past setup P doing' s none where
  opened a job hjob hstarted hkind := by
    cases h.opened a job hjob hstarted hkind with
    | opening hhand => cases hhand
    | fits hP hfits => exact .fits hP hfits
    | refused hP hfailed herror => exact .refused hP hfailed herror
  ended := h.ended

end Past

/-! ## Changes keep what is known -/

theorem started_moved_of_ne {e : Entry} {target : Status} (h : target ≠ .running) (now : Int) :
    (e.moved target now).progress.started = e.progress.started := by
  unfold Entry.moved Progress.moved
  rw [if_neg h]
  split <;> rfl

/-- A node that is new has not started. -/
theorem Change.started_of_new {job' : Job} (hchange : Change setup doing s hand t after)
    (hshape : Shape tree s) (hnone : s.jobAt a = none) (hjob' : t.jobAt a = some job') :
    ¬ job'.entry.progress.started.isSome := by
  rcases hchange.move_or_quiet hshape with ⟨x, c, f, target, message, _, _, hmove, ht⟩ | hquiet
  · obtain ⟨old, hold, _, _, hjobs, _⟩ := hmove.moved ht
    rw [hjobs] at hjob'
    split at hjob'
    · rename_i hc
      rw [hc, hold] at hnone
      cases hnone
    · rw [hnone] at hjob'
      cases hjob'
  · rw [(hquiet.fresh a job' hnone hjob').progress]
    exact Bool.false_ne_true

/-- A node starts only in hand, and not once the run or a race around it is over. -/
theorem Change.started_of_not {job' : Job} (hchange : Change setup doing s hand t after)
    (hshape : Shape tree s) (hjob : s.jobAt a = some job) (hjob' : t.jobAt a = some job')
    (hnot : ¬ job.entry.progress.started.isSome) (hstarted : job'.entry.progress.started.isSome) :
    after = some a ∧ job'.status = .running ∧ (∃ o, doing = .start a o) ∧ s.cancelled = false ∧
      ¬ s.Halted a := by
  rcases hchange.move_or_quiet hshape with ⟨x, c, f, target, message, _, hafter, hmove, ht⟩ | hquiet
  · obtain ⟨old, hold, _, _, hjobs, _⟩ := hmove.moved ht
    rw [hjobs] at hjob'
    split at hjob'
    · rename_i hc
      subst hc
      rw [hjob, Option.some.injEq] at hold
      subst hold
      rw [Option.some.injEq] at hjob'
      subst hjob'
      -- only the move to the start notes the time of the start
      have hsame (hf : (f job.entry).progress = job.entry.progress)
          (htarget : target ≠ .running) : False := by
        have hmoved := started_moved_of_ne (e := f job.entry) htarget s.now
        rw [hf] at hmoved
        exact hnot (hmoved ▸ hstarted)
      cases hmove with
      | begin _ hcancelled hhalted hdoing =>
        exact ⟨hafter, Job.status_moved .., ⟨_, hdoing⟩, hcancelled, hhalted⟩
      | leave _ _ homitted =>
        refine (hsame rfl ?_).elim
        rintro rfl
        cases homitted.isTerminal
      | succeed => exact (hsame rfl (by decide)).elim
      | fail => exact (hsame rfl (by decide)).elim
      | stop => exact (hsame rfl (by decide)).elim
    · rw [hjob, Option.some.injEq] at hjob'
      rw [hjob'] at hnot
      exact absurd hstarted hnot
  · obtain ⟨new, hnew, _, hentry, _⟩ := hquiet.entry a job hjob
    rw [hjob', Option.some.injEq] at hnew
    subst hnew
    rw [hentry] at hstarted
    exact absurd hstarted hnot

/-- A node starts when its turn comes, unless the run or a race around it is over. -/
theorem Changes.started_of_not (hchanges : Changes setup doing s hand t after)
    (hr : Reached setup tree s hand) (htree : tree.Sound)
    (hnot : ∀ job, s.jobAt a = some job → ¬ job.entry.progress.started.isSome)
    (hjob : t.jobAt a = some job) (hstarted : job.entry.progress.started.isSome) :
    (∃ o, doing = .start a o) ∧ s.cancelled = false ∧ ¬ s.Halted a := by
  refine (hr.changes_induction (P := fun u _ =>
    (s.cancelled = true → u.cancelled = true) ∧ (s.Halted a → u.Halted a) ∧
    ∀ job, u.jobAt a = some job → job.entry.progress.started.isSome →
      (∃ o, doing = .start a o) ∧ s.cancelled = false ∧ ¬ s.Halted a) hchanges
    ⟨id, id, fun job hjob hstarted => absurd hstarted (hnot job hjob)⟩ ?_).2.2 job hjob hstarted
  rintro u v between next hreached hchange ⟨hcancelled, hhalted, hu⟩
  have hshape := hreached.shape htree
  refine ⟨fun h => hchange.cancelled (hcancelled h), fun h => (hhalted h).change hchange hshape,
    fun job hjob hstarted => ?_⟩
  cases hold : u.jobAt a with
  | none => exact absurd hstarted (hchange.started_of_new hshape hold hjob)
  | some old =>
    by_cases hbefore : old.entry.progress.started.isSome
    · exact hu old hold hbefore
    · obtain ⟨_, _, hdoing, hnotCancelled, hnotHalted⟩ :=
        hchange.started_of_not hshape hold hjob hbefore hstarted
      refine ⟨hdoing, ?_, fun h => hnotHalted (hhalted h)⟩
      by_contra hs
      rw [hcancelled (by simpa using hs)] at hnotCancelled
      cases hnotCancelled

/-- The children of a container keep to how it has opened. -/
theorem fits_change {o : Opening} {job' : Job} (h : o.Fits s a job)
    (hchange : Change setup doing s hand t after) (hshape : Shape tree s)
    (hnode : job'.node = job.node) (harity : job'.arity = job.arity) : o.Fits t a job' := by
  cases o with
  | refused failure => exact h
  | all => exact ⟨by rw [hnode]; exact h.1, by rw [hnode]; exact h.2⟩
  | chosen k =>
    obtain ⟨hkind, hk, hothers⟩ := h
    refine ⟨by rw [hnode]; exact hkind, by rwa [harity], fun j hj hne => ?_⟩
    rw [harity] at hj
    exact hchange.statusAt_of_isTerminal hshape (hothers j hj hne) rfl
  | items elements => exact ⟨by rw [hnode]; exact h.1, harity.trans h.2⟩

/-- A container that is opening goes on to open, has the children that it is to run, or is refused. -/
theorem Change.opening {o : Opening} (hchange : Change setup doing s (some a) t after)
    (hdoing : doing = .start a o) (hjob : s.jobAt a = some job)
    (hrun : job.status = .running) (hkind : job.node.kind ≠ .step) :
    (after = some a ∧ t.statusAt a = some .running) ∨ o.Fits s a job ∨
      ∃ failure job', o = .refused failure ∧ t.jobAt a = some job' ∧ job'.status = .failed ∧
        job'.entry.error = some failure := by
  have hstatus : s.statusAt a = some .running := by rw [statusAt_of_jobAt hjob, hrun]
  have hsame {old : Job} (hold : s.jobAt a = some old) : old = job := by
    rw [hjob, Option.some.injEq] at hold
    exact hold.symm
  have hfits {old : Job} (hold : s.jobAt a = some old) (hold' : doing.Fits s a old) :
      o.Fits s a job := by
    rw [← hsame hold]
    refine hold' a o hdoing ?_
    rw [hsame hold]
    exact hkind
  have hstep {old : Job} (hold : s.jobAt a = some old) (hold' : old.node.kind = .step) : False := by
    rw [hsame hold] at hold'
    exact hkind hold'
  cases hchange with
  | begin hpending =>
    rw [hstatus] at hpending
    cases hpending
  | leave _ hpending homitted =>
    obtain ⟨old, hold, hpendingOld⟩ := jobAt_of_statusAt hpending
    have hmove := homitted.canBecome
    rw [← hpendingOld] at hmove
    refine .inl ⟨rfl, ?_⟩
    rw [statusAt_move hold hmove, if_neg, hstatus]
    rintro rfl
    rw [hstatus] at hpending
    cases hpending
  | bindStep _ hold _ hold' => exact (hstep hold hold').elim
  | succeed hkids _ hold => exact .inr (.inl (hfits (jobAt_of_at? hkids) hold))
  | @fail a old kids failure hkids hrunOld hfailing =>
    have hold := jobAt_of_at? hkids
    cases hfailing with
    | unbound hold' => exact (hstep hold hold').elim
    | called hold' => exact (hstep hold hold').elim
    | rejected _ hrefused =>
      rw [hdoing, Doing.start.injEq] at hrefused
      have hmove : old.status.canBecome .failed := by rw [hrunOld]; rfl
      refine .inr (.inr ⟨failure,
        ({ old with entry := { old.entry with error := some failure } } : Job).moved .failed s.now,
        hrefused.2, ?_, Job.status_moved .., rfl⟩)
      rw [jobAt_modifyEntry_move hold hmove rfl, if_pos rfl]
    | blamed _ hold' => exact .inr (.inl (hfits hold hold'))
  | stop hkids _ hold => exact .inr (.inl (hfits (jobAt_of_at? hkids) hold))
  | release hend hterminal =>
    rw [hstatus, Option.some.injEq] at hend
    subst hend
    cases hterminal
  | host => exact .inl ⟨rfl, by rw [statusAt_setStage, hstatus]⟩
  | expand frame hold hrunOld hloop harity hwinner hwinner' =>
    have hexp : Expansion s a _ frame _ := ⟨hold, hrunOld, hloop, harity, hwinner, hwinner', rfl⟩
    exact .inl ⟨rfl, (statusAt_of_jobAt hexp.jobAt_self).trans (congrArg some hrunOld)⟩
  | callOut _ _ hold _ hold' => exact (hstep hold hold').elim
  | enterNext hold _ _ hold' => exact .inr (.inl (hfits hold hold'))
  | enterChosen hold _ hbranch hchosen _ hk _ _ hothers =>
    rw [hdoing, Doing.start.injEq] at hchosen
    rw [hsame hold] at hbranch hk hothers
    rw [hchosen.2]
    exact .inr (.inl ⟨hbranch, hk, hothers⟩)
  | fill hold _ _ hold' => exact .inr (.inl (hfits hold hold'))
  | gather hold _ _ hold' => exact .inr (.inl (hfits hold hold'))
  | tell => exact .inl ⟨rfl, by rw [statusAt_tell, hstatus]⟩

namespace Past

variable {P : Address → Opening → Prop}

theorem change_opened {job' : Job} (h : Past setup P doing s hand) (hshape : Shape tree s)
    (hP : ∀ b o, doing = .start b o → P b o) (hchange : Change setup doing s hand t after)
    (hjob' : t.jobAt a = some job') (hstarted : job'.entry.progress.started.isSome)
    (hkind : job'.node.kind ≠ .step) : Opened P doing t after a job' := by
  cases hjob : s.jobAt a with
  | none => exact absurd hstarted (hchange.started_of_new hshape hjob hjob')
  | some job =>
    obtain ⟨new, hnew, hnode⟩ := hchange.jobAt_some hshape hjob
    rw [hjob', Option.some.injEq] at hnew
    subst hnew
    rw [hnode] at hkind
    by_cases hbefore : job.entry.progress.started.isSome
    · -- a loop that gets its instances has opened, and no other node gets more children
      have hcases : Opened P doing t after a job' ∨ job'.arity = job.arity := by
        rcases hchange.arity_cases hshape hjob hjob' with harity | ⟨frame, hexp, hdoing⟩
        · exact .inr harity
        · have hself := hexp.jobAt_self
          rw [hjob', Option.some.injEq] at hself
          subst hself
          exact .inl (.fits (hP a _ hdoing) ⟨hexp.kind, Job.arity_of_loop hexp.kind rfl⟩)
      rcases hcases with hopened | harity
      · exact hopened
      cases h.opened a job hjob hbefore hkind with
      | @opening o hhand hrun hdoing =>
        subst hhand
        rcases hchange.opening hdoing hjob hrun hkind with
          ⟨hafter, hrun'⟩ | hfits | ⟨failure, new, ho, hnew, hfailed, herror⟩
        · rw [statusAt_of_jobAt hjob', Option.some.injEq] at hrun'
          exact .opening hafter hrun' hdoing
        · exact .fits (hP a o hdoing) (fits_change hfits hchange hshape hnode harity)
        · rw [hjob', Option.some.injEq] at hnew
          subst hnew
          exact .refused (hP a _ (ho ▸ hdoing)) hfailed herror
      | fits hopen hfits => exact .fits hopen (fits_change hfits hchange hshape hnode harity)
      | refused hopen hfailed herror =>
        obtain ⟨new, hnew, _, hentry⟩ :=
          hchange.entry_of_isTerminal hshape hjob (by rw [hfailed]; rfl)
        rw [hjob', Option.some.injEq] at hnew
        subst hnew
        exact .refused hopen (by rw [Job.status, hentry, ← Job.status, hfailed])
          (by rw [hentry, herror])
    · obtain ⟨hafter, hrun, ⟨o, hdoing⟩, _⟩ :=
        hchange.started_of_not hshape hjob hjob' hbefore hstarted
      exact .opening hafter hrun hdoing

/-- A node that is moved has the children that it had. -/
theorem since_of_move {f : Entry → Entry} {target : Status} {message : String} {job' : Job}
    {kids' : List Live} (hchange : Change setup doing s hand t after) (hshape : Shape tree s)
    (hmove : Move setup doing s a a f target message)
    (ht : t = (s.modifyEntry a f).move a target message)
    (hkids : s.root.at? a = some (.mk job kids)) (hkids' : t.root.at? a = some (.mk job' kids'))
    (hentry : ∀ e, (f e).id = e.id ∧ (f e).inputs = e.inputs) : Since t job kids job' kids' := by
  obtain ⟨old, hold, _, _, hjobs, _⟩ := hmove.moved ht
  rw [jobAt_of_at? hkids, Option.some.injEq] at hold
  subst hold
  have hself := hjobs a
  rw [if_pos rfl, jobAt_of_at? hkids', Option.some.injEq] at hself
  have hlength : kids'.length = kids.length := by
    have := (hshape.change hchange).length_kids hkids'
    rw [this, hshape.length_kids hkids, hself]
    rfl
  refine ⟨by rw [hself]; rfl, ?_, ?_, ?_, ?_⟩
  · rw [hself]
    exact hmove.path job.entry
  · rw [hself]
    exact (hentry job.entry).1
  · rw [hself]
    exact (hentry job.entry).2
  · refine forall₂_kids hkids hkids' hlength fun i kid kid' hkid hkid' => .same ?_
    have := hjobs (a ++ [i])
    rw [if_neg (by simp), State.jobAt, State.jobAt, Live.jobAt_of_at? hkid,
      Live.jobAt_of_at? hkid', Option.some.injEq] at this
    exact congrArg Job.entry this

/-- A node that has started and ends by a move has ended as the move says. -/
theorem ended_of_move {f : Entry → Entry} {target : Status} {message : String} {x : Address}
    {job' : Job} {kids' : List Live} (hshape : Shape tree s) (hchronicle : Chronicle s)
    (hP : ∀ b o, doing = .start b o → P b o) (hchange : Change setup doing s hand t after)
    (hmove : Move setup doing s x a f target message)
    (ht : t = (s.modifyEntry a f).move a target message)
    (hkids : s.root.at? a = some (.mk job kids)) (hkids' : t.root.at? a = some (.mk job' kids'))
    (hbefore : job.entry.progress.started.isSome) (hend : job'.status.isTerminal) :
    Ended setup P t a job' kids' := by
  have hjob := jobAt_of_at? hkids
  obtain ⟨old, hold, _, _, hjobs, _⟩ := hmove.moved ht
  rw [hjob, Option.some.injEq] at hold
  subst hold
  have hself := hjobs a
  rw [if_pos rfl, jobAt_of_at? hkids', Option.some.injEq] at hself
  have hstatus : job'.status = target := by rw [hself, Job.status_moved]
  have hsame {old : Job} {before : List Live} (hat : s.root.at? a = some (.mk old before)) :
      old = job ∧ before = kids := by
    rw [hkids, Option.some.injEq, Live.mk.injEq] at hat
    exact ⟨hat.1.symm, hat.2.symm⟩
  cases hmove with
  | begin =>
    rw [hstatus] at hend
    cases hend
  | leave _ hpending =>
    rw [statusAt_of_jobAt hjob, Option.some.injEq] at hpending
    rw [((hchronicle.node a job hjob).of_pending hpending).1.progress] at hbefore
    cases hbefore
  | @succeed old before output message hat hrun hfits hearned =>
    obtain ⟨rfl, rfl⟩ := hsame hat
    exact .succeeded (since_of_move hchange hshape (.succeed hat hrun hfits hearned) ht hkids
      hkids' fun _ => ⟨rfl, rfl⟩) hstatus (by rw [hself]; rfl) hearned
  | @fail old before failure hat hrun hfailing =>
    obtain ⟨rfl, rfl⟩ := hsame hat
    exact .failed (since_of_move hchange hshape (.fail hat hrun hfailing) ht hkids
      hkids' fun _ => ⟨rfl, rfl⟩) hstatus (by rw [hself]; rfl) hP hfailing
  | @stop old before hat hrun hfits hstopped =>
    obtain ⟨rfl, rfl⟩ := hsame hat
    exact .stopped (since_of_move hchange hshape (.stop hat hrun hfits hstopped) ht hkids
      hkids' fun _ => ⟨rfl, rfl⟩) hstatus hchange.cancelled hstopped

theorem change_ended {job' : Job} {kids' : List Live} (h : Past setup P doing s hand)
    (hcontrol : Control setup s hand) (hshape : Shape tree s) (hchronicle : Chronicle s)
    (hP : ∀ b o, doing = .start b o → P b o) (hchange : Change setup doing s hand t after)
    (hkids' : t.root.at? a = some (.mk job' kids'))
    (hstarted : job'.entry.progress.started.isSome) (hend : job'.status.isTerminal) :
    Ended setup P t a job' kids' := by
  have hjob' := jobAt_of_at? hkids'
  cases hjob : s.jobAt a with
  | none => exact absurd hstarted (hchange.started_of_new hshape hjob hjob')
  | some job =>
    obtain ⟨kids, hkids⟩ := at?_of_jobAt hjob
    have hbefore : job.entry.progress.started.isSome := by
      by_contra hnot
      rw [(hchange.started_of_not hshape hjob hjob' hnot hstarted).2.1] at hend
      cases hend
    by_cases hend' : job.status.isTerminal
    · obtain ⟨new, hnew, hnode, hentry⟩ := hchange.entry_of_isTerminal hshape hjob hend'
      rw [hjob', Option.some.injEq] at hnew
      subst hnew
      exact (h.ended a job kids hkids hbefore hend').next hnode hentry
        (hchange.later hcontrol hshape hkids hkids' hend') hchange.cancelled
    · -- the node ends now
      rcases hchange.move_or_quiet hshape with
        ⟨x, c, f, target, message, _, _, hmove, ht⟩ | hquiet
      · by_cases hc : a = c
        · subst hc
          exact ended_of_move hshape hchronicle hP hchange hmove ht hkids hkids' hbefore hend
        · obtain ⟨_, _, _, _, hjobs, _⟩ := hmove.moved ht
          have hself := hjobs a
          rw [if_neg hc, hjob', hjob, Option.some.injEq] at hself
          rw [hself] at hend
          exact absurd hend hend'
      · have := hquiet.statusAt hjob
        rw [statusAt_of_jobAt hjob', statusAt_of_jobAt hjob, Option.some.injEq] at this
        rw [this] at hend
        exact absurd hend hend'

/-- What is known of the past lasts, if `P` holds of the container that opens. -/
theorem change (h : Past setup P doing s hand) (hr : Reached setup tree s hand) (htree : tree.Sound)
    (hP : ∀ b o, doing = .start b o → P b o) (hchange : Change setup doing s hand t after) :
    Past setup P doing t after where
  opened _ _ hjob hstarted hkind :=
    h.change_opened (hr.shape htree) hP hchange hjob hstarted hkind
  ended _ _ _ hkids hstarted hend :=
    h.change_ended (hr.control htree) (hr.shape htree) (hr.chronicle htree) hP hchange hkids
      hstarted hend

theorem changes (h : Past setup P doing s hand) (hr : Reached setup tree s hand)
    (htree : tree.Sound) (hP : ∀ b o, doing = .start b o → P b o)
    (hchanges : Changes setup doing s hand t after) : Past setup P doing t after :=
  hr.changes_induction (P := Past setup P doing) hchanges h
    fun _ _ _ _ hu hchange hpast => hpast.change hu htree hP hchange

end Past

/-! ## Runs -/

/-- When the turn of the node at an address comes in the run of the tree, it opens like this. -/
def Opens (setup : Setup) (tree : Node) (a : Address) (o : Opening) : Prop :=
  ∃ steps rest, ((start setup tree).runWithin setup steps).agenda = .enter a :: rest ∧
    ((start setup tree).runWithin setup steps).openingAt setup a = o

/-- A node starts when its turn comes. -/
theorem agenda_of_doing {o : Opening} (h : s.doing setup = .start a o) :
    ∃ rest, s.agenda = .enter a :: rest ∧ s.openingAt setup a = o := by
  unfold State.doing at h
  split at h
  · rename_i b rest hagenda
    rw [Doing.start.injEq] at h
    obtain ⟨rfl, ho⟩ := h
    exact ⟨rest, hagenda, ho⟩
  · cases h
  · cases h
  · cases h
  · cases h

theorem opens_of_doing {steps : Nat} {o : Opening}
    (h : ((start setup tree).runWithin setup steps).doing setup = .start a o) :
    Opens setup tree a o := by
  obtain ⟨rest, hagenda, ho⟩ := agenda_of_doing h
  exact ⟨steps, rest, hagenda, ho⟩

/-- What is known of the past of the states of a run. -/
theorem past_runWithin (setup : Setup) (htree : tree.Sound) (steps : Nat) (doing : Doing) :
    Past setup (Opens setup tree) doing ((start setup tree).runWithin setup steps) none := by
  induction steps generalizing doing with
  | zero => exact .start doing setup tree
  | succ steps ih =>
    rw [runWithin_succ]
    cases hstep : ((start setup tree).runWithin setup steps).step setup with
    | none => exact ih doing
    | some t =>
      have hstart : Reached setup tree (State.start setup tree) none := .start
      have hr := hstart.runWithin htree steps
      exact ((ih _).changes hr htree (fun b o ho => opens_of_doing ho)
        (hr.step htree hstep)).step doing

theorem Final.past (h : Final setup tree s) : Past setup (Opens setup tree) .call s none := by
  obtain ⟨steps, hsteps⟩ := h.exists_eq_runWithin
  rw [hsteps]
  exact past_runWithin setup h.sound steps .call

end State
end Workflow
