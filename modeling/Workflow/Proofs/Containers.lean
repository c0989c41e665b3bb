import Workflow.Executor.Echo
import Workflow.Proofs.Run.Past

/-!
# How containers come out

A container comes out as its children did: it succeeds if those that it was to run have succeeded,
and of a race one of them is enough. Which children it was to run was decided when it opened.

* `Composed` says this of one container, and `State.Composition` of a state.
* `Setup.composition_of_execute` says that a run ends in such a state.
-/

namespace Workflow

/-! ## Children that have not changed -/

namespace Later

variable {cancelled : Bool} {kid kid' : Live} {before kids : List Live} {status : Status}

/-- A child has succeeded or failed if it had before. -/
theorem status_iff (h : Later cancelled kid kid') (hpending : status ≠ .pending)
    (hskipped : status ≠ .skipped) (hcancelled : status ≠ .cancelled) :
    kid'.status = status ↔ kid.status = status := by
  constructor
  · intro hstatus
    have := h.entry_eq' (by rwa [hstatus]) (by rwa [hstatus])
    rwa [Live.status, ← this]
  · intro hstatus
    have := h.entry_eq (by rwa [hstatus])
    rwa [Live.status, this]

/-- Of children that have been left none was pending before. -/
theorem exists_before (h : List.Forall₂ (Later cancelled) before kids) (hmem : kid' ∈ kids) :
    ∃ kid ∈ before, Later cancelled kid kid' := by
  obtain ⟨i, hi, rfl⟩ := List.getElem_of_mem hmem
  have hi' : i < before.length := by rwa [h.length_eq]
  exact ⟨before[i], List.getElem_mem hi', h.get hi' hi⟩

theorem exists_after (h : List.Forall₂ (Later cancelled) before kids) (hmem : kid ∈ before) :
    ∃ kid' ∈ kids, Later cancelled kid kid' := by
  obtain ⟨i, hi, rfl⟩ := List.getElem_of_mem hmem
  have hi' : i < kids.length := by rwa [← h.length_eq]
  exact ⟨kids[i], List.getElem_mem hi', h.get hi hi'⟩

theorem exists_getElem? (h : List.Forall₂ (Later cancelled) before kids) {i : Nat}
    (hkid : kids[i]? = some kid') : ∃ kid, before[i]? = some kid ∧ Later cancelled kid kid' := by
  obtain ⟨hi, rfl⟩ := List.getElem?_eq_some_iff.1 hkid
  have hi' : i < before.length := by rwa [h.length_eq]
  exact ⟨before[i], List.getElem?_eq_getElem hi', h.get hi' hi⟩

/-- Children that have ended are recorded as before. -/
theorem map_entry_eq (h : List.Forall₂ (Later cancelled) before kids)
    (hend : ∀ kid ∈ before, Live.status kid ≠ .pending) :
    kids.map Live.entry = before.map Live.entry := by
  induction h with
  | nil => rfl
  | cons hlater _ ih =>
    rw [List.map_cons, List.map_cons, hlater.entry_eq (hend _ List.mem_cons_self),
      ih fun kid hmem => hend kid (List.mem_cons_of_mem _ hmem)]

/-- The children that have failed are recorded as before. -/
theorem map_entry_filter (h : List.Forall₂ (Later cancelled) before kids) :
    (kids.filter fun kid => kid.status = .failed).map Live.entry =
      (before.filter fun kid => kid.status = .failed).map Live.entry := by
  induction h with
  | nil => rfl
  | @cons kid kid' before kids hlater _ ih =>
    have hiff : kid'.status = .failed ↔ kid.status = .failed :=
      hlater.status_iff (by decide) (by decide) (by decide)
    by_cases hfailed : kid.status = .failed
    · rw [List.filter_cons_of_pos (by simpa using hiff.2 hfailed),
        List.filter_cons_of_pos (by simpa using hfailed), List.map_cons, List.map_cons, ih,
        hlater.entry_eq (by rw [hfailed]; decide)]
    · rw [List.filter_cons_of_neg (by simpa using fun h => hfailed (hiff.1 h)),
        List.filter_cons_of_neg (by simpa using hfailed), ih]

end Later

/-- The output of a list of children depends on what is recorded of them. -/
theorem outputs_congr {kids before : List Live}
    (h : kids.map Live.entry = before.map Live.entry) :
    State.outputs kids = State.outputs before := by
  have := congrArg (List.map Entry.output) h
  rw [List.map_map, List.map_map] at this
  exact congrArg Value.array this

/-- The failure because of failed children depends on what is recorded of them. -/
theorem childFailure_congr {first first' : Live} {failed failed' : List Live}
    (hfirst : first'.entry = first.entry)
    (h : failed'.map Live.entry = failed.map Live.entry) :
    State.childFailure first' failed' = State.childFailure first failed := by
  have := congrArg (List.map Entry.path) h
  rw [List.map_map, List.map_map] at this
  have hpaths : (failed'.map fun kid => kid.entry.path) = failed.map fun kid => kid.entry.path :=
    this
  rw [State.childFailure, State.childFailure, hfirst, hpaths]

/-! ## Containers -/

/-- The node succeeds if all its children do, with the list of their outputs. -/
def AllCount (job : Job) (kids : List Live) : Prop :=
  (job.status = .succeeded ↔ ∀ kid ∈ kids, Live.status kid = .succeeded) ∧
    (job.status = .succeeded → job.entry.output = State.outputs kids)

/-- A container has come out as its children did, if it opened like this. -/
def Composed (job : Job) (kids : List Live) : Opening → Prop
  | .refused failure => job.status = .failed ∧ job.entry.error = some failure
  | .chosen k => ∃ kid, kids[k]? = some kid ∧
    (job.status = .succeeded ↔ kid.status = .succeeded) ∧
    (job.status = .succeeded → job.entry.output = kid.entry.output)
  | .items elements => kids.length = elements.length ∧ AllCount job kids
  | .all =>
    if job.node.kind = .race then
      job.status = .succeeded ↔ kids = [] ∨ ∃ kid ∈ kids, Live.status kid = .succeeded
    else AllCount job kids

namespace State

variable {setup : Setup} {tree : Node} {s : State} {a : Address} {old job : Job}
  {before kids : List Live} {o : Opening}

/-- Of the children of a branch at most the chosen one has not been skipped. -/
theorem eq_of_fits {k i : Nat} {kid : Live} (hfits : (Opening.chosen k).Fits s a job)
    (hshape : Shape tree s) (hkids : s.root.at? a = some (.mk job kids)) (hi : kids[i]? = some kid)
    (hkid : kid.status ≠ .skipped) : i = k := by
  by_contra hne
  have hlt : i < job.arity := by
    rw [← hshape.length_kids hkids]
    exact (List.getElem?_eq_some_iff.1 hi).1
  have := hfits.2.2 i hlt hne
  rw [Reached.exists_statusAt hkids hi, Option.some.injEq] at this
  exact hkid this

/-- A container that has not succeeded has not come out as its children did only if they succeeded. -/
theorem composed_of_not_succeeded (hshape : Shape tree s)
    (hkids : s.root.at? a = some (.mk job kids)) (hfits : o.Fits s a job)
    (hstatus : job.status ≠ .succeeded)
    (hall : job.node.kind ≠ .race → ∃ kid ∈ kids, Live.status kid ≠ .succeeded)
    (hnone : job.node.kind = .branch ∨ job.node.kind = .race →
      kids ≠ [] ∧ ∀ kid ∈ kids, Live.status kid ≠ .succeeded) : Composed job kids o := by
  have hiff (hrace : job.node.kind ≠ .race) : AllCount job kids := by
    obtain ⟨kid, hmem, hkid⟩ := hall hrace
    exact ⟨⟨fun h => absurd h hstatus, fun h => absurd (h kid hmem) hkid⟩,
      fun h => absurd h hstatus⟩
  cases o with
  | refused failure => exact hfits.elim
  | chosen k =>
    obtain ⟨hkind, hk, _⟩ := hfits
    rw [← hshape.length_kids hkids] at hk
    have hkid := List.getElem?_eq_getElem hk
    refine ⟨kids[k], hkid, ⟨fun h => absurd h hstatus, fun h => ?_⟩, fun h => absurd h hstatus⟩
    exact absurd h ((hnone (.inl hkind)).2 _ (List.mem_of_getElem? hkid))
  | items elements =>
    obtain ⟨hkind, hlength⟩ := hfits
    exact ⟨(hshape.length_kids hkids).trans hlength, hiff (by rw [hkind]; decide)⟩
  | all =>
    by_cases hrace : job.node.kind = .race
    · obtain ⟨hne, hnot⟩ := hnone (.inr hrace)
      rw [Composed, if_pos hrace]
      refine ⟨fun h => absurd h hstatus, fun h => ?_⟩
      rcases h with hnil | ⟨kid, hmem, hkid⟩
      · exact absurd hnil hne
      · exact absurd hkid (hnot kid hmem)
    · rw [Composed, if_neg hrace]
      exact hiff hrace

theorem composed_of_succeeded {output : Value} {message : String} (hshape : Shape tree s)
    (hkids : s.root.at? a = some (.mk job kids)) (hfits : o.Fits s a job)
    (hkind : job.node.kind ≠ .step) (hsince : Since s old before job kids)
    (hstatus : job.status = .succeeded) (houtput : job.entry.output = output)
    (hearned : Earned setup old before output message) : Composed job kids o := by
  -- all children have succeeded
  have hall (hsucceeded : ∀ kid ∈ before, Live.status kid = .succeeded)
      (hout : output = outputs before) : AllCount job kids := by
    refine ⟨⟨fun _ kid hmem => ?_, fun _ => hstatus⟩, fun _ => ?_⟩
    · obtain ⟨kid', hmem', hlater⟩ := Later.exists_before hsince.kids hmem
      exact (hlater.status_iff (by decide) (by decide) (by decide)).2 (hsucceeded kid' hmem')
    · rw [houtput, hout]
      refine (outputs_congr (Later.map_entry_eq hsince.kids fun kid hmem => ?_)).symm
      rw [hsucceeded kid hmem]
      decide
  have hnode := hsince.node
  unfold Earned at hearned
  rw [← hnode] at hearned
  cases hwork : job.node.work with
  | step => rw [Node.kind, hwork] at hkind; exact absurd rfl hkind
  | branch condition cases_ =>
    rw [hwork] at hearned
    have hbranch : job.node.kind = .branch := by rw [Node.kind, hwork]; rfl
    obtain ⟨i, kid, hi, hkid, hout, _⟩ := hearned
    cases o with
    | chosen k =>
      obtain ⟨hk, hlater⟩ : ∃ h : i < kids.length, Later s.cancelled kid kids[i] := by
        have hi' := (List.getElem?_eq_some_iff.1 hi)
        obtain ⟨hlt, rfl⟩ := hi'
        have hlt' : i < kids.length := by rwa [← hsince.kids.length_eq]
        exact ⟨hlt', hsince.kids.get hlt hlt'⟩
      have hentry := hlater.entry_eq (by rw [hkid]; decide)
      have hkid' : kids[i].status = .succeeded := by rw [Live.status, hentry, ← Live.status, hkid]
      have hget := List.getElem?_eq_getElem hk
      obtain rfl := eq_of_fits hfits hshape hkids hget (by rw [hkid']; decide)
      refine ⟨kids[i], hget, ⟨fun _ => hkid', fun _ => hstatus⟩, fun _ => ?_⟩
      rw [houtput, hout, hentry]
    | refused failure => exact hfits.elim
    | all => exact absurd hbranch hfits.1
    | items elements => rw [hfits.1] at hbranch; cases hbranch
  | race limit =>
    rw [hwork] at hearned
    have hrace : job.node.kind = .race := by rw [Node.kind, hwork]; rfl
    cases o with
    | all =>
      rw [Composed, if_pos hrace]
      refine ⟨fun _ => ?_, fun _ => hstatus⟩
      rcases hearned with ⟨i, kid, _, hi, hkid, _⟩ | ⟨hnil, _⟩
      · obtain ⟨kid', hmem', hlater⟩ :=
          Later.exists_after hsince.kids (List.mem_of_getElem? hi)
        exact .inr ⟨kid', hmem', (hlater.status_iff (by decide) (by decide) (by decide)).2 hkid⟩
      · refine .inl (List.length_eq_zero_iff.1 ?_)
        rw [← hsince.kids.length_eq, hnil]
        rfl
    | refused failure => exact hfits.elim
    | chosen k => rw [hfits.1] at hrace; cases hrace
    | items elements => rw [hfits.1] at hrace; cases hrace
  | _ =>
    rw [hwork] at hearned
    have hcount := hall hearned.1 hearned.2
    have hbranch : job.node.kind ≠ .branch := by rw [Node.kind, hwork]; simp [Work.kind]
    have hrace : job.node.kind ≠ .race := by rw [Node.kind, hwork]; simp [Work.kind]
    cases o with
    | refused failure => exact hfits.elim
    | chosen k => exact absurd hfits.1 hbranch
    | items elements => exact ⟨(hshape.length_kids hkids).trans hfits.2, hcount⟩
    | all =>
      rw [Composed, if_neg hrace]
      exact hcount

theorem composed_of_blamed {failure : Failure} (hshape : Shape tree s)
    (hkids : s.root.at? a = some (.mk job kids)) (hfits : o.Fits s a job)
    (hsince : Since s old before job kids) (hstatus : job.status = .failed)
    (hblamed : Blamed old before failure) : Composed job kids o := by
  obtain ⟨first, rest, hfirst, _⟩ := hblamed.failure_eq
  have hmem : first ∈ before.filter fun kid => kid.status = .failed := by
    rw [hfirst]
    exact List.mem_cons_self
  rw [List.mem_filter, decide_eq_true_eq] at hmem
  obtain ⟨failed, hfailedMem, hlater⟩ := Later.exists_after hsince.kids hmem.1
  have hfailed : failed.status = .failed :=
    (hlater.status_iff (by decide) (by decide) (by decide)).2 hmem.2
  refine composed_of_not_succeeded hshape hkids hfits (by rw [hstatus]; decide)
    (fun _ => ⟨failed, hfailedMem, by rw [hfailed]; decide⟩)
    fun hkind => ⟨List.ne_nil_of_mem hfailedMem, fun kid hkid => ?_⟩
  rcases hkind with hbranch | hrace
  · -- the child that failed is the chosen one
    cases o with
    | chosen k =>
      obtain ⟨i, hi⟩ := List.getElem?_of_mem hfailedMem
      obtain ⟨j, hj⟩ := List.getElem?_of_mem hkid
      obtain rfl := eq_of_fits hfits hshape hkids hi (by rw [hfailed]; decide)
      intro hsucceeded
      obtain rfl := eq_of_fits hfits hshape hkids hj (by rw [hsucceeded]; decide)
      rw [hi, Option.some.injEq] at hj
      rw [← hj, hfailed] at hsucceeded
      cases hsucceeded
    | refused failure => exact hfits.elim
    | all => exact absurd hbranch hfits.1
    | items elements => rw [hfits.1] at hbranch; cases hbranch
  · obtain ⟨kid', hmem', hlater'⟩ := Later.exists_before hsince.kids hkid
    have hkid' := (hblamed.race (by rw [← hsince.node]; exact hrace)).2 kid' hmem'
    rw [(hlater'.status_iff (by decide) (by decide) (by decide)).2 hkid']
    decide

theorem composed_of_stopped {u : State} (hshape : Shape tree s)
    (hkids : s.root.at? a = some (.mk job kids)) (hfits : o.Fits s a job)
    (hkind : job.node.kind ≠ .step) (hsince : Since s old before job kids)
    (hstatus : job.status = .cancelled) (hstopped : Stopped setup u a old before) :
    Composed job kids o := by
  have hnode := hsince.node
  have hnot {kid kid' : Live} (hlater : Later s.cancelled kid kid')
      (hkid : kid.status ≠ .succeeded) : kid'.status ≠ .succeeded := by
    rwa [Ne, hlater.status_iff (by decide) (by decide) (by decide)]
  rw [hnode] at hkind
  refine composed_of_not_succeeded hshape hkids hfits (by rw [hstatus]; decide) (fun hrace => ?_)
    fun hkind' => ?_
  · rw [hnode] at hrace
    obtain ⟨⟨kid, hmem, hkid⟩, _⟩ := hstopped.container hkind hrace
    obtain ⟨kid', hmem', hlater⟩ := Later.exists_after hsince.kids hmem
    exact ⟨kid', hmem', hnot hlater hkid⟩
  · rw [hnode] at hkind'
    have hbefore : before ≠ [] ∧ ∀ kid ∈ before, Live.status kid ≠ .succeeded := by
      rcases hkind' with hbranch | hrace
      · obtain ⟨⟨kid, hmem, _⟩, _⟩ := hstopped.container hkind (by rw [hbranch]; decide)
        exact ⟨List.ne_nil_of_mem hmem, hstopped.branch hbranch⟩
      · exact (hstopped.race hrace).2
    refine ⟨?_, fun kid hmem => ?_⟩
    · rw [← List.length_pos_iff, ← hsince.kids.length_eq, List.length_pos_iff]
      exact hbefore.1
    · obtain ⟨kid', hmem', hlater⟩ := Later.exists_before hsince.kids hmem
      exact hnot hlater (hbefore.2 kid' hmem')

/-- A container that has started and ended came out as its children did. -/
theorem Final.composed (h : Final setup tree s) (hkids : s.root.at? a = some (.mk job kids))
    (hkind : job.node.kind ≠ .step) (hstarted : job.entry.progress.started.isSome)
    (hend : job.status.isTerminal) : ∃ o, Opens setup tree a o ∧ Composed job kids o := by
  have hshape := h.shape
  have hended := h.past.ended a job kids hkids hstarted hend
  cases h.past.opened a job (jobAt_of_at? hkids) hstarted hkind with
  | opening hhand => cases hhand
  | refused hopens hfailed herror => exact ⟨_, hopens, hfailed, herror⟩
  | @fits o hopens hfits =>
    cases hended with
    | succeeded hsince hstatus houtput hearned =>
      exact ⟨o, hopens,
        composed_of_succeeded hshape hkids hfits hkind hsince hstatus houtput hearned⟩
    | failed hsince hstatus herror hP hfailing =>
      rw [hsince.node] at hkind
      cases hfailing with
      | unbound hstep => exact absurd hstep hkind
      | called hstep => exact absurd hstep hkind
      | rejected _ hdoing => exact ⟨_, hP a _ hdoing, hstatus, herror⟩
      | blamed _ _ hblamed =>
        exact ⟨o, hopens, composed_of_blamed hshape hkids hfits hsince hstatus hblamed⟩
    | stopped hsince hstatus _ hstopped =>
      exact ⟨o, hopens, composed_of_stopped hshape hkids hfits hkind hsince hstatus hstopped⟩

/-! ## Failures because of children -/

/-- The failure because of failed children names those that have failed. -/
theorem Blamed.since {failure : Failure} (h : Blamed old before failure)
    (hsince : Since s old before job kids) : ∃ first rest,
      (kids.filter fun kid => kid.status = .failed) = first :: rest ∧
        failure = childFailure first (first :: rest) := by
  obtain ⟨first, rest, hfilter, hfailure⟩ := h.failure_eq
  have hentries := Later.map_entry_filter hsince.kids
  rw [hfilter, List.map_cons] at hentries
  obtain ⟨first', rest', hfilter', hfirst, hrest⟩ := List.map_eq_cons_iff.1 hentries
  refine ⟨first', rest', hfilter', ?_⟩
  rw [hfailure]
  exact (childFailure_congr hfirst (by rw [List.map_cons, List.map_cons, hfirst, hrest])).symm

/-- Only the failed children of a container, or the agent of a step, make a node fail with the kind
of failure that tells of failed children. -/
theorem Final.blamed {failure : Failure} (h : Final setup tree s)
    (hkids : s.root.at? a = some (.mk job kids)) (hstatus : job.status = .failed)
    (herror : job.entry.error = some failure) (hkind : failure.kind = .childFailed) :
    (job.node.kind ≠ .step ∧ ∃ first rest,
      (kids.filter fun kid => kid.status = .failed) = first :: rest ∧
        failure = childFailure first (first :: rest)) ∨
    (job.node.kind = .step ∧ ∃ agent earlier inputs,
      (setup.executor.call agent earlier inputs).ending = .answer (.error failure)) := by
  have hlived := h.chronicle.node a job (jobAt_of_at? hkids)
  have hstarted := hlived.started_of_status (.inr hstatus)
  cases h.past.ended a job kids hkids hstarted (by rw [hstatus]; rfl) with
  | succeeded _ hother => rw [hstatus] at hother; cases hother
  | stopped _ hother => rw [hstatus] at hother; cases hother
  | failed hsince _ herror' hP hfailing =>
    rw [herror, Option.some.injEq] at herror'
    subst herror'
    rw [hsince.node]
    cases hfailing with
    | unbound _ _ hbinding => rw [hkind] at hbinding; cases hbinding
    | called hstep _ hattributed =>
      rcases hattributed with hcall | ⟨agent, seconds, hfailure⟩
      · exact .inr ⟨hstep, hcall⟩
      · rw [hfailure] at hkind
        cases hkind
    | rejected _ _ hrejected =>
      rcases hrejected.1 with hbinding | ⟨_, value, hfailure⟩
      · rw [hkind] at hbinding
        cases hbinding
      · rw [hfailure] at hkind
        cases hkind
    | blamed hstep _ hblamed => exact .inl ⟨hstep, hblamed.since hsince⟩

/-! ## Runs that are not cancelled -/

/-- The node above a node that has started has started. -/
theorem Final.started_above {i : Nat} {kid : Live} (h : Final setup tree s)
    (hkids : s.root.at? a = some (.mk job kids)) (hi : kids[i]? = some kid)
    (hstarted : kid.entry.progress.started.isSome) : job.entry.progress.started.isSome := by
  have hchronicle := h.chronicle
  have hjob := jobAt_of_at? hkids
  have hkid : s.jobAt (a ++ [i]) = some kid.job := by rw [jobAt_concat hkids, hi]; rfl
  have hlived := hchronicle.node _ _ hkid
  obtain ⟨x, hx, hrun⟩ := hlived.started_iff.1 hstarted
  obtain ⟨hmem, hpath⟩ := mem_eventsOf.1 hx
  obtain ⟨y, hypath, hyrun, hsub⟩ :=
    hchronicle.starts a [i] job kid.job x hjob hkid (by simp) hmem hpath hrun
  exact (hchronicle.node a job hjob).started_iff.2
    ⟨y, mem_eventsOf.2 ⟨hsub.subset List.mem_cons_self, hypath⟩, hyrun⟩

/-- A container other than a race fails if a child has failed and none was stopped. -/
theorem Final.failed_of_kid {kid : Live} (h : Final setup tree s) (hend : job.status.isTerminal)
    (hcancelled : s.cancelled = false) (hkids : s.root.at? a = some (.mk job kids))
    (hstep : job.node.kind ≠ .step) (hrace : job.node.kind ≠ .race) (hmem : kid ∈ kids)
    (hfailed : kid.status = .failed) (hnone : ∀ kid ∈ kids, Live.status kid ≠ .cancelled) :
    job.status = .failed := by
  have hchronicle := h.chronicle
  obtain ⟨i, hi⟩ := List.getElem?_of_mem hmem
  have hkid : s.jobAt (a ++ [i]) = some kid.job := by rw [jobAt_concat hkids, hi]; rfl
  have hstarted := h.started_above hkids hi
    ((hchronicle.node _ _ hkid).started_of_status (.inr hfailed))
  cases h.past.ended a job kids hkids hstarted hend with
  | failed _ hstatus => exact hstatus
  | @succeeded old before output message hsince _ _ hearned =>
    exfalso
    obtain ⟨kid', hi', hlater⟩ := Later.exists_getElem? hsince.kids hi
    have hfailed' := (hlater.status_iff (by decide) (by decide) (by decide)).1 hfailed
    rw [hsince.node] at hstep hrace
    unfold Earned at hearned
    split at hearned
    · rename_i hwork
      rw [Node.kind, hwork] at hstep
      exact hstep rfl
    · obtain ⟨k, chosen, hk, hchosen, _, hothers⟩ := hearned
      by_cases hik : i = k
      · rw [hik, hk, Option.some.injEq] at hi'
        rw [← hi', hchosen] at hfailed'
        cases hfailed'
      · rw [hothers i kid' hik hi'] at hfailed'
        cases hfailed'
    · rename_i hwork
      rw [Node.kind, hwork] at hrace
      exact hrace rfl
    · rw [hearned.1 kid' (List.mem_of_getElem? hi')] at hfailed'
      cases hfailed'
  | stopped hsince _ hu hstopped =>
    exfalso
    rw [hsince.node] at hstep hrace
    rcases (hstopped.container hstep hrace).2 with ⟨stopped, hstopped, hstatus⟩ | hcancel | hnot
    · obtain ⟨stopped', hstopped', hlater⟩ := Later.exists_after hsince.kids hstopped
      refine hnone stopped' hstopped' ?_
      rw [Live.status, hlater.entry_eq (by rw [hstatus]; decide), ← Live.status, hstatus]
    · rw [hu hcancel] at hcancelled
      cases hcancelled
    · obtain ⟨kid', hmem', hlater⟩ := Later.exists_before hsince.kids hmem
      exact hnot kid' hmem' ((hlater.status_iff (by decide) (by decide) (by decide)).1 hfailed)

/-- The children of a sequence after the one that failed are skipped. -/
theorem Final.skipped_of_sequence {i j : Nat} {kid other : Live} (h : Final setup tree s)
    (hend : ∀ a job, s.jobAt a = some job → job.status.isTerminal) (hcancelled : s.cancelled = false)
    (hkids : s.root.at? a = some (.mk job kids)) (hkind : job.node.kind = .sequence)
    (hstatus : job.status = .failed) (hi : kids[i]? = some kid) (hfailed : kid.status = .failed)
    (hij : i < j) (hj : kids[j]? = some other) : other.status = .skipped := by
  have hlived := h.chronicle.node a job (jobAt_of_at? hkids)
  have hstarted := hlived.started_of_status (.inr hstatus)
  have hterminal : other.status.isTerminal := by
    refine hend (a ++ [j]) other.job ?_
    rw [jobAt_concat hkids, hj]
    rfl
  cases h.past.ended a job kids hkids hstarted (by rw [hstatus]; rfl) with
  | succeeded _ hother => rw [hstatus] at hother; cases hother
  | stopped _ hother => rw [hstatus] at hother; cases hother
  | failed hsince _ _ _ hfailing =>
    rw [hsince.node] at hkind
    obtain ⟨kid', hi', hlater⟩ := Later.exists_getElem? hsince.kids hi
    obtain ⟨other', hj', hlater'⟩ := Later.exists_getElem? hsince.kids hj
    have hfailed' := (hlater.status_iff (by decide) (by decide) (by decide)).1 hfailed
    cases hfailing with
    | unbound hstep => rw [hkind] at hstep; cases hstep
    | called hstep => rw [hkind] at hstep; cases hstep
    | rejected _ _ hrejected =>
      rw [hrejected.2 kid' (List.mem_of_getElem? hi')] at hfailed'
      cases hfailed'
    | blamed _ _ hblamed =>
      obtain ⟨k, hbefore, hafter⟩ := hblamed.sequence hkind
      have hki : k ≤ i := by
        by_contra hlt
        rw [hbefore i kid' (Nat.lt_of_not_le hlt) hi'] at hfailed'
        cases hfailed'
      have hpending := hafter j other' (Nat.lt_of_le_of_lt hki hij) hj'
      cases hlater' with
      | same heq =>
        rw [Live.status, heq, ← Live.status, hpending] at hterminal
        cases hterminal
      | left _ hleft =>
        rcases hleft with hskipped | ⟨_, hcancel⟩
        · exact hskipped
        · rw [hcancel] at hcancelled
          cases hcancelled

/-- Without an end of the run only losers of races are cancelled. -/
theorem Final.race_of_cancelled (h : Final setup tree s)
    (hend : ∀ a job, s.jobAt a = some job → job.status.isTerminal) (hcancelled : s.cancelled = false)
    (hstatus : s.statusAt a = some .cancelled) : ∃ above i below race, a = above ++ i :: below ∧
      s.jobAt above = some race ∧ race.node.kind = .race ∧ race.status = .succeeded := by
  have hreasons := h.reached.reasons h.sound
  rcases hreasons.cancelled a hstatus with hcancel | hhalted
  · rw [hcancel] at hcancelled
    cases hcancelled
  · obtain ⟨above, i, below, job, frame, ha, hjob, hframe, hwon⟩ := hhalted
    obtain ⟨k, hk⟩ := Option.isSome_iff_exists.1 hwon
    obtain ⟨hkind, hrace, _⟩ :=
      hreasons.winner above job k hjob ((Job.winner_of_frame? hframe).trans hk)
    refine ⟨above, i, below, job, ha, hjob, hkind, hrace.resolve_left fun hrun => ?_⟩
    have := hend above job hjob
    rw [hrun] at this
    cases this

/-- What holds at the end of a run that was not cancelled. -/
structure Undisturbed (s : State) : Prop where
  /-- A container other than a race fails if a child has failed and none was stopped. -/
  failed : ∀ a job kids, s.root.at? a = some (.mk job kids) → job.node.kind ≠ .step →
    job.node.kind ≠ .race → (∃ kid ∈ kids, Live.status kid = .failed) →
    (∀ kid ∈ kids, Live.status kid ≠ .cancelled) → job.status = .failed
  /-- The children of a sequence after the one that failed are skipped. -/
  sequence : ∀ a job kids, s.root.at? a = some (.mk job kids) → job.node.kind = .sequence →
    job.status = .failed → ∀ (i j : Nat) (kid other : Live), i < j → kids[i]? = some kid →
    kid.status = .failed → kids[j]? = some other → other.status = .skipped
  /-- Only losers of races are cancelled, or what lies below them. -/
  cancelled : ∀ a, s.statusAt a = some .cancelled → ∃ above i below race,
    a = above ++ i :: below ∧ s.jobAt above = some race ∧ race.node.kind = .race ∧
      race.status = .succeeded
  /-- The run succeeds if its root does, and else fails. -/
  status : s.runStatus = if s.root.status = .succeeded then .succeeded else .failed

/-- How the containers of a run of the tree have come out. -/
structure Composition (setup : Setup) (tree : Node) (s : State) : Prop where
  /-- A container that has started and ended opened in its turn, and came out as its children did. -/
  composed : ∀ a job kids, s.root.at? a = some (.mk job kids) → job.node.kind ≠ .step →
    job.entry.progress.started.isSome → job.status.isTerminal →
    ∃ o, Opens setup tree a o ∧ Composed job kids o
  /-- A node that fails because of children names those that have failed. An agent may also answer
  with such a failure. -/
  blamed : ∀ a job kids failure, s.root.at? a = some (.mk job kids) → job.status = .failed →
    job.entry.error = some failure → failure.kind = .childFailed →
    (job.node.kind ≠ .step ∧ ∃ first rest,
      (kids.filter fun kid => kid.status = .failed) = first :: rest ∧
        failure = childFailure first (first :: rest)) ∨
    (job.node.kind = .step ∧ ∃ agent earlier inputs,
      (setup.executor.call agent earlier inputs).ending = .answer (.error failure))
  /-- At the end of the run every node has ended. -/
  ended : s.outcome = .finished s.result → ∀ a job, s.jobAt a = some job → job.status.isTerminal
  undisturbed : s.outcome = .finished s.result → s.cancelled = false → Undisturbed s

theorem Final.composition (h : Final setup tree s) : Composition setup tree s := by
  have hended (hfinished : s.outcome = .finished s.result) (a : Address) (job : Job)
      (hjob : s.jobAt a = some job) : job.status.isTerminal := by
    obtain ⟨_, status, hroot, hterminal⟩ := h.root_ended hfinished
    exact h.reached.isTerminal h.sound hroot hterminal hjob
  refine ⟨fun a job kids hkids hkind hstarted hend => h.composed hkids hkind hstarted hend,
    fun a job kids failure hkids hstatus herror hkind => h.blamed hkids hstatus herror hkind,
    hended, fun hfinished hcancelled => ⟨?_, ?_, ?_, ?_⟩⟩
  · rintro a job kids hkids hstep hrace ⟨kid, hmem, hfailed⟩ hnone
    exact h.failed_of_kid (hended hfinished a job (jobAt_of_at? hkids)) hcancelled hkids hstep hrace
      hmem hfailed hnone
  · intro a job kids hkids hkind hstatus i j kid other hij hi hfailed hj
    exact h.skipped_of_sequence (hended hfinished) hcancelled hkids hkind hstatus hi hfailed hij hj
  · intro a hstatus
    exact h.race_of_cancelled (hended hfinished) hcancelled hstatus
  · rw [runStatus, hcancelled, Bool.false_and, if_neg Bool.false_ne_true]

end State

/-- The containers of a run come out as their children did. -/
theorem Setup.composition_of_execute {setup : Setup} {tree : Node} {separator : String}
    {ids rest : IdSource} {s : State} (htree : tree.Sound)
    (h : setup.execute tree separator ids = .ok (s, rest)) :
    ∃ prepared, tree.prepare separator setup.previous ids = .ok (prepared, rest) ∧
      State.Composition setup prepared s := by
  obtain ⟨prepared, hprepare, hfinal⟩ := execute_final htree h
  exact ⟨prepared, hprepare, hfinal.composition⟩

/-- The containers of a sequence of a race and a step do so. -/
theorem Setup.composition_of_execute_sequence : ∃ s rest prepared,
    ({ executor := Echo.executor } : Setup).execute (.mk {} .sequence
      [.mk {} (.race none) [.mk {} (.step "first" none) []], .mk {} (.step "second" none) []])
      " > " .counting = .ok (s, rest) ∧
    State.Composition { executor := Echo.executor } prepared s := by
  have hsound : (Node.mk {} .sequence [.mk {} (.race none) [.mk {} (.step "first" none) []],
      .mk {} (.step "second" none) []]).Sound := by
    simp [Node.Sound, Node.walk, Node.walkList, Node.Fits, Node.work, Node.children, Work.limit]
  obtain ⟨s, rest, h⟩ : ∃ s rest, ({ executor := Echo.executor } : Setup).execute (.mk {} .sequence
      [.mk {} (.race none) [.mk {} (.step "first" none) []], .mk {} (.step "second" none) []])
      " > " .counting = .ok (s, rest) := ⟨_, _, rfl⟩
  obtain ⟨prepared, _, hcomposition⟩ := composition_of_execute hsound h
  exact ⟨s, rest, prepared, h, hcomposition⟩

end Workflow
