import Workflow.Proofs.Run.Twins
import Workflow.Proofs.Run.Verdict

/-!
# Runs that come out alike

If in two calm runs of twins the steps that are given the same come out alike, then all nodes do. What a
node is given depends on the nodes above it and on those that come to their ends before it, and how a
container comes out depends on how it opens and on its children.

* `State.Met` says that a node has started in both runs and has been given the same.
* `State.TwinRuns.sameFrom` says that such a node comes out alike in both runs, with all nodes below.
* `State.TwinRuns.ready_of_started` says that every node that has started in both runs has been given
  the same.
-/

namespace Workflow

/-! ## Children that come out alike -/

/-- Two nodes have one path and one label, and have come out alike. -/
def Live.Agrees (live live' : Live) : Prop :=
  live'.entry.account = live.entry.account ∧ live'.entry.path = live.entry.path ∧
    live'.entry.label = live.entry.label

namespace Live.Agrees

variable {live live' : Live} {kids kids' : List Live}

theorem status (h : Agrees live live') : live'.status = live.status :=
  congrArg Prod.fst h.1

theorem output (h : Agrees live live') : live'.entry.output = live.entry.output :=
  congrArg (fun account => account.2.1) h.1

theorem error (h : Agrees live live') : live'.entry.error = live.entry.error :=
  congrArg (fun account => account.2.2.1) h.1

theorem map_eq {β : Type} {f : Live → β} (hf : ∀ live live', Agrees live live' → f live' = f live)
    (h : List.Forall₂ Agrees kids kids') : kids'.map f = kids.map f := by
  induction h with
  | nil => rfl
  | cons hkid _ ih => rw [List.map_cons, List.map_cons, hf _ _ hkid, ih]

theorem childFailure_eq {first first' : Live} (hfirst : Agrees first first')
    (h : List.Forall₂ Agrees kids kids') :
    State.childFailure first' kids' = State.childFailure first kids := by
  have hpaths : (kids'.map fun kid => kid.entry.path) = kids.map fun kid => kid.entry.path :=
    map_eq (fun _ _ hkid => hkid.2.1) h
  rw [State.childFailure, State.childFailure, hfirst.error, hfirst.2.1, hfirst.2.2, hpaths]

end Live.Agrees

/-- A container comes out alike if it opens in the same way and its children come out alike. -/
theorem Opening.tally_congr (o : Opening) {kids kids' : List Live}
    (h : List.Forall₂ Live.Agrees kids kids') : o.tally kids' = o.tally kids := by
  have houtputs : (kids'.map fun kid => kid.entry.output) = kids.map fun kid => kid.entry.output :=
    Live.Agrees.map_eq (fun _ _ hkid => hkid.output) h
  have houtput : o.output kids' = o.output kids := by
    cases o with
    | chosen k =>
      rw [output, output, ← List.getElem?_map, ← List.getElem?_map, houtputs]
    | _ => exact congrArg Value.array houtputs
  have hfailed : List.Forall₂ Live.Agrees (kids.filter fun kid => kid.status = .failed)
      (kids'.filter fun kid => kid.status = .failed) :=
    List.rel_filter (fun kid kid' hkid => by simp [hkid.status]) h
  cases o with
  | refused => rfl
  | _ =>
    simp only [tally, houtput]
    generalize (kids.filter fun kid => kid.status = .failed) = failed at hfailed
    generalize (kids'.filter fun kid => kid.status = .failed) = failed' at hfailed
    cases hfailed with
    | nil => rfl
    | cons hfirst hrest =>
      simp only
      rw [Live.Agrees.childFailure_eq hfirst (.cons hfirst hrest)]

namespace Opening.Lets

variable {o : Opening} {kind : Kind} {p q : Nat → Prop} {i : Nat}

/-- Which children start depends, in a sequence, on those before them. -/
theorem imp (h : o.Lets kind p i) (hpq : kind = .sequence → ∀ j, j < i → p j → q j) :
    o.Lets kind q i := by
  cases o with
  | all => exact fun hsequence j hj => hpq hsequence j hj (h hsequence j hj)
  | _ => exact h

/-- If a child of a sequence starts, those before it have succeeded. -/
theorem before {s : State} {a : Address} {job : Job} (h : o.Lets job.node.kind p i)
    (hfits : o.Fits s a job) (hsequence : job.node.kind = .sequence) {j : Nat} (hj : j < i) : p j := by
  cases o with
  | refused => exact hfits.elim
  | all => exact h hsequence j hj
  | chosen k => rw [hfits.1] at hsequence; cases hsequence
  | items elements => rw [hfits.1] at hsequence; cases hsequence

end Opening.Lets

namespace State

variable {setup setup' : Setup} {tree tree' : Node} {s s' : State} {a b : Address} {i : Nat}
  {job job' kid kid' : Job} {kids : List Live} {steps steps' : Nat} {o : Opening}

/-! ## Nodes that come out alike -/

/-- All nodes from an address on have come out alike. -/
def SameFrom (s s' : State) (a : Address) : Prop :=
  ∀ b, a <+: b → s'.accountAt b = s.accountAt b

theorem SameFrom.statusAt (h : SameFrom s s' a) : s'.statusAt a = s.statusAt a := by
  have := congrArg (Option.map Prod.fst) (h a List.prefix_rfl)
  rw [accountAt, accountAt, Option.map_map, Option.map_map] at this
  exact this

theorem SameFrom.account (h : SameFrom s s' a) (hjob : s.jobAt a = some job)
    (hjob' : s'.jobAt a = some job') : job'.entry.account = job.entry.account := by
  have := h a List.prefix_rfl
  rwa [accountAt, accountAt, hjob, hjob', Option.map_some, Option.map_some, Option.some.injEq] at this

theorem accountAt_eq_none (h : s.jobAt a = none) (hab : a <+: b) : s.accountAt b = none := by
  obtain ⟨c, rfl⟩ := hab
  rw [accountAt, Option.map_eq_none_iff, Option.eq_none_iff_forall_ne_some]
  intro job hjob
  obtain ⟨above, habove⟩ := jobAt_of_append hjob
  rw [h] at habove
  cases habove

theorem SameFrom.of_absent (h : s.jobAt a = none) (h' : s'.jobAt a = none) : SameFrom s s' a := by
  intro b hab
  rw [accountAt_eq_none h hab, accountAt_eq_none h' hab]

/-- Nodes come out alike from an address on if the node there does, and those from its children on. -/
theorem SameFrom.of_kids (hshape : Shape tree s) (hshape' : Shape tree' s')
    (hjob : s.jobAt a = some job) (hjob' : s'.jobAt a = some job')
    (haccount : job'.entry.account = job.entry.account) (harity : job'.arity = job.arity)
    (hkids : ∀ i, i < job.arity → SameFrom s s' (a ++ [i])) : SameFrom s s' a := by
  rintro b ⟨c, rfl⟩
  cases c with
  | nil =>
    rw [List.append_nil, accountAt, accountAt, hjob, hjob', Option.map_some, Option.map_some, haccount]
  | cons i c =>
    have hkid : a ++ [i] <+: a ++ i :: c := ⟨c, by simp⟩
    by_cases hi : i < job.arity
    · exact hkids i hi _ hkid
    · -- there is no such child in either run
      have hnone' := hshape'.jobAt_kid_eq_none hjob' (by rwa [harity])
      exact SameFrom.of_absent (hshape.jobAt_kid_eq_none hjob hi) hnone' _ hkid

/-- A node has started in both runs, and has been given the same. -/
structure Met (tree : Node) (s s' : State) (a : Address) (job job' : Job) : Prop where
  first : s.jobAt a = some job
  second : s'.jobAt a = some job'
  started : job.entry.progress.started.isSome
  started' : job'.entry.progress.started.isSome
  ready : Ready tree s s' a

theorem Met.symm (h : Met tree s s' a job job') (htwin : tree.Twin tree') :
    Met tree' s' s a job' job where
  first := h.second
  second := h.first
  started := h.started'
  started' := h.started
  ready := h.ready.symm htwin

/-- Steps that have been given the same come out alike. -/
def StepsAlike (tree : Node) (s s' : State) : Prop :=
  ∀ a job job', Met tree s s' a job job' → job.node.kind = .step →
    job'.entry.account = job.entry.account

/-- A container has its turns in both runs, its inputs have the same values then, and it opens in the
same way. -/
structure Turns (setup setup' : Setup) (tree tree' : Node) (a : Address) (job job' : Job)
    (steps steps' : Nat) (o : Opening) : Prop where
  first : Turn setup tree a steps
  second : Turn setup' tree' a steps'
  bound : bindInputs (((start setup' tree').runWithin setup' steps').viewAt setup' a)
    job'.node.header.inputs = bindInputs (((start setup tree).runWithin setup steps).viewAt setup a)
      job.node.header.inputs
  opens : ((start setup tree).runWithin setup steps).openingAt setup a = o
  opens' : ((start setup' tree').runWithin setup' steps').openingAt setup' a = o

/-- Above a node that has started the node has started. -/
theorem Final.started_of_kid (h : Final setup tree s) (hjob : s.jobAt a = some job)
    (hkid : s.jobAt (a ++ [i]) = some kid) (hstarted : kid.entry.progress.started.isSome) :
    job.entry.progress.started.isSome := by
  obtain ⟨kids, hkids⟩ := at?_of_jobAt hjob
  rw [jobAt_concat hkids, Option.map_eq_some_iff] at hkid
  obtain ⟨live, hlive, rfl⟩ := hkid
  exact h.started_above hkids hlive hstarted

/-- A node that has succeeded has started. -/
theorem Final.started_of_succeeded (h : Final setup tree s) (hjob : s.jobAt a = some job)
    (hstatus : job.status = .succeeded) : job.entry.progress.started.isSome :=
  (h.chronicle.node a job hjob).started_of_status (.inl hstatus)

namespace TwinRuns

variable (h : TwinRuns setup setup' tree tree' s s')
include h

/-! ## Nodes that are left out -/

/-- A node that has been left out in both runs comes out alike, with all nodes below. -/
theorem sameFrom_of_not_started (hjob : s.jobAt a = some job) (hjob' : s'.jobAt a = some job')
    (hend : job.status.isTerminal) (hend' : job'.status.isTerminal)
    (hstarted : ¬ job.entry.progress.started.isSome)
    (hstarted' : ¬ job'.entry.progress.started.isSome) : SameFrom s s' a := by
  have hshape := h.first.shape
  have hshape' := h.second.shape
  obtain ⟨kids, hkids⟩ := at?_of_jobAt hjob
  generalize hlive : Live.mk job kids = live at hkids
  induction live using Live.ind generalizing a job job' kids with
  | mk old before ih =>
    obtain ⟨rfl, rfl⟩ := Live.mk.inj hlive
    obtain ⟨haccount, hidle⟩ := h.first.account_of_not_started h.calm hjob hend hstarted
    obtain ⟨haccount', hidle'⟩ := h.second.account_of_not_started h.calm' hjob' hend' hstarted'
    have harity := Job.arity_congr_notes (h.nodes hjob hjob')
      (by rw [hidle, hidle'])
    refine .of_kids hshape hshape' hjob hjob' (haccount'.trans haccount.symm) harity fun i hi => ?_
    obtain ⟨kid, hkid⟩ := hshape.exists_kid hjob hi
    obtain ⟨kid', hkid'⟩ := hshape'.exists_kid hjob' (by rwa [harity])
    obtain ⟨below, hbelow⟩ := at?_of_jobAt hkid
    have hmem : kids[i]? = some (.mk kid below) := by
      rw [← hbelow, Live.at?_concat hkids]
    refine ih (.mk kid below) (List.mem_of_getElem? hmem) hkid hkid' ?_ ?_ ?_ ?_ below rfl hbelow
    · exact h.first.control.isTerminal_below (List.prefix_append a [i])
        (statusAt_of_jobAt hjob) hend hkid
    · exact h.second.control.isTerminal_below (List.prefix_append a [i])
        (statusAt_of_jobAt hjob') hend' hkid'
    · exact fun hkidStarted => hstarted (h.first.started_of_kid hjob hkid hkidStarted)
    · exact fun hkidStarted => hstarted' (h.second.started_of_kid hjob' hkid' hkidStarted)

/-! ## Containers that open in the same way -/

variable (hmet : Met tree s s' a job job')
include hmet

/-- A node that has been given the same has its turns in both runs. -/
theorem exists_turns : ∃ steps steps' o, Turns setup setup' tree tree' a job job' steps steps' o := by
  obtain ⟨steps, hturn⟩ := h.first.exists_turn hmet.first hmet.started
  obtain ⟨steps', hturn'⟩ := h.second.exists_turn hmet.second hmet.started'
  obtain ⟨old, _, _, henter⟩ := hturn.entering h.first.sound h.calm
  obtain ⟨old', _, _, henter'⟩ := hturn'.entering h.second.sound h.calm'
  have hnode := (henter.reached.shape h.first.sound).node_eq h.first.shape
    henter.jobAt hmet.first
  have hnode' := (henter'.reached.shape h.second.sound).node_eq h.second.shape
    henter'.jobAt hmet.second
  refine ⟨steps, steps', _, hturn, hturn', ?_, rfl,
    h.openingAt_eq rfl rfl henter henter' hmet.ready⟩
  rw [hnode, hnode']
  exact h.bindInputs_eq rfl rfl henter henter' hmet.ready

/-- What comes of a step depends in both runs on the same values of its inputs. -/
theorem exists_account (hstep : job.node.kind = .step) : ∃ agent own bound,
    job.entry.account = setup.account agent own (setup.recorded? job.entry) bound ∧
      job'.entry.account = setup'.account agent own (setup'.recorded? job'.entry) bound := by
  obtain ⟨steps, steps', o, hturns⟩ := h.exists_turns hmet
  have hnodes := h.nodes hmet.first hmet.second
  have hwork := hnodes.work_eq (by rw [hstep]; rfl)
  cases hstepWork : job.node.work with
  | step agent own =>
    rw [hstepWork] at hwork
    have haccount := h.second.account_of_step h.calm' hmet.second hwork hturns.second
    rw [hturns.bound] at haccount
    exact ⟨agent, own, _, h.first.account_of_step h.calm hmet.first hstepWork hturns.first, haccount⟩
  | _ =>
    rw [Node.kind, hstepWork] at hstep
    cases hstep

variable (hkind : job.node.kind ≠ .step)
include hkind

theorem kind_ne : job'.node.kind ≠ .step := by
  have hnodes := h.nodes hmet.first hmet.second
  rwa [hnodes.kind]

variable (hturns : Turns setup setup' tree tree' a job job' steps steps' o)
include hturns

/-- The container knows the same in both runs. -/
theorem notesAt_eq (hopens : ∀ failure, o ≠ .refused failure) : s'.notesAt a = s.notesAt a := by
  obtain ⟨old, _, _, henter⟩ := hturns.first.entering h.first.sound h.calm
  have hnode := (henter.reached.shape h.first.sound).node_eq h.first.shape
    henter.jobAt hmet.first
  obtain ⟨bound, hbound⟩ := henter.exists_bound fun failure => by
    rw [hturns.opens]
    exact hopens failure
  rw [← hnode] at hbound
  obtain ⟨frame, hframe, hnotes⟩ := h.first.notes h.calm hmet.first hkind hturns.first hbound
  obtain ⟨frame', hframe', hnotes'⟩ := h.second.notes h.calm' hmet.second
    (h.kind_ne hmet hkind) hturns.second (hturns.bound.trans hbound)
  rw [hturns.opens] at hnotes
  rw [hturns.opens'] at hnotes'
  rw [notesAt, notesAt, hmet.first, hmet.second]
  exact (Job.notes?_stage.2 ⟨frame', hframe', hnotes'⟩).trans
    (Job.notes?_stage.2 ⟨frame, hframe, hnotes⟩).symm

/-- The container has as many children in both runs. -/
theorem arity_eq : job'.arity = job.arity := by
  have hnodes := h.nodes hmet.first hmet.second
  by_cases hloop : job.node.kind = .loop
  · by_cases hopens : ∀ failure, o ≠ .refused failure
    · refine Job.arity_congr_notes hnodes ?_
      have := h.notesAt_eq hmet hkind hturns hopens
      rwa [notesAt, notesAt, hmet.first, hmet.second] at this
    · simp only [not_forall, not_not] at hopens
      obtain ⟨failure, rfl⟩ := hopens
      rw [h.first.arity_of_refused h.calm hturns.first hturns.opens hmet.first hloop,
        h.second.arity_of_refused h.calm' hturns.second hturns.opens' hmet.second
          (hnodes.kind.trans hloop)]
  · rw [Job.arity_of_kind_ne hloop, Job.arity_of_kind_ne (hnodes.kind.trans_ne hloop),
      hnodes.length_children]

/-- A child that starts is given the same, if those before it in a sequence have come out alike. -/
theorem ready_kid (hkid : s.jobAt (a ++ [i]) = some kid) (hstarted : kid.entry.progress.started.isSome)
    (hbefore : job.node.kind = .sequence → ∀ j, j < i → SameFrom s s' (a ++ [j])) :
    Ready tree s s' (a ++ [i]) where
  before x hx := by
    have hshape := h.first.shape
    have hshape' := h.second.shape
    rcases hx.cases_concat (hshape.at?_placeOf hmet.first) with hx | ⟨j, hji, hprefix, ⟨hseq, hlt⟩ | hbranch⟩
    · exact hmet.ready.before x hx
    · exact hbefore hseq j hlt x hprefix
    · -- the other children of a branch are left out
      refine (?_ : SameFrom s s' (a ++ [j])) x hprefix
      have hlets := h.first.lets_of_started h.calm hturns.first hturns.opens hmet.first hkid hstarted
      have hfits := (h.first.fits_or_refused h.calm hturns.first hturns.opens hmet.first hkind
        hmet.started).resolve_right (by rintro ⟨failure, rfl, _⟩; exact hlets)
      have hfits' := (h.second.fits_or_refused h.calm' hturns.second hturns.opens' hmet.second
        (h.kind_ne hmet hkind) hmet.started').resolve_right
          (by rintro ⟨failure, rfl, _⟩; exact hlets)
      have harity := h.arity_eq hmet hkind hturns
      cases o with
      | refused => exact hlets.elim
      | all => exact absurd hbranch hfits.1
      | items => rw [hfits.1] at hbranch; cases hbranch
      | chosen k =>
        obtain rfl : i = k := hlets
        by_cases hj : j < job.arity
        · obtain ⟨other, hother, hskipped⟩ := jobAt_of_statusAt (hfits.2.2 j hj hji)
          obtain ⟨other', hother', hskipped'⟩ :=
            jobAt_of_statusAt (hfits'.2.2 j (by rwa [harity]) hji)
          have hnot := (h.first.chronicle.node _ other hother)
            |>.not_started_of_skipped hskipped
          have hnot' := (h.second.chronicle.node _ other' hother')
            |>.not_started_of_skipped hskipped'
          exact h.sameFrom_of_not_started hother hother' (by rw [hskipped]; rfl)
            (by rw [hskipped']; rfl) (by simp [hnot]) (by simp [hnot'])
        · refine .of_absent (hshape.jobAt_kid_eq_none hmet.first hj) ?_
          exact hshape'.jobAt_kid_eq_none hmet.second (by rwa [harity])
  notes c k hc := by
    rcases List.prefix_concat_iff.1 hc with heq | hc
    · obtain ⟨rfl, _⟩ := (List.append_singleton_inj ..).1 heq
      refine h.notesAt_eq hmet hkind hturns ?_
      rintro failure rfl
      exact h.first.lets_of_started h.calm hturns.first hturns.opens hmet.first hkid hstarted
    · exact hmet.ready.notes c k hc

/-! ## Containers whose children come out alike -/

variable (hkids : ∀ i kid kid', Met tree s s' (a ++ [i]) kid kid' → kid.status.isTerminal →
  SameFrom s s' (a ++ [i])) (hend : job.status.isTerminal)
include hkids hend

/-- A child that starts in the second run starts in the first one, and comes out alike. -/
theorem met_kid (hkid' : s'.jobAt (a ++ [i]) = some kid')
    (hstarted' : kid'.entry.progress.started.isSome) :
    ∃ kid, Met tree s s' (a ++ [i]) kid kid' ∧ SameFrom s s' (a ++ [i]) := by
  have hshape := h.first.shape
  have hshape' := h.second.shape
  have hkindEq := (h.nodes hmet.first hmet.second).kind
  induction i using Nat.strong_induction_on generalizing kid' with
  | _ i ih =>
    have hlets' := h.second.lets_of_started h.calm' hturns.second hturns.opens' hmet.second hkid'
      hstarted'
    have hfits := (h.first.fits_or_refused h.calm hturns.first hturns.opens hmet.first hkind
      hmet.started).resolve_right (by rintro ⟨failure, rfl, _⟩; exact hlets')
    rw [hkindEq] at hlets'
    -- those before it in a sequence have succeeded in the second run, so that they come out alike
    have hsame (j : Nat) (hj : j < i) (hsucceeded : s'.statusAt (a ++ [j]) = some .succeeded) :
        SameFrom s s' (a ++ [j]) := by
      obtain ⟨other', hother', hstatus⟩ := jobAt_of_statusAt hsucceeded
      obtain ⟨_, _, hsame⟩ := ih j hj hother' (h.second.started_of_succeeded hother' hstatus)
      exact hsame
    have hlets := hlets'.imp (q := fun j => s.statusAt (a ++ [j]) = some .succeeded)
      fun _ j hj hsucceeded => (hsame j hj hsucceeded).statusAt.symm.trans hsucceeded
    have hlt := hshape'.lt_arity hmet.second hkid'
    rw [h.arity_eq hmet hkind hturns] at hlt
    obtain ⟨kid, hkid⟩ := hshape.exists_kid hmet.first hlt
    obtain ⟨live, hlive⟩ := at?_of_jobAt hmet.first
    have hstarted := h.first.started_of_lets h.calm hturns.first hturns.opens hlive hkind hmet.started
      hend hkid hlets
    have hready := h.ready_kid hmet hkind hturns hkid hstarted fun hsequence j hj =>
      hsame j hj (hlets'.before hfits hsequence hj)
    have hmetKid : Met tree s s' (a ++ [i]) kid kid' := ⟨hkid, hkid', hstarted, hstarted', hready⟩
    refine ⟨kid, hmetKid, hkids i kid kid' hmetKid ?_⟩
    exact h.first.control.isTerminal_below (List.prefix_append a [i])
      (statusAt_of_jobAt hmet.first) hend hkid

/-- The container comes to its end in the second run. -/
theorem isTerminal_container : job'.status.isTerminal := by
  have hcontrol' := h.second.control
  have hlived' := h.second.chronicle.node a job' hmet.second
  refine Status.isTerminal_iff.2 ⟨fun hpending => ?_, fun hrun => ?_⟩
  · have hstarted' := hmet.started'
    rw [(hlived'.of_pending hpending).1.progress] at hstarted'
    cases hstarted'
  · -- some child runs, although it has come to its end in the first run
    have hcall : job'.call? = none := by
      cases hstage : job'.stage with
      | calling call =>
        exact absurd (hcontrol'.of_calling hmet.second hstage).2.2.1 (h.kind_ne hmet hkind)
      | _ => rw [Job.call?, hstage]
    obtain ⟨i, hkidRun⟩ := exists_running_kid hcontrol' h.second.shape
      h.second.limit (h.second.reached.agenda_eq_nil h.second.sound h.second.step) hmet.second hrun hcall
    obtain ⟨kid', hkid', hkidRun'⟩ := jobAt_of_statusAt hkidRun
    obtain ⟨x, _, _, _, hstarted, _⟩ :=
      (h.second.chronicle.node _ kid' hkid').of_running hkidRun'
    obtain ⟨kid, hmetKid, hsame⟩ := h.met_kid hmet hkind hturns hkids hend hkid' (by rw [hstarted]; rfl)
    have hkidEnd := h.first.control.isTerminal_below (List.prefix_append a [i])
      (statusAt_of_jobAt hmet.first) hend hmetKid.first
    have hstatus := hsame.statusAt
    rw [hkidRun, statusAt_of_jobAt hmetKid.first, Option.some.injEq] at hstatus
    rw [← hstatus] at hkidEnd
    cases hkidEnd

/-- A child that starts in the first run starts in the second one. -/
theorem started_kid (hkid : s.jobAt (a ++ [i]) = some kid)
    (hstarted : kid.entry.progress.started.isSome) :
    ∃ kid', s'.jobAt (a ++ [i]) = some kid' ∧ kid'.entry.progress.started.isSome := by
  have hshape := h.first.shape
  have hshape' := h.second.shape
  have hkindEq := (h.nodes hmet.first hmet.second).kind
  induction i using Nat.strong_induction_on generalizing kid with
  | _ i ih =>
    have hlets := h.first.lets_of_started h.calm hturns.first hturns.opens hmet.first hkid hstarted
    have hlets' := hlets.imp (q := fun j => s'.statusAt (a ++ [j]) = some .succeeded)
      fun _ j hj hsucceeded => by
        obtain ⟨other, hother, hstatus⟩ := jobAt_of_statusAt hsucceeded
        obtain ⟨other', hother', hstarted'⟩ :=
          ih j hj hother (h.first.started_of_succeeded hother hstatus)
        obtain ⟨_, _, hsame⟩ := h.met_kid hmet hkind hturns hkids hend hother' hstarted'
        exact hsame.statusAt.trans hsucceeded
    have hlt := hshape.lt_arity hmet.first hkid
    rw [← h.arity_eq hmet hkind hturns] at hlt
    obtain ⟨kid', hkid'⟩ := hshape'.exists_kid hmet.second hlt
    obtain ⟨live', hlive'⟩ := at?_of_jobAt hmet.second
    rw [← hkindEq] at hlets'
    exact ⟨kid', hkid', h.second.started_of_lets h.calm' hturns.second hturns.opens' hlive'
      (h.kind_ne hmet hkind) hmet.started'
      (h.isTerminal_container hmet hkind hturns hkids hend) hkid' hlets'⟩

/-- Every child comes out alike. -/
theorem sameFrom_kid (hi : i < job.arity) : SameFrom s s' (a ++ [i]) := by
  have hshape := h.first.shape
  have hshape' := h.second.shape
  obtain ⟨kid, hkid⟩ := hshape.exists_kid hmet.first hi
  obtain ⟨kid', hkid'⟩ := hshape'.exists_kid hmet.second (by rwa [h.arity_eq hmet hkind hturns])
  by_cases hstarted' : kid'.entry.progress.started.isSome
  · obtain ⟨_, _, hsame⟩ := h.met_kid hmet hkind hturns hkids hend hkid' hstarted'
    exact hsame
  · refine h.sameFrom_of_not_started hkid hkid' ?_ ?_ (fun hstarted => ?_) hstarted'
    · exact h.first.control.isTerminal_below (List.prefix_append a [i])
        (statusAt_of_jobAt hmet.first) hend hkid
    · exact h.second.control.isTerminal_below (List.prefix_append a [i])
        (statusAt_of_jobAt hmet.second) (h.isTerminal_container hmet hkind hturns hkids hend) hkid'
    · obtain ⟨other', hother', hyes⟩ := h.started_kid hmet hkind hturns hkids hend hkid hstarted
      rw [hkid', Option.some.injEq] at hother'
      exact hstarted' (hother' ▸ hyes)

/-- The container comes out alike, with all nodes below. -/
theorem sameFrom_container : SameFrom s s' a := by
  have hshape := h.first.shape
  have hshape' := h.second.shape
  have harity := h.arity_eq hmet hkind hturns
  have hsame {i : Nat} := h.sameFrom_kid hmet hkind hturns hkids hend (i := i)
  obtain ⟨lives, hlives⟩ := at?_of_jobAt hmet.first
  obtain ⟨lives', hlives'⟩ := at?_of_jobAt hmet.second
  have hlength := hshape.length_kids hlives
  have hlength' := hshape'.length_kids hlives'
  have hagrees : List.Forall₂ Live.Agrees lives lives' := by
    refine List.forall₂_iff_get.2 ⟨by omega, fun i hi hi' => ?_⟩
    have hkid : s.jobAt (a ++ [i]) = some (lives.get ⟨i, hi⟩).job := by
      rw [jobAt_concat hlives, List.get_eq_getElem, List.getElem?_eq_getElem hi, Option.map_some]
    have hkid' : s'.jobAt (a ++ [i]) = some (lives'.get ⟨i, hi'⟩).job := by
      rw [jobAt_concat hlives', List.get_eq_getElem, List.getElem?_eq_getElem hi', Option.map_some]
    refine ⟨(hsame (by omega)).account hkid hkid', h.path_eq hkid hkid', ?_⟩
    have hlabel := (hshape.entry _ _ hkid).2.2
    have hlabel' := (hshape'.entry _ _ hkid').2.2
    exact hlabel'.trans ((h.nodes hkid hkid').label.trans hlabel.symm)
  have hend' := h.isTerminal_container hmet hkind hturns hkids hend
  refine .of_kids hshape hshape' hmet.first hmet.second ?_ harity fun i => hsame
  rw [h.first.account_of_container h.calm hturns.first hturns.opens hlives hkind hmet.started hend,
    h.second.account_of_container h.calm' hturns.second hturns.opens' hlives' (h.kind_ne hmet hkind)
      hmet.started' hend']
  exact o.tally_congr hagrees

end TwinRuns

/-! ## All nodes -/

namespace TwinRuns

variable (h : TwinRuns setup setup' tree tree' s s') (hsteps : StepsAlike tree s s')
include h hsteps

/-- A node that has started in both runs, has been given the same, and comes to its end in the first run
comes out alike, with all nodes below. -/
theorem sameFrom (hmet : Met tree s s' a job job') (hend : job.status.isTerminal) :
    SameFrom s s' a := by
  obtain ⟨lives, hlives⟩ := at?_of_jobAt hmet.first
  generalize hlive : Live.mk job lives = live at hlives
  induction live using Live.ind generalizing a job job' lives with
  | mk old before ih =>
    obtain ⟨rfl, rfl⟩ := Live.mk.inj hlive
    by_cases hkind : job.node.kind = .step
    · have hkind' := (h.nodes hmet.first hmet.second).kind.trans hkind
      have hzero := h.first.shape.arity_of_step hmet.first hkind
      have hzero' := h.second.shape.arity_of_step hmet.second hkind'
      refine .of_kids h.first.shape h.second.shape hmet.first hmet.second
        (hsteps a job job' hmet hkind) (by omega) fun i hi => ?_
      omega
    · obtain ⟨steps, steps', o, hturns⟩ := h.exists_turns hmet
      refine h.sameFrom_container hmet hkind hturns (fun i kid kid' hmetKid hkidEnd => ?_) hend
      obtain ⟨below, hbelow⟩ := at?_of_jobAt hmetKid.first
      have hmem : lives[i]? = some (.mk kid below) := by
        rw [← hbelow, Live.at?_concat hlives]
      exact ih (.mk kid below) (List.mem_of_getElem? hmem) hmetKid hkidEnd below rfl hbelow

/-- A node that has started in both runs has been given the same. -/
theorem ready_of_started : ∀ job job', s.jobAt a = some job → s'.jobAt a = some job' →
    job.entry.progress.started.isSome → job'.entry.progress.started.isSome → Ready tree s s' a := by
  have hshape := h.first.shape
  have hshape' := h.second.shape
  induction a using List.reverseRecOn with
  | nil =>
    intro job job' _ _ _ _
    refine ⟨fun x hx => ?_, fun c i hc => absurd (List.prefix_nil.1 hc) (by simp)⟩
    obtain ⟨c, i, j, node, hparts, _⟩ := hx
    exact absurd (List.prefix_nil.1 hparts.right) (by simp)
  | append_singleton a i ih =>
    induction i using Nat.strong_induction_on with
    | _ i ihi =>
      intro kid kid' hkid hkid' hstarted hstarted'
      obtain ⟨job, hjob⟩ := jobAt_of_append hkid
      obtain ⟨job', hjob'⟩ := jobAt_of_append hkid'
      have hmet : Met tree s s' a job job' := by
        have hyes := h.first.started_of_kid hjob hkid hstarted
        have hyes' := h.second.started_of_kid hjob' hkid' hstarted'
        exact ⟨hjob, hjob', hyes, hyes', ih job job' hjob hjob' hyes hyes'⟩
      have hkind := hshape.kind_ne_step hjob (hshape.lt_arity hjob hkid)
      obtain ⟨steps, steps', o, hturns⟩ := h.exists_turns hmet
      have hlets := h.first.lets_of_started h.calm hturns.first hturns.opens hjob hkid hstarted
      have hlets' := h.second.lets_of_started h.calm' hturns.second hturns.opens' hjob' hkid' hstarted'
      have hfits := (h.first.fits_or_refused h.calm hturns.first hturns.opens hjob hkind
        hmet.started).resolve_right (by rintro ⟨failure, rfl, _⟩; exact hlets)
      rw [(h.nodes hjob hjob').kind] at hlets'
      -- those before it in a sequence have succeeded in both runs
      refine h.ready_kid hmet hkind hturns hkid hstarted fun hsequence j hj => ?_
      obtain ⟨other, hother, hstatus⟩ := jobAt_of_statusAt (hlets.before hfits hsequence hj)
      obtain ⟨other', hother', hstatus'⟩ := jobAt_of_statusAt (hlets'.before hfits hsequence hj)
      have hyes := h.first.started_of_succeeded hother hstatus
      have hyes' := h.second.started_of_succeeded hother' hstatus'
      exact h.sameFrom hsteps ⟨hother, hother', hyes, hyes', ihi j hj other other' hother hother' hyes hyes'⟩
        (by rw [hstatus]; rfl)

end TwinRuns

end State
end Workflow
