import Workflow.Proofs.Live.Descend

/-!
# What results give

An expression gives a value in a result if it leads to a node that has succeeded, whose output it is, or
to an input of a step.

* `Result.Yields` says that an expression gives a value, and `Result.Yields.unique` that it gives no other.
* `Surroundings.yields_of_valueAt` says that a path binding has a value only if its expression gives it.
* `Live.Lasting` says that what can be read in one live tree stands in another one as well, and
  `Live.Lasting.yields` that expressions give there what they gave.
-/

namespace Workflow

/-! ## Values of expressions -/

/-- The place gives the value: it is an input that has it, or a node that has succeeded with it. -/
def Target.Gives : Target → Value → Prop
  | value w, v => w = v
  | node n, v => n.status = .succeeded ∧ n.entry.output = v

/-- The place is a node that has succeeded. -/
def Target.succeeded : Target → Bool
  | value _ => false
  | node n => n.succeeded

theorem Target.gives_of_succeeded {target : Target} (h : target.succeeded = true) :
    ∃ v, target.Gives v := by
  cases target with
  | value w => cases h
  | node n => exact ⟨n.entry.output, of_decide_eq_true h, rfl⟩

/-- The expression leads to a place that gives the value. -/
def Result.Yields (r : Result) (expression : String) (v : Value) : Prop :=
  ∃ target, r.resolve expression = .ok target ∧ target.Gives v

theorem Target.Gives.unique {target : Target} {v w : Value} (h : target.Gives v)
    (h' : target.Gives w) : v = w := by
  cases target with
  | value u => exact h.symm.trans h'
  | node n => exact h.2.symm.trans h'.2

theorem Result.Yields.unique {r : Result} {expression : String} {v w : Value}
    (h : r.Yields expression v) (h' : r.Yields expression w) : v = w := by
  obtain ⟨target, htarget, hv⟩ := h
  obtain ⟨target', htarget', hw⟩ := h'
  rw [htarget, Except.ok.injEq] at htarget'
  exact hv.unique (htarget' ▸ hw)

/-- A path has a value only if its expression, for the instances around, gives it in the results. -/
theorem Surroundings.yields_of_valueAt {view : Surroundings} {expression : String} {v : Value}
    (h : view.valueAt expression = .ok v) : ∃ r path, view.results = some r ∧
      Path.localize expression view.instances = .ok path ∧ r.Yields path v := by
  unfold valueAt at h
  cases hresults : view.results with
  | none => rw [hresults] at h; cases h
  | some r =>
    cases hlocal : Path.localize expression view.instances with
    | error e => rw [hresults, hlocal] at h; cases h
    | ok path =>
      refine ⟨r, path, rfl, rfl, ?_⟩
      rw [hresults, hlocal] at h
      simp only at h
      cases htarget : r.resolve path with
      | error e => rw [htarget] at h; cases h
      | ok target =>
        refine ⟨target, htarget, ?_⟩
        rw [htarget] at h
        cases target with
        | value w => exact Except.ok.inj h
        | node n =>
          change n.available expression = .ok v at h
          unfold Result.available at h
          split at h
          · cases h
          · cases h
          · exact ⟨‹_›, Except.ok.inj h⟩
          · cases h

/-! ## Trees in which values last -/

/-- What can be read of the first node can be read of the second one. -/
structure Job.Lasts (job job' : Job) : Prop where
  node : job'.node = job.node
  kind : job'.entry.kind = job.entry.kind
  output : job.status = .succeeded → job'.status = .succeeded ∧ job'.entry.output = job.entry.output
  inputs : job.entry.inputs ≠ [] → job'.entry.inputs = job.entry.inputs

theorem Job.Lasts.refl (job : Job) : job.Lasts job :=
  ⟨rfl, rfl, fun h => ⟨h, rfl⟩, fun _ => rfl⟩

theorem Job.Lasts.trans {job job' job'' : Job} (h : job.Lasts job') (h' : job'.Lasts job'') :
    job.Lasts job'' where
  node := h'.node.trans h.node
  kind := h'.kind.trans h.kind
  output hsucceeded := by
    obtain ⟨hsucceeded', houtput⟩ := h.output hsucceeded
    obtain ⟨hsucceeded'', houtput'⟩ := h'.output hsucceeded'
    exact ⟨hsucceeded'', houtput'.trans houtput⟩
  inputs hinputs := by
    have hsame := h.inputs hinputs
    exact (h'.inputs (by rwa [hsame])).trans hsame

namespace Live

variable {live live' : Live} {segment : Segment} {v : Value}

/-- Every node of the first tree stands in the second one, where the same can be read of it. -/
def Lasting (live live' : Live) : Prop :=
  ∀ a job, live.jobAt a = some job → ∃ job', live'.jobAt a = some job' ∧ job.Lasts job'

theorem Lasting.refl (live : Live) : Lasting live live :=
  fun _ job hjob => ⟨job, hjob, .refl job⟩

theorem Lasting.trans {live'' : Live} (h : Lasting live live') (h' : Lasting live' live'') :
    Lasting live live'' := by
  intro a job hjob
  obtain ⟨job', hjob', hlasts⟩ := h a job hjob
  obtain ⟨job'', hjob'', hlasts'⟩ := h' a job' hjob'
  exact ⟨job'', hjob'', hlasts.trans hlasts'⟩

/-- Below nodes at one position values last as well. -/
theorem Lasting.kid {i : Nat} {kid : Live} (h : Lasting live live') (hkid : live.kids[i]? = some kid) :
    ∃ kid', live'.kids[i]? = some kid' ∧ Lasting kid kid' := by
  obtain ⟨job, kids⟩ := live
  obtain ⟨job', kids'⟩ := live'
  have hat (b : Address) : (mk job kids).jobAt (i :: b) = kid.jobAt b := by
    rw [Live.jobAt, at?_cons, show kids[i]? = some kid from hkid]
    rfl
  obtain ⟨new, hnew, _⟩ := h [i] kid.job ((hat []).trans (jobAt_of_at? (at?_nil kid)))
  obtain ⟨kid', hkid'⟩ : ∃ kid', kids'[i]? = some kid' := by
    rw [Live.jobAt, at?_cons] at hnew
    cases hkid' : kids'[i]? with
    | none => rw [hkid'] at hnew; cases hnew
    | some kid' => exact ⟨kid', rfl⟩
  refine ⟨kid', hkid', fun b below hbelow => ?_⟩
  obtain ⟨below', hbelow', hlasts⟩ := h (i :: b) below ((hat b).trans hbelow)
  rw [Live.jobAt, at?_cons, hkid'] at hbelow'
  exact ⟨below', hbelow', hlasts⟩

/-- A segment that leads to a value leads to an input of a step. -/
theorem descend_eq_value_iff : live.toResult.descend segment = .ok (.value v) ↔
    live.entry.kind = Kind.step.name ∧ segment.field = Path.childField ∧
      Path.pick (Fields.contents live.entry.inputs) segment .boundInputs = .ok v := by
  have hnode (picked : Except Path.Miss Result) : picked.map Target.node ≠ .ok (.value v) := by
    cases picked <;> simp [Except.map]
  have hvalue (picked : Except Path.Miss Value) :
      picked.map Target.value = .ok (.value v) ↔ picked = .ok v := by
    cases picked <;> simp [Except.map]
  rw [Result.descend, entry_toResult]
  by_cases hstep : live.entry.kind = Kind.step.name
  · by_cases hfield : segment.field = Path.childField
    · simp only [hstep, hfield, if_true, true_and, hvalue]
    · simp [hstep, hfield]
  · simp only [hstep, if_false, false_and, iff_false]
    split
    · split
      · exact hnode _
      · simp
    · split
      · exact hnode _
      · split
        · split <;> simp
        · simp

theorem Lasting.job (h : Lasting live live') : live.job.Lasts live'.job := by
  obtain ⟨job', hjob', hlasts⟩ := h [] live.job (jobAt_of_at? (at?_nil live))
  rw [jobAt_of_at? (at?_nil live'), Option.some.injEq] at hjob'
  exact hjob' ▸ hlasts

/-- A segment that leads to an input leads to it in the second tree. -/
theorem Lasting.descend_value (h : Lasting live live')
    (hdescend : live.toResult.descend segment = .ok (.value v)) :
    live'.toResult.descend segment = .ok (.value v) := by
  obtain ⟨hkind, hfield, hpick⟩ := descend_eq_value_iff.1 hdescend
  have hbound : live.job.entry.inputs ≠ [] := by
    intro hnil
    rw [show live.entry.inputs = [] from hnil] at hpick
    unfold Path.pick at hpick
    split at hpick <;> cases hpick
  rw [← show live'.entry.inputs = live.entry.inputs from h.job.inputs hbound] at hpick
  exact descend_eq_value_iff.2 ⟨h.job.kind.trans hkind, hfield, hpick⟩

/-- A segment that leads to a child leads to the child at the same position of the second tree. -/
theorem Lasting.descend_node {r : Result} (h : Lasting live live')
    (hkind : live.entry.kind = live.job.node.kind.name)
    (hdescend : live.toResult.descend segment = .ok (.node r)) : ∃ (i : Nat) (kid kid' : Live),
      live.kids[i]? = some kid ∧ r = kid.toResult ∧ Lasting kid kid' ∧
        live'.toResult.descend segment = .ok (.node kid'.toResult) := by
  obtain ⟨i, kid, hnamed, hkid, rfl⟩ := exists_of_descend hkind hdescend
  obtain ⟨kid', hkid', hlasting⟩ := h.kid hkid
  refine ⟨i, kid, kid', hkid, rfl, hlasting, descend_of_kidNamed ?_ ?_ hkid'⟩
  · rw [h.job.node]
    exact h.job.kind.trans hkind
  · rwa [h.job.node]

/-- Where segments lead to a place that gives a value, they lead to one that gives it in the second
tree. -/
theorem Lasting.followFrom (expression : String) {segments : List Segment} {position : Nat}
    {target : Target} (h : Lasting live live')
    (hkind : ∀ a job, live.jobAt a = some job → job.entry.kind = job.node.kind.name)
    (hfound : Path.followFrom Target.descend expression position (.node live.toResult) segments =
      .ok target) (hgives : target.Gives v) : ∃ target',
        Path.followFrom Target.descend expression position (.node live'.toResult) segments =
          .ok target' ∧ target'.Gives v := by
  induction segments generalizing live live' position with
  | nil =>
    rw [Path.followFrom, Except.ok.injEq] at hfound
    subst hfound
    obtain ⟨hstatus, houtput⟩ := hgives
    rw [status_toResult] at hstatus
    rw [entry_toResult] at houtput
    obtain ⟨hstatus', houtput'⟩ := h.job.output hstatus
    refine ⟨.node live'.toResult, rfl, ?_, ?_⟩
    · rwa [status_toResult]
    · rw [entry_toResult]
      exact houtput'.trans houtput
  | cons segment segments ih =>
    rw [Path.followFrom, Target.descend] at hfound
    rw [Path.followFrom, Target.descend]
    cases hdescend : live.toResult.descend segment with
    | error miss => rw [hdescend] at hfound; cases hfound
    | ok next =>
      rw [hdescend] at hfound
      cases next with
      | value w =>
        rw [h.descend_value hdescend]
        exact ⟨target, hfound, hgives⟩
      | node r =>
        have hroot := hkind [] live.job (jobAt_of_at? (at?_nil live))
        obtain ⟨i, kid, kid', hkid, rfl, hlasting, hdescend'⟩ := h.descend_node hroot hdescend
        rw [hdescend']
        refine ih hlasting (fun a job hjob => hkind (i :: a) job ?_) hfound
        obtain ⟨own, kids⟩ := live
        rw [jobAt, at?_cons, show kids[i]? = some kid from hkid]
        exact hjob

/-- What an expression gives it gives in the second tree. -/
theorem Lasting.yields {expression : String} (h : Lasting live live')
    (hkind : ∀ a job, live.jobAt a = some job → job.entry.kind = job.node.kind.name)
    (hyields : live.toResult.Yields expression v) : live'.toResult.Yields expression v := by
  obtain ⟨target, hresolve, hgives⟩ := hyields
  rw [Result.resolve, Path.follow] at hresolve
  cases hparse : Path.parse expression with
  | error e => rw [hparse] at hresolve; cases hresolve
  | ok segments =>
    rw [hparse] at hresolve
    obtain ⟨target', hfound, hgives'⟩ := h.followFrom expression hkind hresolve hgives
    refine ⟨target', ?_, hgives'⟩
    rw [Result.resolve, Path.follow, hparse]
    exact hfound

end Live
end Workflow
