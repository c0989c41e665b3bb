import Workflow.Proofs.Live.Result
import Workflow.Variables.Evaluate

/-!
# What a path reads

A path that is followed in a result passes nodes of the live tree. What it gives depends on the layout
of these nodes and on how far the last of them has come, and on nothing else.

* `Live.trail` is the address of the last node that a path passes.
* `Live.Alike` says that two nodes are the same to a path that passes them.
* `Surroundings.valueAt_congr` says that a path has one value in trees with the same nodes on its
  trail, and `Surroundings.bindInputs_congr` that so have the inputs of a node.
-/

namespace Workflow

/-! ## The nodes on the way -/

/-- What a work says about the layout of results: its kind, and the number of cases of a branch. -/
def Work.layout : Work → Kind × Nat
  | .branch _ cases => (.branch, cases.length)
  | work => (work.kind, 0)

/-- The position of the child that a segment names in a result. -/
def Work.kidNamed (work : Work) (segment : Segment) : Option Nat :=
  match work.layout with
  | (.step, _) => none
  | (.loop, _) => if segment.field = Path.instanceField then segment.index.map Int.toNat else none
  | (.branch, count) =>
    if segment.field = Path.childField then (segment.index.map Int.toNat).filter (· < count)
    else if segment.field = Path.defaultField ∧ segment.index = none then some count
    else none
  | _ => if segment.field = Path.childField then segment.index.map Int.toNat else none

theorem Work.layout_fst (work : Work) : work.layout.1 = work.kind := by
  cases work <;> rfl

/-- To paths that pass the nodes they are the same, if they have as many children. -/
structure Job.Alike (job job' : Job) : Prop where
  layout : job'.node.work.layout = job.node.work.layout
  kind : job'.entry.kind = job.entry.kind
  inputs : job.node.kind = .step → job'.entry.inputs = job.entry.inputs
  status : job'.status = job.status
  output : job.status = .succeeded → job'.entry.output = job.entry.output

theorem Job.Alike.refl (job : Job) : job.Alike job :=
  ⟨rfl, rfl, fun _ => rfl, rfl, fun _ => rfl⟩

namespace Live

variable {live live' : Live} {segment : Segment}

/-- The address of the last node that segments lead past. -/
def trail : Live → List Segment → Address
  | _, [] => []
  | mk job kids, segment :: segments =>
    match (job.node.work.kidNamed segment).bind fun i => kids[i]?.map fun kid => (i, kid) with
    | some (i, kid) => i :: kid.trail segments
    | none => []

/-- To paths that pass the nodes they are the same. -/
structure Alike (live live' : Live) : Prop where
  job : live.job.Alike live'.job
  length : live'.kids.length = live.kids.length

end Live

/-! ## One segment -/

/-- What is read at a place. -/
def Target.reading : Target → Value ⊕ (Status × Option Value)
  | value v => .inl v
  | node r => .inr (r.status, if r.status = .succeeded then some r.entry.output else none)

/-- An entry is picked from lists of one length, or from neither. -/
theorem Path.pick_cases {α β : Type} {items : List α} {items' : List β} (segment : Segment)
    (entries : Entries) (h : items'.length = items.length) :
    (∃ miss, pick items segment entries = .error miss ∧ pick items' segment entries = .error miss) ∨
      ∃ index item item', segment.index = some index ∧ items[index.toNat]? = some item ∧
        items'[index.toNat]? = some item' ∧ pick items segment entries = .ok item ∧
        pick items' segment entries = .ok item' := by
  unfold pick
  cases segment.index with
  | none => exact .inl ⟨_, rfl, rfl⟩
  | some index =>
    simp only
    cases hitem : items[index.toNat]? with
    | none =>
      have hitem' : items'[index.toNat]? = none := by
        rw [List.getElem?_eq_none_iff] at hitem ⊢
        rwa [h]
      exact .inl ⟨_, rfl, by rw [hitem', h]⟩
    | some item =>
      have hlt : index.toNat < items'.length := h ▸ (List.getElem?_eq_some_iff.1 hitem).1
      have hitem' := List.getElem?_eq_getElem hlt
      exact .inr ⟨index, item, _, rfl, hitem, hitem', rfl, by rw [hitem']⟩

namespace Live

variable {live live' : Live} {segment : Segment}

/-- A segment leads from two nodes to children at one position, to one value, or nowhere for one
reason. -/
inductive Leads (live live' : Live) (segment : Segment) : Prop
  | child {kid kid' : Live} (i : Nat) : live.job.node.work.kidNamed segment = some i →
      live.kids[i]? = some kid → live'.kids[i]? = some kid' →
      live.toResult.descend segment = .ok (.node kid.toResult) →
      live'.toResult.descend segment = .ok (.node kid'.toResult) → Leads live live' segment
  | value (v : Value) : live.toResult.descend segment = .ok (.value v) →
      live'.toResult.descend segment = .ok (.value v) → Leads live live' segment
  | missed (miss : Path.Miss) : live.toResult.descend segment = .error miss →
      live'.toResult.descend segment = .error miss → Leads live live' segment

/-- What is picked from the children of two nodes. -/
theorem Leads.pick (kids kids' : List Live) (entries : Path.Entries)
    (hlength : kids'.length = kids.length)
    (hnamed : ∀ index, segment.index = some index → index.toNat < kids.length →
      live.job.node.work.kidNamed segment = some index.toNat ∧
        live.kids[index.toNat]? = kids[index.toNat]? ∧ live'.kids[index.toNat]? = kids'[index.toNat]?)
    (h : live.toResult.descend segment =
      (Path.pick (kids.map toResult) segment entries).map .node)
    (h' : live'.toResult.descend segment =
      (Path.pick (kids'.map toResult) segment entries).map .node) : Leads live live' segment := by
  have hmap : (kids'.map toResult).length = (kids.map toResult).length := by simpa using hlength
  rcases Path.pick_cases segment entries hmap with ⟨miss, hmiss, hmiss'⟩ |
    ⟨index, item, item', hindex, hitem, hitem', hpick, hpick'⟩
  · exact .missed miss (by rw [h, hmiss]; rfl) (by rw [h', hmiss']; rfl)
  · rw [List.getElem?_map, Option.map_eq_some_iff] at hitem hitem'
    obtain ⟨kid, hkid, rfl⟩ := hitem
    obtain ⟨kid', hkid', rfl⟩ := hitem'
    obtain ⟨hname, heq, heq'⟩ := hnamed index hindex (List.getElem?_eq_some_iff.1 hkid).1
    exact .child _ hname (heq.trans hkid) (heq'.trans hkid') (by rw [h, hpick]; rfl)
      (by rw [h', hpick']; rfl)

/-- The layout of a work is that of the results. -/
theorem toResult_eq (job : Job) (kids : List Live) :
    (mk job kids).toResult =
      match job.node.work.layout with
      | (.loop, _) => .mk job.entry [] none (kids.map toResult)
      | (.branch, count) =>
        .mk job.entry ((kids.map toResult).take count) (kids.map toResult)[count]? []
      | _ => .mk job.entry (kids.map toResult) none [] := by
  rw [toResult, toResults_eq_map]
  cases job.node.work <;> rfl

section Kinds

variable {job job' : Job} {kids kids' : List Live} {count : Nat} {kind : Kind}

theorem leads_of_step (hkind : job.entry.kind = Kind.step.name)
    (hkind' : job'.entry.kind = Kind.step.name) (hinputs : job'.entry.inputs = job.entry.inputs) :
    Leads (mk job kids) (mk job' kids') segment := by
  have hdescend (other : Live) (hother : other.entry.kind = Kind.step.name)
      (hinputs : other.entry.inputs = job.entry.inputs) : other.toResult.descend segment =
        if segment.field = Path.childField then
          (Path.pick (Fields.contents job.entry.inputs) segment .boundInputs).map Target.value
        else .error (.notInResult Kind.step.name) := by
    rw [Result.descend, entry_toResult, hother, hinputs]
    simp only [if_true]
  have h := hdescend (mk job kids) hkind rfl
  have h' := hdescend (mk job' kids') hkind' hinputs
  split at h
  · rename_i hfield
    rw [if_pos hfield] at h'
    cases hpick : Path.pick (Fields.contents job.entry.inputs) segment .boundInputs with
    | error miss => exact .missed miss (by rw [h, hpick]; rfl) (by rw [h', hpick]; rfl)
    | ok v => exact .value v (by rw [h, hpick]; rfl) (by rw [h', hpick]; rfl)
  · rename_i hfield
    rw [if_neg hfield] at h'
    exact .missed _ h h'

variable (hlength : kids'.length = kids.length)
include hlength

theorem leads_of_loop (hwork : job.node.work.layout = (.loop, count))
    (hwork' : job'.node.work.layout = (.loop, count)) (hkind : job.entry.kind = Kind.loop.name)
    (hkind' : job'.entry.kind = Kind.loop.name) : Leads (mk job kids) (mk job' kids') segment := by
  have hdescend (job : Job) (kids : List Live) (hwork : job.node.work.layout = (.loop, count))
      (hkind : job.entry.kind = Kind.loop.name) : (mk job kids).toResult.descend segment =
        if segment.field = Path.instanceField then
          (Path.pick (kids.map toResult) segment .instances).map Target.node
        else .error (.notInResult Kind.loop.name) := by
    simp [toResult_eq, hwork, Result.descend, Result.entry, Result.items, hkind, Kind.name]
  have h := hdescend job kids hwork hkind
  have h' := hdescend job' kids' hwork' hkind'
  split at h
  · rename_i hfield
    rw [if_pos hfield] at h'
    refine .pick kids kids' .instances hlength (fun index hindex _ => ⟨?_, rfl, rfl⟩) h h'
    simp [Live.job, Work.kidNamed, hwork, hfield, hindex]
  · rename_i hfield
    rw [if_neg hfield] at h'
    exact .missed _ h h'

theorem leads_of_branch (hwork : job.node.work.layout = (.branch, count))
    (hwork' : job'.node.work.layout = (.branch, count)) (hkind : job.entry.kind = Kind.branch.name)
    (hkind' : job'.entry.kind = Kind.branch.name) :
    Leads (mk job kids) (mk job' kids') segment := by
  have hfields : ¬ Path.defaultField = Path.childField := by decide
  have hdescend (job : Job) (kids : List Live) (hwork : job.node.work.layout = (.branch, count))
      (hkind : job.entry.kind = Kind.branch.name) : (mk job kids).toResult.descend segment =
        if segment.field = Path.childField then
          (Path.pick ((kids.take count).map toResult) segment .children).map Target.node
        else if segment.field = Path.defaultField ∧ segment.index = none then
          kids[count]?.elim (.error .noDefault) fun kid => .ok (.node kid.toResult)
        else .error (.notInResult Kind.branch.name) := by
    simp only [toResult_eq, hwork, Result.descend, Result.entry, Result.children, Result.default?,
      hkind, List.map_take, List.getElem?_map]
    cases kids[count]? <;> simp [Kind.name]
  have h := hdescend job kids hwork hkind
  have h' := hdescend job' kids' hwork' hkind'
  split at h
  · rename_i hfield
    rw [if_pos hfield] at h'
    refine .pick _ _ .children (by simp [hlength]) (fun index hindex hlt => ?_) h h'
    rw [List.length_take, Nat.lt_min] at hlt
    refine ⟨by simp [Live.job, Work.kidNamed, hwork, hfield, hindex, hlt.1], ?_, ?_⟩
    · exact (List.getElem?_take_of_lt hlt.1).symm
    · exact (List.getElem?_take_of_lt hlt.1).symm
  · rename_i hfield
    rw [if_neg hfield] at h'
    split at h
    · rename_i hdefault
      rw [if_pos hdefault] at h'
      cases hkid : kids[count]? with
      | none =>
        have hkid' : kids'[count]? = none := by
          rw [List.getElem?_eq_none_iff] at hkid ⊢
          rwa [hlength]
        exact .missed .noDefault (by rw [h, hkid]; rfl) (by rw [h', hkid']; rfl)
      | some kid =>
        have hlt : count < kids'.length := hlength ▸ (List.getElem?_eq_some_iff.1 hkid).1
        have hkid' := List.getElem?_eq_getElem hlt
        exact .child count (by simp [Live.job, Work.kidNamed, hwork, hfields, hdefault]) hkid hkid'
          (by rw [h, hkid]; rfl) (by rw [h', hkid']; rfl)
    · rename_i hdefault
      rw [if_neg hdefault] at h'
      exact .missed _ h h'

/-- The other kinds of nodes have children and nothing else. -/
theorem leads_of_children (hother : kind ≠ .step ∧ kind ≠ .loop ∧ kind ≠ .branch)
    (hwork : job.node.work.layout = (kind, count)) (hwork' : job'.node.work.layout = (kind, count))
    (hkind : job.entry.kind = kind.name) (hkind' : job'.entry.kind = kind.name) :
    Leads (mk job kids) (mk job' kids') segment := by
  have hdescend (job : Job) (kids : List Live) (hwork : job.node.work.layout = (kind, count))
      (hkind : job.entry.kind = kind.name) : (mk job kids).toResult.descend segment =
        if segment.field = Path.childField then
          (Path.pick (kids.map toResult) segment .children).map Target.node
        else .error (.notInResult kind.name) := by
    obtain ⟨hstep, hloop, hbranch⟩ := hother
    cases kind <;> try contradiction
    all_goals
      simp [toResult_eq, hwork, Result.descend, Result.entry, Result.children, hkind, Kind.name]
  have h := hdescend job kids hwork hkind
  have h' := hdescend job' kids' hwork' hkind'
  split at h
  · rename_i hfield
    rw [if_pos hfield] at h'
    refine .pick kids kids' .children hlength (fun index hindex _ => ⟨?_, rfl, rfl⟩) h h'
    obtain ⟨hstep, hloop, hbranch⟩ := hother
    cases kind <;> simp_all [Live.job, Work.kidNamed]
  · rename_i hfield
    rw [if_neg hfield] at h'
    exact .missed _ h h'

end Kinds

/-- A segment leads from nodes that are alike to the same. -/
theorem Alike.leads (h : Alike live live') (hkind : live.entry.kind = live.job.node.kind.name)
    (segment : Segment) : Leads live live' segment := by
  obtain ⟨job, kids⟩ := live
  obtain ⟨job', kids'⟩ := live'
  have hlength : kids'.length = kids.length := h.length
  have hkind' : job'.entry.kind = job.entry.kind := h.job.kind
  rcases hwork : job.node.work.layout with ⟨kind, count⟩
  have hwork' : job'.node.work.layout = (kind, count) := h.job.layout.trans hwork
  have hnode : job.node.kind = kind := by rw [Node.kind, ← Work.layout_fst, hwork]
  replace hkind : job.entry.kind = kind.name := hnode ▸ hkind
  rw [hkind] at hkind'
  cases kind with
  | step => exact leads_of_step hkind hkind' (h.job.inputs hnode)
  | loop => exact leads_of_loop hlength hwork hwork' hkind hkind'
  | branch => exact leads_of_branch hlength hwork hwork' hkind hkind'
  | _ => exact leads_of_children hlength (by simp) hwork hwork' hkind hkind'

/-! ## Several segments -/

theorem trail_cons {i : Nat} {kid : Live} (hnamed : live.job.node.work.kidNamed segment = some i)
    (hkid : live.kids[i]? = some kid) (segments : List Segment) :
    live.trail (segment :: segments) = i :: kid.trail segments := by
  obtain ⟨job, kids⟩ := live
  change job.node.work.kidNamed segment = some i at hnamed
  change kids[i]? = some kid at hkid
  rw [trail, hnamed, Option.bind_some, hkid]
  rfl

/-- What segments lead past is there. -/
theorem exists_of_prefix_trail {live : Live} {segments : List Segment} {a : Address}
    (h : a <+: live.trail segments) : ∃ kid, live.at? a = some kid := by
  induction segments generalizing live a with
  | nil =>
    obtain ⟨job, kids⟩ := live
    rw [trail, List.prefix_nil] at h
    exact ⟨mk job kids, h ▸ at?_nil _⟩
  | cons segment segments ih =>
    obtain ⟨job, kids⟩ := live
    cases a with
    | nil => exact ⟨mk job kids, at?_nil _⟩
    | cons i a =>
      rw [trail] at h
      split at h
      · rename_i k kid hkid
        obtain ⟨rfl, ha⟩ := List.cons_prefix_cons.1 h
        obtain ⟨k, _, hkid⟩ := Option.bind_eq_some_iff.1 hkid
        obtain ⟨_, hget, heq⟩ := Option.map_eq_some_iff.1 hkid
        cases heq
        rw [at?_cons, hget, Option.bind_some]
        exact ih ha
      · simp at h

/-- Values have nothing below them. -/
theorem followFrom_value (expression : String) (position : Nat) (v : Value) :
    ∀ segments, Path.followFrom Target.descend expression position (.value v) segments =
      match segments with
      | [] => .ok (.value v)
      | segment :: _ => .error (.notFound expression segment position .belowValue)
  | [] => rfl
  | _ :: _ => rfl

/-- The nodes on a trail are alike in two trees. -/
def AlikeAlong (live live' : Live) (trail : Address) : Prop :=
  ∀ a, a <+: trail → ∃ kid kid', live.at? a = some kid ∧ live'.at? a = some kid' ∧ Alike kid kid'

/-- Nodes are alike if the table says so of them and has as many children of both. -/
theorem alike_of_jobAt {a : Address} {job job' : Job} (hjob : live.jobAt a = some job)
    (hjob' : live'.jobAt a = some job') (h : job.Alike job')
    (hkids : ∀ i, (live'.jobAt (a ++ [i])).isSome ↔ (live.jobAt (a ++ [i])).isSome) :
    ∃ kid kid', live.at? a = some kid ∧ live'.at? a = some kid' ∧ Alike kid kid' := by
  obtain ⟨kids, hat⟩ := at?_of_jobAt hjob
  obtain ⟨kids', hat'⟩ := at?_of_jobAt hjob'
  refine ⟨_, _, hat, hat', h, ?_⟩
  have hlt (i : Nat) : i < kids'.length ↔ i < kids.length := by
    have := hkids i
    simpa [jobAt_concat hat, jobAt_concat hat'] using this
  have hle := hlt kids.length
  have hge := hlt kids'.length
  change kids'.length = kids.length
  omega

/-- What is read at the end of a path depends on the nodes on its trail only. -/
theorem reading_congr {live live' : Live} (expression : String) (segments : List Segment)
    (position : Nat) (hkind : ∀ a job, live.jobAt a = some job → job.entry.kind = job.node.kind.name)
    (h : AlikeAlong live live' (live.trail segments)) :
    (Path.followFrom Target.descend expression position (.node live'.toResult) segments).map
        Target.reading =
      (Path.followFrom Target.descend expression position (.node live.toResult) segments).map
        Target.reading := by
  obtain ⟨_, _, hself, hself', halike⟩ := h [] List.nil_prefix
  rw [at?_nil, Option.some.injEq] at hself hself'
  subst hself hself'
  induction segments generalizing live live' position with
  | nil =>
    have hsame : live'.status = live.status := halike.job.status
    simp only [Path.followFrom, Except.map, Target.reading, status_toResult, entry_toResult, hsame]
    by_cases hstatus : live.status = .succeeded
    · have houtput : live'.entry.output = live.entry.output := halike.job.output hstatus
      rw [if_pos hstatus, if_pos hstatus, houtput]
    · rw [if_neg hstatus, if_neg hstatus]
  | cons segment segments ih =>
    have hroot : live.entry.kind = live.job.node.kind.name :=
      hkind [] live.job (jobAt_of_at? (at?_nil live))
    rw [Path.followFrom, Path.followFrom, Target.descend, Target.descend]
    cases halike.leads hroot segment with
    | missed miss hmiss hmiss' => rw [hmiss, hmiss']
    | value v hvalue hvalue' => simp only [hvalue, hvalue', followFrom_value]
    | @child kid kid' i hnamed hkid hkid' hdescend hdescend' =>
      simp only [hdescend, hdescend']
      have hat (l : Live) {next : Live} (hnext : l.kids[i]? = some next) (a : Address) :
          l.at? (i :: a) = next.at? a := by
        obtain ⟨job, kids⟩ := l
        rw [at?_cons, show kids[i]? = some next from hnext, Option.bind_some]
      have halong : AlikeAlong kid kid' (kid.trail segments) := by
        intro a ha
        have := h (i :: a) (by rw [trail_cons hnamed hkid]; exact (List.prefix_cons_inj i).2 ha)
        rwa [hat live hkid, hat live' hkid'] at this
      obtain ⟨_, _, hself, hself', halike'⟩ := halong [] List.nil_prefix
      rw [at?_nil, Option.some.injEq] at hself hself'
      subst hself hself'
      refine ih (position + 1) (fun a job hjob => hkind (i :: a) job ?_) halong halike'
      rw [jobAt, hat live hkid, ← jobAt, hjob]

end Live

/-! ## The values of paths -/

/-- Places with one reading give one value. -/
theorem Target.value_congr {target target' : Target} (expression : String)
    (h : target'.reading = target.reading) :
    (match target' with
      | .value v => .ok v
      | .node r => r.available expression : Except BindingCause Value) =
      match target with
      | .value v => .ok v
      | .node r => r.available expression := by
  cases target with
  | value v =>
    cases target' with
    | value v' => exact congrArg _ (Sum.inl.inj h)
    | node r' => cases h
  | node r =>
    cases target' with
    | value v' => cases h
    | node r' =>
      simp only [reading, Sum.inr.injEq, Prod.mk.injEq] at h
      obtain ⟨hstatus, houtput⟩ := h
      simp only [Result.available]
      rw [hstatus] at houtput ⊢
      cases hr : r.status <;> simp_all

namespace Surroundings

variable {w w' : Surroundings} {live live' : Live}

/-- A path has one value in trees in which the nodes on its trail are alike. -/
theorem valueAt_congr {expression : String}
    (hresults : w.results = some live.toResult) (hresults' : w'.results = some live'.toResult)
    (hinstances : w'.instances = w.instances)
    (hkind : ∀ a job, live.jobAt a = some job → job.entry.kind = job.node.kind.name)
    (h : ∀ path segments, Path.localize expression w.instances = .ok path →
      Path.parse path = .ok segments → Live.AlikeAlong live live' (live.trail segments)) :
    w'.valueAt expression = w.valueAt expression := by
  rw [valueAt, valueAt, hresults, hresults', hinstances]
  simp only
  cases hlocal : Path.localize expression w.instances with
  | error e => rfl
  | ok path =>
    simp only [Result.resolve, Path.follow]
    cases hparse : Path.parse path with
    | error e => rfl
    | ok segments =>
      have hreading := Live.reading_congr path segments 0 hkind (h path segments hlocal hparse)
      simp only
      cases hfound : Path.followFrom Target.descend path 0 (.node live.toResult) segments with
      | error e =>
        rw [hfound] at hreading
        cases hfound' : Path.followFrom Target.descend path 0 (.node live'.toResult) segments with
        | error e' => rw [hfound'] at hreading; cases hreading; rfl
        | ok target' => rw [hfound'] at hreading; cases hreading
      | ok target =>
        rw [hfound] at hreading
        cases hfound' : Path.followFrom Target.descend path 0 (.node live'.toResult) segments with
        | error e' => rw [hfound'] at hreading; cases hreading
        | ok target' =>
          rw [hfound'] at hreading
          have hvalue := Target.value_congr expression (Except.ok.inj hreading)
          cases target <;> cases target' <;> exact hvalue

/-- A binding has one value in surroundings in which its path has. -/
theorem evaluate_congr {binding : Binding} (hvars : w'.vars = w.vars) (hscope : w'.scope = w.scope)
    (h : ∀ expression, binding = .path expression → w'.valueAt expression = w.valueAt expression)
    (input : Option String) : binding.evaluate w' input = binding.evaluate w input := by
  cases binding with
  | literal value => rfl
  | path expression => rw [Binding.evaluate, Binding.evaluate, h expression rfl]
  | _ => rw [Binding.evaluate, Binding.evaluate, hvars, hscope]

/-- Inputs have the same values in surroundings in which their paths have. -/
theorem bindInputs_congr {inputs : Fields Binding} (hvars : w'.vars = w.vars)
    (hscope : w'.scope = w.scope)
    (h : ∀ name expression, (name, Binding.path expression) ∈ inputs →
      w'.valueAt expression = w.valueAt expression) : bindInputs w' inputs = bindInputs w inputs := by
  induction inputs with
  | nil => rfl
  | cons input inputs ih =>
    obtain ⟨name, binding⟩ := input
    have hfirst : binding.evaluate w' (some name) = binding.evaluate w (some name) :=
      evaluate_congr hvars hscope
        (fun expression he => h name expression (he ▸ List.mem_cons_self)) (some name)
    rw [bindInputs, bindInputs, hfirst,
      ih fun other expression hother => h other expression (List.mem_cons_of_mem _ hother)]

end Surroundings
end Workflow
