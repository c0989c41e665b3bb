import Workflow.Executor.Echo
import Workflow.Proofs.Run.Waits
import Workflow.Proofs.Variables.Distinct

/-!
# Names in the values of a run

In whatever a run records no object gives a name twice, if none does in what the run is given. The
engine makes objects of its own, such as those of the inputs of a step and of the details of an error;
the others it passes on.

* `Setup.Distinct` says so of what a run is given, `Job.Distinct` of what is recorded of a node and of
  what the node waits for.
* `State.Distinct` says so of a state, and `State.Distinct.step` that a step keeps it.
* `State.Final.distinct` is about the end of a run.
-/

namespace Workflow

/-! ## What a run is given -/

/-- The values that a call ends with: the answer, or the details of the failure. -/
def Ending.values : Ending → List Value
  | .answer (.ok v) => [v]
  | .answer (.error failure) => [.object failure.details]
  | .never => []

/-- In what a run is given no object gives a name twice. -/
structure Setup.Distinct (setup : Setup) : Prop where
  /-- Not in the variables. -/
  vars : ∀ field ∈ setup.vars.values, field.2.Distinct
  /-- Not in the earlier result. -/
  previous : ∀ result ∈ setup.previous, ∀ v ∈ result.values, v.Distinct
  /-- Not in the answer of a call if it is not so in its inputs. -/
  answers : ∀ agent earlier inputs, (Value.object inputs).Distinct →
    ∀ v ∈ (setup.executor.call agent earlier inputs).ending.values, v.Distinct

theorem Setup.Distinct.recorded? {setup : Setup} (h : setup.Distinct) {e earlier : Entry}
    (hearlier : setup.recorded? e = some earlier) : ∀ v ∈ earlier.values, v.Distinct := by
  unfold Setup.recorded? at hearlier
  split at hearlier
  · rename_i found hfound
    split at hearlier
    · cases hearlier
      obtain ⟨result, hresult, hpath⟩ := Option.bind_eq_some_iff.1 hfound
      exact Result.forall_mem_values_of_recorded? (h.previous result hresult) hpath
    · cases hearlier
  · cases hearlier

/-- The echo executor gives nothing a name twice that its inputs do not. -/
theorem Echo.distinct_call (agent : String) (earlier : Nat) (inputs : Fields Value)
    (h : (Value.object inputs).Distinct) :
    ∀ v ∈ (executor.call agent earlier inputs).ending.values, v.Distinct := by
  refine List.forall_mem_singleton.2 ?_
  unfold answer
  split
  · exact (Value.distinct_object_iff.1 h).2 _ List.mem_cons_self
  · exact h

/-! ## Nodes -/

/-- In what a call ends with no object gives a name twice. -/
structure Call.Distinct (call : Call) : Prop where
  /-- Not in what it is going to end with. -/
  ending : ∀ v ∈ call.ending.values, v.Distinct
  /-- Not in what it has ended with. -/
  outcome : ∀ outcome ∈ call.outcome, ∀ v ∈ (Ending.answer outcome).values, v.Distinct

/-- In what a node tells its children no object gives a name twice. -/
structure Frame.Distinct (frame : Frame) : Prop where
  /-- Not in the inputs. -/
  bound : ∀ field ∈ frame.bound, field.2.Distinct
  /-- Not in the elements of the source. -/
  source : ∀ v ∈ frame.source, v.Distinct

/-- In what a node waits for no object gives a name twice. -/
def Stage.Distinct : Stage → Prop
  | .idle => True
  | .calling call => call.Distinct
  | .hosting frame => frame.Distinct

/-- In a node no object gives a name twice. -/
structure Job.Distinct (job : Job) : Prop where
  /-- Not in its definition. -/
  node : job.node.Distinct
  /-- Not in what is recorded of it. -/
  entry : ∀ v ∈ job.entry.values, v.Distinct
  /-- Not in what it waits for. -/
  stage : job.stage.Distinct

namespace Job.Distinct

variable {job : Job}

theorem call? (h : job.Distinct) {call : Call} (hcall : job.call? = some call) : call.Distinct := by
  have hstage := h.stage
  rwa [State.stage_of_call? hcall] at hstage

theorem frame? (h : job.Distinct) {frame : Frame} (hframe : job.frame? = some frame) :
    frame.Distinct := by
  have hstage := h.stage
  rwa [State.stage_of_frame? hframe] at hstage

theorem inputs (h : job.Distinct) : (Value.object job.entry.inputs).Distinct :=
  (Entry.forall_mem_values_iff.1 h.entry).2.1

theorem output (h : job.Distinct) : job.entry.output.Distinct :=
  (Entry.forall_mem_values_iff.1 h.entry).1

/-- A node that has not started records nothing. -/
theorem pending {node : Node} (h : node.Distinct) (path : String) :
    (Live.pendingJob path node).Distinct :=
  ⟨h, Entry.forall_mem_values_iff.2
    ⟨Value.plain_null.distinct, Value.distinct_object_nil, nofun⟩, trivial⟩

theorem tell (h : job.Distinct) : job.tell.Distinct := by
  cases hcall : job.call? with
  | none => rwa [Job.tell_of_call?_eq_none hcall]
  | some call =>
    obtain ⟨hending, houtcome⟩ := h.call? hcall
    rw [Job.tell_of_calling (State.stage_of_call? hcall)]
    exact ⟨h.node, h.entry, hending, houtcome⟩

end Job.Distinct

/-! ## What nodes see -/

theorem Live.distinct_ofNode {node : Node} (h : node.Distinct) {path : String} {a : Address}
    {job : Job} (hjob : (ofNode path node).jobAt a = some job) : job.Distinct := by
  obtain ⟨path', node', rfl, hwalk⟩ := jobAt_ofNode hjob
  exact .pending (h.of_walk_subset hwalk) path'

/-- What a loop tells its instance is an element of its source, or the position of the instance. -/
theorem Work.distinct_instanceNames (work : Work) {source : List Value}
    (h : ∀ v ∈ source, v.Distinct) (position : Nat) :
    ∀ field ∈ work.instanceNames source position, field.2.Distinct := by
  have hitem : (source[position]?.getD .null).Distinct := by
    cases hget : source[position]? with
    | none => exact Value.plain_null.distinct
    | some v => exact h v (List.mem_of_getElem? hget)
  unfold instanceNames
  split
  · simp only
    split
    · split
      · exact List.forall_mem_singleton.2 hitem
      · intro field hfield
        rcases Fields.mem_set hfield with hfield | rfl
        · rwa [List.mem_singleton.1 hfield]
        · exact (Value.plain_int _).distinct
    · exact List.forall_mem_singleton.2 hitem
  · exact List.forall_mem_nil _

theorem Context.distinct_binding {c : Context} {bound : Fields Value}
    (h : ∀ field ∈ c.scope, field.2.Distinct) (hbound : ∀ field ∈ bound, field.2.Distinct) :
    ∀ field ∈ (c.binding bound).scope, field.2.Distinct :=
  fun field hfield => (Fields.mem_update hfield).elim (h field) (hbound field)

theorem Context.distinct_below {c : Context} {job : Job} (h : ∀ field ∈ c.scope, field.2.Distinct)
    (hjob : job.Distinct) (position : Nat) :
    ∀ field ∈ (c.below job position).scope, field.2.Distinct := by
  unfold below
  split
  · exact h
  · rename_i frame hframe
    obtain ⟨hbound, hsource⟩ := hjob.frame? hframe
    intro field hfield
    rcases Fields.mem_update hfield with hfield | hfield
    · exact distinct_binding h hbound field hfield
    · exact job.node.work.distinct_instanceNames hsource position field hfield

theorem Live.distinct_contextFrom {live : Live} {c : Context}
    (h : ∀ a job, live.jobAt a = some job → job.Distinct)
    (hc : ∀ field ∈ c.scope, field.2.Distinct) (a : Address) :
    ∀ field ∈ (live.contextFrom c a).scope, field.2.Distinct := by
  induction a generalizing live c with
  | nil =>
    obtain ⟨job, kids⟩ := live
    exact hc
  | cons i a ih =>
    obtain ⟨job, kids⟩ := live
    rw [contextFrom]
    split
    · rename_i kid hkid
      refine ih (fun b below hbelow => h (i :: b) below ?_)
        (Context.distinct_below hc (h [] job rfl) i)
      rw [jobAt, at?_cons, hkid]
      exact hbelow
    · exact hc

namespace State

variable {setup : Setup} {s t : State} {a : Address} {job : Job} {kids : List Live} {c : Context}
  {message : String}

/-! ## States -/

/-- In no node of the state an object gives a name twice. -/
def Distinct (s : State) : Prop :=
  ∀ a job, s.jobAt a = some job → job.Distinct

namespace Distinct

theorem of_same (h : s.Distinct) (ht : ∀ b, t.jobAt b = s.jobAt b) : t.Distinct :=
  fun b job hjob => h b job (ht b ▸ hjob)

theorem later (h : s.Distinct) (task : Task) : (s.later task).Distinct :=
  h

theorem ite {p : Prop} [Decidable p] (h : s.Distinct) (h' : t.Distinct) :
    State.Distinct (if p then s else t) := by
  split
  · exact h
  · exact h'

theorem at? (h : s.Distinct) (hkids : s.root.at? a = some (.mk job kids)) : job.Distinct :=
  h a job (jobAt_of_at? hkids)

theorem kid (h : s.Distinct) (hkids : s.root.at? a = some (.mk job kids)) {kid : Live}
    (hkid : kid ∈ kids) : kid.job.Distinct := by
  obtain ⟨i, hi⟩ := List.getElem?_of_mem hkid
  exact h (a ++ [i]) kid.job (by rw [jobAt_concat hkids, hi]; rfl)

theorem call (h : s.Distinct) {call : Call} (hcall : s.callAt a = some call) : call.Distinct := by
  rw [callAt_eq] at hcall
  obtain ⟨job, hjob, hcall⟩ := Option.bind_eq_some_iff.1 hcall
  exact (h a job hjob).call? hcall

theorem results (h : s.Distinct) : ∀ v ∈ s.root.toResult.values, v.Distinct := by
  refine Result.forall_mem_values_iff.2 fun r hr => ?_
  obtain ⟨b, ⟨job, kids⟩, hb, rfl⟩ := Live.mem_walk_toResult s.root r hr
  rw [Live.entry_toResult]
  exact (h b job (jobAt_of_at? hb)).entry

theorem context (h : s.Distinct) (a : Address) :
    ∀ field ∈ (s.root.contextAt a).scope, field.2.Distinct :=
  Live.distinct_contextFrom h (List.forall_mem_nil _) a

theorem surroundings (h : s.Distinct) (hsetup : setup.Distinct)
    (hc : ∀ field ∈ c.scope, field.2.Distinct) : (s.surroundings setup c).Distinct where
  results := by
    rintro r ⟨⟩
    exact h.results
  vars := hsetup.vars
  scope := hc

/-! ## Changes of one node -/

theorem modify (h : s.Distinct) {f : Job → Job} (hf : ∀ job, job.Distinct → (f job).Distinct) :
    (s.modify a f).Distinct := by
  intro b job hjob
  rw [jobAt_modify] at hjob
  split at hjob
  · obtain ⟨old, hold, rfl⟩ := Option.map_eq_some_iff.1 hjob
    exact hf old (h b old hold)
  · exact h b job hjob

theorem setStage (h : s.Distinct) (stage : Stage) (hstage : stage.Distinct) :
    (s.setStage a stage).Distinct :=
  h.modify fun _ hjob => ⟨hjob.node, hjob.entry, hstage⟩

theorem modifyEntry (h : s.Distinct) {f : Entry → Entry}
    (hf : ∀ e : Entry, (∀ v ∈ e.values, v.Distinct) → ∀ v ∈ (f e).values, v.Distinct) :
    (s.modifyEntry a f).Distinct :=
  h.modify fun job hjob => ⟨hjob.node, hf job.entry hjob.entry, hjob.stage⟩

theorem inputs (h : s.Distinct) {inputs : Fields Value} (hinputs : (Value.object inputs).Distinct) :
    (s.modifyEntry a fun e => { e with inputs }).Distinct := by
  refine h.modifyEntry fun e he => ?_
  obtain ⟨houtput, _, herror⟩ := Entry.forall_mem_values_iff.1 he
  exact Entry.forall_mem_values_iff.2 ⟨houtput, hinputs, herror⟩

theorem move (h : s.Distinct) (a : Address) (target : Status) (message : String) :
    (s.move a target message).Distinct := by
  unfold State.move
  split
  · exact h
  · rename_i live hlive
    split
    · exact h
    · rename_i progress hprogress
      obtain ⟨job, kids⟩ := live
      have hmoved : (s.modifyEntry a fun _ => { job.entry with progress }).Distinct :=
        h.modifyEntry fun _ _ => (h.at? hlive).entry
      exact hmoved

theorem settle (h : s.Distinct) (a : Address) (target : Status) : (s.settle a target).Distinct :=
  List.foldlRecOn (motive := State.Distinct) _ _ h fun _ ht b _ => ht.move b target ""

theorem succeed (h : s.Distinct) {output : Value} (houtput : output.Distinct) :
    (s.succeed a output message).Distinct := by
  refine State.Distinct.move (h.modifyEntry fun e he => ?_) a .succeeded message
  obtain ⟨_, hinputs, herror⟩ := Entry.forall_mem_values_iff.1 he
  exact Entry.forall_mem_values_iff.2 ⟨houtput, hinputs, herror⟩

theorem error (h : s.Distinct) {failure : Failure}
    (hfailure : (Value.object failure.details).Distinct) :
    (s.modifyEntry a fun e => { e with error := some failure }).Distinct := by
  refine h.modifyEntry fun e he => ?_
  obtain ⟨houtput, hinputs, _⟩ := Entry.forall_mem_values_iff.1 he
  refine Entry.forall_mem_values_iff.2 ⟨houtput, hinputs, ?_⟩
  rintro _ ⟨⟩
  exact hfailure

theorem fail (h : s.Distinct) {failure : Failure}
    (hfailure : (Value.object failure.details).Distinct) : (s.fail a failure).Distinct :=
  ((h.error hfailure).move a .failed "").settle a .skipped

theorem stop (h : s.Distinct) (a : Address) : (s.stop a).Distinct :=
  ((h.error Value.distinct_object_nil).move a .cancelled "").settle a _

theorem leaveOut (h : s.Distinct) (a : Address) (target : Status) :
    (s.leaveOut a target).Distinct :=
  (h.move a target "").settle a target

theorem reported (h : s.Distinct) (a : Address) : (s.reported a).Distinct :=
  h.of_same fun b => jobAt_reported s a b

theorem tell (h : s.Distinct) (a : Address) : (s.tell a).Distinct := by
  intro b job hjob
  rw [jobAt_tell] at hjob
  split at hjob
  · obtain ⟨old, hold, rfl⟩ := Option.map_eq_some_iff.1 hjob
    exact (h b old hold).tell
  · exact h b job hjob

theorem tellCalls (h : s.Distinct) (a : Address) : (s.tellCalls a).Distinct :=
  foldl_tell_induction s _ h fun _ b _ ht => ht.tell b

theorem cancelRun (h : s.Distinct) : s.cancelRun.Distinct :=
  cancelRun_induction s h h fun _ b ht => ht.tell b

/-! ## The end of containers -/

theorem failFromKids (h : s.Distinct) (a : Address) (kids : List Live) :
    (s.failFromKids a kids).Distinct := by
  unfold State.failFromKids
  simp only
  split
  · exact h
  · exact h.fail (Value.distinct_object_singleton (Value.plain_strings _).distinct _)

theorem finish (h : s.Distinct) (a : Address) (kids : List Live) {output : Value}
    (houtput : output.Distinct) : (s.finish a kids output).Distinct := by
  unfold State.finish
  simp only
  split
  · exact h.stop a
  · split
    · exact h.stop a
    · split
      · exact h.failFromKids a kids
      · exact h.succeed houtput

theorem outputs (h : ∀ kid ∈ kids, kid.job.Distinct) : (outputs kids).Distinct :=
  Value.distinct_array_iff.2 (List.forall_mem_map.2 fun kid hkid => (h kid hkid).output)

theorem finishRace (h : s.Distinct) (a : Address) (frame : Frame)
    (hkids : ∀ kid ∈ kids, kid.job.Distinct) : (s.finishRace a frame kids).Distinct := by
  unfold State.finishRace
  split
  · rename_i winner hwinner
    obtain ⟨i, _, hi⟩ := Option.bind_eq_some_iff.1 hwinner
    exact h.succeed (hkids winner (List.mem_of_getElem? hi)).output
  · split
    · exact h.stop a
    · split
      · exact h.succeed Value.plain_null.distinct
      · exact h.failFromKids a kids

theorem join (h : s.Distinct) (a : Address) : (s.join a).Distinct := by
  unfold State.join
  split
  · exact h
  · rename_i job kids hkids
    have hdistinct : ∀ kid ∈ kids, kid.job.Distinct := fun kid hkid => h.kid hkids hkid
    refine State.Distinct.reported ?_ a
    split
    · exact h.finishRace a _ hdistinct
    · exact h.finish a kids (outputs hdistinct)

/-! ## The start of nodes -/

theorem beginStep (h : s.Distinct) (hsetup : setup.Distinct) (hjob : job.Distinct)
    (hc : ∀ field ∈ c.scope, field.2.Distinct) (a : Address) (agent : String)
    (own : Option Binary64) : (s.beginStep setup a job agent own c).Distinct := by
  unfold State.beginStep
  split
  · rename_i earlier hearlier
    obtain ⟨houtput, hinputs, _⟩ := Entry.forall_mem_values_iff.1 (hsetup.recorded? hearlier)
    exact ((h.inputs hinputs).succeed houtput).reported a
  · split
    · rename_i e _
      exact (h.fail e.distinct_details).reported a
    · rename_i inputs hinputs
      have hbound := (h.surroundings hsetup hc).bindInputs hjob.node.declares hinputs
      exact (h.inputs hbound).setStage (.calling _) ⟨nofun, nofun⟩

theorem openSlots (h : s.Distinct) (frame : Frame) (hframe : frame.Distinct) (a : Address)
    (work : Work) (count : Nat) : (s.openSlots setup a frame work count).Distinct := by
  have hstage := h.setStage (a := a) (.hosting { frame with
    begun := min (setup.slots work count) count, left := count }) ⟨hframe.bound, hframe.source⟩
  unfold State.openSlots
  simp only
  split
  · exact hstage.join a
  · exact hstage

theorem beginSequence (h : s.Distinct) {frame : Frame} (hframe : frame.Distinct) (a : Address)
    (kids : List Live) : (s.beginSequence a frame kids).Distinct := by
  unfold State.beginSequence
  split
  · exact (h.finish a [] (outputs (List.forall_mem_nil _))).reported a
  · exact h.setStage (.hosting _) ⟨hframe.bound, hframe.source⟩

theorem beginBranch (h : s.Distinct) (hsetup : setup.Distinct)
    (hc : ∀ field ∈ c.scope, field.2.Distinct) {condition : Binding} (hcondition : condition.Distinct)
    (a : Address) (cases : List Value) (kids : List Live) :
    (s.beginBranch setup a c condition cases kids).Distinct := by
  unfold State.beginBranch
  split
  · rename_i e _
    exact (h.fail e.distinct_details).reported a
  · rename_i value hvalue
    have hdistinct := (h.surroundings hsetup hc).evaluate hcondition hvalue
    simp only
    split
    · exact List.foldlRecOn (motive := State.Distinct) _ _ h fun _ ht i _ =>
        ht.settle (a ++ [i]) .skipped
    · have hdetails : (Value.object (Failure.noBranchMatched value).details).Distinct :=
        Value.distinct_object_singleton hdistinct _
      exact (h.fail hdetails).reported a

/-- The instances of a loop have not started. -/
theorem expand (h : s.Distinct) {instances : List Live}
    (hinstances : ∀ kid ∈ instances, ∀ b job, kid.jobAt b = some job → job.Distinct) (a : Address) :
    ({ s with root := s.root.update (fun live => .mk live.job instances) a } : State).Distinct := by
  intro b job hjob
  change (s.root.update (fun live => .mk live.job instances) a).jobAt b = some job at hjob
  by_cases hab : a <+: b
  · obtain ⟨b, rfl⟩ := hab
    cases hlive : s.root.at? a with
    | none =>
      rw [Live.update_of_at?_eq_none _ hlive] at hjob
      exact h _ job hjob
    | some live =>
      rw [Live.jobAt, Live.at?_update_append _ hlive] at hjob
      cases b with
      | nil =>
        cases hjob
        exact h a live.job (by rw [State.jobAt, Live.jobAt_of_at? hlive])
      | cons i b =>
        rw [Live.at?_cons] at hjob
        cases hkid : instances[i]? with
        | none =>
          rw [hkid] at hjob
          cases hjob
        | some kid =>
          rw [hkid] at hjob
          exact hinstances kid (List.mem_of_getElem? hkid) b job hjob
  · rw [Live.jobAt_update_of_not_prefix _ hab] at hjob
    exact h b job hjob

theorem beginLoop (h : s.Distinct) (hsetup : setup.Distinct) (hjob : job.Distinct)
    (hc : ∀ field ∈ c.scope, field.2.Distinct) {frame : Frame} (hframe : frame.Distinct)
    {source : Binding} (hsource : source.Distinct) (a : Address) :
    (s.beginLoop setup a c job frame source).Distinct := by
  unfold State.beginLoop
  split
  · rename_i e _
    exact (h.fail e.distinct_details).reported a
  · rename_i items hitems
    have hdistinct := (h.surroundings hsetup hc).evaluate hsource hitems
    refine openSlots (h.expand (fun kid hkid b below hbelow => ?_) a) { frame with source := items }
      ⟨hframe.bound, Value.distinct_array_iff.1 hdistinct⟩ a _ _
    unfold Live.instances at hkid
    split at hkid
    · rename_i body rest hchildren
      obtain ⟨i, _, rfl⟩ := List.mem_map.1 hkid
      refine Live.distinct_ofNode (hjob.node.of_walk_subset fun node hnode => ?_) hbelow
      exact Node.mem_walk_of_mem_children (hchildren ▸ List.mem_cons_self) hnode
    · cases hkid
  · exact (h.fail (BindingError.distinct_details _)).reported a

theorem beginContainer (h : s.Distinct) (hsetup : setup.Distinct) (hjob : job.Distinct)
    (hc : ∀ field ∈ c.scope, field.2.Distinct) (a : Address) (kids : List Live) :
    (s.beginContainer setup a job kids c).Distinct := by
  unfold State.beginContainer
  split
  · rename_i e _
    exact (h.fail e.distinct_details).reported a
  · rename_i bound hbound
    have hvalues := (Value.distinct_object_iff.1
      ((h.surroundings hsetup hc).bindInputs hjob.node.declares hbound)).2
    have hframe : Frame.Distinct { bound } := ⟨hvalues, nofun⟩
    have hstage := h.setStage (a := a) (.hosting { bound }) hframe
    have hscope := Context.distinct_binding hc hvalues
    simp only
    split
    · exact hstage.beginSequence hframe a kids
    · rename_i condition cases hwork
      exact hstage.beginBranch hsetup hscope
        (hjob.node.declares.binding condition (by rw [hwork]; rfl)) a cases kids
    · rename_i source _ _ _ hwork
      exact hstage.beginLoop hsetup hjob hscope hframe
        (hjob.node.declares.binding source (by rw [hwork]; rfl)) a
    · exact hstage.openSlots _ hframe a _ _

theorem enter (h : s.Distinct) (hsetup : setup.Distinct) (a : Address) :
    (s.enter setup a).Distinct := by
  unfold State.enter
  split
  · exact h
  · rename_i job kids hkids
    simp only
    split
    · exact (h.leaveOut a .cancelled).reported a
    · split
      · exact (h.leaveOut a .skipped).reported a
      · have hmove := h.move a .running ""
        split
        · exact hmove.beginStep hsetup (h.at? hkids) (h.context a) a _ _
        · exact hmove.beginContainer hsetup (h.at? hkids) (h.context a) a kids

/-! ## Calls -/

theorem act (h : s.Distinct) {call : Call} (hcall : call.Distinct) (a : Address) :
    (s.act a call).Distinct := by
  obtain ⟨hending, houtcome⟩ := id hcall
  unfold State.act
  split
  · split
    · rename_i outcome hanswer
      exact (h.setStage (.calling { call with outcome := some outcome })
        ⟨hending, fun _ houtcome => Option.some.inj houtcome ▸ hanswer ▸ hending⟩).tell a
    · exact h
  · rename_i acts _
    exact (h.setStage (.calling { call with acts }) ⟨hending, houtcome⟩).cancelRun
  · split
    · exact h.setStage (.calling _) ⟨hending, houtcome⟩
    · exact h.setStage (.calling _) ⟨hending, houtcome⟩

theorem proceed (h : s.Distinct) (hsetup : setup.Distinct) (a : Address) :
    (s.proceed setup a).Distinct := by
  unfold State.proceed
  split
  · exact h
  · rename_i live hlive
    obtain ⟨job, kids⟩ := live
    have hjob := h.at? hlive
    split
    · exact h
    · rename_i call hcall
      have hdistinct : call.Distinct := hjob.call? hcall
      split
      · exact h
      · split
        · exact h.act hdistinct a
        · exact h.setStage (.calling _)
            ⟨hsetup.answers _ _ _ hjob.inputs, hdistinct.outcome⟩

theorem wake (h : s.Distinct) (a : Address) : (s.wake a).Distinct := by
  unfold State.wake
  split
  · exact h
  · rename_i call hcall
    have houtcome := (h.call hcall).outcome
    have hidle : (s.setStage a .idle).Distinct := h.setStage .idle trivial
    refine State.Distinct.reported ?_ a
    split
    · rename_i output hended
      exact hidle.succeed (houtcome _ hended output (List.mem_singleton_self _))
    · rename_i failure hended
      exact hidle.fail (houtcome _ hended _ (List.mem_singleton_self _))
    · exact hidle.stop a

/-! ## Children that have ended -/

theorem reportOne (h : s.Distinct) {frame : Frame} (hframe : frame.Distinct) (a : Address) (job : Job)
    (position : Nat) (kid : Live) : (s.reportOne a job frame position kid).Distinct := by
  unfold State.reportOne
  extract_lets after counted begun told
  have hcounted : counted.Distinct := h.setStage (.hosting after) ⟨hframe.bound, hframe.source⟩
  have hbegun : begun.Distinct := .ite (hcounted.later _) hcounted
  have htold : told.Distinct := .ite (hbegun.tellCalls a) hbegun
  exact .ite (htold.later _) htold

theorem reportNext (h : s.Distinct) {frame : Frame} (hframe : frame.Distinct)
    (hkids : ∀ kid ∈ kids, kid.job.Distinct) (a : Address) (job : Job) (kid : Live) :
    (s.reportNext a job frame kids kid).Distinct := by
  unfold State.reportNext
  split
  · exact h.setStage (.hosting _) ⟨hframe.bound, hframe.source⟩
  · exact (h.finish a kids (outputs hkids)).reported a

theorem reportKid (h : s.Distinct) (a : Address) (position : Nat) :
    (s.reportKid a position).Distinct := by
  unfold State.reportKid
  split
  · exact h
  · rename_i job kids hkids
    have hdistinct : ∀ kid ∈ kids, kid.job.Distinct := fun kid hkid => h.kid hkids hkid
    split
    · rename_i kid frame hkid hframe
      have hframe : frame.Distinct := (h.at? hkids).frame? hframe
      split
      · exact h.reportNext hframe hdistinct a job kid
      · exact (h.finish a [kid] (hdistinct kid (List.mem_of_getElem? hkid)).output).reported a
      · exact h.reportOne hframe a job position kid
    · exact h

theorem report (h : s.Distinct) (a : Address) : (s.report a).Distinct := by
  unfold State.report
  split
  · exact h.reportKid _ _
  · exact h

/-! ## The clock -/

theorem distinct_timeoutFailure (agent : String) (seconds : Number) :
    (Value.object (timeoutFailure agent seconds).details).Distinct := by
  refine Value.distinct_object_singleton ?_ _
  simp [Value.Distinct, Value.walk]

theorem fire (h : s.Distinct) (a : Address) : (s.fire a).Distinct := by
  unfold State.fire
  split
  · exact h
  · rename_i call hcall
    obtain ⟨hending, houtcome⟩ := h.call hcall
    split
    · exact h
    · split
      · simp only
        refine (h.setStage (.calling { call with
          wakeAt := none, deadline := none, outcome := some (.error _) }) ⟨hending, ?_⟩).tell a
        rintro _ ⟨⟩
        exact List.forall_mem_singleton.2 (distinct_timeoutFailure _ _)
      · split
        · exact h.setStage (.calling _) ⟨hending, houtcome⟩
        · exact h

theorem jump (h : s.Distinct) (setup : Setup) (time : Int) : (s.jump setup time).Distinct := by
  unfold State.jump
  extract_lets later fired
  have hfired : fired.Distinct :=
    List.foldlRecOn (motive := State.Distinct) _ _ h fun _ ht b _ => ht.fire b
  exact .ite hfired.cancelRun hfired

/-! ## Runs -/

/-- A step keeps names distinct. -/
theorem step (h : s.Distinct) (hsetup : setup.Distinct) (hstep : s.step setup = some t) :
    t.Distinct := by
  rcases step_cases hstep with ⟨task, agenda, _, rfl⟩ | ⟨_, _, time, _, rfl⟩
  · have hagenda : State.Distinct { s with agenda } := h
    cases task with
    | enter a => exact hagenda.enter hsetup a
    | proceed a => exact hagenda.proceed hsetup a
    | wake a => exact hagenda.wake a
    | report a => exact hagenda.report a
    | join a => exact hagenda.join a
  · exact h.jump setup time

/-- A run keeps names distinct. -/
theorem runToEnd (h : s.Distinct) (hsetup : setup.Distinct) : (s.runToEnd setup).Distinct := by
  fun_induction State.runToEnd s setup with
  | case1 s t hstep ih => exact ih (h.step hsetup hstep)
  | case2 s _ => exact h

theorem start {tree : Node} (htree : tree.Distinct) (setup : Setup) :
    (start setup tree).Distinct :=
  fun _ _ hjob => Live.distinct_ofNode htree hjob

end Distinct

/-- At the end of a run no object in any node gives a name twice. -/
theorem Final.distinct {tree : Node} (h : Final setup tree s) (hsetup : setup.Distinct)
    (htree : tree.Distinct) : s.Distinct := by
  rw [h.eq_runToEnd]
  exact (Distinct.start htree setup).runToEnd hsetup

end State
end Workflow
