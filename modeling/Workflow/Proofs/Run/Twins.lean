import Workflow.Proofs.Run.Account
import Workflow.Proofs.Run.Visible
import Workflow.Proofs.Tree.Twin

/-!
# Nodes that see the same in two runs

Two runs of twins, with the same variables, may do things at other times and in another order. A node
that is given the same by the nodes above it, and before which everything has come out alike, sees the
same in both when its turn comes: its inputs have the same values, and it opens in the same way.

* `State.TwinRuns` is a pair of such runs at their ends.
* `State.Ready` says that a node is given the same in both.
* `State.TwinRuns.bindInputs_eq` and `State.TwinRuns.openingAt_eq` say that the node then sees the same.
-/

namespace Workflow

namespace Node

variable {tree tree' node node' : Node} {x a c : Address} {i j : Nat}

theorem Parts.twin (h : Parts tree x a c i j node) (htwin : tree.Twin tree') :
    ∃ node', Parts tree' x a c i j node' ∧ node.Twin node' := by
  obtain ⟨node', hnode', htwins⟩ := htwin.at? h.node
  exact ⟨node', { h with node := by rwa [htwin.placeOf] }, htwins⟩

theorem Twin.before (htwin : tree.Twin tree') (h : tree.Before x a) : tree'.Before x a := by
  obtain ⟨c, i, j, node, hparts, hkind⟩ := h
  obtain ⟨node', hparts', htwins⟩ := hparts.twin htwin
  rw [← htwins.kind] at hkind
  exact ⟨c, i, j, node', hparts', hkind⟩

theorem Twin.beside (htwin : tree.Twin tree') (h : tree.Beside x a) : tree'.Beside x a := by
  obtain ⟨c, i, j, node, hparts, hkind⟩ := h
  obtain ⟨node', hparts', htwins⟩ := hparts.twin htwin
  rw [← htwins.kind] at hkind
  exact ⟨c, i, j, node', hparts', hkind⟩

end Node

namespace Job

variable {job job' : Job}

/-- The number of children follows from the definition and from what the node has been given. -/
theorem arity_congr_notes (hnodes : job.node.Twin job'.node)
    (hnotes : job'.stage.notes? = job.stage.notes?) : job'.arity = job.arity := by
  by_cases hkind : job.node.kind = .loop
  · rw [arity_eq_of_loop (hnodes.kind.trans hkind), arity_eq_of_loop hkind, hnotes]
  · rw [arity_of_kind_ne hkind, arity_of_kind_ne (hnodes.kind.trans_ne hkind), hnodes.length_children]

end Job

namespace State

variable {setup setup' : Setup} {tree tree' : Node} {s s' u u' : State} {x a b c : Address}
  {job job' old old' : Job} {kids kids' : List Live} {rest rest' : List Task} {steps steps' : Nat}

/-! ## Two runs -/

/-- How the node at an address has come out. -/
def accountAt (s : State) (a : Address) : Option (Status × Value × Option Failure × Fields Value) :=
  (s.jobAt a).map fun job => job.entry.account

/-- The states are the ends of calm runs of twins with the same variables. -/
structure TwinRuns (setup setup' : Setup) (tree tree' : Node) (s s' : State) : Prop where
  first : Final setup tree s
  second : Final setup' tree' s'
  calm : setup.Calm tree
  calm' : setup'.Calm tree'
  twin : tree.Twin tree'
  independent : tree.Independent
  vars : setup'.vars = setup.vars

/-- The node at an address is given the same in both runs: what comes before it has come out alike, and
the nodes above it know the same. -/
structure Ready (tree : Node) (s s' : State) (a : Address) : Prop where
  before : ∀ x, tree.Before x a → s'.accountAt x = s.accountAt x
  notes : ∀ c i, c ++ [i] <+: a → s'.notesAt c = s.notesAt c

theorem TwinRuns.symm (h : TwinRuns setup setup' tree tree' s s') :
    TwinRuns setup' setup tree' tree s' s where
  first := h.second
  second := h.first
  calm := h.calm'
  calm' := h.calm
  twin := h.twin.symm
  independent := h.twin.independent h.independent
  vars := h.vars.symm

/-- Nodes at one address of the two runs are twins. -/
theorem TwinRuns.nodes (h : TwinRuns setup setup' tree tree' s s') (hjob : s.jobAt a = some job)
    (hjob' : s'.jobAt a = some job') : job.node.Twin job'.node :=
  h.first.shape.twin h.second.shape h.twin hjob hjob'

theorem TwinRuns.path_eq (h : TwinRuns setup setup' tree tree' s s') (hjob : s.jobAt a = some job)
    (hjob' : s'.jobAt a = some job') : job'.entry.path = job.entry.path :=
  h.first.shape.twin_path h.second.shape h.twin hjob hjob'

theorem Ready.symm (h : Ready tree s s' a) (htwin : tree.Twin tree') : Ready tree' s' s a where
  before x hx := (h.before x (htwin.symm.before hx)).symm
  notes c i hc := (h.notes c i hc).symm

/-! ## What has been given to the nodes above -/

/-- A container that has begun knows at the end of the run what it knows at any time. -/
theorem Final.notesAt_eq (h : Final setup tree s) (hu : u = (start setup tree).runWithin setup steps)
    (hjob : u.jobAt c = some job) (hstatus : job.status ≠ .pending) {frame : Frame}
    (hframe : job.frame? = some frame) : s.notesAt c = u.notesAt c := by
  obtain ⟨more, hmore⟩ := h.exists_runWithin_eq steps
  rw [← hu] at hmore
  have hreached := reached_runWithin setup h.sound steps
  rw [← hu] at hreached
  obtain ⟨last, hlast, _, hkeeps⟩ := hreached.keeps_runWithin h.sound hjob hstatus more
  obtain ⟨frame', hframe', hnotes⟩ := hkeeps.notes frame hframe
  rw [← hmore] at hlast
  rw [notesAt, notesAt, hlast, hjob]
  exact (Job.notes?_stage.2 ⟨frame', hframe', hnotes⟩).trans
    (Job.notes?_stage.2 ⟨frame, hframe, rfl⟩).symm

/-- The nodes above a node whose turn comes know what they know at the end of the run. -/
theorem Entering.notesAt_above (h : Entering setup tree u a job kids rest) (hfinal : Final setup tree s)
    (hu : u = (State.start setup tree).runWithin setup steps) {i : Nat} (hc : c ++ [i] <+: a) :
    ∃ above frame, u.jobAt c = some above ∧ above.status = .running ∧ above.frame? = some frame ∧
      s.notesAt c = some frame.notes := by
  have hactive := h.active
  obtain ⟨d, rfl⟩ := hc
  obtain ⟨above, frame, habove, hframe⟩ :=
    h.reached.inside hfinal.sound hactive c i d (by simp)
  obtain ⟨above', habove', hrun, _⟩ := (h.reached.control hfinal.sound).parent
    ((h.reached.control hfinal.sound).active_above hactive (List.prefix_append _ d))
  obtain rfl : above' = above := Option.some.inj (habove'.symm.trans habove)
  refine ⟨above', frame, habove, hrun, hframe, ?_⟩
  rw [hfinal.notesAt_eq hu habove (by simp [hrun]) hframe, State.notesAt, habove]
  exact Job.notes?_stage.2 ⟨frame, hframe, rfl⟩

/-- What is recorded of a node that starts, and what it knows. -/
theorem Entering.moved (h : Entering setup tree u a job kids rest) (htree : tree.Sound) :
    (job.moved .running u.now).entry.account = (.running, .null, none, []) ∧
      (job.moved .running u.now).stage.notes? = none := by
  have haccount := h.reached.account_of_pending htree h.jobAt h.pending
  rw [Entry.account, Prod.mk.injEq, Prod.mk.injEq, Prod.mk.injEq] at haccount
  obtain ⟨_, houtput, herror, hinputs⟩ := haccount
  refine ⟨?_, ?_⟩
  · change (_, job.entry.output, job.entry.error, job.entry.inputs) = _
    rw [houtput, herror, hinputs]
    exact congrArg (fun status => (status, _)) (Job.status_moved job .running u.now)
  · change job.stage.notes? = none
    rw [h.idle htree]
    rfl

/-- Nodes that have come out alike are the same to paths that pass them. -/
theorem alike_of_account (hnodes : old.node.Twin old'.node) (hkind : old'.entry.kind = old.entry.kind)
    (haccount : old'.entry.account = old.entry.account) : old.Alike old' := by
  rw [Entry.account, Entry.account, Prod.mk.injEq, Prod.mk.injEq, Prod.mk.injEq] at haccount
  exact ⟨hnodes.layout, hkind, fun _ => haccount.2.2.2, haccount.1, fun _ => haccount.2.1⟩

/-! ## What a node sees in both runs -/

namespace TwinRuns

variable (h : TwinRuns setup setup' tree tree' s s')
  (hu : u = (start setup tree).runWithin setup steps)
  (hu' : u' = (start setup' tree').runWithin setup' steps')
  (henter : Entering setup tree u a job kids rest)
  (henter' : Entering setup' tree' u' a job' kids' rest')
  (hready : Ready tree s s' a)
include h hu hu' henter henter' hready

omit hu hu' hready in
/-- Nodes at one address are twins. -/
theorem twins (hx : u.jobAt x = some old) (hx' : u'.jobAt x = some old') :
    old.node.Twin old'.node ∧ old'.entry.kind = old.entry.kind := by
  have hshape := henter.reached.shape h.first.sound
  have hshape' := henter'.reached.shape h.second.sound
  have hnodes := hshape.twin hshape' h.twin hx hx'
  refine ⟨hnodes, ?_⟩
  rw [(hshape'.entry x old' hx').2.1, (hshape.entry x old hx).2.1, hnodes.kind]

/-- A node above the one that starts runs and knows the same. -/
theorem alike_above (hx : u.jobAt x = some old) (hx' : u'.jobAt x = some old') (hxa : x ≠ a)
    (habove : x <+: a) : old.Alike old' ∧ old'.arity = old.arity := by
  obtain ⟨hnodes, hkind⟩ := h.twins henter henter' hx hx'
  have hshape := henter.reached.shape h.first.sound
  obtain ⟨d, rfl⟩ := id habove
  cases d with
  | nil => exact absurd (List.append_nil x).symm hxa
  | cons i d =>
    have hkid : x ++ [i] <+: x ++ i :: d := ⟨d, by simp⟩
    obtain ⟨_, frame, hjob, hrun, hframe, hnotes⟩ := henter.notesAt_above h.first hu hkid
    obtain ⟨_, frame', hjob', hrun', hframe', hnotes'⟩ := henter'.notesAt_above h.second hu' hkid
    obtain rfl := Option.some.inj (hx.symm.trans hjob)
    obtain rfl := Option.some.inj (hx'.symm.trans hjob')
    have hsame := hready.notes x i hkid
    rw [hnotes, hnotes'] at hsame
    have hstep : old.node.kind ≠ .step := by
      obtain ⟨kid, hkid⟩ := jobAt_of_append (a := x ++ [i]) (b := d)
        (by rw [List.append_assoc]; exact henter.jobAt)
      exact hshape.kind_ne_step hx (hshape.lt_arity hx hkid)
    refine ⟨⟨hnodes.layout, hkind, fun hkind => absurd hkind hstep, hrun'.trans hrun.symm, ?_⟩, ?_⟩
    · intro hsucceeded
      rw [hrun] at hsucceeded
      cases hsucceeded
    · refine Job.arity_congr_notes hnodes ?_
      rw [Job.notes?_stage.2 ⟨frame', hframe', rfl⟩, hsame, Job.notes?_stage.2 ⟨frame, hframe, rfl⟩]

/-- What comes before the node that starts has come to its end, and has come out alike. -/
theorem alike_before (hx : u.jobAt x = some old) (hx' : u'.jobAt x = some old')
    (hbefore : tree.Before x a) : old.Alike old' ∧ old'.arity = old.arity := by
  obtain ⟨hnodes, hkind⟩ := h.twins henter henter' hx hx'
  have hend := henter.reached.isTerminal_before h.first.sound henter.active hbefore hx
  have hend' := henter'.reached.isTerminal_before h.second.sound henter'.active
    (h.twin.before hbefore) hx'
  obtain ⟨last, hlast, hentry, harity⟩ := henter.reached.entry_runToEnd h.first.sound hx hend
  obtain ⟨last', hlast', hentry', harity'⟩ := henter'.reached.entry_runToEnd h.second.sound hx' hend'
  rw [hu, runToEnd_runWithin, ← h.first.eq_runToEnd] at hlast
  rw [hu', runToEnd_runWithin, ← h.second.eq_runToEnd] at hlast'
  have hsame := hready.before x hbefore
  rw [accountAt, accountAt, hlast, hlast', Option.map_some, Option.map_some, Option.some.injEq,
    hentry, hentry'] at hsame
  refine ⟨alike_of_account hnodes hkind hsame, ?_⟩
  -- a child that is there in one run is there in the other
  have hkids (i : Nat) : i < last'.arity ↔ i < last.arity := by
    have hpresent := congrArg Option.isSome (hready.before _ (hbefore.mono (List.prefix_append x [i])))
    rw [accountAt, accountAt, Option.isSome_map, Option.isSome_map] at hpresent
    rw [← h.second.shape.arity x i last' hlast', ← h.first.shape.arity x i last hlast, hpresent]
  have hle := hkids last'.arity
  have hge := hkids last.arity
  omega

omit hu hu' hready in
/-- What is neither above the node that starts nor before it nor beside it has not started. -/
theorem alike_after (hx : u.jobAt x = some old) (hx' : u'.jobAt x = some old')
    (habove : ¬ x <+: a) (hbefore : ¬ tree.Before x a) (hbeside : ¬ tree.Beside x a) :
    old.Alike old' ∧ old'.arity = old.arity := by
  have hsound := h.first.sound
  have hsound' := h.second.sound
  obtain ⟨hnodes, hkind⟩ := h.twins henter henter' hx hx'
  have hpending := henter.reached.pending_after hsound henter.active
    (by rw [statusAt_of_jobAt henter.jobAt, henter.pending]) hx habove hbefore hbeside
  have hpending' := henter'.reached.pending_after hsound' henter'.active
    (by rw [statusAt_of_jobAt henter'.jobAt, henter'.pending]) hx' habove
    (fun hb => hbefore (h.twin.symm.before hb)) fun hb => hbeside (h.twin.symm.beside hb)
  refine ⟨alike_of_account hnodes hkind ?_, Job.arity_congr_notes hnodes ?_⟩
  · rw [henter.reached.account_of_pending hsound hx hpending,
      henter'.reached.account_of_pending hsound' hx' hpending']
  · rw [((henter.reached.control hsound).node x old hx).pending hpending |>.1,
      ((henter'.reached.control hsound').node x old' hx').pending hpending' |>.1]

/-- Any node that is not beside the one that starts is the same to paths that pass it. -/
theorem alike (hx : (u.move a .running "").jobAt x = some old)
    (hx' : (u'.move a .running "").jobAt x = some old') (hbeside : ¬ tree.Beside x a) :
    old.Alike old' ∧ old'.arity = old.arity := by
  rw [jobAt_move henter.jobAt henter.canBecome] at hx
  rw [jobAt_move henter'.jobAt henter'.canBecome] at hx'
  by_cases hxa : x = a
  · -- the node itself has just started
    rw [if_pos hxa, Option.some.injEq] at hx hx'
    obtain ⟨haccount, hnotes⟩ := henter.moved h.first.sound
    obtain ⟨haccount', hnotes'⟩ := henter'.moved h.second.sound
    obtain ⟨hnodes, hkind⟩ := h.twins henter henter' henter.jobAt henter'.jobAt
    subst hx hx'
    exact ⟨alike_of_account hnodes hkind (haccount'.trans haccount.symm),
      Job.arity_congr_notes hnodes (hnotes'.trans hnotes.symm)⟩
  · rw [if_neg hxa] at hx hx'
    by_cases habove : x <+: a
    · exact h.alike_above hu hu' henter henter' hready hx hx' hxa habove
    · by_cases hbefore : tree.Before x a
      · exact h.alike_before hu hu' henter henter' hready hx hx' hbefore
      · exact h.alike_after henter henter' hx hx' habove hbefore hbeside

/-- A node is there in both runs, if nothing on the way to it is beside the one that starts. -/
theorem exists_job (hx : (u.move a .running "").jobAt x = some old)
    (hbeside : ∀ y, y <+: x → ¬ tree.Beside y a) :
    ∃ new, (u'.move a .running "").jobAt x = some new := by
  have hmoved := (henter.reached.shape h.first.sound).of_sameFixed (SameFixed.move u a .running "")
  have hmoved' := (henter'.reached.shape h.second.sound).of_sameFixed (SameFixed.move u' a .running "")
  induction x using List.reverseRecOn generalizing old with
  | nil =>
    obtain ⟨root, hroot, _⟩ := hmoved'.root
    exact ⟨root, hroot⟩
  | append_singleton x i ih =>
    have hfrom : x <+: x ++ [i] := List.prefix_append x [i]
    obtain ⟨above, habove⟩ := jobAt_of_append hx
    obtain ⟨new, hnew⟩ := ih habove fun y hy => hbeside y (hy.trans hfrom)
    have harity := (h.alike hu hu' henter henter' hready habove hnew (hbeside x hfrom)).2
    have hlt := hmoved.lt_arity habove hx
    rw [← harity] at hlt
    exact hmoved'.exists_kid hnew hlt

/-- The nodes above the node have given it the same to see. -/
theorem context_same : Context.Same (u.root.contextAt a) (u'.root.contextAt a) := by
  have hshape := henter.reached.shape h.first.sound
  have hshape' := henter'.reached.shape h.second.sound
  refine Live.contextAt_congr (Option.isSome_iff_exists.2 ⟨job, henter.jobAt⟩)
    (Option.isSome_iff_exists.2 ⟨job', henter'.jobAt⟩) fun c i d old old' hc hold hold' => ?_
  have hkid : c ++ [i] <+: a := ⟨d, by simp [hc]⟩
  obtain ⟨_, frame, hjob, _, hframe, hnotes⟩ := henter.notesAt_above h.first hu hkid
  obtain ⟨_, frame', hjob', _, hframe', hnotes'⟩ := henter'.notesAt_above h.second hu' hkid
  obtain rfl := Option.some.inj (hjob.symm.trans hold)
  obtain rfl := Option.some.inj (hjob'.symm.trans hold')
  have hsame := hready.notes c i hkid
  rw [hnotes, hnotes', Option.some.injEq] at hsame
  have hnodes := hshape.twin hshape' h.twin hold hold'
  refine ⟨hnodes.kind, hnodes.instanceNames, hshape.twin_path hshape' h.twin hold hold', ?_⟩
  rw [hframe, hframe', Option.map_some, Option.map_some, hsame]

/-- The paths of the node have one value in both runs. -/
theorem valueAt_eq (scope scope' : Fields Value) {expression : String}
    (hmem : expression ∈ job.node.expressions) :
    ({ u'.viewAt setup' a with scope := scope' } : Surroundings).valueAt expression =
      ({ u.viewAt setup a with scope } : Surroundings).valueAt expression := by
  have hactive : Active u none a := .inr (.inl (by rw [henter.agenda]; exact List.mem_cons_self))
  have hshape := henter.reached.shape h.first.sound
  have hmoved := hshape.of_sameFixed (SameFixed.move u a .running "")
  have hmoved' := (henter'.reached.shape h.second.sound).of_sameFixed (SameFixed.move u' a .running "")
  have hinside := henter.reached.inside h.first.sound hactive
  refine Surroundings.valueAt_congr rfl rfl (h.context_same hu hu' henter henter' hready).2
    (fun x old hold => (hmoved.entry x old hold).2.1) fun path segments hlocal hparse x hx => ?_
  have hbeside (y : Address) (hy : y <+: x) : ¬ tree.Beside y a :=
    hinside.not_beside_trail hshape henter.jobAt h.independent h.calm.race hmem hlocal hparse
      (SameFixed.move u a .running "") (hy.trans hx)
  obtain ⟨kid, hkid⟩ := Live.exists_of_prefix_trail hx
  have hkidJob : (u.move a .running "").jobAt x = some kid.job := Live.jobAt_of_at? hkid
  obtain ⟨new, hnew⟩ := h.exists_job hu hu' henter henter' hready hkidJob hbeside
  obtain ⟨halike, harity⟩ := h.alike hu hu' henter henter' hready hkidJob hnew
    (hbeside x List.prefix_rfl)
  refine Live.alike_of_jobAt hkidJob hnew halike fun i => ?_
  exact (hmoved'.arity x i new hnew).trans
    ((by rw [harity] : i < new.arity ↔ i < kid.job.arity).trans (hmoved.arity x i _ hkidJob).symm)

/-- The bindings of the node have one value in both runs. -/
theorem evaluate_eq {scope scope' : Fields Value} {binding : Binding} (hscope : scope' = scope)
    (hmem : ∀ expression, binding = .path expression → expression ∈ job.node.expressions)
    (input : Option String) :
    binding.evaluate { u'.viewAt setup' a with scope := scope' } input =
      binding.evaluate { u.viewAt setup a with scope } input :=
  Surroundings.evaluate_congr h.vars hscope (fun expression hpath =>
    h.valueAt_eq hu hu' henter henter' hready scope scope' (hmem expression hpath)) input

/-- The inputs of the node have the same values in both runs. -/
theorem bindInputs_eq : bindInputs (u'.viewAt setup' a) job'.node.header.inputs =
    bindInputs (u.viewAt setup a) job.node.header.inputs := by
  have hnodes := (henter.reached.shape h.first.sound).twin (henter'.reached.shape h.second.sound)
    h.twin henter.jobAt henter'.jobAt
  rw [hnodes.inputs]
  refine Surroundings.bindInputs_congr h.vars (h.context_same hu hu' henter henter' hready).1
    fun name expression hmem => h.valueAt_eq hu hu' henter henter' hready _ _ ?_
  refine List.mem_filterMap.2 ⟨.path expression, List.mem_append_left _ ?_, rfl⟩
  exact List.mem_map.2 ⟨_, hmem, rfl⟩

/-- The binding that decides which children run has one value in both runs. -/
theorem evaluate_work_eq {binding : Binding} (hbinding : job.node.work.binding? = some binding)
    (bound : Fields Value) (input : Option String) :
    binding.evaluate ((u'.move a .running "").surroundings setup'
        ((u'.root.contextAt a).binding bound)) input =
      binding.evaluate ((u.move a .running "").surroundings setup
        ((u.root.contextAt a).binding bound)) input := by
  refine h.evaluate_eq hu hu' henter henter' hready ?_ (fun expression hpath => ?_) input
  · exact congrArg (Fields.update · bound) (h.context_same hu hu' henter henter' hready).1
  · refine List.mem_filterMap.2 ⟨binding, List.mem_append_right _ ?_, by rw [hpath]; rfl⟩
    simp [hbinding]

/-- The node opens in the same way in both runs. -/
theorem openingAt_eq : u'.openingAt setup' a = u.openingAt setup a := by
  have hshape := henter.reached.shape h.first.sound
  have hshape' := henter'.reached.shape h.second.sound
  have hnodes := hshape.twin hshape' h.twin henter.jobAt henter'.jobAt
  have hbound : bindInputs ((u'.move a .running "").surroundings setup' (u'.root.contextAt a))
      job'.node.header.inputs = bindInputs ((u.move a .running "").surroundings setup
        (u.root.contextAt a)) job.node.header.inputs := h.bindInputs_eq hu hu' henter henter' hready
  have hvalue {binding : Binding} (hbinding : job.node.work.binding? = some binding) :=
    h.evaluate_work_eq hu hu' henter henter' hready hbinding
  rw [openingAt, openingAt, henter.kids, henter'.kids]
  simp only [opening]
  rw [hbound]
  cases bindInputs ((u.move a .running "").surroundings setup (u.root.contextAt a))
    job.node.header.inputs with
  | error e => rfl
  | ok bound =>
    simp only
    cases hwork : job.node.work with
    | branch condition cases =>
      have hkind : job.node.kind = .branch := by rw [Node.kind, hwork]; rfl
      have hlength : kids'.length = kids.length := by
        rw [hshape.length_kids henter.kids, hshape'.length_kids henter'.kids,
          Job.arity_of_kind_ne (by simp [hnodes.kind, hkind]), Job.arity_of_kind_ne (by simp [hkind]),
          hnodes.length_children]
      rw [hnodes.work_eq (by simp [hkind, Kind.isGroup]), hwork]
      simp only [branchOpening]
      rw [hvalue (by rw [hwork]; rfl), hlength]
    | loop source itemName indexName limit =>
      obtain ⟨limit', hwork'⟩ := hnodes.exists_loop hwork
      rw [hwork']
      simp only [loopOpening]
      rw [hvalue (by rw [hwork]; rfl)]
    | _ =>
      have hkind := hnodes.kind
      rw [Node.kind, Node.kind, hwork] at hkind
      cases hwork' : job'.node.work with
      | branch => rw [hwork'] at hkind; cases hkind
      | loop => rw [hwork'] at hkind; cases hkind
      | _ => rfl

end TwinRuns

end State
end Workflow
