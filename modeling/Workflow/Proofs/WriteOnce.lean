import Workflow.Proofs.Invocations
import Workflow.Proofs.Live.Yields

/-!
# Values that have been recorded

What an expression once gives during a run, it gives at every later point of the run and in the result.
An output can be read only of a node that has succeeded, which is not changed any more, and a step is
given its inputs at most once, when it starts.

* `State.Reached.lasting_step` says that a step of the run keeps what can be read, and
  `State.Reached.lasting_runWithin` that all later steps do.
* `State.InFlight` lists the results that can be looked at during a run, and `State.Received` says that a
  path binding gets a value from one of them.
* `Setup.writeOnce_of_execute` says that they agree with each other and with the end of the run.
-/

namespace Workflow
namespace State

variable {setup : Setup} {tree : Node} {s t : State} {a : Address} {job : Job} {kids : List Live}
  {rest : List Task} {n m : Nat} {r r' : Result} {expression path : String} {v w : Value}

/-! ## Steps of a run -/

/-- Between two states of a run what can be read of a node lasts if its output and its inputs do. -/
theorem Shape.lasts {job' : Job} (h : Shape tree s) (h' : Shape tree t) (hjob : s.jobAt a = some job)
    (hjob' : t.jobAt a = some job')
    (houtput : job.status = .succeeded →
      job'.status = .succeeded ∧ job'.entry.output = job.entry.output)
    (hinputs : job.entry.inputs ≠ [] → job'.entry.inputs = job.entry.inputs) : job.Lasts job' := by
  have hnode := h.node_eq h' hjob hjob'
  obtain ⟨_, hkind, _⟩ := h.entry a job hjob
  obtain ⟨_, hkind', _⟩ := h'.entry a job' hjob'
  exact ⟨hnode, by rw [hkind, hkind', hnode], houtput, hinputs⟩

/-- What can be read of a node can be read of it after the next step. -/
theorem Reached.lasting_step (h : Reached setup tree s none) (htree : tree.Sound)
    (hstep : s.step setup = some t) : s.root.Lasting t.root := by
  have hchanges := h.step htree hstep
  have hshape := h.shape htree
  have hshape' := (h.changes hchanges).shape htree
  intro a job hjob
  by_cases hpending : job.status = .pending
  · -- nothing can be read of a node that has not started
    obtain ⟨hnil, _⟩ := (h.blank htree hjob).unstarted (.inl hpending)
    obtain ⟨job', hjob', _⟩ := hchanges.jobAt_some hshape hjob
    refine ⟨job', hjob', hshape.lasts hshape' hjob hjob' (fun hsucceeded => ?_)
      fun hinputs => absurd hnil hinputs⟩
    rw [hpending] at hsucceeded
    cases hsucceeded
  · obtain ⟨job', hjob', _, hkeeps⟩ := h.keeps_step htree hjob hpending hstep
    refine ⟨job', hjob', hshape.lasts hshape' hjob hjob' (fun hsucceeded => ?_) fun _ => hkeeps.inputs⟩
    obtain ⟨ended, hended, hentry, _⟩ := h.entry_step htree hjob (by rw [hsucceeded]; rfl) hstep
    rw [hjob', Option.some.injEq] at hended
    subst hended
    exact ⟨by rw [Job.status, hentry, ← Job.status, hsucceeded], by rw [hentry]⟩

/-- What can be read of a node can be read of it to the end of the run. -/
theorem Reached.lasting_runWithin (h : Reached setup tree s none) (htree : tree.Sound) (steps : Nat) :
    s.root.Lasting (s.runWithin setup steps).root :=
  h.runWithin_induction (P := fun u => s.root.Lasting u.root) htree (.refl s.root)
    (fun _ _ hu hstep hlasting => hlasting.trans (hu.lasting_step htree hstep)) steps

theorem lasting_of_le (setup : Setup) (htree : tree.Sound) (hle : n ≤ m) :
    ((start setup tree).runWithin setup n).root.Lasting
      ((start setup tree).runWithin setup m).root := by
  obtain ⟨more, rfl⟩ := Nat.exists_eq_add_of_le hle
  rw [runWithin_add]
  exact (reached_runWithin setup htree n).lasting_runWithin htree more

/-- That a node has just started makes no difference to what can be read. -/
theorem Entering.lasting (h : Entering setup tree s a job kids rest) :
    s.root.Lasting (s.move a .running "").root ∧ (s.move a .running "").root.Lasting s.root := by
  have hjobs := jobAt_move h.jobAt h.canBecome ""
  have hpending : job.status ≠ .succeeded := by
    rw [h.pending]
    nofun
  have hmoved : (job.moved .running s.now).status ≠ .succeeded := by
    rw [Job.status_moved]
    nofun
  constructor
  · intro b old hold
    have hnew := hjobs b
    split at hnew
    · rename_i hb
      subst hb
      have hsame := h.jobAt
      rw [State.jobAt, hold, Option.some.injEq] at hsame
      subst hsame
      exact ⟨_, hnew, rfl, rfl, fun hsucceeded => absurd hsucceeded hpending, fun _ => rfl⟩
    · exact ⟨old, hnew.trans hold, .refl old⟩
  · intro b new hnew
    have hold := (hjobs b).symm.trans hnew
    split at hold
    · rename_i hb
      subst hb
      cases hold
      exact ⟨job, h.jobAt, rfl, rfl, fun hsucceeded => absurd hsucceeded hmoved, fun _ => rfl⟩
    · exact ⟨new, hold, .refl new⟩

/-! ## What is looked at -/

/-- The results that can be looked at after a number of steps of the run: the one that stands between
two steps, and the one that the bindings of a node see that starts with the next step. Within a step
nothing but the bindings of the node that starts reads what is recorded. -/
inductive InFlight (setup : Setup) (tree : Node) (n : Nat) : Result → Prop
  | between : InFlight setup tree n ((start setup tree).runWithin setup n).root.toResult
  | starting {a : Address} {r : Result} : Starts setup tree a n →
      (((start setup tree).runWithin setup n).viewAt setup a).results = some r →
      InFlight setup tree n r

/-- A path binding that is evaluated when some node starts gets the value, be it an input of the node, its
condition or its source. The path is what its expression stands for there. -/
def Received (setup : Setup) (tree : Node) (expression path : String) (v : Value) : Prop :=
  ∃ a n scope input, Starts setup tree a n ∧
    Path.localize expression (((start setup tree).runWithin setup n).viewAt setup a).instances =
      .ok path ∧
    (Binding.path expression).evaluate
      { ((start setup tree).runWithin setup n).viewAt setup a with scope } input = .ok v

/-- What is looked at after a number of steps is as good as what stands there. -/
theorem InFlight.exists_live (h : InFlight setup tree n r) (htree : tree.Sound) : ∃ live : Live,
    r = live.toResult ∧ ((start setup tree).runWithin setup n).root.Lasting live ∧
      live.Lasting ((start setup tree).runWithin setup n).root := by
  cases h with
  | between => exact ⟨_, rfl, .refl _, .refl _⟩
  | @starting a _ hstarts hresults =>
    obtain ⟨job, kids, rest, hentering⟩ := hstarts.entering htree
    obtain rfl := Option.some.inj hresults
    exact ⟨_, rfl, hentering.lasting⟩

/-- What an expression gives at some point of a run it gives at every later point. -/
theorem InFlight.yields (h : InFlight setup tree n r) (h' : InFlight setup tree m r')
    (htree : tree.Sound) (hle : n ≤ m) (hyields : r.Yields expression v) :
    r'.Yields expression v := by
  obtain ⟨live, rfl, _, hafter⟩ := h.exists_live htree
  obtain ⟨live', rfl, hbefore, _⟩ := h'.exists_live htree
  refine ((hafter.trans (lasting_of_le setup htree hle)).trans hbefore).yields (fun a job hjob => ?_)
    hyields
  obtain ⟨job', hjob', hlasts⟩ := hafter a job hjob
  obtain ⟨_, hkind, _⟩ := ((reached_runWithin setup htree n).shape htree).entry a job' hjob'
  rw [← hlasts.kind, hkind, hlasts.node]

/-- A value that a binding gets is the one that its path gives. -/
theorem Received.exists_inFlight (h : Received setup tree expression path v) :
    ∃ n r, InFlight setup tree n r ∧ r.Yields path v := by
  obtain ⟨a, n, scope, input, hstarts, hlocal, hvalue⟩ := h
  rw [Binding.evaluate] at hvalue
  split at hvalue
  · rename_i value hvalueAt
    cases hvalue
    obtain ⟨r, path', hresults, hlocal', hyields⟩ := Surroundings.yields_of_valueAt hvalueAt
    rw [show Path.localize expression _ = _ from hlocal, Except.ok.injEq] at hlocal'
    exact ⟨n, r, .starting hstarts hresults, hlocal' ▸ hyields⟩
  · cases hvalue

/-! ## Whole runs -/

/-- What is recorded in the run of the tree is not recorded otherwise later. -/
structure WriteOnce (setup : Setup) (tree : Node) (s : State) : Prop where
  /-- What an expression gives at some point of the run it gives at every later point. -/
  lasting : ∀ n m r r' expression v, InFlight setup tree n r → InFlight setup tree m r' → n ≤ m →
    r.Yields expression v → r'.Yields expression v
  /-- It gives it in the result as well. -/
  final : ∀ n r expression v, InFlight setup tree n r → r.Yields expression v →
    s.result.tree.Yields expression v
  /-- What a path binding gets is what the result reports. -/
  reported : ∀ expression path v, Received setup tree expression path v →
    s.result.tree.Yields path v
  /-- Path bindings that stand for one path get one value. -/
  agreed : ∀ expression expression' path v w, Received setup tree expression path v →
    Received setup tree expression' path w → v = w

theorem Final.writeOnce (h : Final setup tree s) : WriteOnce setup tree s := by
  have hfinal {n : Nat} {r : Result} {expression : String} {v : Value}
      (hinFlight : InFlight setup tree n r) (hyields : r.Yields expression v) :
      s.result.tree.Yields expression v := by
    obtain ⟨more, hmore⟩ := h.exists_runWithin_eq n
    rw [← runWithin_add] at hmore
    have hend : InFlight setup tree (n + more) s.result.tree := by
      rw [hmore]
      exact .between
    exact hinFlight.yields hend h.sound (Nat.le_add_right n more) hyields
  have hreported {expression path : String} {v : Value}
      (hreceived : Received setup tree expression path v) : s.result.tree.Yields path v := by
    obtain ⟨n, r, hinFlight, hyields⟩ := hreceived.exists_inFlight
    exact hfinal hinFlight hyields
  exact {
    lasting := fun n m r r' expression v hr hr' hle hyields => hr.yields hr' h.sound hle hyields
    final := fun n r expression v hr hyields => hfinal hr hyields
    reported := fun expression path v hreceived => hreported hreceived
    agreed := fun expression expression' path v w hv hw => (hreported hv).unique (hreported hw) }

end State

/-- What is recorded in a run is not recorded otherwise later: whatever an expression gives at some point
of a run, be it the output of a node that has succeeded or an input of a step, it gives at every later
point and in the result, and so do path bindings get what the result reports. -/
theorem Setup.writeOnce_of_execute {setup : Setup} {tree : Node} {separator : String}
    {ids rest : IdSource} {s : State} (htree : tree.Sound)
    (h : setup.execute tree separator ids = .ok (s, rest)) :
    ∃ prepared, tree.prepare separator setup.previous ids = .ok (prepared, rest) ∧
      State.WriteOnce setup prepared s := by
  obtain ⟨prepared, hprepare, hfinal⟩ := execute_final htree h
  exact ⟨prepared, hprepare, hfinal.writeOnce⟩

/-- A sequence whose second step is given the output of the first one is such a run. The result reports
what the first one gives after five steps of the run. -/
theorem Setup.writeOnce_of_execute_sequence : ∃ s rest prepared v,
    ({ executor := Echo.executor } : Setup).execute
      (.mk {} .sequence [.mk {} (.step "first" none) [],
        .mk { inputs := [("value", .path "$.input[0]")] } (.step "second" none) []])
      " > " .counting = .ok (s, rest) ∧ State.WriteOnce { executor := Echo.executor } prepared s ∧
    s.result.tree.Yields "$.input[0]" v := by
  have hsound : (Node.mk {} .sequence [.mk {} (.step "first" none) [],
      .mk { inputs := [("value", .path "$.input[0]")] } (.step "second" none) []]).Sound := by
    simp [Node.Sound, Node.walk, Node.walkList, Node.Fits, Node.work, Node.children, Work.limit]
  obtain ⟨s, rest, h⟩ : ∃ s rest, ({ executor := Echo.executor } : Setup).execute
      (.mk {} .sequence [.mk {} (.step "first" none) [],
        .mk { inputs := [("value", .path "$.input[0]")] } (.step "second" none) []])
      " > " .counting = .ok (s, rest) := ⟨_, _, rfl⟩
  obtain ⟨prepared, hprepare, hwriteOnce⟩ := writeOnce_of_execute hsound h
  have hfirst : (((State.start { executor := Echo.executor } prepared).runWithin
      { executor := Echo.executor } 5).root.toResult.resolve "$.input[0]").toOption.any
        Target.succeeded = true := by
    clear hwriteOnce h
    cases hprepare
    decide +kernel
  set resolved := ((State.start { executor := Echo.executor } prepared).runWithin
    { executor := Echo.executor } 5).root.toResult.resolve "$.input[0]" with hresolved
  cases htarget : resolved with
  | error e =>
    rw [htarget] at hfirst
    cases hfirst
  | ok target =>
    rw [htarget] at hfirst
    obtain ⟨v, hgives⟩ := Target.gives_of_succeeded hfirst
    exact ⟨s, rest, prepared, v, h, hwriteOnce,
      hwriteOnce.final 5 _ _ _ .between ⟨target, hresolved ▸ htarget, hgives⟩⟩

end Workflow
