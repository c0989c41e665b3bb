import Workflow.Proofs.Invocations
import Workflow.Proofs.Run.Moments
import Workflow.Proofs.Run.Omissions
import Workflow.Proofs.Tree.Route

/-!
# The order in which control flows

What the trace of a run says about containers: the children of a sequence run one after the other, of the
candidates of a branch at most one runs, and the instances of a loop run while the loop does.

* `State.InOrder`, `State.Exclusive` and `State.Enclosed` say so of one sequence, one branch and one loop,
  and `State.Final.inOrder`, `State.Final.exclusive` and `State.Final.enclosed` that it holds at the end of
  every run.
* `Setup.controlled_of_execute` says so of all containers of a run.
-/

namespace Workflow
namespace State

variable {setup : Setup} {tree : Node} {s u : State} {a b : Address} {job kid : Job} {i j k : Nat}
  {before later : List Event} {x y : Event} {callers : List Address}

/-! ## Events below an address -/

/-- The event is about the node at an address or one below it. -/
def Concerns (s : State) (a : Address) (x : Event) : Prop :=
  ∃ c job, s.jobAt (a ++ c) = some job ∧ job.entry.path = x.path

/-- No node starts at an address or below it. -/
def Idle (s : State) (a : Address) : Prop :=
  ∀ x ∈ s.trace, x.status = .running → ¬ s.Concerns a x

/-- What lies below an idle address has not started. -/
theorem Idle.not_started {c : Address} (h : s.Idle a) (hchronicle : Chronicle s)
    (hjob : s.jobAt (a ++ c) = some job) : ¬ job.entry.progress.started.isSome := by
  rw [(hchronicle.node _ job hjob).started_iff]
  rintro ⟨x, hx, hrun⟩
  obtain ⟨hmem, hpath⟩ := mem_eventsOf.1 hx
  exact h x hmem hrun ⟨c, job, hjob, hpath.symm⟩

/-- What has happened by a state of a run is in the trace of its end. -/
theorem Final.mem_trace {n : Nat} (h : Final setup tree s)
    (hx : x ∈ ((start setup tree).runWithin setup n).trace) : x ∈ s.trace := by
  have hreached := reached_runWithin setup h.sound n
  obtain ⟨more, hmore⟩ := h.exists_runWithin_eq n
  have hlater := hreached.trace_prefix h.sound more
  rw [← hmore] at hlater
  exact hlater.subset hx

/-- A node starts below the address only in a state in which the node at the address runs. -/
theorem Final.exists_running (h : Final setup tree s) (htrace : s.trace = before ++ x :: later)
    (hx : x.status = .running) (hconcerns : s.Concerns (a ++ [i]) x) :
    ∃ u c job, Beginning setup tree u (a ++ i :: c) before x ∧ u.jobAt a = some job ∧
      job.status = .running ∧ Local setup u (some (a ++ i :: c)) a job := by
  obtain ⟨u, b, hbeginning⟩ := h.reached.exists_beginning h.sound htrace hx
  obtain ⟨c, below, hbelow, hpath⟩ := hconcerns
  have hb := hbeginning.eq_address h.sound h.shape hbelow hpath.symm
  rw [List.append_assoc, List.singleton_append] at hb
  subst hb
  obtain ⟨job, hjob, hrun, _, hlocal⟩ := hbeginning.above h.sound (List.cons_ne_nil i c)
  exact ⟨u, c, job, hbeginning, hjob, hrun, hlocal⟩

/-! ## Sequences -/

/-- No node in a child of the sequence starts before the child in front of it has succeeded. -/
def InOrder (s : State) (a : Address) : Prop :=
  ∀ i before x later, s.trace = before ++ x :: later → x.status = .running →
    s.Concerns (a ++ [i + 1]) x → ∃ kid, s.jobAt (a ++ [i]) = some kid ∧
      ∃ y ∈ before, y.path = kid.entry.path ∧ y.status = .succeeded

/-- When a node in a child of a sequence starts, the children in front of it have succeeded. -/
theorem Beginning.succeeded_before {c : Address} (h : Beginning setup tree u (a ++ i :: c) before x)
    (htree : tree.Sound) (hjob : u.jobAt a = some job) (hrun : job.status = .running)
    (hkind : job.node.kind = .sequence) (hji : j < i) : u.statusAt (a ++ [j]) = some .succeeded := by
  obtain ⟨_, hjob', _, hhand, hlocal⟩ := h.above htree (List.cons_ne_nil i c)
  rw [hjob, Option.some.injEq] at hjob'
  subst hjob'
  have hactive := h.active_child htree
  have hi := (h.reached.control htree).lt_arity (h.reached.shape htree) hjob hactive
  cases hlocal.busy hrun hhand with
  | @sequence frame k _ _ _ _ _ hbefore hafter =>
    have hik : i ≤ k := by
      by_contra hlt
      exact (hafter i (by omega) hi).2 hactive
    exact (hbefore j (by omega)).2
  | calling _ hstep => rw [hkind] at hstep; cases hstep
  | branch _ hbranch => rw [hkind] at hbranch; cases hbranch
  | group _ hgroup => rw [hkind] at hgroup; cases hgroup

theorem Final.inOrder (h : Final setup tree s) (hjob : s.jobAt a = some job)
    (hkind : job.node.kind = .sequence) : s.InOrder a := by
  intro i before x later htrace hx hconcerns
  obtain ⟨u, c, old, hbeginning, hold, hrun, _⟩ := h.exists_running htrace hx hconcerns
  have hshape := hbeginning.reached.shape h.sound
  have hnode := hshape.node_eq h.shape hold hjob
  have hsucceeded := hbeginning.succeeded_before h.sound hold hrun (by rw [← hnode, hkind])
    (Nat.lt_succ_self i)
  obtain ⟨oldKid, holdKid, hstatus⟩ := jobAt_of_statusAt hsucceeded
  obtain ⟨c, below, hbelow, _⟩ := hconcerns
  obtain ⟨next, hnext⟩ := jobAt_of_append hbelow
  have hlt : i + 1 < job.arity := (h.shape.arity a (i + 1) job hjob).1 (by rw [hnext]; rfl)
  obtain ⟨kid, hkid⟩ := h.shape.exists_kid hjob (Nat.lt_of_succ_lt hlt)
  refine ⟨kid, hkid, ?_⟩
  have hlived := (hbeginning.reached.chronicle h.sound).node _ oldKid holdKid
  rw [hbeginning.trace, ← hshape.path_eq h.shape holdKid hkid] at hlived
  obtain ⟨y, hy, hend⟩ := hlived.exists_succeeded hstatus
  exact ⟨y, (mem_eventsOf.1 hy).1, (mem_eventsOf.1 hy).2, hend⟩

/-! ## Branches -/

/-- In a run that ends in the state, the node below a candidate of the branch is left out: it is skipped,
or it is cancelled with the branch, which never starts; or the run never comes to an end, and has not come
to the branch. -/
inductive LeftOut (s : State) (branch below : Job) : Prop
  | skipped {x : Event} : eventsOf s.trace below.entry.path = [x] → x.previous = .pending →
      x.status = .skipped → LeftOut s branch below
  | cancelled {x y : Event} : eventsOf s.trace below.entry.path = [x] → x.previous = .pending →
      x.status = .cancelled → eventsOf s.trace branch.entry.path = [y] → y.previous = .pending →
      y.status = .cancelled → LeftOut s branch below
  | never : (∀ r, s.outcome ≠ .finished r) → eventsOf s.trace below.entry.path = [] →
      eventsOf s.trace branch.entry.path = [] → LeftOut s branch below

/-- Nodes start in at most one candidate of the branch. The others are left out with all that lies below
them, and the executor is never called for them. -/
structure Exclusive (setup : Setup) (tree : Node) (s : State) (a : Address) (branch : Job)
    (callers : List Address) : Prop where
  one : ∀ i j, ¬ s.Idle (a ++ [i]) → ¬ s.Idle (a ++ [j]) → i = j
  leftOut : ∀ i, s.Idle (a ++ [i]) → ∀ c below, s.jobAt (a ++ i :: c) = some below →
    LeftOut s branch below
  uncalled : ∀ i, s.Idle (a ++ [i]) → (∀ b ∈ callers, ¬ a ++ [i] <+: b) ∧
    ∀ n c, ((start setup tree).runWithin setup n).callAt (a ++ i :: c) = none

/-- An event says that the node has started. -/
theorem Entering.exists_event {steps : Nat} {kids : List Live} {rest : List Task}
    (h : Entering setup tree ((start setup tree).runWithin setup steps) a job kids rest)
    (hs : Final setup tree s) :
    ∃ x ∈ s.trace, x.path = job.entry.path ∧ x.status = .running := by
  have hstarted := h.started hs.sound
  obtain ⟨x, hx, _, hrun, _⟩ :=
    ((hstarted.reached.chronicle hs.sound).node a _ hstarted.jobAt).of_running hstarted.run
  obtain ⟨hmem, hpath⟩ := mem_eventsOf.1 (hx ▸ List.mem_singleton_self x)
  obtain ⟨o, hchanges⟩ := h.changes hs.sound
  have hafter := hstarted.reached.changes_induction (P := fun v _ => x ∈ v.trace) hchanges hmem
    fun _ _ _ _ hv hchange hbefore => (hchange.trace_prefix (hv.shape hs.sound)).subset hbefore
  rw [← h.runWithin_succ hs.sound] at hafter
  exact ⟨x, hs.mem_trace hafter, hpath, hrun⟩

/-- A branch that has started skips a child, or lets it start in the next step. -/
theorem Final.skipped_or_next (h : Final setup tree s) (hjob : s.jobAt a = some job)
    (hkind : job.node.kind = .branch) (hstarted : job.entry.progress.started.isSome) :
    ∃ n, ∀ i kid, s.jobAt (a ++ [i]) = some kid → kid.status = .skipped ∨
      (∃ rest, ((start setup tree).runWithin setup n).agenda = .enter (a ++ [i]) :: rest) ∧
        ∃ x ∈ s.trace, x.path = kid.entry.path ∧ x.status = .running := by
  obtain ⟨steps, old, kids, rest, hentering⟩ := h.exists_entering hjob hstarted
  have hnode := (hentering.reached.shape h.sound).node_eq h.shape hentering.jobAt hjob
  rw [hnode] at hkind
  have hreached := reached_runWithin setup h.sound (steps + 1)
  have hshape := hreached.shape h.sound
  refine ⟨steps + 1, fun i kid hkid => ?_⟩
  -- the child is there when the branch has started
  obtain ⟨new, hnew, _⟩ := hentering.not_pending h.sound
  rw [← hentering.runWithin_succ h.sound] at hnew
  have harity : job.arity = new.arity := by
    have hnodeNew := hshape.node_eq h.shape hnew hjob
    have hloop : job.node.kind ≠ .loop := by rw [hnode, hkind]; decide
    rw [Job.arity_of_kind_ne hloop, Job.arity_of_kind_ne (by rwa [← hnodeNew]), hnodeNew]
  have hlt : i < job.arity := (h.shape.arity a i job hjob).1 (by rw [hkid]; rfl)
  obtain ⟨newKid, hnewKid⟩ := hshape.exists_kid hnew (by rwa [← harity])
  rcases hentering.skipped_or_entering h.sound hkind hreached (hentering.runWithin_succ h.sound)
    hnewKid with hskipped | ⟨kids', rest', hnext⟩
  · have hlast := hreached.statusAt_runToEnd h.sound hskipped rfl
    rw [runToEnd_runWithin, ← h.eq_runToEnd, statusAt_of_jobAt hkid, Option.some.injEq] at hlast
    exact .inl hlast
  · obtain ⟨x, hx, hpath, hrun⟩ := hnext.exists_event h
    exact .inr ⟨⟨rest', hnext.agenda⟩, x, hx, hpath.trans (hshape.path_eq h.shape hnewKid hkid).symm,
      hrun⟩

/-- A child of a branch that has started is skipped if no node starts there. -/
theorem Final.skipped_of_idle (h : Final setup tree s) (hjob : s.jobAt a = some job)
    (hkind : job.node.kind = .branch) (hstarted : job.entry.progress.started.isSome)
    (hidle : s.Idle (a ++ [i])) (hkid : s.jobAt (a ++ [i]) = some kid) : kid.status = .skipped := by
  obtain ⟨n, hkids⟩ := h.skipped_or_next hjob hkind hstarted
  rcases hkids i kid hkid with hskipped | ⟨_, x, hx, hpath, hrun⟩
  · exact hskipped
  · refine absurd ⟨[], kid, ?_, hpath.symm⟩ (hidle x hx hrun)
    rw [List.append_nil, hkid]

/-- A node at or below which a node starts has started. -/
theorem Final.started_of_not_idle (h : Final setup tree s) (hjob : s.jobAt a = some job)
    (hidle : ¬ s.Idle a) : job.entry.progress.started.isSome := by
  rw [Idle] at hidle
  push Not at hidle
  obtain ⟨x, hx, hrun, c, below, hbelow, hpath⟩ := hidle
  have hlived := h.chronicle.node a job hjob
  by_cases hc : c = []
  · rw [hc, List.append_nil, hjob, Option.some.injEq] at hbelow
    exact hlived.started_iff.2 ⟨x, mem_eventsOf.2 ⟨hx, by rw [hbelow, hpath]⟩, hrun⟩
  · obtain ⟨y, hypath, hyrun, hsub⟩ :=
      h.chronicle.starts a c job below x hjob hbelow hc hx hpath.symm hrun
    exact hlived.started_iff.2
      ⟨y, mem_eventsOf.2 ⟨hsub.subset List.mem_cons_self, hypath⟩, hyrun⟩

/-- Nodes start in one candidate of a branch only. -/
theorem Final.eq_of_not_idle (h : Final setup tree s) (hjob : s.jobAt a = some job)
    (hkind : job.node.kind = .branch) (hi : ¬ s.Idle (a ++ [i])) (hj : ¬ s.Idle (a ++ [j])) :
    i = j := by
  have hexists {k : Nat} (hk : ¬ s.Idle (a ++ [k])) : ∃ kid, s.jobAt (a ++ [k]) = some kid ∧
      kid.entry.progress.started.isSome := by
    obtain ⟨kid, hkid⟩ : ∃ kid, s.jobAt (a ++ [k]) = some kid := by
      rw [Idle] at hk
      push Not at hk
      obtain ⟨_, _, _, c, below, hbelow, _⟩ := hk
      exact jobAt_of_append hbelow
    exact ⟨kid, hkid, h.started_of_not_idle hkid hk⟩
  obtain ⟨kid, hkid, hstarted⟩ := hexists hi
  obtain ⟨n, hkids⟩ := h.skipped_or_next hjob hkind
    (h.started_of_not_idle hjob fun hidle => hi fun x hx hrun ⟨c, below, hbelow, hpath⟩ =>
      hidle x hx hrun ⟨[i] ++ c, below, by rw [← List.append_assoc]; exact hbelow, hpath⟩)
  have hnext {k : Nat} (hk : ¬ s.Idle (a ++ [k])) :
      ∃ rest, ((start setup tree).runWithin setup n).agenda = .enter (a ++ [k]) :: rest := by
    obtain ⟨kid, hkid, hstarted⟩ := hexists hk
    rcases hkids k kid hkid with hskipped | ⟨hnext, _⟩
    · rw [(h.chronicle.node _ kid hkid).not_started_of_skipped hskipped] at hstarted
      cases hstarted
    · exact hnext
  obtain ⟨rest, hagenda⟩ := hnext hi
  obtain ⟨rest', hagenda'⟩ := hnext hj
  rw [hagenda, List.cons.injEq, Task.enter.injEq] at hagenda'
  simpa using hagenda'.1

/-- What lies below a candidate of a branch in which no node starts is left out. -/
theorem Final.leftOut (h : Final setup tree s) (hjob : s.jobAt a = some job)
    (hkind : job.node.kind = .branch) (hidle : s.Idle (a ++ [i])) {c : Address} {below : Job}
    (hbelow : s.jobAt (a ++ i :: c) = some below) : LeftOut s job below := by
  have hunder : s.jobAt (a ++ [i] ++ c) = some below := by rwa [List.append_assoc]
  obtain ⟨kid, hkid⟩ := jobAt_of_append hunder
  have hskipped (hstarted : job.entry.progress.started.isSome) : below.status = .skipped := by
    refine h.reached.skipped_below h.sound (List.prefix_append (a ++ [i]) c) ?_ hunder
    rw [statusAt_of_jobAt hkid, h.skipped_of_idle hjob hkind hstarted hidle hkid]
  have hstatus := statusAt_of_jobAt hbelow
  -- a branch that has started has skipped the candidate
  have hunstarted (hne : below.status ≠ .skipped) : ¬ job.entry.progress.started.isSome :=
    fun hstarted => hne (hskipped hstarted)
  have hbranch := h.chronicle.node a job hjob
  rcases (h.chronicle.node _ below hbelow).of_not_started (hidle.not_started h.chronicle hunder) with
    ⟨hpending, hevents⟩ | ⟨x, hevents, hprevious, hx, hend | hend⟩
  · rw [Job.status, hpending] at hstatus
    have hopen {d : Address} {status : Status} (hd : d <+: a ++ i :: c)
        (hd' : s.statusAt d = some status) : ¬ status.isTerminal := fun hterminal =>
      h.control.closed_none hd hd' hterminal hstatus
    refine .never (fun r hr => ?_) hevents ?_
    · obtain ⟨_, status, hroot, hterminal⟩ := h.root_ended hr
      exact hopen List.nil_prefix hroot hterminal
    · have hjobOpen := hopen (List.prefix_append a (i :: c)) (statusAt_of_jobAt hjob)
      rcases hbranch.of_not_started (hunstarted (by rw [Job.status, hpending]; decide)) with
        ⟨_, hnone⟩ | ⟨_, _, _, _, hleft | hleft⟩
      · exact hnone
      · exact absurd (by rw [Job.status, hleft]; rfl) hjobOpen
      · exact absurd (by rw [Job.status, hleft]; rfl) hjobOpen
  · exact .skipped hevents hprevious (hx.trans hend)
  · rcases hbranch.of_not_started (hunstarted (by rw [Job.status, hend]; decide)) with
      ⟨hpending, _⟩ | ⟨y, hbranchEvents, hprevious', hy, hleft | hleft⟩
    · have hbelowPending := h.control.below_pending (List.prefix_append a (i :: c))
        ((statusAt_of_jobAt hjob).trans (congrArg some hpending)) hstatus
      rw [Job.status, hend] at hbelowPending
      cases hbelowPending
    · have hbelowSkipped := h.reached.skipped_below h.sound (List.prefix_append a (i :: c))
        ((statusAt_of_jobAt hjob).trans (congrArg some hleft)) hbelow
      rw [Job.status, hend] at hbelowSkipped
      cases hbelowSkipped
    · exact .cancelled hevents hprevious (hx.trans hend) hbranchEvents hprevious' (hy.trans hleft)

/-- A step that calls its agent has started. -/
theorem Final.callAt_of_idle (h : Final setup tree s) (hidle : s.Idle b) (n : Nat) (c : Address) :
    ((start setup tree).runWithin setup n).callAt (b ++ c) = none := by
  cases hcall : ((start setup tree).runWithin setup n).callAt (b ++ c) with
  | none => rfl
  | some call =>
    have hreached := reached_runWithin setup h.sound n
    obtain ⟨old, hold, hrun, _⟩ := (hreached.control h.sound).of_callAt hcall
    obtain ⟨x, hx, _, hxrun, _⟩ := ((hreached.chronicle h.sound).node _ old hold).of_running hrun
    obtain ⟨hmem, hpath⟩ := mem_eventsOf.1 (hx ▸ List.mem_singleton_self x)
    obtain ⟨more, hmore⟩ := h.exists_runWithin_eq n
    obtain ⟨below, hbelow, hsame⟩ : ∃ below, s.jobAt (b ++ c) = some below ∧
        below.entry.path = old.entry.path := by
      have hnot : old.status ≠ .pending := by rw [hrun]; decide
      obtain ⟨below, hbelow, _⟩ := hreached.keeps_runWithin h.sound hold hnot more
      rw [← hmore] at hbelow
      exact ⟨below, hbelow, (hreached.shape h.sound).path_eq h.shape hold hbelow⟩
    exact absurd ⟨c, below, hbelow, hsame.trans hpath.symm⟩ (hidle x (h.mem_trace hmem) hxrun)

theorem Final.exclusive (h : Final setup tree s) (hjob : s.jobAt a = some job)
    (hkind : job.node.kind = .branch)
    (hcallers : ∀ b ∈ callers, ∃ caller, s.jobAt b = some caller ∧ Due setup tree s b caller) :
    Exclusive setup tree s a job callers where
  one _ _ := h.eq_of_not_idle hjob hkind
  leftOut _ hidle _ _ := h.leftOut hjob hkind hidle
  uncalled i hidle := by
    refine ⟨fun b hb hib => ?_, fun n c => ?_⟩
    · obtain ⟨caller, hcaller, hdue⟩ := hcallers b hb
      obtain ⟨x, hx, hpath, hrun⟩ := hdue.started
      obtain ⟨c, rfl⟩ := hib
      exact hidle x hx hrun ⟨c, caller, hcaller, hpath.symm⟩
    · rw [List.append_cons]
      exact h.callAt_of_idle hidle n c

/-! ## Loops -/

/-- No node in an instance of the loop starts before the loop runs, and the events of what lies in an
instance are those under the path of the instance. -/
structure Enclosed (s : State) (a : Address) (loop : Job) : Prop where
  running : ∀ i before x later, s.trace = before ++ x :: later → x.status = .running →
    s.Concerns (a ++ [i]) x → ∃ y, eventsOf before loop.entry.path = [y] ∧ y.status = .running
  own : ∃ segments, Path.parse loop.entry.path = .ok segments ∧ ∀ i : Nat, ∀ x ∈ s.trace,
    s.Concerns (a ++ [i]) x ↔
      ∃ below, Path.parse x.path = .ok (segments ++ ⟨Path.instanceField, some i⟩ :: below)

theorem Final.enclosed (h : Final setup tree s) (hjob : s.jobAt a = some job)
    (hkind : job.node.kind = .loop) : Enclosed s a job where
  running i before x later htrace hx hconcerns := by
    obtain ⟨u, c, old, hbeginning, hold, hrun, _⟩ := h.exists_running htrace hx hconcerns
    have hlived := (hbeginning.reached.chronicle h.sound).node a old hold
    rw [hbeginning.trace, ← (hbeginning.reached.shape h.sound).path_eq h.shape hold hjob] at hlived
    obtain ⟨y, hy, _, hyrun, _⟩ := hlived.of_running hrun
    exact ⟨y, hy, hyrun⟩
  own := by
    refine ⟨tree.segmentsTo a, h.shape.parse_path hjob, fun i x hx => ⟨?_, ?_⟩⟩
    · rintro ⟨c, below, hbelow, hpath⟩
      rw [List.append_assoc, List.singleton_append] at hbelow
      rw [← hpath, h.shape.parse_path hbelow, Node.segmentsTo_append (h.shape.at?_placeOf hjob),
        Node.segmentsTo, Live.kidSegment_of_loop hkind]
      exact ⟨_, rfl⟩
    · rintro ⟨segments, hparse⟩
      obtain ⟨b, below, hbelow, hpath⟩ := h.chronicle.known x hx
      rw [← hpath, h.shape.parse_path hbelow, Except.ok.injEq] at hparse
      obtain ⟨c, rfl⟩ := h.shape.prefix_of_segmentsTo hjob hkind hbelow hparse
      exact ⟨c, below, hbelow, hpath⟩

/-! ## Whole runs -/

/-- Control flows through the containers of the run of the tree as it should. -/
structure Controlled (setup : Setup) (tree : Node) (s : State) : Prop where
  inOrder : ∀ a job, s.jobAt a = some job → job.node.kind = .sequence → s.InOrder a
  exclusive : ∃ callers : List Address, callers.Nodup ∧
    List.Forall₂ (Made s) callers s.invocations ∧ ∀ a job, s.jobAt a = some job →
      job.node.kind = .branch → Exclusive setup tree s a job callers
  enclosed : ∀ a job, s.jobAt a = some job → job.node.kind = .loop → Enclosed s a job

theorem Final.controlled (h : Final setup tree s) : Controlled setup tree s where
  inOrder _ _ := h.inOrder
  exclusive := by
    obtain ⟨callers, hnodup, hmem, hmade⟩ := h.invoked
    exact ⟨callers, hnodup, hmade, fun a job hjob hkind =>
      h.exclusive hjob hkind fun b hb => (hmem b).1 hb⟩
  enclosed _ _ := h.enclosed

end State

/-- In every run, no node in a child of a sequence starts before the child in front of it has succeeded;
nodes start in at most one candidate of a branch, and the others are left out and never call the executor;
and no node in an instance of a loop starts before the loop runs, whose events stay under its own path. -/
theorem Setup.controlled_of_execute {setup : Setup} {tree : Node} {separator : String}
    {ids rest : IdSource} {s : State} (htree : tree.Sound)
    (h : setup.execute tree separator ids = .ok (s, rest)) :
    ∃ prepared, tree.prepare separator setup.previous ids = .ok (prepared, rest) ∧
      State.Controlled setup prepared s := by
  obtain ⟨prepared, hprepare, hfinal⟩ := execute_final htree h
  exact ⟨prepared, hprepare, hfinal.controlled⟩

/-- A sequence of a branch with two candidates and a loop over two elements is such a run. -/
theorem Setup.controlled_of_execute_sequence : ∃ s rest prepared,
    ({ executor := Echo.executor } : Setup).execute
      (.mk {} .sequence
        [.mk {} (.branch (.literal (.bool true)) [.bool false, .bool true])
          [.mk {} (.step "first" none) [], .mk {} (.step "second" none) []],
        .mk {} (.loop (.literal (.array [.bool true, .bool false])) "item" none none)
          [.mk {} (.step "third" none) []]])
      " > " .counting = .ok (s, rest) ∧
    State.Controlled { executor := Echo.executor } prepared s := by
  have hsound : (Node.mk {} .sequence
      [.mk {} (.branch (.literal (.bool true)) [.bool false, .bool true])
        [.mk {} (.step "first" none) [], .mk {} (.step "second" none) []],
      .mk {} (.loop (.literal (.array [.bool true, .bool false])) "item" none none)
        [.mk {} (.step "third" none) []]]).Sound := by
    simp [Node.Sound, Node.walk, Node.walkList, Node.Fits, Node.work, Node.children, Work.limit]
  obtain ⟨s, rest, h⟩ : ∃ s rest, ({ executor := Echo.executor } : Setup).execute
      (.mk {} .sequence
        [.mk {} (.branch (.literal (.bool true)) [.bool false, .bool true])
          [.mk {} (.step "first" none) [], .mk {} (.step "second" none) []],
        .mk {} (.loop (.literal (.array [.bool true, .bool false])) "item" none none)
          [.mk {} (.step "third" none) []]])
      " > " .counting = .ok (s, rest) := ⟨_, _, rfl⟩
  obtain ⟨prepared, _, hcontrolled⟩ := controlled_of_execute hsound h
  exact ⟨s, rest, prepared, h, hcontrolled⟩

end Workflow
