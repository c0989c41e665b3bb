import Mathlib.Logic.Function.Basic
import Workflow.Proofs.Run.Effect
import Workflow.Proofs.Run.Paths

/-!
# The trace of a run

The events of a node tell how it came to its status, and the events of a node and of the nodes below
it are ordered: a node starts before and ends after the nodes below it that start.

* `Lived` says how the events of a node fit what is recorded of it.
* `Event.replay` does an event again, as far as it fits the statuses before it.
* `State.Chronicle` says this of the trace of a state, and `State.Reached.chronicle` of the traces of
  all states of a run.
-/

namespace Workflow

/-! ## Events of one node -/

/-- The events of the nodes with a path, in order. -/
def eventsOf (events : List Event) (path : String) : List Event :=
  events.filter fun e => e.path = path

theorem mem_eventsOf {events : List Event} {path : String} {x : Event} :
    x ∈ eventsOf events path ↔ x ∈ events ∧ x.path = path := by
  simp [eventsOf]

theorem eventsOf_concat_of_eq {x : Event} (events : List Event) :
    eventsOf (events ++ [x]) x.path = eventsOf events x.path ++ [x] := by
  simp [eventsOf]

theorem eventsOf_concat_of_ne {x : Event} {path : String} (events : List Event)
    (h : x.path ≠ path) : eventsOf (events ++ [x]) path = eventsOf events path := by
  simp [eventsOf, h]

/-- How the events of a node fit what is recorded of it. -/
inductive Lived (e : Entry) : List Event → Prop
  /-- The node has not started. -/
  | pending : e.Unstarted → Lived e []
  /-- The node has started. -/
  | running {x : Event} : x.previous = .pending → x.status = .running → e.status = .running →
      e.progress.started = some x.time → e.error = none → e.output = .null → Lived e [x]
  /-- The node has started and ended. -/
  | ended {x y : Event} : x.previous = .pending → x.status = .running → y.previous = .running →
      y.status = e.status → e.status = .succeeded ∨ e.status = .failed ∨ e.status = .cancelled →
      e.progress.started = some x.time → e.progress.finished = some y.time →
      (e.error.isSome ↔ e.status ≠ .succeeded) → (e.output ≠ .null → e.status = .succeeded) →
      Lived e [x, y]
  /-- The node was left out. -/
  | left {x : Event} : x.previous = .pending → x.status = e.status →
      e.status = .skipped ∨ e.status = .cancelled → e.progress.started = none → e.error = none →
      e.output = .null → Lived e [x]

namespace Lived

variable {e e' : Entry} {events : List Event}

/-- A pending node has no events. -/
theorem of_pending (h : Lived e events) (hstatus : e.status = .pending) :
    e.Unstarted ∧ events = [] := by
  cases h with
  | pending hfresh => exact ⟨hfresh, rfl⟩
  | running _ _ hrun => rw [hstatus] at hrun; cases hrun
  | ended _ _ _ _ hend => rw [hstatus] at hend; rcases hend with h | h | h <;> cases h
  | left _ _ hend => rw [hstatus] at hend; rcases hend with h | h <;> cases h

/-- A running node has the event of its start. -/
theorem of_running (h : Lived e events) (hstatus : e.status = .running) :
    ∃ x : Event, events = [x] ∧ x.previous = .pending ∧ x.status = .running ∧
      e.progress.started = some x.time ∧ e.error = none ∧ e.output = .null := by
  cases h with
  | pending hfresh => rw [hfresh.status] at hstatus; cases hstatus
  | @running x hprevious hrun _ hstarted herror houtput =>
    exact ⟨x, rfl, hprevious, hrun, hstarted, herror, houtput⟩
  | ended _ _ _ _ hend => rw [hstatus] at hend; rcases hend with h | h | h <;> cases h
  | left _ _ hend => rw [hstatus] at hend; rcases hend with h | h <;> cases h

/-- A node that has started and is not running has the event of its end. -/
theorem exists_end (h : Lived e events) (hstatus : e.status ≠ .running) {x : Event}
    (hmem : x ∈ events) (hx : x.status = .running) :
    ∃ y ∈ events, y.status.isTerminal := by
  cases h with
  | pending => cases hmem
  | running _ _ hrun => exact absurd hrun hstatus
  | @ended x y _ _ _ hy hend =>
    refine ⟨y, by simp, ?_⟩
    rw [hy]
    rcases hend with h | h | h <;> rw [h] <;> rfl
  | left _ hleft hend =>
    rw [List.mem_singleton] at hmem
    subst hmem
    rw [hx] at hleft
    rw [← hleft] at hend
    rcases hend with h | h <;> cases h

/-- An event says of a node that has succeeded that it has. -/
theorem exists_succeeded (h : Lived e events) (hstatus : e.status = .succeeded) :
    ∃ y ∈ events, y.status = .succeeded := by
  cases h with
  | pending hfresh => rw [hfresh.status] at hstatus; cases hstatus
  | running _ _ hrun => rw [hstatus] at hrun; cases hrun
  | @ended x y _ _ _ hend => exact ⟨y, by simp, by rw [hend, hstatus]⟩
  | left _ _ hleft => rw [hstatus] at hleft; rcases hleft with h | h <;> cases h

/-- The inputs of a node do not matter to its events. -/
theorem of_inputs (h : Lived e events) (hentry : e' = { e with inputs := e'.inputs }) :
    Lived e' events := by
  rw [hentry]
  cases h with
  | pending hfresh => exact .pending ⟨hfresh.progress, hfresh.error, hfresh.output⟩
  | running hprevious hrun hstatus hstarted herror houtput =>
    exact .running hprevious hrun hstatus hstarted herror houtput
  | ended hprevious hrun hprevious' hend hstatus hstarted hfinished herror houtput =>
    exact .ended hprevious hrun hprevious' hend hstatus hstarted hfinished herror houtput
  | left hprevious hend hstatus hstarted herror houtput =>
    exact .left hprevious hend hstatus hstarted herror houtput

/-- A node has started if and only if an event says so. -/
theorem started_iff (h : Lived e events) :
    e.progress.started.isSome ↔ ∃ x ∈ events, x.status = .running := by
  cases h with
  | pending hfresh => simp [hfresh.progress]
  | running _ hrun _ hstarted => simp [hrun, hstarted]
  | ended _ hrun _ _ _ hstarted => simp [hrun, hstarted]
  | left _ hend hstatus hstarted =>
    rw [← hend] at hstatus
    rcases hstatus with h | h <;> simp [h, hstarted]

/-- A node that succeeded or failed has started, one that was skipped has not. -/
theorem started_of_status (h : Lived e events)
    (hstatus : e.status = .succeeded ∨ e.status = .failed) : e.progress.started.isSome := by
  cases h with
  | pending hfresh => rw [hfresh.status] at hstatus; rcases hstatus with h | h <;> cases h
  | running _ _ hrun => rw [hrun] at hstatus; rcases hstatus with h | h <;> cases h
  | ended _ _ _ _ _ hstarted => rw [hstarted]; rfl
  | left _ _ hleft =>
    rcases hleft with hleft | hleft <;> rw [hleft] at hstatus <;>
      rcases hstatus with h | h <;> cases h

theorem not_started_of_skipped (h : Lived e events) (hstatus : e.status = .skipped) :
    e.progress.started = none := by
  cases h with
  | pending hfresh => rw [hfresh.progress]
  | running _ _ hrun => rw [hstatus] at hrun; cases hrun
  | ended _ _ _ _ hend => rw [hstatus] at hend; rcases hend with h | h | h <;> cases h
  | left _ _ _ hstarted => exact hstarted

/-- A node that has not started has no event but that it was left out. -/
theorem of_not_started (h : Lived e events) (hnot : ¬ e.progress.started.isSome) :
    (e.status = .pending ∧ events = []) ∨ ∃ x : Event, events = [x] ∧ x.previous = .pending ∧
      x.status = e.status ∧ (e.status = .skipped ∨ e.status = .cancelled) := by
  cases h with
  | pending hfresh => exact .inl ⟨hfresh.status, rfl⟩
  | running _ _ _ hstarted => rw [hstarted] at hnot; exact absurd rfl hnot
  | ended _ _ _ _ _ hstarted => rw [hstarted] at hnot; exact absurd rfl hnot
  | left hprevious hend hstatus => exact .inr ⟨_, rfl, hprevious, hend, hstatus⟩

/-- Only a node that failed, or was stopped after its start, has an error. -/
theorem error_iff (h : Lived e events) : e.error.isSome ↔
    e.status = .failed ∨ (e.status = .cancelled ∧ e.progress.started.isSome) := by
  cases h with
  | pending hfresh => simp [hfresh.error, hfresh.status]
  | running _ _ hrun _ herror => simp [hrun, herror]
  | ended _ _ _ _ hstatus hstarted _ herror =>
    rw [herror]
    rcases hstatus with h | h | h <;> simp [h, hstarted]
  | left _ _ hstatus hstarted herror =>
    rcases hstatus with h | h <;> simp [h, hstarted, herror]

/-- Only a node that succeeded has an output. -/
theorem output (h : Lived e events) (houtput : e.output ≠ .null) : e.status = .succeeded := by
  cases h with
  | pending hfresh => exact absurd hfresh.output houtput
  | running _ _ _ _ _ hnull => exact absurd hnull houtput
  | ended _ _ _ _ _ _ _ _ hsucceeded => exact hsucceeded houtput
  | left _ _ _ _ _ hnull => exact absurd hnull houtput

/-- Without events a node is pending. -/
theorem status_of_nil (h : Lived e []) : e.status = .pending := by
  cases h with
  | pending hfresh => exact hfresh.status

/-- What an event says that ends a node is what the node has come to. -/
theorem status_of_mem (h : Lived e events) {x : Event}
    (hmem : x ∈ events) (hx : x.status ≠ .running) : e.status = x.status := by
  cases h with
  | pending => cases hmem
  | running _ hrun =>
    rw [List.mem_singleton] at hmem
    exact absurd (hmem ▸ hrun) hx
  | @ended y z _ hrun _ hend =>
    rcases List.mem_cons.1 hmem with rfl | hmem
    · exact absurd hrun hx
    · rw [List.mem_singleton] at hmem
      rw [hmem, hend]
  | left _ hend =>
    rw [List.mem_singleton] at hmem
    rw [hmem, hend]

/-- A node has succeeded at the instant of the event that says so. -/
theorem finished_of_mem (h : Lived e events) {y : Event} (hmem : y ∈ events)
    (hy : y.status = .succeeded) : e.progress.finished = some y.time := by
  cases h with
  | pending => cases hmem
  | running _ hrun =>
    rw [List.mem_singleton] at hmem
    rw [← hmem, hy] at hrun
    cases hrun
  | @ended x z _ hrun _ _ _ _ hfinished =>
    rcases List.mem_cons.1 hmem with rfl | hmem
    · rw [hy] at hrun
      cases hrun
    · rw [List.mem_singleton] at hmem
      rw [hmem, hfinished]
  | left _ hend hleft =>
    rw [List.mem_singleton] at hmem
    rw [← hend, ← hmem, hy] at hleft
    rcases hleft with h | h <;> cases h

/-- A node that has ended has an event that says how. -/
theorem exists_terminal (h : Lived e events) (hend : e.status.isTerminal) :
    ∃ y ∈ events, y.status = e.status := by
  cases h with
  | pending hfresh => rw [hfresh.status] at hend; cases hend
  | running _ _ hrun => rw [hrun] at hend; cases hend
  | @ended x y _ _ _ hy => exact ⟨y, by simp, hy⟩
  | @left x _ hx => exact ⟨x, by simp, hx⟩

end Lived

/-! ## Replay -/

/-- Does an event again, if its node has the status that the event says it had before and can become
what the event says. -/
def Event.replay (statuses : String → Status) (e : Event) : Option (String → Status) :=
  if statuses e.path = e.previous ∧ e.previous.canBecome e.status then
    some (Function.update statuses e.path e.status)
  else none

/-- Does the events of a trace again, before which no node has started. -/
def replay (events : List Event) : Option (String → Status) :=
  events.foldlM Event.replay fun _ => .pending

theorem replay_concat {events : List Event} {statuses : String → Status} {x : Event}
    (h : replay events = some statuses) (hprevious : statuses x.path = x.previous)
    (hmove : x.previous.canBecome x.status) :
    replay (events ++ [x]) = some (Function.update statuses x.path x.status) := by
  rw [replay] at h
  rw [replay, List.foldlM_append, h]
  simp [Event.replay, hprevious, hmove]

namespace State

variable {setup : Setup} {tree : Node} {s t : State} {hand after : Option Address} {doing : Doing}
  {a b : Address} {f : Entry → Entry} {target : Status} {message : String}

/-! ## The invariant -/

/-- The trace tells how the nodes came to be as they are. -/
structure Chronicle (s : State) : Prop where
  node : ∀ a job, s.jobAt a = some job → Lived job.entry (eventsOf s.trace job.entry.path)
  /-- Every event is about a node. -/
  known : ∀ x ∈ s.trace, ∃ a job, s.jobAt a = some job ∧ job.entry.path = x.path
  /-- A node starts before the nodes below it. -/
  starts : ∀ a c job below x, s.jobAt a = some job → s.jobAt (a ++ c) = some below → c ≠ [] →
    x ∈ s.trace → x.path = below.entry.path → x.status = .running →
    ∃ y : Event, y.path = job.entry.path ∧ y.status = .running ∧ [y, x].Sublist s.trace
  /-- A node ends after the nodes below it that have started. -/
  ends : ∀ a c job below x y, s.jobAt a = some job → s.jobAt (a ++ c) = some below → c ≠ [] →
    x ∈ s.trace → x.path = below.entry.path → x.status = .running →
    y ∈ s.trace → y.path = job.entry.path → y.status.isTerminal →
    ∃ z : Event, z.path = below.entry.path ∧ z.status.isTerminal ∧ [z, y].Sublist s.trace
  /-- The events in order lead to the statuses of the nodes. -/
  replayed : ∃ statuses, replay s.trace = some statuses ∧
    (∀ a job, s.jobAt a = some job → statuses job.entry.path = job.status) ∧
    ∀ path, (∀ x ∈ s.trace, x.path ≠ path) → statuses path = .pending

/-- The change of a node's entry that comes with a move keeps what the node is called. -/
theorem Move.path (h : Move setup doing s a b f target message) (e : Entry) :
    (f e).path = e.path := by
  cases h <;> rfl

/-- After a move the events of the node fit what is recorded of it. -/
theorem Move.lived {job : Job} {events : List Event} {x : Event}
    (h : Move setup doing s a b f target message) (hjob : s.jobAt b = some job)
    (hlived : Lived job.entry events)
    (hx : x = eventOf ((f job.entry).moved target s.now) job.status s.now message) :
    Lived ((f job.entry).moved target s.now) (events ++ [x]) := by
  have hstatus {status : Status} (hb : s.statusAt b = some status) : job.entry.status = status := by
    rw [statusAt_of_jobAt hjob, Option.some.injEq] at hb
    exact hb
  have hrunning {job' : Job} {kids : List Live} (hkids : s.root.at? b = some (.mk job' kids))
      (hrun : job'.status = .running) : job.entry.status = .running := by
    refine hstatus ?_
    rw [statusAt_of_jobAt (jobAt_of_at? hkids), hrun]
  cases h with
  | begin hpending =>
    obtain ⟨hfresh, rfl⟩ := hlived.of_pending (hstatus hpending)
    refine .running (by rw [hx]; exact hstatus hpending) (by rw [hx]; exact Entry.status_moved ..)
      (Entry.status_moved ..) (by rw [hx]; rfl) hfresh.error hfresh.output
  | leave _ hpending homitted =>
    obtain ⟨hfresh, rfl⟩ := hlived.of_pending (hstatus hpending)
    have hleft : target = .skipped ∨ target = .cancelled := by
      cases homitted with
      | cancelled => exact .inr rfl
      | stopped =>
        split
        · exact .inr rfl
        · exact .inl rfl
      | _ => exact .inl rfl
    refine .left (by rw [hx]; exact hstatus hpending) (by rw [hx]; rfl) ?_ ?_ hfresh.error
      hfresh.output
    · rw [Entry.status_moved]
      exact hleft
    · have hstarted : job.entry.progress.started = none := by rw [hfresh.progress]
      rcases hleft with rfl | rfl <;> exact hstarted
  | succeed hkids hrun =>
    obtain ⟨y, rfl, hprevious, hy, hstarted, herror, _⟩ := hlived.of_running (hrunning hkids hrun)
    exact .ended hprevious hy (by rw [hx]; exact hrunning hkids hrun) (by rw [hx]; rfl)
      (.inl (Entry.status_moved ..)) hstarted (by rw [hx]; rfl)
      (by rw [Entry.status_moved]; simp [Entry.moved, herror]) fun _ => Entry.status_moved ..
  | fail hkids hrun =>
    obtain ⟨y, rfl, hprevious, hy, hstarted, _, houtput⟩ := hlived.of_running (hrunning hkids hrun)
    exact .ended hprevious hy (by rw [hx]; exact hrunning hkids hrun) (by rw [hx]; rfl)
      (.inr (.inl (Entry.status_moved ..))) hstarted (by rw [hx]; rfl)
      (by rw [Entry.status_moved]; simp [Entry.moved]) fun hnull => absurd houtput hnull
  | stop hkids hrun =>
    obtain ⟨y, rfl, hprevious, hy, hstarted, _, houtput⟩ := hlived.of_running (hrunning hkids hrun)
    exact .ended hprevious hy (by rw [hx]; exact hrunning hkids hrun) (by rw [hx]; rfl)
      (.inr (.inr (Entry.status_moved ..))) hstarted (by rw [hx]; rfl)
      (by rw [Entry.status_moved]; simp [Entry.moved]) fun hnull => absurd houtput hnull

/-- A node that starts is the one in hand. -/
theorem Move.eq_of_running (h : Move setup doing s a b f target message)
    (htarget : target = .running) : b = a := by
  cases h with
  | leave _ _ homitted =>
    have := homitted.isTerminal
    rw [htarget] at this
    cases this
  | _ => rfl

/-- Below a node that ends nothing runs. -/
theorem Move.not_running_below {c : Address} (h : Move setup doing s a b f target message)
    (hcontrol : Control setup s (some a)) (hc : c ≠ []) :
    s.statusAt (b ++ c) ≠ some .running := by
  obtain ⟨d, hd⟩ := h.prefix
  intro hrun
  rw [← hd, List.append_assoc] at hrun
  exact hcontrol.inactive_below_hand (by simp [hc]) (.inr (.inr (.inr hrun)))

namespace Chronicle

theorem start (setup : Setup) (tree : Node) : Chronicle (start setup tree) where
  node a job hjob := by
    obtain ⟨path, node, rfl, _⟩ := Live.jobAt_ofNode hjob
    exact .pending ⟨rfl, rfl, rfl⟩
  known x hx := by cases hx
  starts _ _ _ _ x _ _ _ hx := by cases hx
  ends _ _ _ _ x _ _ _ _ hx := by cases hx
  replayed := by
    refine ⟨fun _ => .pending, rfl, fun a job hjob => ?_, fun _ _ => rfl⟩
    obtain ⟨path, node, rfl, _⟩ := Live.jobAt_ofNode hjob
    rfl

section Quiet

variable {job old : Job} {x : Event}

/-- Where no node is moved, of a node that is not new at most the inputs change. -/
theorem entry_of_quiet (hquiet : Quiet s t) (hjob : t.jobAt a = some job)
    (hold : s.jobAt a = some old) : job.entry = { old.entry with inputs := job.entry.inputs } := by
  obtain ⟨job', hjob', _, hentry, _⟩ := hquiet.entry a old hold
  rw [hjob, Option.some.injEq] at hjob'
  subst hjob'
  exact hentry

theorem path_of_quiet (hquiet : Quiet s t) (hjob : t.jobAt a = some job)
    (hold : s.jobAt a = some old) : job.entry.path = old.entry.path := by
  rw [entry_of_quiet hquiet hjob hold]

/-- A node with an event is not new. -/
theorem jobAt_of_event (h : Chronicle s) (hshape : Shape tree t) (hquiet : Quiet s t)
    (hx : x ∈ s.trace) (hjob : t.jobAt a = some job) (hpath : x.path = job.entry.path) :
    ∃ old, s.jobAt a = some old := by
  obtain ⟨b, old, hb, hbpath⟩ := h.known x hx
  obtain ⟨new, hnew, _⟩ := hquiet.entry b old hb
  have heq := hshape.path_inj hjob hnew (by rw [path_of_quiet hquiet hnew hb, hbpath, hpath])
  exact ⟨old, heq ▸ hb⟩

theorem lived_quiet (h : Chronicle s) (hshape : Shape tree t) (hquiet : Quiet s t)
    (hjob : t.jobAt a = some job) : Lived job.entry (eventsOf s.trace job.entry.path) := by
  cases hold : s.jobAt a with
  | some old =>
    rw [path_of_quiet hquiet hjob hold]
    exact (h.node a old hold).of_inputs (entry_of_quiet hquiet hjob hold)
  | none =>
    have hnil : eventsOf s.trace job.entry.path = [] := by
      rw [eventsOf, List.filter_eq_nil_iff]
      intro x hx hpath
      rw [decide_eq_true_eq] at hpath
      obtain ⟨old, hb⟩ := h.jobAt_of_event hshape hquiet hx hjob hpath
      rw [hold] at hb
      cases hb
    rw [hnil]
    exact .pending (hquiet.fresh a job hold hjob)

theorem replayed_quiet (h : Chronicle s) (hshape : Shape tree t) (hquiet : Quiet s t) :
    ∃ statuses, replay s.trace = some statuses ∧
      (∀ a job, t.jobAt a = some job → statuses job.entry.path = job.status) ∧
      ∀ path, (∀ x ∈ s.trace, x.path ≠ path) → statuses path = .pending := by
  obtain ⟨statuses, hreplay, hstatuses, hpending⟩ := h.replayed
  refine ⟨statuses, hreplay, fun a job hjob => ?_, hpending⟩
  cases hold : s.jobAt a with
  | some old =>
    rw [Job.status, entry_of_quiet hquiet hjob hold]
    exact hstatuses a old hold
  | none =>
    rw [hpending, Job.status, (hquiet.fresh a job hold hjob).status]
    intro x hx hpath
    obtain ⟨old, hb⟩ := h.jobAt_of_event hshape hquiet hx hjob hpath
    rw [hold] at hb
    cases hb

/-- What has not been moved has the same events. -/
theorem quiet (h : Chronicle s) (hshape : Shape tree t) (hquiet : Quiet s t) : Chronicle t := by
  constructor
  · intro a job hjob
    rw [hquiet.trace]
    exact h.lived_quiet hshape hquiet hjob
  · intro x hx
    rw [hquiet.trace] at hx
    obtain ⟨a, old, ha, hxpath⟩ := h.known x hx
    obtain ⟨job, hjob, _⟩ := hquiet.entry a old ha
    exact ⟨a, job, hjob, (path_of_quiet hquiet hjob ha).trans hxpath⟩
  · intro a c job below x hjob hbelow hc hx hxpath hstatus
    rw [hquiet.trace] at hx
    obtain ⟨oldBelow, hbelow'⟩ := h.jobAt_of_event hshape hquiet hx hbelow hxpath
    obtain ⟨old, hold⟩ := jobAt_of_append hbelow'
    rw [path_of_quiet hquiet hjob hold, hquiet.trace]
    rw [path_of_quiet hquiet hbelow hbelow'] at hxpath
    exact h.starts a c old oldBelow x hold hbelow' hc hx hxpath hstatus
  · intro a c job below x y hjob hbelow hc hx hxpath hstatus hy hypath hend
    rw [hquiet.trace] at hx hy
    obtain ⟨oldBelow, hbelow'⟩ := h.jobAt_of_event hshape hquiet hx hbelow hxpath
    obtain ⟨old, hold⟩ := jobAt_of_append hbelow'
    rw [path_of_quiet hquiet hbelow hbelow', hquiet.trace]
    rw [path_of_quiet hquiet hbelow hbelow'] at hxpath
    rw [path_of_quiet hquiet hjob hold] at hypath
    exact h.ends a c old oldBelow x y hold hbelow' hc hx hxpath hstatus hy hypath hend
  · rw [hquiet.trace]
    exact h.replayed_quiet hshape hquiet

end Quiet

end Chronicle

/-! ## Moves -/

/-- A node changes, the other nodes stay as they are, and the trace has one event more that tells of
the change. -/
structure Told (s t : State) (b : Address) (job new : Job) (e : Event) : Prop where
  before : s.jobAt b = some job
  after : t.jobAt b = some new
  others : ∀ c, c ≠ b → t.jobAt c = s.jobAt c
  trace : t.trace = s.trace ++ [e]
  path : e.path = job.entry.path
  path' : e.path = new.entry.path
  previous : e.previous = job.status
  status : e.status = new.status
  canBecome : job.status.canBecome new.status

/-- A move is told by an event. -/
theorem Move.told (h : Move setup doing s a b f target message)
    (ht : t = (s.modifyEntry b f).move b target message) :
    ∃ job new e, Told s t b job new e ∧ e.status = target ∧
      ∀ events, Lived job.entry events → Lived new.entry (events ++ [e]) := by
  obtain ⟨job, hjob, hlegal, _, hjobs, htrace⟩ := h.moved ht
  refine ⟨job, ({ job with entry := f job.entry } : Job).moved target s.now,
    eventOf ((f job.entry).moved target s.now) job.status s.now message,
    ⟨hjob, by rw [hjobs, if_pos rfl], fun c hc => by rw [hjobs, if_neg hc], htrace,
      h.path job.entry, rfl, rfl, rfl, ?_⟩, Entry.status_moved .., fun events hlived => ?_⟩
  · rw [Job.status_moved]
    exact hlegal
  · exact h.lived hjob hlived rfl

namespace Told

variable {job new : Job} {e : Event} (h : Told s t b job new e)

include h

/-- Nodes are called as before. -/
theorem exists_before {c : Address} {after : Job} (hafter : t.jobAt c = some after) :
    ∃ old, s.jobAt c = some old ∧ old.entry.path = after.entry.path := by
  by_cases hc : c = b
  · subst hc
    rw [h.after, Option.some.injEq] at hafter
    subst hafter
    exact ⟨job, h.before, h.path.symm.trans h.path'⟩
  · rw [h.others c hc] at hafter
    exact ⟨after, hafter, rfl⟩

/-- The event is about no other node. -/
theorem path_ne (hshape : Shape tree s) {c : Address} {old : Job} (hold : s.jobAt c = some old)
    (hc : c ≠ b) : e.path ≠ old.entry.path := by
  intro heq
  exact hc (hshape.path_inj hold h.before (heq.symm.trans h.path))

theorem mem_trace {x : Event} : x ∈ t.trace ↔ x ∈ s.trace ∨ x = e := by
  rw [h.trace, List.mem_append, List.mem_singleton]

/-- An earlier event comes before the new one. -/
theorem sublist_last {x : Event} (hx : x ∈ s.trace) : [x, e].Sublist t.trace := by
  rw [h.trace]
  exact (List.singleton_sublist.2 hx).append (List.Sublist.refl [e])

theorem sublist {events : List Event} (hevents : events.Sublist s.trace) :
    events.Sublist t.trace := by
  rw [h.trace]
  exact hevents.trans (List.sublist_append_left _ _)

/-- The events of a node still fit what is recorded of it, if those of the node do that changes. -/
theorem node (hs : Chronicle s) (hshape : Shape tree s)
    (hlived : ∀ events, Lived job.entry events → Lived new.entry (events ++ [e])) {c : Address}
    {after : Job} (hafter : t.jobAt c = some after) :
    Lived after.entry (eventsOf t.trace after.entry.path) := by
  by_cases hc : c = b
  · subst hc
    rw [h.after, Option.some.injEq] at hafter
    subst hafter
    rw [← h.path', h.trace, eventsOf_concat_of_eq, h.path]
    exact hlived _ (hs.node c job h.before)
  · rw [h.others c hc] at hafter
    rw [h.trace, eventsOf_concat_of_ne _ (h.path_ne hshape hafter hc)]
    exact hs.node c after hafter

theorem known (hs : Chronicle s) {x : Event} (hx : x ∈ t.trace) :
    ∃ c after, t.jobAt c = some after ∧ after.entry.path = x.path := by
  rcases h.mem_trace.1 hx with hx | rfl
  · obtain ⟨c, old, hold, hpath⟩ := hs.known x hx
    by_cases hc : c = b
    · subst hc
      rw [h.before, Option.some.injEq] at hold
      subst hold
      exact ⟨c, new, h.after, h.path'.symm.trans (h.path.trans hpath)⟩
    · exact ⟨c, old, by rw [h.others c hc, hold], hpath⟩
  · exact ⟨b, new, h.after, h.path'.symm⟩

/-- The events in order still lead to the statuses of the nodes. -/
theorem replayed (hs : Chronicle s) (hshape : Shape tree s) :
    ∃ statuses, replay t.trace = some statuses ∧
      (∀ c after, t.jobAt c = some after → statuses after.entry.path = after.status) ∧
      ∀ path, (∀ x ∈ t.trace, x.path ≠ path) → statuses path = .pending := by
  obtain ⟨statuses, hreplay, hstatuses, hpending⟩ := hs.replayed
  have hprevious : statuses e.path = e.previous := by
    rw [h.path, h.previous]
    exact hstatuses b job h.before
  have hlegal : e.previous.canBecome e.status := by
    rw [h.previous, h.status]
    exact h.canBecome
  refine ⟨Function.update statuses e.path e.status, ?_, fun c after hafter => ?_,
    fun path hpath => ?_⟩
  · rw [h.trace]
    exact replay_concat hreplay hprevious hlegal
  · by_cases hc : c = b
    · subst hc
      rw [h.after, Option.some.injEq] at hafter
      subst hafter
      rw [← h.path', ← h.status, Function.update_self]
    · rw [h.others c hc] at hafter
      rw [Function.update_of_ne (h.path_ne hshape hafter hc).symm]
      exact hstatuses c after hafter
  · have hnot : path ≠ e.path := (hpath e (h.mem_trace.2 (.inr rfl))).symm
    rw [Function.update_of_ne hnot]
    exact hpending path fun x hx => hpath x (h.mem_trace.2 (.inl hx))

end Told

section Order

variable {job new : Job} {e x y : Event} {c d : Address} {above below : Job}

/-- The only event of a node above one that starts is that it has started. -/
theorem Move.events_above (hmove : Move setup doing s a b f target message) (hs : Chronicle s)
    (hcontrol : Control setup s (some a)) (htarget : target = .running) (hb : b = c ++ d)
    (hd : d ≠ []) (habove : s.jobAt c = some above) :
    ∃ y : Event, eventsOf s.trace above.entry.path = [y] ∧ y.status = .running := by
  have hrun := hcontrol.statusAt_above hd (.inl (by rw [← hb, hmove.eq_of_running htarget]))
  rw [statusAt_of_jobAt habove, Option.some.injEq] at hrun
  obtain ⟨y, hevents, _, hstatus, _⟩ := (hs.node c above habove).of_running hrun
  exact ⟨y, hevents, hstatus⟩

/-- Nodes still start before the nodes below them: above a node that starts everything runs. -/
theorem Move.starts (hmove : Move setup doing s a b f target message) (h : Told s t b job new e)
    (htarget : e.status = target) (hs : Chronicle s) (hcontrol : Control setup s (some a))
    (hshape : Shape tree s) (habove : t.jobAt c = some above) (hbelow : t.jobAt (c ++ d) = some below)
    (hd : d ≠ []) (hx : x ∈ t.trace) (hxpath : x.path = below.entry.path)
    (hxrun : x.status = .running) :
    ∃ y : Event, y.path = above.entry.path ∧ y.status = .running ∧ [y, x].Sublist t.trace := by
  obtain ⟨old, hold, hpath⟩ := h.exists_before habove
  obtain ⟨oldBelow, holdBelow, hpathBelow⟩ := h.exists_before hbelow
  rw [← hpath]
  rw [← hpathBelow] at hxpath
  rcases h.mem_trace.1 hx with hx | rfl
  · obtain ⟨y, hy, hyrun, hsub⟩ := hs.starts c d old oldBelow x hold holdBelow hd hx hxpath hxrun
    exact ⟨y, hy, hyrun, h.sublist hsub⟩
  · have hb : c ++ d = b := hshape.path_inj holdBelow h.before (hxpath.symm.trans h.path)
    obtain ⟨y, hevents, hyrun⟩ :=
      hmove.events_above hs hcontrol (htarget.symm.trans hxrun) hb.symm hd hold
    obtain ⟨hy, hypath⟩ := mem_eventsOf.1 (by rw [hevents]; exact List.mem_singleton_self y)
    exact ⟨y, hypath, hyrun, h.sublist_last hy⟩

/-- Nodes still end after the nodes below them: a node that starts does not lie below one that has
ended, and below a node that ends nothing runs. -/
theorem Move.ends (hmove : Move setup doing s a b f target message) (h : Told s t b job new e)
    (htarget : e.status = target) (hs : Chronicle s) (hcontrol : Control setup s (some a))
    (hshape : Shape tree s) (habove : t.jobAt c = some above) (hbelow : t.jobAt (c ++ d) = some below)
    (hd : d ≠ []) (hx : x ∈ t.trace) (hxpath : x.path = below.entry.path)
    (hxrun : x.status = .running) (hy : y ∈ t.trace) (hypath : y.path = above.entry.path)
    (hyend : y.status.isTerminal) :
    ∃ z : Event, z.path = below.entry.path ∧ z.status.isTerminal ∧ [z, y].Sublist t.trace := by
  obtain ⟨old, hold, hpath⟩ := h.exists_before habove
  obtain ⟨oldBelow, holdBelow, hpathBelow⟩ := h.exists_before hbelow
  rw [← hpathBelow] at hxpath ⊢
  rw [← hpath] at hypath
  rcases h.mem_trace.1 hy with hy | rfl
  · rcases h.mem_trace.1 hx with hx | rfl
    · obtain ⟨z, hz, hzend, hsub⟩ :=
        hs.ends c d old oldBelow x y hold holdBelow hd hx hxpath hxrun hy hypath hyend
      exact ⟨z, hz, hzend, h.sublist hsub⟩
    · have hb : c ++ d = b := hshape.path_inj holdBelow h.before (hxpath.symm.trans h.path)
      obtain ⟨w, hevents, hwrun⟩ :=
        hmove.events_above hs hcontrol (htarget.symm.trans hxrun) hb.symm hd hold
      have hyevents := mem_eventsOf.2 ⟨hy, hypath⟩
      rw [hevents, List.mem_singleton] at hyevents
      rw [hyevents, hwrun] at hyend
      cases hyend
  · have hc : c = b := hshape.path_inj hold h.before (hypath.symm.trans h.path)
    subst hc
    rcases h.mem_trace.1 hx with hx | rfl
    · have hnot : oldBelow.entry.status ≠ .running := by
        intro hrun
        refine hmove.not_running_below hcontrol hd ?_
        rw [statusAt_of_jobAt holdBelow]
        exact congrArg some hrun
      obtain ⟨z, hz, hzend⟩ := (hs.node _ oldBelow holdBelow).exists_end hnot
        (mem_eventsOf.2 ⟨hx, hxpath⟩) hxrun
      obtain ⟨hzmem, hzpath⟩ := mem_eventsOf.1 hz
      exact ⟨z, hzpath, hzend, h.sublist_last hzmem⟩
    · rw [hxrun] at hyend
      cases hyend

end Order

namespace Chronicle

/-- After a move the trace has one event more. -/
theorem move (h : Chronicle s) (hcontrol : Control setup s (some a)) (hshape : Shape tree s)
    (hmove : Move setup doing s a b f target message)
    (ht : t = (s.modifyEntry b f).move b target message) : Chronicle t := by
  obtain ⟨job, new, e, htold, htarget, hlived⟩ := hmove.told ht
  exact ⟨fun _ _ => htold.node h hshape hlived, fun _ => htold.known h,
    fun _ _ _ _ _ => hmove.starts htold htarget h hcontrol hshape,
    fun _ _ _ _ _ _ => hmove.ends htold htarget h hcontrol hshape, htold.replayed h hshape⟩

theorem change (h : Chronicle s) (hcontrol : Control setup s hand) (hshape : Shape tree s)
    (hchange : Change setup doing s hand t after) : Chronicle t := by
  rcases hchange.move_or_quiet hshape with ⟨a, b, f, target, message, rfl, _, hmove, ht⟩ | hquiet
  · exact h.move hcontrol hshape hmove ht
  · exact h.quiet (hshape.change hchange) hquiet

end Chronicle

/-- The trace of every state of a run tells how the nodes came to be as they are. -/
theorem Reached.chronicle (h : Reached setup tree s hand) (htree : tree.Sound) : Chronicle s := by
  induction h with
  | start => exact .start setup tree
  | change hreached hchange ih =>
    exact ih.change (hreached.control htree) (hreached.shape htree) hchange

end State
end Workflow
