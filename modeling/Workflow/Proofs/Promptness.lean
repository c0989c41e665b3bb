import Workflow.Proofs.Races
import Workflow.Proofs.Run.Punctual

/-!
# How promptly runs stop

No call is waited for once it is to stop. So a run whose end is asked for comes to its end at that
instant, and a race succeeds at the instant at which a candidate does, whatever the others wait for.

* `State.PromptlyWon` says when a race ends that a candidate has won, `State.Final.promptlyWon` that
  every race that succeeds ends so.
* `State.Promptness` collects this with the instants of a run that is to end, and
  `Setup.promptness_of_execute` says it of runs.
-/

namespace Workflow

namespace State

variable {setup : Setup} {tree : Node} {s t : State} {a : Address} {job : Job} {kids : List Live}

/-! ## Runs that are to end -/

/-- A run that is to end at an instant is not at a later instant, unless it starts later. -/
theorem now_le_of_cancelAt (htree : tree.Sound) (hlimit : setup.limit ≠ 0) {c : Int}
    (hcancelAt : setup.cancelAt = some c) (steps : Nat) :
    ((start setup tree).runWithin setup steps).now ≤ max c setup.startAt := by
  refine Reached.start.runWithin_induction (P := fun s => s.now ≤ max c setup.startAt) htree
    (le_max_right ..) (fun s t hr hstep hs => ?_) steps
  by_cases hagenda : s.agenda = []
  · obtain ⟨time, htime, rfl⟩ := eq_jump_of_step hstep hagenda
    have hcancelled : s.cancelled = false := by
      cases hc : s.cancelled with
      | false => rfl
      | true => exact absurd hagenda (hr.agenda_ne_nil htree hlimit hc hstep)
    have hmem : c ∈ s.times setup := by
      rw [times, hcancelled, hcancelAt]
      exact List.mem_append_right _ (List.mem_singleton_self c)
    have hle : time ≤ c := (List.min?_eq_some_iff.1 htime).2 c hmem
    rw [now_jump]
    exact max_le hs (hle.trans (le_max_left ..))
  · rw [(hr.advances htree hstep hagenda).now]
    exact hs

/-- No event of a run that is to end comes after the instant at which its end was asked for. -/
theorem Final.time_le (h : Final setup tree s) {steps : Nat}
    (hcancelled : ((start setup tree).runWithin setup steps).cancelled = true) {x : Event}
    (hx : x ∈ s.trace) : x.time ≤ ((start setup tree).runWithin setup steps).now := by
  rw [← (h.frozen steps hcancelled).now]
  exact h.punctual.past x hx

/-! ## Races that are won -/

/-- The race has succeeded by the candidate at a position, and the event tells of it. The trace is
divided into what was before the event and what came after it. -/
structure PromptlyWon (s : State) (a : Address) (job : Job) (kids : List Live) (w : Nat)
    (before : List Event) (x : Event) (later : List Event) : Prop where
  trace : s.trace = before ++ x :: later
  /-- The race succeeds at the instant at which its winner has. -/
  winner : job.winner = some w ∧ x.path = job.entry.path ∧ x.status = .succeeded ∧
    ∃ kid e, kids[w]? = some kid ∧ x.message = s!"won by {kid.entry.path}" ∧
      e ∈ before ∧ e.path = kid.entry.path ∧ e.status = .succeeded ∧ e.time = x.time
  /-- Every node below the race has ended by then. -/
  below : ∀ i c below, s.jobAt (a ++ i :: c) = some below → below.status.isTerminal ∧
    (∃ y ∈ before, y.path = below.entry.path ∧ y.status = below.status ∧ y.time ≤ x.time) ∧
      ∀ y ∈ later, y.path ≠ below.entry.path

theorem Final.promptlyWon (h : Final setup tree s) (hkids : s.root.at? a = some (.mk job kids))
    (hrace : job.node.kind = .race) (hne : kids ≠ []) (hstatus : job.status = .succeeded) :
    ∃ w before x later, PromptlyWon s a job kids w before x later := by
  have hshape := h.shape
  have hchronicle := h.chronicle
  have hjob := jobAt_of_at? hkids
  have harity : job.arity ≠ 0 := by
    rw [← hshape.length_kids hkids]
    exact (List.length_pos_iff.2 hne).ne'
  obtain ⟨w, winner, hcrowned⟩ :=
    (h.reached.contest h.sound).crowned a job hjob hrace hstatus harity
  obtain ⟨x, hx, hxPath, hxStatus, hxMessage⟩ := hcrowned.event
  obtain ⟨before, later, htrace⟩ := List.append_of_mem hx
  -- what says how a node below has ended comes before the event
  have hearlier {i : Nat} {c : Address} {node : Job} {y : Event}
      (hnode : s.jobAt (a ++ i :: c) = some node) (hy : y ∈ s.trace)
      (hpath : y.path = node.entry.path) : y ∈ before ∧ y.time ≤ x.time := by
    have hmem : y ∈ before := by
      rw [htrace, List.mem_append, List.mem_cons] at hy
      rcases hy with hy | rfl | hy
      · exact hy
      · have := hshape.path_inj hjob hnode (hxPath.symm.trans hpath)
        simp at this
      · exact absurd hpath (h.reached.nothing_later h.sound htrace hjob hxPath hxStatus hnode hy)
    have hordered := h.punctual.ordered
    rw [htrace, List.pairwise_append] at hordered
    exact ⟨hmem, hordered.2.2 y hmem x List.mem_cons_self⟩
  have hcandidate := hcrowned.candidate
  rw [jobAt_concat hkids] at hcandidate
  obtain ⟨kid, hkid, rfl⟩ := Option.map_eq_some_iff.1 hcandidate
  obtain ⟨e, he, heStatus⟩ :=
    (hchronicle.node _ _ hcrowned.candidate).exists_succeeded hcrowned.status
  obtain ⟨heMem, hePath⟩ := mem_eventsOf.1 he
  have htime : e.time = x.time := by
    have hrecorded := h.punctual.ended a w job kid.job hjob hrace hstatus hcrowned.candidate
      hcrowned.status
    rw [(hchronicle.node _ _ hcrowned.candidate).finished_of_mem he heStatus,
      (hchronicle.node _ _ hjob).finished_of_mem (mem_eventsOf.2 ⟨hx, hxPath⟩) hxStatus] at hrecorded
    exact Option.some.inj hrecorded
  refine ⟨w, before, x, later, htrace, ⟨?_, hxPath, hxStatus, kid, e, hkid, hxMessage,
    (hearlier hcrowned.candidate heMem hePath).1, hePath, heStatus, htime⟩,
    fun i c below hbelow => ⟨?_, ?_, fun y hy =>
      h.reached.nothing_later h.sound htrace hjob hxPath hxStatus hbelow hy⟩⟩
  · rw [← winnerAt_of_jobAt hjob]
    exact hcrowned.winner
  · exact h.control.isTerminal_below (List.prefix_append a (i :: c)) (statusAt_of_jobAt hjob)
      (by rw [hstatus]; rfl) hbelow
  · have hend : below.status.isTerminal :=
      h.control.isTerminal_below (List.prefix_append a (i :: c)) (statusAt_of_jobAt hjob)
        (by rw [hstatus]; rfl) hbelow
    obtain ⟨y, hy, hyStatus⟩ := (hchronicle.node _ below hbelow).exists_terminal hend
    obtain ⟨hyMem, hyPath⟩ := mem_eventsOf.1 hy
    obtain ⟨hyBefore, hyTime⟩ := hearlier hbelow hyMem hyPath
    exact ⟨y, hyBefore, hyPath, hyStatus, hyTime⟩

/-! ## Runs -/

/-- How promptly a run of the tree stops what is to stop. -/
structure Promptness (setup : Setup) (tree : Node) (s : State) : Prop where
  /-- Once its end has been asked for the run comes to its end, and no event is later. -/
  cancelled : ∀ steps, ((start setup tree).runWithin setup steps).cancelled = true →
    s.outcome = .finished s.result ∧
      ∀ x ∈ s.trace, x.time ≤ ((start setup tree).runWithin setup steps).now
  /-- A run that is to end at an instant comes to its end by then, or when it starts. -/
  cancelAt : ∀ time, setup.cancelAt = some time → s.outcome = .finished s.result ∧
    ∀ x ∈ s.trace, x.time ≤ max time setup.startAt
  /-- A race succeeds when its winner does, and by then everything below it has ended. -/
  race : ∀ a job kids, s.root.at? a = some (.mk job kids) → job.node.kind = .race → kids ≠ [] →
    job.status = .succeeded → ∃ w before x later, PromptlyWon s a job kids w before x later

theorem Final.promptness (h : Final setup tree s) : Promptness setup tree s where
  cancelled steps hcancelled :=
    ⟨(h.frozen steps hcancelled).finished, fun _ hx => h.time_le hcancelled hx⟩
  cancelAt time hcancelAt := by
    obtain ⟨last, hlast⟩ := h.exists_eq_runWithin
    refine ⟨?_, fun x hx => ?_⟩
    · rcases h.finished_or_waits with hfinished | ⟨_, hwaits⟩
      · exact hfinished
      · rw [hwaits.cancelAt] at hcancelAt
        cases hcancelAt
    · refine (h.punctual.past x hx).trans ?_
      rw [hlast]
      exact now_le_of_cancelAt h.sound h.limit hcancelAt last
  race _ _ _ hkids hrace hne hstatus := h.promptlyWon hkids hrace hne hstatus

end State

/-- A run whose end is asked for at an instant comes to its end then, and none of its events is later. A
race succeeds at the instant at which its winner does, and whatever lies below the race has ended by
then. -/
theorem Setup.promptness_of_execute {setup : Setup} {tree : Node} {separator : String}
    {ids rest : IdSource} {s : State} (htree : tree.Sound)
    (h : setup.execute tree separator ids = .ok (s, rest)) :
    ∃ prepared, tree.prepare separator setup.previous ids = .ok (prepared, rest) ∧
      State.Promptness setup prepared s := by
  obtain ⟨prepared, hprepare, hfinal⟩ := execute_final htree h
  exact ⟨prepared, hprepare, hfinal.promptness⟩

/-- A race is won although a call below another candidate never answers, and the run is cancelled while
the step after the race waits for such a call. -/
theorem Setup.promptness_of_execute_sequence : ∃ setup s rest prepared,
    setup = ({ executor := .answering (.string "done"), cancelAt := some 7 } : Setup) ∧
    setup.execute (.mk {} .sequence [.mk {} (.race none)
      [.mk {} .sequence [.mk {} (.step "slow" none) []],
        .mk { inputs := [("text", .literal .null)] } (.step "quick" none) []],
      .mk {} (.step "slow" none) []]) " > " .counting = .ok (s, rest) ∧
    s.statusAt [0] = some .succeeded ∧ s.statusAt [0, 0, 0] = some .cancelled ∧
    s.statusAt [1] = some .cancelled ∧ State.Promptness setup prepared s := by
  have hsound : (Node.mk {} .sequence [.mk {} (.race none)
      [.mk {} .sequence [.mk {} (.step "slow" none) []],
        .mk { inputs := [("text", .literal .null)] } (.step "quick" none) []],
      .mk {} (.step "slow" none) []]).Sound := by
    simp [Node.Sound, Node.walk, Node.walkList, Node.Fits, Node.work, Node.children, Work.limit]
  have h : ({ executor := .answering (.string "done"), cancelAt := some 7 } : Setup).execute
      (.mk {} .sequence [.mk {} (.race none)
        [.mk {} .sequence [.mk {} (.step "slow" none) []],
          .mk { inputs := [("text", .literal .null)] } (.step "quick" none) []],
        .mk {} (.step "slow" none) []]) " > " .counting = .ok (_, _) := rfl
  obtain ⟨prepared, _, hprompt⟩ := promptness_of_execute hsound h
  refine ⟨_, _, _, prepared, rfl, h, ?_, ?_, ?_, hprompt⟩
  all_goals
    rw [Setup.run_eq 40 (Option.isNone_iff_eq_none.1 (by decide +kernel))]
    decide +kernel

end Workflow
