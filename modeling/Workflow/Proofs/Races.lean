import Workflow.Proofs.Containers
import Workflow.Proofs.Freeze
import Workflow.Proofs.Run.Decided
import Workflow.Proofs.Run.Hushed

/-!
# Races

A race goes to the candidate that succeeds first. Nothing below it starts after that, and what has not
started by then is left out. A race that no candidate wins fails if all candidates have failed; else it
was stopped because of the run or because of a race around it.

* `State.Won` says how a race ends that a candidate has won, `State.Lost` how one that has none ends.
* `State.Final.raced` says that there are no other ends.
* `Setup.raced_of_execute` says so of the races of a run.
-/

namespace Workflow

namespace State

variable {setup : Setup} {tree : Node} {s : State} {a : Address} {job : Job} {kids : List Live}

/-! ## Races that are won -/

/-- The race has been won by the candidate at a position, whose success the event tells of. The trace
is divided into what was before the event and what came after it. -/
structure Won (s : State) (a : Address) (job : Job) (kids : List Live) (w : Nat)
    (before : List Event) (e : Event) (later : List Event) : Prop where
  /-- The race has succeeded with the output of its winner, and the event of its end names it. -/
  result : ∃ kid, kids[w]? = some kid ∧ kid.status = .succeeded ∧ job.status = .succeeded ∧
    job.entry.output = kid.entry.output ∧
    ∃ x ∈ s.trace, x.path = job.entry.path ∧ x.status = .succeeded ∧
      x.message = s!"won by {kid.entry.path}"
  /-- The winner is the candidate that succeeded first, and nothing below the race starts later. -/
  decided : Decided s a w before e later
  /-- What had not started when the race was won is left out. -/
  left : ∀ i c below, s.jobAt (a ++ i :: c) = some below →
    (∀ x ∈ before ++ [e], x.path ≠ below.entry.path) →
    below.status = .skipped ∨ (below.status = .cancelled ∧ s.cancelled = true)

/-- A race that a candidate has succeeded in is won. -/
theorem Final.won (h : Final setup tree s) (hkids : s.root.at? a = some (.mk job kids))
    (hrace : job.node.kind = .race) {kid : Live} (hmem : kid ∈ kids)
    (hkid : kid.status = .succeeded) : ∃ w before e later, Won s a job kids w before e later := by
  have hshape := h.shape
  have hjob := jobAt_of_at? hkids
  have hagenda := (h.reached.ended_or_waits h.sound h.limit h.step).1
  obtain ⟨i, hi⟩ := List.getElem?_of_mem hmem
  have hsucceeded : s.statusAt (a ++ [i]) = some .succeeded := by
    rw [statusAt_concat hkids, hi, Option.map_some, hkid]
  -- the success has been counted
  have hwinner : job.winner.isSome := by
    refine (h.reached.reasons h.sound).won a i job hjob hrace hsucceeded ?_
    rw [active_iff_of_agenda hagenda, hsucceeded]
    decide
  obtain ⟨w, hw⟩ := Option.isSome_iff_exists.1 hwinner
  have hstatus := h.status_of_winner hjob hw
  have hcontest := h.reached.contest h.sound
  obtain ⟨before, e, later, hdecided⟩ :=
    hcontest.won a w ((winnerAt_of_jobAt hjob).trans hw)
  have harity : job.arity ≠ 0 := by
    rw [← hshape.length_kids hkids]
    exact (List.length_pos_iff.2 (List.ne_nil_of_mem hmem)).ne'
  obtain ⟨v, winner, hcrowned⟩ := hcontest.crowned a job hjob hrace hstatus harity
  have hvw : v = w := by
    have hv := hcrowned.winner
    rw [winnerAt_of_jobAt hjob, hw] at hv
    exact (Option.some.inj hv).symm
  subst hvw
  have hcandidate := hcrowned.candidate
  rw [jobAt_concat hkids] at hcandidate
  obtain ⟨live, hlive, rfl⟩ := Option.map_eq_some_iff.1 hcandidate
  refine ⟨v, before, e, later, ⟨live, hlive, hcrowned.status, hstatus, hcrowned.output,
    hcrowned.event⟩, hdecided, fun i c below hbelow hnone => ?_⟩
  rcases hdecided.spared i c below hbelow hnone with hpending | hskipped | hcancelled
  · refine absurd ((statusAt_of_jobAt hbelow).trans (congrArg some hpending)) ?_
    exact h.control.closed_none (List.prefix_append ..)
      ((statusAt_of_jobAt hjob).trans (congrArg some hstatus)) rfl
  · exact .inl hskipped
  · exact .inr hcancelled

/-! ## Races without a winner -/

/-- A candidate of a race around the node at an address has succeeded. -/
def Overtaken (s : State) (a : Address) : Prop :=
  ∃ above i below race w, a = above ++ i :: below ∧ s.jobAt above = some race ∧
    race.node.kind = .race ∧ s.statusAt (above ++ [w]) = some .succeeded

/-- A race around a node is won only by a candidate that has succeeded. -/
theorem Reached.overtaken {hand : Option Address} (h : Reached setup tree s hand)
    (htree : tree.Sound) (hhalted : s.Halted a) : s.Overtaken a := by
  obtain ⟨above, i, below, race, frame, ha, hrace, hframe, hwinner⟩ := hhalted
  obtain ⟨w, hw⟩ := Option.isSome_iff_exists.1 hwinner
  have hreason := (h.reasons htree).winner above race w hrace
    ((Job.winner_of_frame? hframe).trans hw)
  exact ⟨above, i, below, race, w, ha, hrace, hreason.1, hreason.2.2⟩

/-- In the run of the tree the node at an address is stopped in a step after which the run is to end
or a race around the node has been won. -/
def StoppedInRun (setup : Setup) (tree : Node) (a : Address) : Prop :=
  ∃ steps, ((start setup tree).runWithin setup steps).statusAt a ≠ some .cancelled ∧
    ((start setup tree).runWithin setup (steps + 1)).statusAt a = some .cancelled ∧
    (((start setup tree).runWithin setup (steps + 1)).cancelled = true ∨
      ((start setup tree).runWithin setup (steps + 1)).Overtaken a)

/-- A node that is cancelled has been stopped in some step. -/
theorem stoppedInRun (htree : tree.Sound) (steps : Nat)
    (h : ((start setup tree).runWithin setup steps).statusAt a = some .cancelled) :
    StoppedInRun setup tree a := by
  induction steps with
  | zero =>
    obtain ⟨job, hjob, hstatus⟩ := jobAt_of_statusAt h
    obtain ⟨_, _, rfl, _⟩ := Live.jobAt_ofNode hjob
    cases hstatus
  | succ steps ih =>
    by_cases hbefore : ((start setup tree).runWithin setup steps).statusAt a = some .cancelled
    · exact ih hbefore
    · have hreached : Reached setup tree _ none := Reached.start.runWithin htree (steps + 1)
      exact ⟨steps, hbefore, h, ((hreached.reasons htree).cancelled a h).imp_right
        (hreached.overtaken htree)⟩

/-- How a race ends in which no candidate has succeeded. -/
inductive Lost (setup : Setup) (tree : Node) (s : State) (a : Address) (job : Job)
    (kids : List Live) : Prop
  /-- Its inputs could not be bound. -/
  | refused {failure : Failure} : Opens setup tree a (.refused failure) → job.status = .failed →
      job.entry.error = some failure → Lost setup tree s a job kids
  /-- All candidates have failed, and the race fails because of them. -/
  | blamed {first : Live} {rest : List Live} : kids = first :: rest →
      (∀ kid ∈ kids, Live.status kid = .failed) → job.status = .failed →
      job.entry.error = some (childFailure first kids) → Lost setup tree s a job kids
  /-- It was stopped because of the run or because of a race around it. -/
  | stopped : job.status = .cancelled → s.cancelled = true ∨ s.Overtaken a →
      StoppedInRun setup tree a → Lost setup tree s a job kids

/-- A race that has ended without a winner was lost. -/
theorem Final.lost (h : Final setup tree s) (hkids : s.root.at? a = some (.mk job kids))
    (hrace : job.node.kind = .race) (hne : kids ≠ []) (hstarted : job.entry.progress.started.isSome)
    (hend : job.status.isTerminal) (hnone : ∀ kid ∈ kids, Live.status kid ≠ .succeeded) :
    Lost setup tree s a job kids := by
  cases h.past.ended a job kids hkids hstarted hend with
  | @succeeded old before output message hsince _ _ hearned =>
    exfalso
    unfold Earned at hearned
    cases hwork : old.node.work with
    | race limit =>
      rw [hwork] at hearned
      rcases hearned with ⟨i, kid, _, hi, hkid, _⟩ | ⟨hnil, _⟩
      · obtain ⟨kid', hmem', hlater⟩ := Later.exists_after hsince.kids (List.mem_of_getElem? hi)
        exact hnone kid' hmem' ((hlater.status_iff (by decide) (by decide) (by decide)).2 hkid)
      · refine hne (List.length_eq_zero_iff.1 ?_)
        rw [← hsince.kids.length_eq, hnil]
        rfl
    | _ => rw [hsince.node, Node.kind, hwork] at hrace; cases hrace
  | failed hsince hstatus herror hopens hfailing =>
    have hrace' := hrace
    rw [hsince.node] at hrace'
    cases hfailing with
    | unbound hstep => rw [hstep] at hrace'; cases hrace'
    | called hstep => rw [hstep] at hrace'; cases hrace'
    | rejected _ hdoing => exact .refused (hopens a _ hdoing) hstatus herror
    | blamed _ _ hblamed =>
      have hall : ∀ kid ∈ kids, Live.status kid = .failed := by
        intro kid hmem
        obtain ⟨old, hold, hlater⟩ := Later.exists_before hsince.kids hmem
        exact (hlater.status_iff (by decide) (by decide) (by decide)).2
          ((hblamed.race hrace').2 old hold)
      obtain ⟨first, rest, hfirst, hfailure⟩ := hblamed.since hsince
      rw [List.filter_eq_self.2 fun kid hmem => by simpa using hall kid hmem] at hfirst
      rw [hfailure, ← hfirst] at herror
      exact .blamed hfirst hall hstatus herror
  | stopped hsince hstatus _ hstopped =>
    have hcancelled : s.statusAt a = some .cancelled := by
      rw [statusAt_of_jobAt (jobAt_of_at? hkids), hstatus]
    obtain ⟨steps, hsteps⟩ := h.exists_eq_runWithin
    refine .stopped hstatus (((h.reached.reasons h.sound).cancelled a hcancelled).imp_right
      (h.reached.overtaken h.sound)) (stoppedInRun h.sound steps ?_)
    rw [← hsteps]
    exact hcancelled

/-! ## Runs -/

/-- How the races of a run of the tree have come out. -/
structure Raced (setup : Setup) (tree : Node) (s : State) : Prop where
  /-- A race with a candidate that has succeeded goes to the first of them. -/
  won : ∀ a job kids, s.root.at? a = some (.mk job kids) → job.node.kind = .race →
    (∃ kid ∈ kids, Live.status kid = .succeeded) →
    ∃ w before e later, Won s a job kids w before e later
  /-- Only a candidate that has succeeded gives a race its output. -/
  earned : ∀ a job kids, s.root.at? a = some (.mk job kids) → job.node.kind = .race → kids ≠ [] →
    job.status = .succeeded → ∃ kid ∈ kids, Live.status kid = .succeeded
  /-- A race in which no candidate has succeeded fails with all of them, or was stopped. -/
  lost : ∀ a job kids, s.root.at? a = some (.mk job kids) → job.node.kind = .race → kids ≠ [] →
    job.entry.progress.started.isSome → job.status.isTerminal →
    (∀ kid ∈ kids, Live.status kid ≠ .succeeded) → Lost setup tree s a job kids
  /-- At the end of the run every node has ended. -/
  ended : s.outcome = .finished s.result → ∀ a job, s.jobAt a = some job → job.status.isTerminal

theorem Final.raced (h : Final setup tree s) : Raced setup tree s where
  won a job kids hkids hrace hsome := by
    obtain ⟨kid, hmem, hkid⟩ := hsome
    exact h.won hkids hrace hmem hkid
  earned a job kids hkids hrace hne hstatus := by
    have harity : job.arity ≠ 0 := by
      rw [← h.shape.length_kids hkids]
      exact (List.length_pos_iff.2 hne).ne'
    obtain ⟨w, kid, hcrowned⟩ :=
      (h.reached.contest h.sound).crowned a job (jobAt_of_at? hkids) hrace hstatus harity
    have hcandidate := hcrowned.candidate
    rw [jobAt_concat hkids] at hcandidate
    obtain ⟨live, hlive, rfl⟩ := Option.map_eq_some_iff.1 hcandidate
    exact ⟨live, List.mem_of_getElem? hlive, hcrowned.status⟩
  lost a job kids hkids hrace hne hstarted hend hnone :=
    h.lost hkids hrace hne hstarted hend hnone
  ended hfinished a job hjob := by
    obtain ⟨_, status, hroot, hterminal⟩ := h.root_ended hfinished
    exact h.reached.isTerminal h.sound hroot hterminal hjob

end State

/-- A race goes to the candidate that succeeds first, with its output and by its name; nothing below
the race starts after that, and what has not started is left out. A race without such a candidate
fails because all candidates have failed, if it was not stopped. -/
theorem Setup.raced_of_execute {setup : Setup} {tree : Node} {separator : String}
    {ids rest : IdSource} {s : State} (htree : tree.Sound)
    (h : setup.execute tree separator ids = .ok (s, rest)) :
    ∃ prepared, tree.prepare separator setup.previous ids = .ok (prepared, rest) ∧
      State.Raced setup prepared s := by
  obtain ⟨prepared, hprepare, hfinal⟩ := execute_final htree h
  exact ⟨prepared, hprepare, hfinal.raced⟩

/-- An executor that answers calls with inputs at once and other calls never. -/
def Executor.answering (value : Value) : Executor where
  name := "AnsweringExecutor"
  call _ _ inputs := ⟨[], if inputs.isEmpty then .never else .answer (.ok value)⟩

/-- Of three candidates of which two may run at once, the second one wins: the first one never answers,
and the third one has not started. -/
theorem Setup.raced_of_execute_second : ∃ setup s rest prepared,
    setup = ({ executor := .answering (.string "done") } : Setup) ∧
    setup.execute (.mk {} (.race (some 2)) [.mk {} (.step "slow" none) [],
      .mk { inputs := [("text", .literal .null)] } (.step "quick" none) [],
      .mk {} (.step "last" none) []]) " > " .counting = .ok (s, rest) ∧
    s.statusAt [0] = some .cancelled ∧ s.statusAt [1] = some .succeeded ∧
    s.statusAt [2] = some .skipped ∧ State.Raced setup prepared s := by
  have hsound : (Node.mk {} (.race (some 2)) [.mk {} (.step "slow" none) [],
      .mk { inputs := [("text", .literal .null)] } (.step "quick" none) [],
      .mk {} (.step "last" none) []]).Sound := by
    simp [Node.Sound, Node.walk, Node.walkList, Node.Fits, Node.work, Node.children, Work.limit]
  have h : ({ executor := .answering (.string "done") } : Setup).execute
      (.mk {} (.race (some 2)) [.mk {} (.step "slow" none) [],
        .mk { inputs := [("text", .literal .null)] } (.step "quick" none) [],
        .mk {} (.step "last" none) []]) " > " .counting = .ok (_, _) := rfl
  obtain ⟨prepared, _, hraced⟩ := raced_of_execute hsound h
  refine ⟨_, _, _, prepared, rfl, h, ?_, ?_, ?_, hraced⟩
  all_goals
    rw [Setup.run_eq 20 (Option.isNone_iff_eq_none.1 (by decide +kernel))]
    decide +kernel

end Workflow
