import Workflow.Proofs.Live.Erase
import Workflow.Proofs.Run.Agree

/-!
# What comes of runs that come out alike

The root starts in every calm run. So if the steps of two runs come out alike, everything in their trees
does: the runs come to their ends with results that differ in times and identifiers at most, or both wait
for ever.

* `State.TwinRuns.outcomes` says so of the ends of the runs.
* `State.TwinRuns.anonymous_eq` and `State.TwinRuns.untimed_eq` say what the results have in common.
-/

namespace Workflow.State

variable {setup setup' : Setup} {tree tree' : Node} {s s' : State} {a : Address} {job job' : Job}

/-! ## Roots -/

/-- The root is not left out for another node. -/
theorem Reached.root_not_skipped {hand : Option Address} (h : Reached setup tree s hand)
    (htree : tree.Sound) : s.statusAt [] ≠ some .skipped := by
  induction h with
  | start =>
    obtain ⟨header, work, children⟩ := tree
    rintro ⟨⟩
  | @change u t before after doing hr hchange ih =>
    rcases hchange.move_or_quiet (hr.shape htree) with ⟨x, b, f, target, message, rfl, _, hmove, ht⟩ |
      hquiet
    · rw [hmove.statusAt ht]
      split
      · rename_i hb
        cases hmove with
        | leave hprefix _ homitted =>
          rw [← hb] at hprefix
          have hx := List.prefix_nil.1 hprefix
          cases homitted with
          | cancelled => simp
          | lost _ hhalted =>
            obtain ⟨above, i, below, _, _, heq, _⟩ := hhalted
            simp [hx] at heq
          | failed hne => exact absurd (hb.symm.trans hx.symm) hne
          | stopped hne => exact absurd (hb.symm.trans hx.symm) hne
          | notChosen => simp at hb
        | _ => simp
      · exact ih
    · obtain ⟨job, hjob, _⟩ := (hr.shape htree).root
      rw [hquiet.statusAt hjob]
      exact ih

/-- At the end of a calm run the root has started. -/
theorem Final.root_started (h : Final setup tree s) (hcalm : setup.Calm tree) :
    ∃ job, s.jobAt [] = some job ∧ job.entry.progress.started.isSome := by
  obtain ⟨job, hjob, _⟩ := h.shape.root
  refine ⟨job, hjob, ?_⟩
  have hcontrol := h.control
  have hlived := h.chronicle.node [] job hjob
  have hagenda := h.reached.agenda_eq_nil h.sound h.step
  by_cases hend : job.status.isTerminal
  · rcases h.status_of_ended hcalm hjob hend with ⟨hstarted, _⟩ | ⟨_, hskipped⟩
    · exact hstarted
    · refine absurd ?_ (h.reached.root_not_skipped h.sound)
      rw [statusAt_of_jobAt hjob, hskipped]
  · have hrun : job.status = .running := by
      by_contra hnot
      have hpending : job.status = .pending := by
        by_contra hnotPending
        exact hend (Status.isTerminal_iff.2 ⟨hnotPending, hnot⟩)
      refine hcontrol.root ⟨by rw [statusAt_of_jobAt hjob, hpending], ?_⟩
      rw [active_iff_of_agenda hagenda, statusAt_of_jobAt hjob, hpending]
      simp
    obtain ⟨x, _, _, _, hstarted, _⟩ := hlived.of_running hrun
    rw [hstarted]
    rfl

/-! ## Results -/

/-- What remains of an entry without times and identifiers is what has come of the node. -/
theorem anonymous_of_account {e e' : Entry} (haccount : e'.account = e.account)
    (hpath : e'.path = e.path) (hkind : e'.kind = e.kind) (hlabel : e'.label = e.label) :
    e'.anonymous = e.anonymous := by
  rw [Entry.account, Entry.account, Prod.mk.injEq, Prod.mk.injEq, Prod.mk.injEq] at haccount
  obtain ⟨hstatus, houtput, herror, hinputs⟩ := haccount
  rw [Entry.anonymous, Entry.anonymous, Entry.untimed, Entry.untimed, hpath, hkind, hlabel, hstatus,
    houtput, herror, hinputs]

namespace TwinRuns

variable (h : TwinRuns setup setup' tree tree' s s')
include h

theorem stepsAlike_symm (hsteps : StepsAlike tree s s') : StepsAlike tree' s' s := by
  intro a job' job hmet hkind
  have hkind' := (h.nodes hmet.second hmet.first).kind.symm.trans hkind
  exact (hsteps a job job' (hmet.symm h.twin.symm) hkind').symm

theorem sameFrom_root (hsteps : StepsAlike tree s s') (hend : s.root.status.isTerminal) :
    SameFrom s s' [] := by
  obtain ⟨job, hjob, hstarted⟩ := h.first.root_started h.calm
  obtain ⟨job', hjob', hstarted'⟩ := h.second.root_started h.calm'
  have hready := h.ready_of_started hsteps job job' hjob hjob' hstarted hstarted'
  have hstatus := statusAt_root s
  rw [statusAt_of_jobAt hjob, Option.some.injEq] at hstatus
  exact h.sameFrom hsteps ⟨hjob, hjob', hstarted, hstarted', hready⟩ (by rwa [hstatus])

/-- If the first run comes to its end, so does the second one, and everything has come out alike. -/
theorem finished (hsteps : StepsAlike tree s s') (hfinished : s.outcome = .finished s.result) :
    s'.outcome = .finished s'.result ∧ SameFrom s s' [] := by
  obtain ⟨_, status, hstatus, hend⟩ := h.first.root_ended hfinished
  rw [statusAt_root, Option.some.injEq] at hstatus
  rw [← hstatus] at hend
  have hsame := h.sameFrom_root hsteps hend
  refine ⟨h.second.outcome_of_ended ?_, hsame⟩
  have hroot := hsame.statusAt
  rw [statusAt_root, statusAt_root, Option.some.injEq] at hroot
  rwa [hroot]

/-- Both runs come to their ends, where everything has come out alike, or both wait for ever. -/
theorem outcomes (hsteps : StepsAlike tree s s') :
    (s.outcome = .finished s.result ∧ s'.outcome = .finished s'.result ∧ SameFrom s s' []) ∨
      (s.outcome = .waiting ∧ s'.outcome = .waiting) := by
  rcases h.first.finished_or_waits with hfinished | ⟨hwaiting, _⟩
  · exact .inl ⟨hfinished, h.finished hsteps hfinished⟩
  · rcases h.second.finished_or_waits with hfinished' | ⟨hwaiting', _⟩
    · obtain ⟨hfinished, _⟩ := h.symm.finished (h.stepsAlike_symm hsteps) hfinished'
      rw [hwaiting] at hfinished
      cases hfinished
    · exact .inr ⟨hwaiting, hwaiting'⟩

variable (hsame : SameFrom s s' [])
include hsame

/-- If everything has come out alike, the results agree in all that does not depend on times and
identifiers. -/
theorem mapEntries_eq {f : Entry → Entry} (hf : ∀ a job job', s.jobAt a = some job →
    s'.jobAt a = some job' → job'.entry.anonymous = job.entry.anonymous → f job'.entry = f job.entry) :
    s'.root.toResult.mapEntries f = s.root.toResult.mapEntries f := by
  refine Live.mapEntries_toResult_congr _ _ _ fun a => ?_
  have haccount := hsame a List.nil_prefix
  rw [accountAt, accountAt] at haccount
  change (s'.jobAt a).map _ = (s.jobAt a).map _
  cases hjob : s.jobAt a with
  | none =>
    rw [hjob, Option.map_none, Option.map_eq_none_iff] at haccount
    rw [haccount]
  | some job =>
    rw [hjob, Option.map_some, Option.map_eq_some_iff] at haccount
    obtain ⟨job', hjob', haccount⟩ := haccount
    have hnodes := h.nodes hjob hjob'
    obtain ⟨_, hkind, hlabel⟩ := h.first.shape.entry a job hjob
    obtain ⟨_, hkind', hlabel'⟩ := h.second.shape.entry a job' hjob'
    have hanonymous := anonymous_of_account haccount (h.path_eq hjob hjob')
      (by rw [hkind, hkind', hnodes.kind]) (by rw [hlabel, hlabel', hnodes.label])
    rw [hjob', Option.map_some, Option.map_some, hnodes.layout, hf a job job' hjob hjob' hanonymous]

/-- The results are the same but for times and identifiers. -/
theorem anonymous_eq : s'.root.toResult.anonymous = s.root.toResult.anonymous :=
  h.mapEntries_eq hsame fun _ _ _ _ _ hanonymous => hanonymous

/-- If the nodes have the same identifiers, the results are the same but for times. -/
theorem untimed_eq (hids : ∀ a job job', s.jobAt a = some job → s'.jobAt a = some job' →
    job'.node.id = job.node.id) : s'.root.toResult.untimed = s.root.toResult.untimed := by
  refine h.mapEntries_eq hsame fun a job job' hjob hjob' hanonymous => ?_
  refine Entry.untimed_of_anonymous hanonymous ?_
  rw [(h.first.shape.entry a job hjob).1, (h.second.shape.entry a job' hjob').1]
  exact hids a job job' hjob hjob'

/-- The runs have the same status. -/
theorem runStatus_eq : s'.runStatus = s.runStatus := by
  have hstatus := hsame.statusAt
  rw [statusAt_root, statusAt_root, Option.some.injEq] at hstatus
  rw [runStatus, runStatus, h.first.cancelled_eq h.calm, h.second.cancelled_eq h.calm', hstatus]
  simp

end TwinRuns

end Workflow.State
