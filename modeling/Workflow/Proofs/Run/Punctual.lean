import Workflow.Proofs.Run.Hushed
import Workflow.Proofs.Run.Moments

/-!
# Races that end on time

Time passes only when nothing is left to do at an instant. By then no running race has a candidate that
has succeeded, so that a race succeeds at the instant at which its candidate does.

* `State.Punctual` says what the instants of a state are, and `State.punctual_runWithin` that they are
  so between any two steps of a run.
* `State.Sealed` says that nothing is pending below a node that has succeeded, and
  `State.Reached.nothing_later` that no event below such a node comes after its success.
-/

namespace Workflow

theorem Progress.finished_moved (p : Progress) {target : Status} (h : target.isTerminal) (now : Int) :
    (p.moved target now).finished = some now := by
  unfold moved
  split
  · rename_i hrunning
    rw [hrunning] at h
    cases h
  · rfl

namespace State

variable {setup : Setup} {tree : Node} {s t : State} {hand after : Option Address} {doing : Doing}
  {a b : Address} {job : Job}

/-! ## Instants -/

/-- Events are in the order of time, and none is later than now. The candidates of a race that have
succeeded have done so now if the race runs, and with the race if it has succeeded. -/
structure Punctual (s : State) : Prop where
  ordered : s.trace.Pairwise fun x y => x.time ≤ y.time
  past : ∀ x ∈ s.trace, x.time ≤ s.now
  running : ∀ a i job kid, s.jobAt a = some job → job.node.kind = .race → job.status = .running →
    s.jobAt (a ++ [i]) = some kid → kid.status = .succeeded →
    kid.entry.progress.finished = some s.now
  ended : ∀ a i job kid, s.jobAt a = some job → job.node.kind = .race → job.status = .succeeded →
    s.jobAt (a ++ [i]) = some kid → kid.status = .succeeded →
    kid.entry.progress.finished = job.entry.progress.finished

/-- No running race has a candidate that has succeeded. -/
def Undecided (s : State) : Prop :=
  ∀ a i job, s.jobAt a = some job → job.node.kind = .race → job.status = .running →
    s.statusAt (a ++ [i]) ≠ some .succeeded

namespace Punctual

theorem start (setup : Setup) (tree : Node) : Punctual (start setup tree) := by
  have hpending {a : Address} {job : Job} (hjob : (State.start setup tree).jobAt a = some job) :
      job.status = .pending := by
    obtain ⟨path, node, rfl, _⟩ := Live.jobAt_ofNode hjob
    rfl
  refine ⟨List.Pairwise.nil, fun x hx => ?_, fun a i job kid _ _ _ hkid hstatus => ?_,
    fun a i job kid _ _ _ hkid hstatus => ?_⟩
  · cases hx
  · rw [hpending hkid] at hstatus
    cases hstatus
  · rw [hpending hkid] at hstatus
    cases hstatus

/-- Where no node is moved, time may pass if no race has been decided. -/
theorem quiet (h : Punctual s) (hquiet : Quiet s t) (hle : s.now ≤ t.now)
    (hnow : t.now = s.now ∨ Undecided s) : Punctual t := by
  -- a node that has ended has been there, with what was recorded of it
  have hold {b : Address} {new : Job} (hnew : t.jobAt b = some new) (hne : new.status ≠ .pending) :
      ∃ old, s.jobAt b = some old ∧ old.node = new.node ∧
        old.entry.progress = new.entry.progress := by
    cases hsome : s.jobAt b with
    | none => exact absurd (hquiet.fresh b new hsome hnew).status hne
    | some old =>
      obtain ⟨new', hnew', hnode, hentry, _⟩ := hquiet.entry b old hsome
      rw [hnew, Option.some.injEq] at hnew'
      subst hnew'
      exact ⟨old, rfl, hnode.symm, by rw [hentry]⟩
  refine ⟨?_, fun x hx => ?_, fun a i job kid hjob hrace hrun hkid hstatus => ?_,
    fun a i job kid hjob hrace hrun hkid hstatus => ?_⟩
  · rw [hquiet.trace]
    exact h.ordered
  · rw [hquiet.trace] at hx
    exact (h.past x hx).trans hle
  · obtain ⟨oldKid, hkidOld, _, hkidEntry⟩ := hold hkid (by rw [hstatus]; decide)
    obtain ⟨old, hjobOld, hnode, hentry⟩ := hold hjob (by rw [hrun]; decide)
    have hstatusOld : oldKid.status = .succeeded := by
      rw [Job.status, Entry.status, hkidEntry]
      exact hstatus
    have hrunOld : old.status = .running := by
      rw [Job.status, Entry.status, hentry]
      exact hrun
    rcases hnow with hsame | hundecided
    · rw [hsame, ← hkidEntry]
      exact h.running a i old oldKid hjobOld (hnode ▸ hrace) hrunOld hkidOld hstatusOld
    · refine absurd ?_ (hundecided a i old hjobOld (hnode ▸ hrace) hrunOld)
      rw [statusAt_of_jobAt hkidOld, hstatusOld]
  · obtain ⟨oldKid, hkidOld, _, hkidEntry⟩ := hold hkid (by rw [hstatus]; decide)
    obtain ⟨old, hjobOld, hnode, hentry⟩ := hold hjob (by rw [hrun]; decide)
    rw [← hkidEntry, ← hentry]
    refine h.ended a i old oldKid hjobOld (hnode ▸ hrace) ?_ hkidOld ?_
    · rw [Job.status, Entry.status, hentry]
      exact hrun
    · rw [Job.status, Entry.status, hkidEntry]
      exact hstatus

section Move

variable {f : Entry → Entry} {target : Status} {message : String} {x : Address} {i : Nat}
  {kid : Job}

/-- A node that has succeeded by its move ended at the instant of the move. -/
theorem finished_of_move (hmove : Move setup doing s x b f target message)
    (ht : t = (s.modifyEntry b f).move b target message) (hjob : t.jobAt b = some job)
    (hstatus : job.status = .succeeded) :
    target = .succeeded ∧ job.entry.progress.finished = some s.now := by
  obtain ⟨old, _, _, _, hjobs, _⟩ := hmove.moved ht
  rw [hjobs, if_pos rfl, Option.some.injEq] at hjob
  subst hjob
  rw [Job.status_moved] at hstatus
  subst hstatus
  exact ⟨rfl, Progress.finished_moved _ rfl _⟩

/-- Only the node in hand succeeds, and what is above it runs. -/
theorem running_above_move (hcontrol : Control setup s (some x))
    (hmove : Move setup doing s x (a ++ [i]) f .succeeded message) :
    s.statusAt a = some .running := by
  have hx : a ++ [i] = x := by
    cases hmove with
    | leave _ _ homitted => cases homitted.canBecome
    | _ => rfl
  exact hcontrol.statusAt_above (List.cons_ne_nil i []) (.inl (by rw [hx]))

/-- A move keeps what is said of the races that run. -/
theorem running_move (h : Punctual s) (hcontrol : Control setup s (some x))
    (hmove : Move setup doing s x b f target message)
    (ht : t = (s.modifyEntry b f).move b target message) (hjob : t.jobAt a = some job)
    (hrace : job.node.kind = .race) (hrun : job.status = .running)
    (hkid : t.jobAt (a ++ [i]) = some kid) (hstatus : kid.status = .succeeded) :
    kid.entry.progress.finished = some s.now := by
  by_cases hkidb : a ++ [i] = b
  · rw [hkidb] at hkid
    exact (finished_of_move hmove ht hkid hstatus).2
  obtain ⟨old, hold, _, _, hjobs, _⟩ := hmove.moved ht
  rw [hjobs, if_neg hkidb] at hkid
  by_cases hab : a = b
  · -- below a node that starts everything is pending
    rw [← hab] at hmove hold
    rw [hjobs, if_pos hab, Option.some.injEq] at hjob
    subst hjob
    rw [Job.status_moved] at hrun
    subst hrun
    cases hmove with
    | begin hpending =>
      have := hcontrol.below_pending (List.prefix_append _ [i]) hpending (statusAt_of_jobAt hkid)
      rw [hstatus] at this
      cases this
    | leave _ _ homitted => cases homitted.isTerminal
  · rw [hjobs, if_neg hab] at hjob
    exact h.running a i job kid hjob hrace hrun hkid hstatus

/-- A move keeps what is said of the races that have succeeded. -/
theorem ended_move (h : Punctual s) (hcontrol : Control setup s (some x))
    (hmove : Move setup doing s x b f target message)
    (ht : t = (s.modifyEntry b f).move b target message) (hjob : t.jobAt a = some job)
    (hrace : job.node.kind = .race) (hsucceeded : job.status = .succeeded)
    (hkid : t.jobAt (a ++ [i]) = some kid) (hstatus : kid.status = .succeeded) :
    kid.entry.progress.finished = job.entry.progress.finished := by
  obtain ⟨old, hold, _, _, hjobs, _⟩ := hmove.moved ht
  by_cases hkidb : a ++ [i] = b
  · -- the race would still run
    subst hkidb
    obtain ⟨rfl, _⟩ := finished_of_move hmove ht hkid hstatus
    rw [hjobs, if_neg (by simp)] at hjob
    have hrun := running_above_move hcontrol hmove
    rw [statusAt_of_jobAt hjob, hsucceeded] at hrun
    cases hrun
  rw [hjobs, if_neg hkidb] at hkid
  by_cases hab : a = b
  · -- the race succeeds, and has been running until now
    subst hab
    obtain ⟨rfl, hfinished⟩ := finished_of_move hmove ht hjob hsucceeded
    rw [hfinished]
    rw [hjobs, if_pos rfl, Option.some.injEq] at hjob
    subst hjob
    cases hmove with
    | leave _ _ homitted => cases homitted.canBecome
    | succeed hkids hrunning =>
      rw [jobAt_of_at? hkids, Option.some.injEq] at hold
      subst hold
      exact h.running _ i _ kid (jobAt_of_at? hkids) hrace hrunning hkid hstatus
  · rw [hjobs, if_neg hab] at hjob
    exact h.ended a i job kid hjob hrace hsucceeded hkid hstatus

/-- Nodes end at the instant of their moves. -/
theorem move (h : Punctual s) (hcontrol : Control setup s (some x))
    (hmove : Move setup doing s x b f target message)
    (ht : t = (s.modifyEntry b f).move b target message) : Punctual t := by
  obtain ⟨old, hold, _, _, _, htrace⟩ := hmove.moved ht
  have hnow : t.now = s.now := by
    rw [ht, now_move]
    rfl
  refine ⟨?_, fun y hy => ?_, fun a i job kid hjob hrace hrun hkid hstatus => ?_,
    fun _ _ _ _ hjob hrace hsucceeded hkid hstatus =>
      h.ended_move hcontrol hmove ht hjob hrace hsucceeded hkid hstatus⟩
  · rw [htrace, List.pairwise_append]
    refine ⟨h.ordered, List.pairwise_singleton .., fun y hy z hz => ?_⟩
    rw [List.mem_singleton] at hz
    rw [hz]
    exact h.past y hy
  · rw [hnow]
    rw [htrace, List.mem_append, List.mem_singleton] at hy
    rcases hy with hy | rfl
    · exact h.past y hy
    · exact le_refl s.now
  · rw [hnow]
    exact h.running_move hcontrol hmove ht hjob hrace hrun hkid hstatus

end Move

/-- While no call goes on no time passes. -/
theorem change (h : Punctual s) (hr : Reached setup tree s hand) (htree : tree.Sound)
    (hchange : Change setup doing s hand t after) (hdoing : doing ≠ .call) : Punctual t := by
  have hshape := hr.shape htree
  rcases hchange.move_or_quiet hshape with ⟨x, b, f, target, message, rfl, _, hmove, ht⟩ | hquiet
  · exact h.move (hr.control htree) hmove ht
  · have hnow := (hchange.still hshape hdoing).now
    exact h.quiet hquiet hnow.ge (.inl hnow)

end Punctual

/-- While nothing is to be done no running race has a candidate that has succeeded. -/
theorem Hushed.undecided (h : Hushed s) (hr : Reached setup tree s none) (htree : tree.Sound)
    (hlimit : setup.limit ≠ 0) (hagenda : s.agenda = []) : Undecided s := by
  intro a i job hjob hrace hrun hsucceeded
  have hwinner : job.winner.isSome := by
    refine (hr.reasons htree).won a i job hjob hrace hsucceeded ?_
    rw [active_iff_of_agenda hagenda, hsucceeded]
    decide
  obtain ⟨w, hw⟩ := Option.isSome_iff_exists.1 hwinner
  have hstatus := h.status_of_winner hr htree hlimit hagenda hjob hw
  rw [hrun] at hstatus
  cases hstatus

theorem now_jump (s : State) (setup : Setup) (time : Int) :
    (s.jump setup time).now = max s.now time := by
  unfold State.jump
  simp only
  split
  · rw [(Still.cancelRun _).now, now_foldl_fire]
  · rw [now_foldl_fire]

/-- Time does not run backwards. -/
theorem Reached.now_le_of_step (h : Reached setup tree s none) (htree : tree.Sound)
    (hstep : s.step setup = some t) : s.now ≤ t.now := by
  by_cases hagenda : s.agenda = []
  · obtain ⟨time, _, rfl⟩ := eq_jump_of_step hstep hagenda
    rw [now_jump]
    exact le_max_left ..
  · exact (h.advances htree hstep hagenda).now.ge

theorem Punctual.step (h : Punctual s) (hhushed : Hushed s) (hr : Reached setup tree s none)
    (htree : tree.Sound) (hlimit : setup.limit ≠ 0) (hstep : s.step setup = some t) : Punctual t := by
  have hchanges := hr.step htree hstep
  by_cases hdoing : s.doing setup = .call
  · rw [hdoing] at hchanges
    refine h.quiet (hchanges.quiet_of_call hr htree) (hr.now_le_of_step htree hstep) ?_
    by_cases hagenda : s.agenda = []
    · exact .inr (hhushed.undecided hr htree hlimit hagenda)
    · exact .inl (hr.advances htree hstep hagenda).now
  · exact hr.changes_induction (P := fun u _ => Punctual u) hchanges h
      fun _ _ _ _ hu hchange hbefore => hbefore.change hu htree hchange hdoing

/-- Between any two steps of a run a race has succeeded when its candidate has. -/
theorem punctual_runWithin (htree : tree.Sound) (hlimit : setup.limit ≠ 0) (steps : Nat) :
    Punctual ((start setup tree).runWithin setup steps) := by
  -- what the step lemma asks for is kept along the way
  refine (Reached.start.runWithin_induction (P := fun s => Hushed s ∧ Punctual s) htree
    ⟨.start setup tree, .start setup tree⟩ (fun s t hr hstep hs => ?_) steps).2
  exact ⟨hs.1.step hr htree hstep, hs.2.step hs.1 hr htree hlimit hstep⟩

theorem Final.punctual (h : Final setup tree s) : Punctual s := by
  obtain ⟨steps, hsteps⟩ := h.exists_eq_runWithin
  rw [hsteps]
  exact punctual_runWithin h.sound h.limit steps

/-! ## Below nodes that have succeeded -/

/-- Below a node that has succeeded and is not in hand nothing is pending. -/
def Sealed (s : State) (hand : Option Address) : Prop :=
  ∀ a c, s.statusAt a = some .succeeded → s.statusAt (a ++ c) = some .pending → hand = some a

/-- The node in hand is given back when it runs, or when nothing is pending below it. -/
theorem Change.hand_cases (hchange : Change setup doing s (some a) t after) : after = some a ∨
    s.statusAt a = some .running ∨ ∀ b, a <+: b → s.statusAt b ≠ some .pending := by
  have hrunning {job : Job} (hjob : s.jobAt a = some job) (hrun : job.status = .running) :
      s.statusAt a = some .running := by rw [statusAt_of_jobAt hjob, hrun]
  cases hchange with
  | release _ _ hnone => exact .inr (.inr hnone)
  | callOut _ _ hjob hrun => exact .inr (.inl (hrunning hjob hrun))
  | enterNext hjob hrun => exact .inr (.inl (hrunning hjob hrun))
  | enterChosen hjob hrun => exact .inr (.inl (hrunning hjob hrun))
  | fill hjob hrun => exact .inr (.inl (hrunning hjob hrun))
  | gather hjob hrun => exact .inr (.inl (hrunning hjob hrun))
  | _ => exact .inl rfl

namespace Sealed

theorem start (setup : Setup) (tree : Node) : Sealed (start setup tree) none := by
  intro a c hstatus _
  obtain ⟨job, hjob, hsucceeded⟩ := jobAt_of_statusAt hstatus
  obtain ⟨path, node, rfl, _⟩ := Live.jobAt_ofNode hjob
  cases hsucceeded

theorem change (h : Sealed s hand) (hcontrol : Control setup s hand) (hshape : Shape tree s)
    (hchange : Change setup doing s hand t after) : Sealed t after := by
  intro a c hstatus hpending
  rcases hchange.move_or_quiet hshape with ⟨x, b, f, target, message, rfl, rfl, hmove, ht⟩ | hquiet
  · -- a node becomes pending by no move
    obtain ⟨hne, hbefore⟩ := hmove.pending_before ht hpending
    rw [hmove.statusAt ht] at hstatus
    split at hstatus
    · rename_i hab
      rw [Option.some.injEq] at hstatus
      subst hstatus
      cases hmove with
      | leave _ _ homitted => cases homitted.canBecome
      | succeed => rw [hab]
    · exact h a c hstatus hbefore
  · have hbefore := hquiet.statusAt_of_ne hstatus (by decide)
    obtain ⟨job, hjob, hsucceeded⟩ := jobAt_of_statusAt hbefore
    cases hold : s.jobAt (a ++ c) with
    | none =>
      -- a node is new only below a loop in hand, and above that everything runs
      exfalso
      obtain ⟨new, hnew, _⟩ := jobAt_of_statusAt hpending
      obtain ⟨x, i, d, loop, rfl, heq, hloop, _, hrun, harity⟩ :=
        hchange.exists_loop_of_new hcontrol hshape hold hnew
      rcases List.append_eq_append_iff.1 heq with ⟨e, rfl, _⟩ | ⟨e, rfl, _⟩
      · have hactive : s.statusAt a = some .running := by
          by_cases he : e = []
          · rw [he, List.append_nil] at hloop
            rw [statusAt_of_jobAt hloop, hrun]
          · exact hcontrol.statusAt_above he (.inl rfl)
        rw [hbefore] at hactive
        cases hactive
      · cases e with
        | nil =>
          rw [List.append_nil, hloop, Option.some.injEq] at hjob
          rw [← hjob, hrun] at hsucceeded
          cases hsucceeded
        | cons j e =>
          rw [hshape.jobAt_below_eq_none hloop harity] at hjob
          cases hjob
    | some old =>
      rw [hquiet.statusAt hold] at hpending
      have hhand := h a c hbefore hpending
      subst hhand
      rcases hchange.hand_cases with hafter | hrun | hnone
      · exact hafter
      · rw [hbefore] at hrun
        cases hrun
      · exact absurd hpending (hnone _ (List.prefix_append a c))

end Sealed

theorem Reached.sealed (h : Reached setup tree s hand) (htree : tree.Sound) : Sealed s hand := by
  induction h with
  | start => exact .start setup tree
  | change hr hchange ih => exact ih.change (hr.control htree) (hr.shape htree) hchange

/-- After the event that says that a node has succeeded there is none about a node below it. -/
theorem Reached.nothing_later {before later : List Event} {x y : Event} {i : Nat} {c : Address}
    {below : Job} (h : Reached setup tree s hand) (htree : tree.Sound)
    (htrace : s.trace = before ++ x :: later) (hjob : s.jobAt a = some job)
    (hx : x.path = job.entry.path) (hsucceeded : x.status = .succeeded)
    (hbelow : s.jobAt (a ++ i :: c) = some below) (hy : y ∈ later) : y.path ≠ below.entry.path := by
  intro hpath
  have hshape := h.shape htree
  obtain ⟨first, rest, rfl⟩ := List.append_of_mem hy
  rw [← List.cons_append, ← List.append_assoc] at htrace
  obtain ⟨u, v, b, target, hmoment⟩ := h.exists_moment htree htrace
  obtain ⟨doing, f, message, hmove⟩ := hmoment.move
  obtain ⟨moved, hmoved, hmovedPath⟩ := hmoment.path
  have hcontrol := hmoment.reached.control htree
  have hshapeU := hmoment.reached.shape htree
  obtain rfl : b = a ++ i :: c := hshapeU.address_eq hshape hmoved hbelow (hmovedPath.trans hpath)
  -- the node above had succeeded by then
  obtain ⟨race, hrace⟩ := jobAt_of_append hmoved
  have hracePath : x.path = race.entry.path := by rw [hx, hshapeU.path_eq hshape hrace hjob]
  have hxU : x ∈ u.trace := by rw [hmoment.trace]; simp
  have hstatus : u.statusAt a = some .succeeded := by
    rw [statusAt_of_jobAt hrace, Job.status,
      ((hmoment.reached.chronicle htree).node a race hrace).status_of_mem
        (mem_eventsOf.2 ⟨hxU, hracePath⟩) (by rw [hsucceeded]; decide), hsucceeded]
  have hactive : ¬ Active u (some v) (a ++ i :: c) := fun hactive => by
    have := hcontrol.statusAt_above (List.cons_ne_nil i c) hactive
    rw [hstatus] at this
    cases this
  cases hmove with
  | leave hprefix hpending homitted =>
    obtain rfl := Option.some.inj (hmoment.reached.sealed htree a (i :: c) hstatus hpending)
    generalize hb : v ++ i :: c = b at homitted
    cases homitted with
    | cancelled => simp at hb
    | lost => simp at hb
    | failed _ hfailed => rw [hstatus] at hfailed; cases hfailed
    | stopped _ hstopped hleft =>
      rw [hstatus, Option.some.injEq] at hstopped
      rw [← hstopped] at hleft
      rcases hleft with hleft | hleft <;> cases hleft
    | notChosen hbranch hrun =>
      rw [statusAt_of_jobAt hbranch, hrun] at hstatus
      cases hstatus
  | _ => exact hactive (.inl rfl)

end State
end Workflow
