import Workflow.Proofs.Containers
import Workflow.Proofs.Run.Account

/-!
# What comes of containers

In a run that nothing stops, which children of a container start and how the container comes out is
decided by how it opened and by how its children come out.

* `State.Whole` says that of the children of a node that runs several at once all start or none.
* `Opening.Lets` says which children start, with `State.Final.lets_of_started` and
  `State.Final.started_of_lets`.
* `Opening.tally` says how the container comes out, with `State.Final.account_of_container`.
-/

namespace Workflow

/-- What is neither pending nor running has come to its end. -/
theorem Status.isTerminal_iff {status : Status} :
    status.isTerminal ↔ status ≠ .pending ∧ status ≠ .running := by
  cases status <;> decide

/-- A node of the status has not been tried. -/
def Status.Untried (status : Status) : Prop :=
  status = .pending ∨ status = .skipped

/-- A container of the kind that opens like this lets the child at the position start, given which of
its children have succeeded. -/
def Opening.Lets (o : Opening) (kind : Kind) (succeeded : Nat → Prop) (i : Nat) : Prop :=
  match o with
  | .refused _ => False
  | .all => kind = .sequence → ∀ j, j < i → succeeded j
  | .chosen k => i = k
  | .items _ => True

/-- The output of a container that opened like this and whose children have succeeded. -/
def Opening.output (o : Opening) (kids : List Live) : Value :=
  match o with
  | .chosen k => (kids[k]?.map fun kid => kid.entry.output).getD .null
  | _ => State.outputs kids

/-- How a container comes out that opened like this. -/
def Opening.tally (o : Opening) (kids : List Live) :
    Status × Value × Option Failure × Fields Value :=
  match o with
  | .refused failure => (.failed, .null, some failure, [])
  | _ =>
    match kids.filter fun kid => kid.status = .failed with
    | [] => (.succeeded, o.output kids, none, [])
    | first :: rest => (.failed, .null, some (State.childFailure first (first :: rest)), [])

section Tally

variable {s : State} {a : Address} {job : Job} {o : Opening} {kids rest : List Live} {first : Live}

theorem Opening.tally_of_nil (hfits : o.Fits s a job)
    (h : (kids.filter fun kid => kid.status = .failed) = []) :
    o.tally kids = (.succeeded, o.output kids, none, []) := by
  cases o with
  | refused => exact hfits.elim
  | _ => simp [tally, h]

theorem Opening.tally_of_cons (hfits : o.Fits s a job)
    (h : (kids.filter fun kid => kid.status = .failed) = first :: rest) :
    o.tally kids = (.failed, .null, some (State.childFailure first (first :: rest)), []) := by
  cases o with
  | refused => exact hfits.elim
  | _ => simp [tally, h]

end Tally

namespace State

variable {setup : Setup} {tree : Node} {s t : State} {hand after : Option Address} {doing : Doing}
  {a : Address} {job : Job} {kids : List Live} {o : Opening} {i steps : Nat}

/-! ## Children that start together -/

/-- The wish to end the run does not go away. -/
theorem Change.not_cancelled (hchange : Change setup doing s hand t after)
    (hcancelled : t.cancelled = false) : s.cancelled = false := by
  by_contra hnot
  rw [hchange.cancelled (by simpa using hnot)] at hcancelled
  cases hcancelled

/-- Unless the run is cancelled, all children of a node that ran several at once have been tried, or
none has. -/
def Whole (s : State) : Prop :=
  s.cancelled = false → ∀ a job i j first second, s.jobAt a = some job →
    job.node.kind.isGroup = true → job.status ≠ .running → s.statusAt (a ++ [i]) = some first →
    s.statusAt (a ++ [j]) = some second → first.Untried → second.Untried

theorem Whole.start (setup : Setup) (tree : Node) : Whole (start setup tree) := by
  intro _ a job i j first second _ _ _ _ hsecond _
  obtain ⟨kid, hkid, rfl⟩ := jobAt_of_statusAt hsecond
  obtain ⟨path, node, rfl, _⟩ := Live.jobAt_ofNode hkid
  exact .inl rfl

/-- Between the children of a node that does not run nothing is made or moved but that they are left
out. -/
theorem Whole.quiet (h : Whole s) (hchange : Change setup doing s hand t after) (hshape : Shape tree s)
    (hcontrol : Control setup t after) (hquiet : Quiet s t) : Whole t := by
  intro hnot a job i j first second hjob hgroup hstatus hfirst hsecond huntried
  cases hold : s.jobAt a with
  | none =>
    -- nothing of a node that is new has started
    have hpending := (hquiet.fresh a job hold hjob).status
    exact .inl (hcontrol.below_pending (List.prefix_append a [j])
      (by rw [statusAt_of_jobAt hjob]; exact congrArg some hpending) hsecond)
  | some old =>
    obtain ⟨new, hnew, hnode, hentry, hsame⟩ := hquiet.entry a old hold
    rw [hjob, Option.some.injEq] at hnew
    subst hnew
    have hrun : old.status ≠ .running := by
      rw [Job.status, hentry] at hstatus
      exact hstatus
    have harity := hchange.arity_eq hshape hold hjob hrun
    have hkid (k : Nat) (status : Status) (hk : t.statusAt (a ++ [k]) = some status) :
        s.statusAt (a ++ [k]) = some status := by
      obtain ⟨kid, hkid, _⟩ := jobAt_of_statusAt hk
      have hlt := (hshape.change hchange).lt_arity hjob hkid
      rw [harity] at hlt
      obtain ⟨before, hbefore⟩ := hshape.exists_kid hold hlt
      rw [← hquiet.statusAt hbefore, hk]
    rw [hnode] at hgroup
    exact h (hchange.not_cancelled hnot) a old i j first second hold hgroup hrun (hkid i first hfirst)
      (hkid j second hsecond) huntried

/-- A node that runs several children at once ends when all have been tried or none. -/
theorem Whole.of_end {x : Address} {f : Entry → Entry} {target : Status} {message : String} {j : Nat}
    {first second : Status} (hr : Reached setup tree s (some x)) (htree : tree.Sound)
    (hrace : ∀ node ∈ tree.walk, node.kind ≠ .race) (hcancelled : s.cancelled = false)
    (hmove : Move setup doing s x a f target message) (htarget : target ≠ .running)
    (hjob : s.jobAt a = some job) (hgroup : job.node.kind.isGroup = true)
    (hfirst : s.statusAt (a ++ [i]) = some first) (hsecond : s.statusAt (a ++ [j]) = some second)
    (huntried : first.Untried) : second.Untried := by
  have hstep : job.node.kind ≠ .step := fun hkind => by rw [hkind] at hgroup; cases hgroup
  have hkid {old : Job} {kids : List Live} {k : Nat} {status : Status}
      (hkids : s.root.at? a = some (.mk old kids)) (hk : s.statusAt (a ++ [k]) = some status) :
      ∃ kid ∈ kids, Live.status kid = status := by
    rw [statusAt_concat hkids, Option.map_eq_some_iff] at hk
    obtain ⟨kid, hkid, hstatus⟩ := hk
    exact ⟨kid, List.mem_of_getElem? hkid, hstatus⟩
  have hself {old : Job} {kids : List Live} (hkids : s.root.at? a = some (.mk old kids)) : old = job :=
    Option.some.inj ((jobAt_of_at? hkids).symm.trans hjob)
  cases hmove with
  | begin => exact absurd rfl htarget
  | leave _ hpending =>
    exact .inl ((hr.control htree).below_pending (List.prefix_append a [j]) hpending hsecond)
  | succeed hkids hrun hfits hearned =>
    -- all children have succeeded
    obtain ⟨kid, hmem, hstatus⟩ := hkid hkids hfirst
    rw [hself hkids] at hearned
    exfalso
    unfold Earned at hearned
    split at hearned
    · rename_i hwork
      exact hstep (by rw [Node.kind, hwork]; rfl)
    · rename_i hwork
      rw [Node.kind, hwork] at hgroup
      cases hgroup
    · rename_i hwork
      exact hrace job.node ((hr.shape htree).walk_subset job hjob (Node.mem_walk_self _))
        (by rw [Node.kind, hwork]; rfl)
    · rw [hearned.1 kid hmem] at hstatus
      subst hstatus
      rcases huntried with h | h <;> cases h
  | fail hkids hrun hfailing =>
    rw [hself hkids] at hfailing
    cases hfailing with
    | unbound hkind => exact absurd hkind hstep
    | called hkind => exact absurd hkind hstep
    | rejected _ _ hrejected =>
      obtain ⟨kid, hmem, hstatus⟩ := hkid hkids hsecond
      exact .inl (hstatus.symm.trans (hrejected.2 kid hmem))
    | blamed _ _ hblamed =>
      -- all children have ended, and none is skipped while the node runs
      obtain ⟨kid, hmem, hstatus⟩ := hkid hkids hfirst
      have hend := hblamed.group hgroup kid hmem
      rw [hself hkids] at hrun
      rcases huntried with rfl | rfl
      · rw [hstatus] at hend
        cases hend
      · rcases (hr.reasons htree).skipped a i job hjob hrun hfirst with hhalted | ⟨hbranch, _⟩
        · exact absurd hhalted (hr.not_halted htree hrace _)
        · rw [hbranch] at hgroup
          cases hgroup
  | stop hkids hrun hfits hstopped =>
    rcases hstopped.cause with hcause | hcause
    · rw [hcancelled] at hcause
      cases hcause
    · exact absurd hcause (hr.not_halted htree hrace _)

/-- A child of a node that does not run is moved only as it is left out. -/
theorem Move.untried {x p : Address} {f : Entry → Entry} {target : Status} {message : String}
    (hmove : Move setup doing s x (p ++ [i]) f target message) (hcontrol : Control setup s (some x))
    (hcancelled : s.cancelled = false) (hjob : s.jobAt p = some job) (hstatus : job.status ≠ .running) :
    s.statusAt (p ++ [i]) = some .pending ∧ target = .skipped := by
  have hinactive : x ≠ p ++ [i] := by
    rintro rfl
    obtain ⟨above, habove, hrun, _⟩ := hcontrol.parent (.inl rfl)
    rw [hjob, Option.some.injEq] at habove
    exact hstatus (habove ▸ hrun)
  generalize hb : p ++ [i] = b at hmove hinactive ⊢
  cases hmove with
  | leave _ hpending homitted =>
    refine ⟨hpending, homitted.target.resolve_right ?_⟩
    rw [hcancelled]
    simp
  | _ => exact absurd rfl hinactive

theorem Whole.move {x b : Address} {f : Entry → Entry} {target : Status} {message : String}
    (h : Whole s) (hr : Reached setup tree s (some x)) (htree : tree.Sound)
    (hrace : ∀ node ∈ tree.walk, node.kind ≠ .race) (hmove : Move setup doing s x b f target message)
    (ht : t = (s.modifyEntry b f).move b target message) : Whole t := by
  intro hnot a job i j first second hjob hgroup hstatus hfirst hsecond huntried
  have hcancelled : s.cancelled = false := by
    rw [ht, cancelled_move] at hnot
    exact hnot
  obtain ⟨old, hold, _, _, hjobs, _⟩ := hmove.moved ht
  have hstatuses := hmove.statusAt ht
  by_cases hab : a = b
  · subst hab
    rw [hjobs, if_pos rfl, Option.some.injEq] at hjob
    subst hjob
    rw [Job.status_moved] at hstatus
    rw [hstatuses, if_neg (by simp)] at hfirst hsecond
    exact Whole.of_end hr htree hrace hcancelled hmove hstatus hold hgroup hfirst hsecond huntried
  · rw [hjobs, if_neg hab] at hjob
    -- a child that is moved is left out, and has not been tried before or after
    have hkid {k : Nat} {status : Status} (hk : t.statusAt (a ++ [k]) = some status) :
        ∃ before, s.statusAt (a ++ [k]) = some before ∧ (before.Untried ↔ status.Untried) := by
      rw [hstatuses] at hk
      split at hk
      · rename_i hb
        subst hb
        obtain ⟨hpending, rfl⟩ := hmove.untried (hr.control htree) hcancelled hjob hstatus
        obtain rfl := Option.some.inj hk
        exact ⟨.pending, hpending, by simp [Status.Untried]⟩
      · exact ⟨status, hk, Iff.rfl⟩
    obtain ⟨first', hfirst', hiff⟩ := hkid hfirst
    obtain ⟨second', hsecond', hiff'⟩ := hkid hsecond
    exact hiff'.1 (h hcancelled a job i j first' second' hjob hgroup hstatus hfirst' hsecond'
      (hiff.2 huntried))

/-- Without races, of the children of every node that ran several at once all have been tried or none
has. -/
theorem Reached.whole (h : Reached setup tree s hand) (htree : tree.Sound)
    (hrace : ∀ node ∈ tree.walk, node.kind ≠ .race) : Whole s := by
  induction h with
  | start => exact .start setup tree
  | change hr hchange ih =>
    rcases hchange.move_or_quiet (hr.shape htree) with ⟨x, b, f, target, message, rfl, _, hmove, ht⟩ |
      hquiet
    · exact ih.move hr htree hrace hmove ht
    · exact ih.quiet hchange (hr.shape htree) ((hr.change hchange).control htree) hquiet

/-- A sequence stops at the child that fails: those before it have succeeded. -/
theorem Blamed.succeeded_before {old : Job} {before : List Live} {failure : Failure} {first other : Live}
    {f j : Nat} (h : Blamed old before failure) (hsince : Since s old before job kids)
    (hkind : job.node.kind = .sequence) (hf : kids[f]? = some first) (hfailed : first.status = .failed)
    (hj : kids[j]? = some other) (hlt : j < f) : other.status = .succeeded := by
  obtain ⟨k, hdone, hafter⟩ := h.sequence (by rw [← hsince.node]; exact hkind)
  obtain ⟨first', hfirst', hlater⟩ := Later.exists_getElem? hsince.kids hf
  obtain ⟨other', hother', hlater'⟩ := Later.exists_getElem? hsince.kids hj
  have hfailed' := (hlater.status_iff (by simp) (by simp) (by simp)).1 hfailed
  refine (hlater'.status_iff (by simp) (by simp) (by simp)).2 (hdone j other' ?_ hother')
  -- the child that has failed does not come after the one at which the sequence stopped
  by_contra hnot
  rw [hafter f first' (by omega) hfirst'] at hfailed'
  cases hfailed'

/-! ## Nodes at the end of a calm run -/

namespace Final

variable (h : Final setup tree s) (hcalm : setup.Calm tree)
include h

/-- What is recorded of a container that has failed. -/
theorem account_of_failed {failure : Failure} (hjob : s.jobAt a = some job)
    (hkind : job.node.kind ≠ .step) (hstatus : job.status = .failed)
    (herror : job.entry.error = some failure) :
    job.entry.account = (.failed, .null, some failure, []) := by
  have houtput : job.entry.output = .null := by
    by_contra hnot
    have := (h.chronicle.node a job hjob).output hnot
    rw [show job.entry.status = .failed from hstatus] at this
    cases this
  rw [Entry.account, show job.entry.status = .failed from hstatus, houtput, herror,
    (h.reached.blank h.sound hjob).container hkind]

/-- What is recorded of a container that has succeeded. -/
theorem account_of_succeeded (hjob : s.jobAt a = some job)
    (hkind : job.node.kind ≠ .step) (hstatus : job.status = .succeeded) :
    job.entry.account = (.succeeded, job.entry.output, none, []) := by
  have herror : job.entry.error = none := by
    rw [← Option.not_isSome_iff_eq_none, (h.chronicle.node a job hjob).error_iff]
    simp [show job.entry.status = .succeeded from hstatus]
  rw [Entry.account, show job.entry.status = .succeeded from hstatus, herror,
    (h.reached.blank h.sound hjob).container hkind]

include hcalm

/-- A node that has ended has succeeded or failed if it had started, and else was left out. -/
theorem status_of_ended (hjob : s.jobAt a = some job) (hend : job.status.isTerminal) :
    (job.entry.progress.started.isSome ∧ (job.status = .succeeded ∨ job.status = .failed)) ∨
      (¬ job.entry.progress.started.isSome ∧ job.status = .skipped) := by
  have hlived := h.chronicle.node a job hjob
  have hnot := h.not_stopped hcalm a
  rw [statusAt_of_jobAt hjob, Ne, Option.some.injEq] at hnot
  cases hstatus : job.status with
  | pending => rw [hstatus] at hend; cases hend
  | running => rw [hstatus] at hend; cases hend
  | succeeded => exact .inl ⟨hlived.started_of_status (.inl hstatus), .inl rfl⟩
  | failed => exact .inl ⟨hlived.started_of_status (.inr hstatus), .inr rfl⟩
  | skipped =>
    refine .inr ⟨?_, rfl⟩
    rw [hlived.not_started_of_skipped hstatus]
    simp
  | cancelled => exact absurd hstatus hnot

/-- What is recorded of a node that was left out. -/
theorem account_of_not_started (hjob : s.jobAt a = some job) (hend : job.status.isTerminal)
    (hstarted : ¬ job.entry.progress.started.isSome) :
    job.entry.account = (.skipped, .null, none, []) ∧ job.stage = .idle := by
  rcases h.status_of_ended hcalm hjob hend with ⟨hyes, _⟩ | ⟨_, hskipped⟩
  · exact absurd hyes hstarted
  · obtain ⟨hinputs, hidle⟩ := (h.reached.blank h.sound hjob).unstarted (.inr hskipped)
    have hlived := h.chronicle.node a job hjob
    have herror : job.entry.error = none := by
      rw [← Option.not_isSome_iff_eq_none, hlived.error_iff]
      simp [show job.entry.status = .skipped from hskipped]
    have houtput : job.entry.output = .null := by
      by_contra hnot
      have := hlived.output hnot
      rw [show job.entry.status = .skipped from hskipped] at this
      cases this
    refine ⟨?_, hidle⟩
    rw [Entry.account, houtput, herror, hinputs, show job.entry.status = .skipped from hskipped]

/-! ## Children that start -/

/-- When the turn of a child comes the node above runs, and has opened. -/
theorem fits_of_turn {steps' : Nat} (hturn : Turn setup tree a steps)
    (hkid : Turn setup tree (a ++ [i]) steps')
    (ho : ((State.start setup tree).runWithin setup steps).openingAt setup a = o) :
    ∃ above, ((State.start setup tree).runWithin setup steps').jobAt a = some above ∧
      above.status = .running ∧
      Active ((State.start setup tree).runWithin setup steps') none (a ++ [i]) ∧
      o.Fits ((State.start setup tree).runWithin setup steps') a above := by
  obtain ⟨kid, kids, rest, hentering⟩ := hkid.entering h.sound hcalm
  have hcontrol := hentering.reached.control h.sound
  have hactive := hentering.active
  obtain ⟨above, habove, hrun, _⟩ := hcontrol.parent hactive
  have hshape := hentering.reached.shape h.sound
  have hlt := hcontrol.lt_arity hshape habove hactive
  have hkind := hshape.kind_ne_step habove hlt
  have hlived := (hentering.reached.chronicle h.sound).node a above habove
  obtain ⟨x, _, _, _, hstarted, _⟩ := hlived.of_running hrun
  refine ⟨above, habove, hrun, hactive, ?_⟩
  cases (past_runWithin setup h.sound steps' .call).opened a above habove
    (by rw [hstarted]; rfl) hkind with
  | opening hhand => cases hhand
  | fits hopens hfits =>
    rw [hturn.opens_iff h.sound hcalm, ho] at hopens
    rwa [hopens]
  | refused _ hfailed => rw [hrun] at hfailed; cases hfailed

/-- Only the children start that a container lets start. -/
theorem lets_of_started {kid : Job} (hturn : Turn setup tree a steps)
    (ho : ((State.start setup tree).runWithin setup steps).openingAt setup a = o)
    (hjob : s.jobAt a = some job) (hkid : s.jobAt (a ++ [i]) = some kid)
    (hstarted : kid.entry.progress.started.isSome) :
    o.Lets job.node.kind (fun j => s.statusAt (a ++ [j]) = some .succeeded) i := by
  obtain ⟨steps', hturn'⟩ := h.exists_turn hkid hstarted
  obtain ⟨above, habove, hrun, hactive, hfits⟩ := h.fits_of_turn hcalm hturn hturn' ho
  have hreached := reached_runWithin setup h.sound steps'
  have hcontrol := hreached.control h.sound
  have hshape := hreached.shape h.sound
  have hnode := hshape.node_eq h.shape habove hjob
  cases o with
  | refused => exact hfits.elim
  | items => trivial
  | chosen k =>
    by_contra hne
    have hskipped := hfits.2.2 i (hcontrol.lt_arity hshape habove hactive) hne
    obtain ⟨_, _, _, hentering⟩ := hturn'.entering h.sound hcalm
    rw [statusAt_of_jobAt hentering.jobAt, hentering.pending] at hskipped
    cases hskipped
  | all =>
    intro hsequence j hj
    rw [hnode] at hsequence
    -- the sequence waits for this child, so that those before it have succeeded
    cases (hcontrol.node a above habove).busy hrun (by simp) with
    | calling _ hstep => rw [hsequence] at hstep; cases hstep
    | @sequence frame k _ _ _ _ _ hdone hafter =>
      have hik : ¬ k < i := fun hlt => (hafter i hlt (hcontrol.lt_arity hshape habove hactive)).2 hactive
      rw [h.eq_runToEnd, ← runToEnd_runWithin _ setup steps']
      exact hreached.statusAt_runToEnd h.sound (hdone j (by omega)).2 rfl
    | branch _ hbranch => rw [hsequence] at hbranch; cases hbranch
    | group _ hgroup => rw [hsequence] at hgroup; cases hgroup

/-! ## How containers come out -/

/-- A container that has started has the children that it was to run, or has failed at once. -/
theorem fits_or_refused (hturn : Turn setup tree a steps)
    (ho : ((State.start setup tree).runWithin setup steps).openingAt setup a = o)
    (hjob : s.jobAt a = some job) (hkind : job.node.kind ≠ .step)
    (hstarted : job.entry.progress.started.isSome) : o.Fits s a job ∨
      ∃ failure, o = .refused failure ∧ job.status = .failed ∧ job.entry.error = some failure := by
  cases h.past.opened a job hjob hstarted hkind with
  | opening hhand => cases hhand
  | refused hopens hfailed herror =>
    rw [hturn.opens_iff h.sound hcalm, ho] at hopens
    exact .inr ⟨_, hopens, hfailed, herror⟩
  | fits hopens hfits =>
    rw [hturn.opens_iff h.sound hcalm, ho] at hopens
    exact .inl (hopens ▸ hfits)

/-- A loop that is refused has no children. -/
theorem arity_of_refused {failure : Failure} (hturn : Turn setup tree a steps)
    (ho : ((State.start setup tree).runWithin setup steps).openingAt setup a = .refused failure)
    (hjob : s.jobAt a = some job) (hkind : job.node.kind = .loop) : job.arity = 0 := by
  obtain ⟨old, kids, rest, hentering⟩ := hturn.entering h.sound hcalm
  have hreached := reached_runWithin setup h.sound (steps + 1)
  have hnode := (hentering.reached.shape h.sound).node_eq h.shape hentering.jobAt hjob
  -- right after its turn the loop has come to its end
  obtain ⟨new, hnew, hnot⟩ := hturn.not_pending h.sound hcalm (Nat.lt_succ_self steps)
  have hnode' := (hreached.shape h.sound).node_eq h.shape hnew hjob
  have hend : new.status.isTerminal := by
    refine Status.isTerminal_iff.2 ⟨hnot, fun hrun => ?_⟩
    have hlived := (hreached.chronicle h.sound).node a new hnew
    obtain ⟨x, _, _, _, hstarted, _⟩ := hlived.of_running hrun
    cases (past_runWithin setup h.sound (steps + 1) .call).opened a new hnew (by rw [hstarted]; rfl)
      (by simp [← hnode', hkind]) with
    | opening hhand => cases hhand
    | refused _ hfailed => rw [hrun] at hfailed; cases hfailed
    | fits hopens hfits =>
      rw [hturn.opens_iff h.sound hcalm, ho] at hopens
      rw [← hopens] at hfits
      exact hfits.elim
  obtain ⟨last, hlast, _, harity⟩ := hreached.entry_runToEnd h.sound hnew hend
  rw [runToEnd_runWithin, ← h.eq_runToEnd, hjob, Option.some.injEq] at hlast
  rw [hlast, harity, Job.arity_eq_of_loop (by rw [← hnode', hkind])]
  cases hnotes : new.stage.notes? with
  | none => rfl
  | some notes =>
    have hsource := hentering.source_of_refused h.sound (by simp [← hnode, hkind]) ho (by
      rw [← hentering.runWithin_succ h.sound, State.notesAt, hnew]
      exact hnotes)
    simp [hsource]

/-- A container that has started and ended was refused, or succeeded, or failed because of children. -/
theorem ended_cases (hturn : Turn setup tree a steps)
    (ho : ((State.start setup tree).runWithin setup steps).openingAt setup a = o)
    (hkids : s.root.at? a = some (.mk job kids)) (hkind : job.node.kind ≠ .step)
    (hstarted : job.entry.progress.started.isSome) (hend : job.status.isTerminal) :
    (∃ failure, o = .refused failure ∧ job.status = .failed ∧ job.entry.error = some failure) ∨
      (o.Fits s a job ∧ job.status = .succeeded ∧ Composed job kids o) ∨
      (o.Fits s a job ∧ job.status = .failed ∧ ∃ old before failure, Since s old before job kids ∧
        Blamed old before failure ∧ job.entry.error = some failure) := by
  have hshape := h.shape
  rcases h.fits_or_refused hcalm hturn ho (jobAt_of_at? hkids) hkind hstarted with hfits | hrefused
  · refine .inr ?_
    cases h.past.ended a job kids hkids hstarted hend with
    | succeeded hsince hstatus houtput hearned =>
      exact .inl ⟨hfits, hstatus,
        composed_of_succeeded hshape hkids hfits hkind hsince hstatus houtput hearned⟩
    | failed hsince hstatus herror hP hfailing =>
      rw [hsince.node] at hkind
      cases hfailing with
      | unbound hstep => exact absurd hstep hkind
      | called hstep => exact absurd hstep hkind
      | rejected _ hdoing =>
        have hopens := hP a _ hdoing
        rw [hturn.opens_iff h.sound hcalm, ho] at hopens
        rw [hopens] at hfits
        exact hfits.elim
      | blamed _ _ hblamed => exact .inr ⟨hfits, hstatus, _, _, _, hsince, hblamed, herror⟩
    | stopped _ hstatus =>
      have := h.not_stopped hcalm a
      rw [statusAt_of_jobAt (jobAt_of_at? hkids), hstatus] at this
      exact absurd rfl this
  · exact .inl hrefused

/-- A container that has started and ended comes out as its children did. -/
theorem account_of_container (hturn : Turn setup tree a steps)
    (ho : ((State.start setup tree).runWithin setup steps).openingAt setup a = o)
    (hkids : s.root.at? a = some (.mk job kids)) (hkind : job.node.kind ≠ .step)
    (hstarted : job.entry.progress.started.isSome) (hend : job.status.isTerminal) :
    job.entry.account = o.tally kids := by
  have hjob := jobAt_of_at? hkids
  rcases h.ended_cases hcalm hturn ho hkids hkind hstarted hend with
    ⟨failure, rfl, hstatus, herror⟩ | ⟨hfits, hstatus, hcomposed⟩ |
      ⟨hfits, hstatus, old, before, failure, hsince, hblamed, herror⟩
  · exact h.account_of_failed hjob hkind hstatus herror
  · rw [h.account_of_succeeded hjob hkind hstatus]
    have hrace : job.node.kind ≠ .race :=
      hcalm.race job.node (h.shape.walk_subset job hjob (Node.mem_walk_self _))
    have hnone (hnot : ∀ kid ∈ kids, Live.status kid ≠ .failed) :
        (kids.filter fun kid => kid.status = .failed) = [] := by
      rw [List.filter_eq_nil_iff]
      exact fun kid hmem => by simp [hnot kid hmem]
    have hall (hcount : AllCount job kids) :
        (kids.filter fun kid => kid.status = .failed) = [] ∧ job.entry.output = outputs kids := by
      refine ⟨hnone fun kid hmem => ?_, hcount.2 hstatus⟩
      rw [hcount.1.1 hstatus kid hmem]
      simp
    cases o with
    | refused => exact hfits.elim
    | chosen k =>
      obtain ⟨kid, hkid, hiff, houtput⟩ := hcomposed
      have hempty := hnone fun other hmem hfailed => by
        obtain ⟨j, hj⟩ := List.getElem?_of_mem hmem
        obtain rfl := eq_of_fits hfits h.shape hkids hj (by simp [hfailed])
        rw [hkid, Option.some.injEq] at hj
        rw [← hj, hiff.1 hstatus] at hfailed
        cases hfailed
      rw [Opening.tally_of_nil hfits hempty, Opening.output, hkid, houtput hstatus]
      rfl
    | items elements =>
      obtain ⟨hempty, houtput⟩ := hall hcomposed.2
      rw [Opening.tally_of_nil hfits hempty, houtput]
      rfl
    | all =>
      rw [Composed, if_neg hrace] at hcomposed
      obtain ⟨hempty, houtput⟩ := hall hcomposed
      rw [Opening.tally_of_nil hfits hempty, houtput]
      rfl
  · obtain ⟨first, rest, hfilter, hfailure⟩ := hblamed.since hsince
    rw [h.account_of_failed hjob hkind hstatus (herror.trans (congrArg some hfailure)),
      Opening.tally_of_cons hfits hfilter]

/-- Of the children of a container that has succeeded those that it lets start have been tried. -/
theorem tried_of_composed {kid : Live} (hjob : s.jobAt a = some job)
    (hfits : o.Fits s a job) (hstatus : job.status = .succeeded) (hcomposed : Composed job kids o)
    (hkid : kids[i]? = some kid) {p : Nat → Prop} (hlets : o.Lets job.node.kind p i) :
    ¬ kid.status.Untried := by
  have hcount (hall : AllCount job kids) : ¬ kid.status.Untried := by
    rw [hall.1.1 hstatus kid (List.mem_of_getElem? hkid)]
    simp [Status.Untried]
  cases o with
  | refused => exact hfits.elim
  | chosen k =>
    obtain ⟨chosen, hchosen, hiff, _⟩ := hcomposed
    obtain rfl : i = k := hlets
    rw [hkid, Option.some.injEq] at hchosen
    rw [hchosen, hiff.1 hstatus]
    simp [Status.Untried]
  | items elements => exact hcount hcomposed.2
  | all =>
    have hrace : job.node.kind ≠ .race :=
      hcalm.race job.node (h.shape.walk_subset job hjob (Node.mem_walk_self _))
    rw [Composed, if_neg hrace] at hcomposed
    exact hcount hcomposed

/-- Of the children of a container that has failed because of children those that it lets start have
been tried. -/
theorem tried_of_blamed {kid : Live} {old : Job} {before : List Live} {failure : Failure}
    (hkids : s.root.at? a = some (.mk job kids)) (hkind : job.node.kind ≠ .step)
    (hfits : o.Fits s a job) (hstatus : job.status = .failed) (hsince : Since s old before job kids)
    (hblamed : Blamed old before failure) (hkid : kids[i]? = some kid)
    (hlets : o.Lets job.node.kind (fun j => s.statusAt (a ++ [j]) = some .succeeded) i) :
    ¬ kid.status.Untried := by
  obtain ⟨first, rest, hfilter, _⟩ := hblamed.since hsince
  have hfirst : first ∈ kids.filter fun kid => kid.status = .failed := by
    rw [hfilter]
    exact List.mem_cons_self
  rw [List.mem_filter, decide_eq_true_eq] at hfirst
  obtain ⟨f, hf⟩ := List.getElem?_of_mem hfirst.1
  have hself (hsame : i = f) : ¬ kid.status.Untried := by
    rw [← hsame, hkid, Option.some.injEq] at hf
    rw [hf, hfirst.2]
    simp [Status.Untried]
  have hgroup (hgroup : job.node.kind.isGroup = true) : ¬ kid.status.Untried := by
    intro huntried
    have huntried' := h.reached.whole h.sound hcalm.race (h.cancelled_eq hcalm) a job i f _ _
      (jobAt_of_at? hkids) hgroup (by simp [hstatus]) (Reached.exists_statusAt hkids hkid)
      (Reached.exists_statusAt hkids hf) huntried
    rw [hfirst.2] at huntried'
    rcases huntried' with hfailed | hfailed <;> cases hfailed
  cases o with
  | refused => exact hfits.elim
  | chosen k =>
    obtain rfl : i = k := hlets
    exact hself (eq_of_fits hfits h.shape hkids hf (by simp [hfirst.2])).symm
  | items elements => exact hgroup (by rw [hfits.1]; rfl)
  | all =>
    cases hnode : job.node.kind with
    | step => exact absurd hnode hkind
    | branch => exact absurd hnode hfits.1
    | loop => exact absurd hnode hfits.2
    | parallel => exact hgroup (by rw [hnode]; rfl)
    | race => exact hgroup (by rw [hnode]; rfl)
    | sequence =>
      -- the child that has failed is not before this one
      have hnot : ¬ f < i := by
        intro hlt
        have hsucceeded : s.statusAt (a ++ [f]) = some .succeeded := hlets hnode f hlt
        rw [Reached.exists_statusAt hkids hf, hfirst.2] at hsucceeded
        cases hsucceeded
      rcases Nat.lt_or_eq_of_le (Nat.le_of_not_lt hnot) with hlt | hsame
      · rw [hblamed.succeeded_before hsince hnode hf hfirst.2 hkid hlt]
        simp [Status.Untried]
      · exact hself hsame

/-- A container that has ended has let all those children start that it lets start. -/
theorem started_of_lets {kid : Job} (hturn : Turn setup tree a steps)
    (ho : ((State.start setup tree).runWithin setup steps).openingAt setup a = o)
    (hkids : s.root.at? a = some (.mk job kids)) (hkind : job.node.kind ≠ .step)
    (hstarted : job.entry.progress.started.isSome) (hend : job.status.isTerminal)
    (hkid : s.jobAt (a ++ [i]) = some kid)
    (hlets : o.Lets job.node.kind (fun j => s.statusAt (a ++ [j]) = some .succeeded) i) :
    kid.entry.progress.started.isSome := by
  have hjob := jobAt_of_at? hkids
  have hkidEnd : kid.status.isTerminal :=
    h.control.isTerminal_below (List.prefix_append a [i]) (statusAt_of_jobAt hjob) hend hkid
  have htried (hnot : ¬ kid.status.Untried) : kid.entry.progress.started.isSome := by
    rcases h.status_of_ended hcalm hkid hkidEnd with ⟨hyes, _⟩ | ⟨_, hskipped⟩
    · exact hyes
    · exact absurd (.inr hskipped) hnot
  rw [jobAt_concat hkids, Option.map_eq_some_iff] at hkid
  obtain ⟨live, hlive, rfl⟩ := hkid
  rcases h.ended_cases hcalm hturn ho hkids hkind hstarted hend with
    ⟨failure, rfl, _⟩ | ⟨hfits, hstatus, hcomposed⟩ |
      ⟨hfits, hstatus, old, before, failure, hsince, hblamed, _⟩
  · exact hlets.elim
  · exact htried (h.tried_of_composed hcalm hjob hfits hstatus hcomposed hlive hlets)
  · exact htried (h.tried_of_blamed hcalm hkids hkind hfits hstatus hsince hblamed hlive hlets)

end Final

end State
end Workflow
