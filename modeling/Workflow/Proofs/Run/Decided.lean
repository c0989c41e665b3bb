import Workflow.Proofs.Run.Past
import Workflow.Proofs.Run.Reports

/-!
# How races are decided

A race is decided by the event at which a candidate succeeds first. The candidate is counted as the
winner before any other node is moved, so that nothing below the race starts after the event.

* `State.Decided` says what the event that decides a race divides the trace into.
* `State.Contest` says that the winner of every race is the candidate of such an event, and that a race
  that has succeeded has its output, and `State.Reached.contest` that this holds of every state of a
  run.
-/

namespace Workflow

namespace State

variable {setup : Setup} {tree : Node} {s t : State} {hand after : Option Address} {doing : Doing}
  {a b : Address} {job job' : Job} {w : Nat} {before later : List Event} {e : Event}

/-! ## The event that decides a race -/

/-- The event says that the candidate of the race has succeeded. -/
def Succeeds (s : State) (a : Address) (i : Nat) (e : Event) : Prop :=
  ∃ kid, s.jobAt (a ++ [i]) = some kid ∧ e.path = kid.entry.path ∧ e.status = .succeeded

/-- The node has not started since the race around it was decided. -/
def Spared (s : State) (job : Job) : Prop :=
  job.status = .pending ∨ job.status = .skipped ∨ (job.status = .cancelled ∧ s.cancelled = true)

/-- The candidate at a position is the first of the race to succeed. After the event that says so
nothing starts below the race, and what had not started before is left out. -/
structure Decided (s : State) (a : Address) (w : Nat) (before : List Event) (e : Event)
    (later : List Event) : Prop where
  trace : s.trace = before ++ e :: later
  success : Succeeds s a w e
  first : ∀ x ∈ before, ∀ i, ¬ Succeeds s a i x
  starts : ∀ x ∈ later, ∀ i c job, s.jobAt (a ++ i :: c) = some job → x.path = job.entry.path →
    x.status ≠ .running
  spared : ∀ i c job, s.jobAt (a ++ i :: c) = some job →
    (∀ x ∈ before ++ [e], x.path ≠ job.entry.path) → Spared s job

/-- What is known of a race that has been decided lasts while nothing starts below the race. -/
theorem Decided.next {more : List Event} (h : Decided s a w before e later) (hs : Shape tree s)
    (ht : Shape tree t) (hchronicle : Chronicle s)
    (hjobs : ∀ b job, s.jobAt b = some job → ∃ job', t.jobAt b = some job')
    (htrace : t.trace = s.trace ++ more)
    (hstarts : ∀ x ∈ more, ∀ i c job, t.jobAt (a ++ i :: c) = some job →
      x.path = job.entry.path → x.status ≠ .running)
    (hspared : ∀ i c job job', s.jobAt (a ++ i :: c) = some job →
      t.jobAt (a ++ i :: c) = some job' → Spared s job → Spared t job')
    (hfresh : ∀ b job', s.jobAt b = none → t.jobAt b = some job' → job'.status = .pending) :
    Decided t a w before e (later ++ more) := by
  -- an event of the past is about a node that has been there
  have hold (x : Event) (hx : x ∈ s.trace) (b : Address) (job' : Job) (hjob' : t.jobAt b = some job')
      (hpath : x.path = job'.entry.path) :
      ∃ job, s.jobAt b = some job ∧ x.path = job.entry.path := by
    obtain ⟨c, job, hjob, hknown⟩ := hchronicle.known x hx
    obtain ⟨new, hnew⟩ := hjobs c job hjob
    have hcb : c = b := ht.path_inj hnew hjob' (by rw [hs.path_eq ht hjob hnew, hknown, hpath])
    exact ⟨job, hcb ▸ hjob, hknown.symm⟩
  have hmem (x : Event) (hx : x ∈ before ∨ x = e ∨ x ∈ later) : x ∈ s.trace := by
    rw [h.trace]
    rcases hx with hx | rfl | hx
    · exact List.mem_append_left _ hx
    · simp
    · simp [hx]
  constructor
  · rw [htrace, h.trace, List.append_assoc, List.cons_append]
  · obtain ⟨kid, hkid, hpath, hstatus⟩ := h.success
    obtain ⟨kid', hkid'⟩ := hjobs _ kid hkid
    exact ⟨kid', hkid', by rw [hpath, hs.path_eq ht hkid hkid'], hstatus⟩
  · rintro x hx i ⟨kid', hkid', hpath, hstatus⟩
    obtain ⟨kid, hkid, hpath'⟩ := hold x (hmem x (.inl hx)) _ kid' hkid' hpath
    exact h.first x hx i ⟨kid, hkid, hpath', hstatus⟩
  · intro x hx i c job' hjob' hpath
    rcases List.mem_append.1 hx with hx | hx
    · obtain ⟨job, hjob, hpath'⟩ := hold x (hmem x (.inr (.inr hx))) _ job' hjob' hpath
      exact h.starts x hx i c job hjob hpath'
    · exact hstarts x hx i c job' hjob' hpath
  · intro i c job' hjob' hnone
    cases hjob : s.jobAt (a ++ i :: c) with
    | none => exact .inl (hfresh _ job' hjob hjob')
    | some job =>
      refine hspared i c job job' hjob hjob' (h.spared i c job hjob fun x hx => ?_)
      rw [← hs.path_eq ht hjob hjob']
      exact hnone x hx

/-- Without a move everything stays as it is. -/
theorem Decided.quiet (h : Decided s a w before e later) (hs : Shape tree s) (ht : Shape tree t)
    (hchronicle : Chronicle s) (hquiet : Quiet s t) (hcancelled : s.cancelled = true → t.cancelled = true) :
    Decided t a w before e later := by
  have hnext : Decided t a w before e (later ++ []) := h.next hs ht hchronicle
    (fun b job hjob => ((hquiet.entry b job hjob).imp fun _ h => h.1))
    (by rw [hquiet.trace, List.append_nil]) (fun x hx => by cases hx)
    (fun i c job job' hjob hjob' hspared => ?_)
    fun b job' hnone hjob' => (hquiet.fresh b job' hnone hjob').status
  · rwa [List.append_nil] at hnext
  · have hstatus := hquiet.statusAt hjob
    rw [statusAt_of_jobAt hjob, statusAt_of_jobAt hjob', Option.some.injEq] at hstatus
    unfold Spared
    rw [hstatus]
    exact hspared.imp_right (Or.imp_right fun h => ⟨h.1, hcancelled h.2⟩)

/-- A node that is moved stays in the tree with its path. -/
theorem Move.exists_job {f : Entry → Entry} {target : Status} {message : String} {x : Address}
    (h : Move setup doing s x b f target message)
    (ht : t = (s.modifyEntry b f).move b target message) {c : Address} (hjob : s.jobAt c = some job) :
    ∃ job', t.jobAt c = some job' := by
  obtain ⟨_, _, _, _, hjobs, _⟩ := h.moved ht
  rw [hjobs]
  split
  · exact ⟨_, rfl⟩
  · exact ⟨job, hjob⟩

/-- Below a race with a winner no node starts. -/
theorem Move.ne_running_of_winner {f : Entry → Entry} {target : Status} {message : String}
    {x c : Address} {i : Nat} (hmove : Move setup doing s x (a ++ i :: c) f target message)
    (hwinner : (s.winnerAt a).isSome) : target ≠ .running := by
  rintro rfl
  have hx := hmove.eq_of_running rfl
  generalize hb : a ++ i :: c = b at hmove
  cases hmove with
  | begin _ _ hhalted => exact hhalted (halted_iff_winnerAt.2 ⟨a, i, c, hb.symm, hwinner⟩)
  | leave _ _ homitted => cases homitted.isTerminal

/-- A node that has not started since a race was decided is left out by a move that does not start
it. -/
theorem Spared.moved {f : Entry → Entry} {target : Status} {message : String} {x : Address}
    (hspared : Spared s job) (hjob : s.jobAt b = some job) (htarget : target ≠ .running)
    (hmove : Move setup doing s x b f target message)
    (hcancelled : s.cancelled = true → t.cancelled = true) :
    Spared t (({ job with entry := f job.entry } : Job).moved target s.now) := by
  obtain ⟨old, hold, hlegal, _⟩ := hmove.legal
  rw [hjob, Option.some.injEq] at hold
  subst hold
  -- what is moved was pending
  have hpending : job.status = .pending := by
    rcases hspared with hspared | hspared | ⟨hspared, _⟩
    · exact hspared
    · rw [hspared] at hlegal; cases target <;> cases hlegal
    · rw [hspared] at hlegal; cases target <;> cases hlegal
  rw [Spared, Job.status_moved]
  have hnot {old : Job} {kids : List Live} (hkids : s.root.at? b = some (.mk old kids))
      (hrun : old.status = .running) : False := by
    rw [jobAt_of_at? hkids, Option.some.injEq] at hjob
    rw [hjob, hpending] at hrun
    cases hrun
  cases hmove with
  | begin => exact absurd rfl htarget
  | leave _ _ homitted =>
    exact .inr (homitted.target.imp_right fun h => ⟨h.1, hcancelled h.2⟩)
  | succeed hkids hrun => exact (hnot hkids hrun).elim
  | fail hkids hrun => exact (hnot hkids hrun).elim
  | stop hkids hrun => exact (hnot hkids hrun).elim

/-- Below a race with a winner no node starts, so that a move only leaves nodes out. -/
theorem Decided.move {f : Entry → Entry} {target : Status} {message : String} {x : Address}
    (h : Decided s a w before e later) (hwinner : (s.winnerAt a).isSome) (hs : Shape tree s)
    (hshape : Shape tree t) (hchronicle : Chronicle s)
    (hmove : Move setup doing s x b f target message)
    (ht : t = (s.modifyEntry b f).move b target message)
    (hcancelled : s.cancelled = true → t.cancelled = true) :
    ∃ y, Decided t a w before e (later ++ [y]) := by
  obtain ⟨job, hjob, _, _, hjobs, htrace⟩ := hmove.moved ht
  have hb : t.jobAt b = some (({ job with entry := f job.entry } : Job).moved target s.now) := by
    rw [hjobs, if_pos rfl]
  refine ⟨_, h.next hs hshape hchronicle (fun c old hold => hmove.exists_job ht hold) htrace ?_ ?_ ?_⟩
  · rintro y hy i c new hnew hpath
    rw [List.mem_singleton] at hy
    subst hy
    change ((f job.entry).moved target s.now).status ≠ .running
    rw [Entry.status_moved]
    obtain rfl := hshape.path_inj hb hnew hpath
    exact hmove.ne_running_of_winner hwinner
  · intro i c old new hold hnew hspared
    rw [hjobs] at hnew
    split at hnew
    · rename_i hbc
      subst hbc
      rw [hjob, Option.some.injEq] at hold
      subst hold
      rw [← Option.some.inj hnew]
      exact hspared.moved hjob (hmove.ne_running_of_winner hwinner) hmove hcancelled
    · rw [hold, Option.some.injEq] at hnew
      subst hnew
      exact hspared.imp_right (Or.imp_right fun h => ⟨h.1, hcancelled h.2⟩)
  · intro c new hnone hnew
    rw [hjobs] at hnew
    split at hnew
    · rename_i hcb
      rw [hcb, hjob] at hnone
      cases hnone
    · rw [hnone] at hnew
      cases hnew

/-! ## Candidates that have not been counted -/

/-- While a success has not been counted no node is moved. -/
theorem Move.not_succeeded {f : Entry → Entry} {target : Status} {message : String} {x : Address}
    {i : Nat} (hmove : Move setup doing s x b f target message) (hr : Reached setup tree s (some x))
    (htree : tree.Sound) (hjob : s.jobAt a = some job) (hrace : job.node.kind = .race)
    (hwinner : job.winner = none) : s.statusAt (a ++ [i]) ≠ some .succeeded := by
  intro hstatus
  have hactive : Active s (some x) (a ++ [i]) := by
    by_contra hinactive
    have := (hr.reasons htree).won a i job hjob hrace hstatus hinactive
    rw [hwinner] at this
    cases this
  have hx : x = a ++ [i] := by
    rcases hactive with hhand | henter | hreport | hrun
    · exact Option.some.inj hhand
    · have hproper := ((hr.control htree).proper _ henter).1
      rw [hstatus] at hproper
      cases hproper
    · exact absurd hreport ((hr.prompt htree).not_mem _)
    · rw [hstatus] at hrun
      cases hrun
  subst hx
  have hrunning {kids : List Live} {old : Job} (hkids : s.root.at? (a ++ [i]) = some (.mk old kids))
      (hrun : old.status = .running) : False := by
    rw [statusAt_of_jobAt (jobAt_of_at? hkids), hrun] at hstatus
    cases hstatus
  cases hmove with
  | begin hpending => rw [hstatus] at hpending; cases hpending
  | leave _ hpending homitted =>
    cases homitted with
    | cancelled => rw [hstatus] at hpending; cases hpending
    | lost => rw [hstatus] at hpending; cases hpending
    | failed _ hfailed => rw [hstatus] at hfailed; cases hfailed
    | stopped _ hstopped hend =>
      rw [hstatus, Option.some.injEq] at hstopped
      subst hstopped
      rcases hend with h | h <;> cases h
    | notChosen hbranch hrun =>
      rw [statusAt_of_jobAt hbranch, hrun] at hstatus
      cases hstatus
  | succeed hkids hrun => exact hrunning hkids hrun
  | fail hkids hrun => exact hrunning hkids hrun
  | stop hkids hrun => exact hrunning hkids hrun

/-- The first candidate to succeed decides its race. -/
theorem Move.decided {f : Entry → Entry} {target : Status} {message : String} {x : Address} {i : Nat}
    (hmove : Move setup doing s x b f target message) (hchronicle : Chronicle s)
    (hshape : Shape tree t) (hchronicle' : Chronicle t) (hs : Shape tree s)
    (ht : t = (s.modifyEntry b f).move b target message)
    (hnone : ∀ j, s.statusAt (a ++ [j]) ≠ some .succeeded)
    (hstatus : t.statusAt (a ++ [i]) = some .succeeded) :
    ∃ before e, Decided t a i before e [] := by
  obtain ⟨job, hjob, htarget, _, hjobs, htrace⟩ := hmove.moved ht
  rw [hmove.statusAt ht] at hstatus
  split at hstatus
  · rename_i hb
    rw [Option.some.injEq] at hstatus
    subst hstatus
    have hnew : t.jobAt (a ++ [i]) =
        some (({ job with entry := f job.entry } : Job).moved .succeeded s.now) := by
      rw [hjobs, if_pos hb]
    have hended : ((f job.entry).moved .succeeded s.now).status = .succeeded :=
      Entry.status_moved (f job.entry) .succeeded s.now
    have hsuccess : Succeeds t a i
        (eventOf ((f job.entry).moved .succeeded s.now) job.status s.now message) :=
      ⟨_, hnew, rfl, hended⟩
    refine ⟨s.trace, _, htrace, hsuccess, ?_, fun _ hx => absurd hx List.not_mem_nil, ?_⟩
    · rintro y hy j ⟨kid, hkid, hpath, hy'⟩
      -- the event would have been about a candidate that had succeeded
      obtain ⟨c, old, hold, hknown⟩ := hchronicle.known y hy
      obtain ⟨new, hnew⟩ := hmove.exists_job ht hold
      have hc : c = a ++ [j] := hshape.path_inj hnew hkid
        (by rw [hs.path_eq hshape hold hnew, hknown, hpath])
      subst hc
      refine hnone j ?_
      rw [statusAt_of_jobAt hold, Job.status,
        (hchronicle.node _ old hold).status_of_mem (mem_eventsOf.2 ⟨hy, hknown.symm⟩)
          (by rw [hy']; decide), hy']
    · intro j c new hnew hnoevent
      refine .inl (Lived.status_of_nil ?_)
      have hlived := hchronicle'.node _ new hnew
      have hnil : eventsOf t.trace new.entry.path = [] := by
        rw [eventsOf, List.filter_eq_nil_iff, htrace]
        intro y hy
        simpa using hnoevent y hy
      rwa [hnil] at hlived
  · exact absurd hstatus (hnone i)

/-! ## The invariant -/

/-- The winner of a race stays its winner. -/
theorem Change.winnerAt_of_some (hchange : Change setup doing s hand t after) (hshape : Shape tree s)
    (h : s.winnerAt a = some w) : t.winnerAt a = some w := by
  rcases hchange.winnerAt hshape with hsame |
    ⟨b, i, job, frame, kid, rest, _, _, _, hjob, _, hframe, _, rfl⟩
  · rw [hsame, h]
  · rw [winnerAt_counted hjob]
    split
    · rename_i hab
      rw [hab, winnerAt_of_jobAt hjob, Job.winner_of_frame? hframe] at h
      rw [winner_nextFrame, h]
      split <;> rfl
    · exact h

/-- The race has succeeded with the output of its winner, and the event of its end says so. -/
structure Crowned (s : State) (a : Address) (job : Job) (w : Nat) (kid : Job) : Prop where
  winner : s.winnerAt a = some w
  candidate : s.jobAt (a ++ [w]) = some kid
  status : kid.status = .succeeded
  output : job.entry.output = kid.entry.output
  event : ∃ x ∈ s.trace, x.path = job.entry.path ∧ x.status = .succeeded ∧
    x.message = s!"won by {kid.entry.path}"

/-- How the races of a state have been decided. -/
structure Contest (s : State) : Prop where
  /-- The winner of a race is the candidate that succeeded first. -/
  won : ∀ a w, s.winnerAt a = some w → ∃ before e later, Decided s a w before e later
  /-- So is a candidate that has succeeded and is not yet counted. -/
  uncounted : ∀ a job i, s.jobAt a = some job → job.node.kind = .race → job.winner = none →
    s.statusAt (a ++ [i]) = some .succeeded → ∃ before e, Decided s a i before e []
  /-- A race that has succeeded goes to its winner. -/
  crowned : ∀ a job, s.jobAt a = some job → job.node.kind = .race → job.status = .succeeded →
    job.arity ≠ 0 → ∃ w kid, Crowned s a job w kid

/-- An event says what it is given to say. -/
theorem message_eventOf {e : Entry} {previous : Status} {now : Int} {message : String}
    (h : message ≠ "") : (eventOf e previous now message).message = message :=
  if_neg (mt String.isEmpty_iff.1 h)

theorem wonBy_ne_empty (path : String) : s!"won by {path}" ≠ "" := by
  intro h
  exact absurd (String.append_eq_empty_iff.1 h).1 (by decide)

namespace Contest

theorem start (setup : Setup) (tree : Node) : Contest (start setup tree) := by
  have hjob {a : Address} {job : Job} (hjob : (State.start setup tree).jobAt a = some job) :
      job.status = .pending ∧ job.winner = none := by
    obtain ⟨path, node, rfl, _⟩ := Live.jobAt_ofNode hjob
    exact ⟨rfl, rfl⟩
  refine ⟨fun a w h => ?_, fun a job i _ _ _ h => ?_, fun a job h _ hstatus => ?_⟩
  · obtain ⟨job, h, hwinner⟩ := Option.bind_eq_some_iff.1 h
    rw [(hjob h).2] at hwinner
    cases hwinner
  · obtain ⟨job, h, hstatus⟩ := jobAt_of_statusAt h
    rw [(hjob h).1] at hstatus
    cases hstatus
  · rw [(hjob h).1] at hstatus
    cases hstatus

/-- The end of a race goes to its winner. -/
theorem crowned_of_succeed {kids : List Live} {output : Value} {message : String}
    (hs : Shape tree s) (hkids : s.root.at? a = some (.mk job kids)) (hrace : job.node.kind = .race)
    (harity : job.arity ≠ 0) (hearned : Earned setup job kids output message)
    (hjobs : ∀ c, t.jobAt c = if c = a then
      some (({ job with entry := { job.entry with output } } : Job).moved .succeeded s.now)
      else s.jobAt c)
    (htrace : t.trace = s.trace ++
      [eventOf (({ job.entry with output } : Entry).moved .succeeded s.now) job.status s.now message]) :
    ∃ w kid, Crowned t a (({ job with entry := { job.entry with output } } : Job).moved
      .succeeded s.now) w kid := by
  unfold Earned at hearned
  cases hwork : job.node.work with
  | race limit =>
    simp only [hwork] at hearned
    rcases hearned with ⟨w, kid, hwinner, hkid, hstatus, houtput, hmessage⟩ | ⟨hnil, _⟩
    · have hkidAt : t.jobAt (a ++ [w]) = some kid.job := by
        rw [hjobs, if_neg (by simp), jobAt_concat hkids, hkid]
        rfl
      refine ⟨w, kid.job, ?_, hkidAt, hstatus, houtput, eventOf (({ job.entry with output } :
        Entry).moved .succeeded s.now) job.status s.now message, ?_, rfl, rfl, ?_⟩
      · rw [winnerAt, hjobs, if_pos rfl]
        exact hwinner
      · rw [htrace]
        exact List.mem_append_right _ (List.mem_singleton_self _)
      · rw [message_eventOf (hmessage ▸ wonBy_ne_empty _), hmessage]
        rfl
    · rw [← hs.length_kids hkids, hnil] at harity
      exact absurd rfl harity
  | _ => rw [Node.kind, hwork] at hrace; cases hrace

/-- A race that has succeeded stays as it is. -/
theorem crowned_next {kid : Job} (h : Crowned s a job w kid) (hs : Shape tree s)
    (hchange : Change setup doing s hand t after) (hentry : job'.entry = job.entry)
    (htrace : ∀ x ∈ s.trace, x ∈ t.trace) : ∃ w kid, Crowned t a job' w kid := by
  obtain ⟨kid', hkid', _, hkidEntry⟩ :=
    hchange.entry_of_isTerminal hs h.candidate (by rw [h.status]; rfl)
  obtain ⟨x, hx, hpath, hstatus, hmessage⟩ := h.event
  refine ⟨w, kid', hchange.winnerAt_of_some hs h.winner, hkid', ?_, ?_, x, htrace x hx, ?_, hstatus, ?_⟩
  · rw [Job.status, hkidEntry]
    exact h.status
  · rw [hentry, hkidEntry, h.output]
  · rw [hentry, hpath]
  · rw [hkidEntry, hmessage]

/-- A move keeps what is known of races. -/
theorem move {f : Entry → Entry} {target : Status} {message : String} {x : Address}
    (h : Contest s) (hr : Reached setup tree s (some x)) (htree : tree.Sound)
    (hchange : Change setup doing s (some x) t (some x))
    (hmove : Move setup doing s x b f target message)
    (ht : t = (s.modifyEntry b f).move b target message) : Contest t := by
  have hs := hr.shape htree
  have hchronicle := hr.chronicle htree
  have hr' := hr.change hchange
  have hshape := hr'.shape htree
  obtain ⟨old, hold, htarget, _, hjobs, htrace⟩ := hmove.moved ht
  have hwinners (c : Address) : t.winnerAt c = s.winnerAt c := by
    rcases hchange.winnerAt hs with hsame | ⟨_, _, _, _, _, _, hhand, _⟩
    · exact hsame c
    · cases hhand
  refine ⟨fun a w hw => ?_, fun a job' i hjob' hrace hwinner hstatus => ?_,
    fun a job' hjob' hrace hstatus harity => ?_⟩
  · rw [hwinners] at hw
    obtain ⟨before, e, later, hdecided⟩ := h.won a w hw
    obtain ⟨y, hdecided'⟩ := hdecided.move (by rw [hw]; rfl) hs hshape hchronicle hmove ht hchange.cancelled
    exact ⟨before, e, later ++ [y], hdecided'⟩
  · have hnone (j : Nat) : s.statusAt (a ++ [j]) ≠ some .succeeded := by
      cases hjob : s.jobAt a with
      | none =>
        intro hsucceeded
        obtain ⟨kid, hkid, _⟩ := jobAt_of_statusAt hsucceeded
        obtain ⟨above, habove⟩ := jobAt_of_append hkid
        rw [hjob] at habove
        cases habove
      | some job =>
        have hnode := hs.node_eq hshape hjob hjob'
        refine hmove.not_succeeded hr htree hjob (hnode ▸ hrace) ?_
        rw [← winnerAt_of_jobAt hjob, ← hwinners, winnerAt_of_jobAt hjob', hwinner]
    exact hmove.decided hchronicle hshape (hr'.chronicle htree) hs ht hnone hstatus
  · by_cases hab : a = b
    · subst hab
      rw [hjobs, if_pos rfl, Option.some.injEq] at hjob'
      subst hjob'
      rw [Job.status_moved] at hstatus
      cases hmove with
      | begin => cases hstatus
      | leave _ _ homitted =>
        rcases homitted.target with htarget | ⟨htarget, _⟩ <;> rw [htarget] at hstatus <;> cases hstatus
      | succeed hkids hrun hfits hearned =>
        rw [jobAt_of_at? hkids, Option.some.injEq] at hold
        subst hold
        exact crowned_of_succeed hs hkids hrace harity hearned hjobs htrace
      | fail => cases hstatus
      | stop => cases hstatus
    · rw [hjobs, if_neg hab] at hjob'
      obtain ⟨w, kid, hcrowned⟩ := h.crowned a job' hjob' hrace hstatus harity
      exact crowned_next hcrowned hs hchange rfl fun y hy => by
        rw [htrace]
        exact List.mem_append_left _ hy

section Quiet

variable {i : Nat}

/-- The winner that a race gets where no node is moved is the candidate whose success has decided
it. -/
theorem won_quiet (h : Contest s) (hs : Shape tree s) (hshape : Shape tree t)
    (hchronicle : Chronicle s) (hchange : Change setup doing s hand t after) (hquiet : Quiet s t)
    (hw : t.winnerAt a = some w) : ∃ before e later, Decided t a w before e later := by
  have hnext {v : Nat} {before later : List Event} {e : Event}
      (hdecided : Decided s a v before e later) : Decided t a v before e later :=
    hdecided.quiet hs hshape hchronicle hquiet hchange.cancelled
  cases hold : s.winnerAt a with
  | some v =>
    rw [hchange.winnerAt_of_some hs hold, Option.some.injEq] at hw
    subst hw
    obtain ⟨before, e, later, hdecided⟩ := h.won a v hold
    exact ⟨before, e, later, hnext hdecided⟩
  | none =>
    rcases hchange.winnerAt hs with hsame |
      ⟨b, i, job, frame, kid, rest, _, _, _, hjob, hgroup, hframe, hkid, heq⟩
    · rw [hsame, hold] at hw
      cases hw
    · -- the candidate that is counted is the winner
      rw [heq, winnerAt_counted hjob] at hw
      split at hw
      · rename_i hab
        subst hab
        rw [winnerAt_of_jobAt hjob, Job.winner_of_frame? hframe] at hold
        rw [winner_nextFrame, hold] at hw
        split at hw
        · rename_i hwins
          rw [Option.none_or, Option.some.injEq] at hw
          subst hw
          obtain ⟨kidJob, kidKids⟩ := kid
          obtain ⟨before, e, hdecided⟩ := h.uncounted a job i hjob hwins.1
            (by rw [Job.winner_of_frame? hframe, hold])
            ((statusAt_of_jobAt (jobAt_of_at? hkid)).trans (congrArg some hwins.2))
          exact ⟨before, e, [], hnext hdecided⟩
        · cases hw
      · rw [hold] at hw
        cases hw

/-- Where no node is moved a success that is not counted yet stays the last event. -/
theorem uncounted_quiet (h : Contest s) (hs : Shape tree s) (hshape : Shape tree t)
    (hchronicle : Chronicle s) (hchange : Change setup doing s hand t after) (hquiet : Quiet s t)
    (hjob : t.jobAt a = some job) (hrace : job.node.kind = .race) (hwinner : job.winner = none)
    (hstatus : t.statusAt (a ++ [i]) = some .succeeded) :
    ∃ before e, Decided t a i before e [] := by
  have hstatus' := hquiet.statusAt_of_ne hstatus (by decide)
  obtain ⟨kid, hkid, _⟩ := jobAt_of_statusAt hstatus'
  obtain ⟨old, hold⟩ := jobAt_of_append hkid
  have hnode := hs.node_eq hshape hold hjob
  have hnone : old.winner = none := by
    cases hw : old.winner with
    | none => rfl
    | some v =>
      have := hchange.winnerAt_of_some hs ((winnerAt_of_jobAt hold).trans hw)
      rw [winnerAt_of_jobAt hjob, hwinner] at this
      cases this
  obtain ⟨before, e, hdecided⟩ := h.uncounted a old i hold (hnode ▸ hrace) hnone hstatus'
  exact ⟨before, e, hdecided.quiet hs hshape hchronicle hquiet hchange.cancelled⟩

/-- Where no node is moved a race that has succeeded keeps its output and its winner. -/
theorem crowned_quiet (h : Contest s) (hs : Shape tree s) (hshape : Shape tree t)
    (hchange : Change setup doing s hand t after) (hquiet : Quiet s t)
    (hjob : t.jobAt a = some job) (hrace : job.node.kind = .race)
    (hstatus : job.status = .succeeded) (harity : job.arity ≠ 0) :
    ∃ w kid, Crowned t a job w kid := by
  have hstatus' := hquiet.statusAt_of_ne ((statusAt_of_jobAt hjob).trans (congrArg some hstatus))
    (by decide)
  obtain ⟨old, hold, hsucceeded⟩ := jobAt_of_statusAt hstatus'
  have hnode := hs.node_eq hshape hold hjob
  have hloop : old.node.kind ≠ .loop := by rw [← hnode, hrace]; decide
  obtain ⟨new, hnew, _, hentry⟩ := hchange.entry_of_isTerminal hs hold (by rw [hsucceeded]; rfl)
  rw [hjob, Option.some.injEq] at hnew
  subst hnew
  rw [Job.arity_of_kind_ne (by rw [hrace]; decide), hnode, ← Job.arity_of_kind_ne hloop] at harity
  obtain ⟨w, kid, hcrowned⟩ := h.crowned a old hold (hnode ▸ hrace) hsucceeded harity
  exact crowned_next hcrowned hs hchange hentry fun x hx => hquiet.trace ▸ hx

/-- Where no node is moved a race at most gets the winner whose success has decided it. -/
theorem quiet (h : Contest s) (hr : Reached setup tree s hand) (htree : tree.Sound)
    (hchange : Change setup doing s hand t after) (hquiet : Quiet s t) : Contest t := by
  have hs := hr.shape htree
  have hshape := (hr.change hchange).shape htree
  have hchronicle := hr.chronicle htree
  exact ⟨fun _ _ hw => h.won_quiet hs hshape hchronicle hchange hquiet hw,
    fun _ _ _ hjob hrace hwinner hstatus =>
      h.uncounted_quiet hs hshape hchronicle hchange hquiet hjob hrace hwinner hstatus,
    fun _ _ hjob hrace hstatus harity =>
      h.crowned_quiet hs hshape hchange hquiet hjob hrace hstatus harity⟩

end Quiet

theorem change (h : Contest s) (hr : Reached setup tree s hand) (htree : tree.Sound)
    (hchange : Change setup doing s hand t after) : Contest t := by
  rcases hchange.move_or_quiet (hr.shape htree) with
    ⟨x, b, f, target, message, rfl, rfl, hmove, ht⟩ | hquiet
  · exact h.move hr htree hchange hmove ht
  · exact h.quiet hr htree hchange hquiet

end Contest

/-- In every state of a run races have been decided by the candidates that succeeded first. -/
theorem Reached.contest (h : Reached setup tree s hand) (htree : tree.Sound) : Contest s := by
  induction h with
  | start => exact .start setup tree
  | change hr hchange ih => exact ih.change hr htree hchange

end State
end Workflow
