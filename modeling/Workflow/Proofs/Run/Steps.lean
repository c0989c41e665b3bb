import Workflow.Proofs.Run.Begin

/-!
# Steps of a run

Every step of a run is a chain of changes that begins and ends without a node in hand, so that what
the changes keep holds of every state that a run comes to.

* `State.Reached.step` says this of one step, and `State.Reached.runWithin` and
  `State.Reached.runToEnd` of many.
-/

namespace Workflow.State

variable {setup : Setup} {tree : Node} {s t : State} {hand : Option Address} {doing : Doing}
  {a : Address} {job : Job} {kids : List Live} {rest : List Task}

/-! ## Several nodes are told -/

/-- Calls around which a race has been won, or all calls once the run is cancelled, are told to
stop. -/
theorem foldl_tell (l : List Address)
    (hl : ∀ b ∈ l, s.cancelled = true ∨ s.Halted b) :
    Changes setup doing s hand (l.foldl tell s) hand := by
  have hwinner (t : State) (b : Address) (h : ∀ c, t.winnerAt c = s.winnerAt c)
      (hb : s.Halted b) : t.Halted b := by
    rw [halted_iff_winnerAt] at hb ⊢
    simpa only [h] using hb
  refine (foldl_tell_induction (P := fun t => Changes setup doing s hand t hand ∧
    t.cancelled = s.cancelled ∧ ∀ c, t.winnerAt c = s.winnerAt c) s l
    ⟨.refl s hand, rfl, fun _ => rfl⟩ fun t b hb ht => ?_).1
  obtain ⟨hchanges, hcancelled, hsame⟩ := ht
  refine ⟨hchanges.trans (.single (.tell ?_)), (cancelled_tell ..).trans hcancelled, fun c => ?_⟩
  · rw [hcancelled]
    exact (hl b hb).imp_right (hwinner t b hsame)
  · rw [winnerAt_tell, hsame]

section Next

variable (s : State) (task : Task)

theorem tell_next (a : Address) : (s.next task).tell a = (s.tell a).next task := by
  unfold tell
  rw [show (s.next task).callAt a = s.callAt a from rfl]
  split
  · split <;> rfl
  · rfl

theorem foldl_tell_next (l : List Address) :
    l.foldl tell (s.next task) = (l.foldl tell s).next task := by
  induction l generalizing s with
  | nil => rfl
  | cons a l ih => rw [List.foldl_cons, List.foldl_cons, tell_next, ih]

/-- The wish to end the run leaves what is in front of the agenda. -/
theorem cancelRun_next : (s.next task).cancelRun = s.cancelRun.next task := by
  unfold cancelRun
  rw [show (s.next task).cancelled = s.cancelled from rfl]
  split
  · rfl
  · exact foldl_tell_next { s with cancelled := true } task _

end Next

namespace Reached

/-! ## Calls -/

/-- A step whose call has ended, or has to stop, ends. -/
theorem wake (h : Reached setup tree s none) (htree : tree.Sound)
    (hagenda : s.agenda = .wake a :: rest) :
    Changes setup .finish s none ({ s with agenda := rest }.wake a) none := by
  have hproper : Proper s none (.wake a) :=
    (h.control htree).proper _ (by rw [hagenda]; exact List.mem_cons_self)
  obtain ⟨job, call, hjob, hrun, hstage, htold, _⟩ := hproper
  obtain ⟨kids, hkids⟩ := at?_of_jobAt hjob
  have hcall : s.callAt a = some call := by rw [callAt_of_jobAt hjob, Job.call?, hstage]
  have hwaiting := h.waiting htree hjob hstage
  have hkind : job.node.kind = .step := by
    obtain ⟨own, hwork, _⟩ := hwaiting.work
    rw [Node.kind, hwork]
    rfl
  have htake : Change setup .finish s none (({ s with agenda := rest }).setStage a .idle)
      (some a) := .takeWake hagenda hcall rfl
  have hreached := h.change htake
  have hkids' : (({ s with agenda := rest } : State).setStage a .idle).root.at? a =
      some (.mk { job with stage := .idle } kids) :=
    at?_setStage (s := { s with agenda := rest }) hkids .idle
  have hcall' : ({ s with agenda := rest } : State).callAt a = some call := hcall
  refine (Changes.single htake).trans ?_
  unfold State.wake
  rw [hcall']
  simp only
  split
  · rename_i output _
    refine Reached.succeed hkids' hrun Doing.fits_finish ?_ fun b hab =>
      hreached.not_pending_of_step htree hkids' hrun hkind hab
    obtain ⟨own, hwork, _⟩ := hwaiting.work
    unfold Earned
    simp only [hwork]
    intro earlier hearlier
    rw [hwaiting.recorded] at hearlier
    cases hearlier
  · rename_i failure houtcome
    exact hreached.fail htree hkids' hrun
      (.called hkind hwaiting.recorded (hwaiting.attributed failure houtcome))
  · rename_i houtcome
    refine hreached.stop htree hkids' hrun Doing.fits_finish ⟨?_,
      fun _ => hwaiting.recorded, fun hk => absurd hkind hk, fun hk => ?_, fun hk => ?_⟩
    · rcases hwaiting.told htold with hended | hcancelled | hhalted
      · rw [houtcome] at hended
        cases hended
      · exact .inl hcancelled
      · refine .inr ((halted_iff_winnerAt).2 ?_)
        obtain ⟨above, i, below, ha, hwon⟩ := halted_iff_winnerAt.1 hhalted
        refine ⟨above, i, below, ha, ?_⟩
        exact htake.winnerAt_isSome (h.shape htree) hwon
    · rw [hkind] at hk
      cases hk
    · rw [hkind] at hk
      cases hk

/-- A call goes on, ends or ends the run. -/
theorem act {call : Call} (hagenda : s.agenda = .proceed a :: rest)
    (hcall : s.callAt a = some call) (houtcome : call.outcome = none)
    (hasked : call.asked = true) :
    Changes setup .call s none ({ s with agenda := rest }.act a call) none := by
  have hfilter (agenda : List Task)
      (h : agenda = .proceed a :: rest ∨ agenda = rest ++ [.proceed a] ∨ agenda = rest) :
      agenda.filter (fun task => !task.isProceed) =
        s.agenda.filter (fun task => !task.isProceed) := by
    rw [hagenda]
    rcases h with rfl | rfl | rfl <;> simp [Task.isProceed]
  unfold State.act
  split
  · rename_i hacts
    split
    · rename_i outcome hending
      exact .single (.answer outcome call.wakeAt call.deadline rest hcall houtcome
        (.inl ⟨hasked, hending⟩) (.inr hagenda) rfl)
    · rename_i hending
      refine .single (.dropProceed hagenda (fun other hother => ?_) rfl)
      rw [hcall, Option.some.injEq] at hother
      subst hother
      exact .inr ⟨hasked, hacts, hending⟩
  · rename_i acts hacts
    have hgo : Change setup .call s none _ none :=
      .goOn acts call.wakeAt (.proceed a :: rest) hcall houtcome (hfilter _ (.inl rfl))
        (fun b _ => by rw [hagenda]) (.inl List.mem_cons_self) rfl
    have heq := cancelRun_next
      (({ s with agenda := rest } : State).setStage a (.calling { call with acts })) (.proceed a)
    rw [← heq]
    exact (Changes.single hgo).trans (.single (.cancelRun rfl))
  · rename_i time acts hacts
    split
    · refine .single (.goOn acts call.wakeAt (rest ++ [.proceed a]) hcall houtcome
        (hfilter _ (.inr (.inl rfl))) (fun b hb => ?_) (.inl (by simp)) rfl)
      simp [hagenda, hb]
    · refine .single (.goOn acts (some (s.now + time)) rest hcall houtcome
        (hfilter _ (.inr (.inr rfl))) (fun b hb => ?_) (.inr rfl) rfl)
      simp [hagenda, hb]

/-- A call begins or goes on. -/
theorem proceed (h : Reached setup tree s none) (htree : tree.Sound)
    (hagenda : s.agenda = .proceed a :: rest) :
    Changes setup .call s none ({ s with agenda := rest }.proceed setup a) none := by
  have hproper : Proper s none (.proceed a) :=
    (h.control htree).proper _ (by rw [hagenda]; exact List.mem_cons_self)
  obtain ⟨job, hjob⟩ := hproper
  obtain ⟨kids, hkids⟩ := at?_of_jobAt hjob
  have hcallAt : s.callAt a = job.call? := callAt_of_jobAt hjob
  unfold State.proceed
  rw [show ({ s with agenda := rest } : State).root.at? a = some (.mk job kids) from hkids]
  simp only [Live.job]
  split
  · rename_i hnone
    refine .single (.dropProceed hagenda (fun call hcall => ?_) rfl)
    rw [hcallAt, hnone] at hcall
    cases hcall
  · rename_i call hsome
    rw [hsome] at hcallAt
    split
    · rename_i houtcome
      refine .single (.dropProceed hagenda (fun other hother => ?_) rfl)
      rw [hcallAt, Option.some.injEq] at hother
      subst hother
      exact .inl houtcome
    · rename_i houtcome
      rw [Option.not_isSome_iff_eq_none] at houtcome
      split
      · rename_i hasked
        exact act hagenda hcallAt houtcome hasked
      · rename_i hasked
        rw [Bool.not_eq_true] at hasked
        have hask : Change setup .call s none (s.ask setup a job.entry.inputs call) none :=
          .ask job.entry.inputs hcallAt hasked houtcome
            (by rw [hagenda]; exact List.mem_cons_self) rfl
        have heq : (({ s with agenda := rest } : State).ask setup a job.entry.inputs call).next
            (.proceed a) = s.ask setup a job.entry.inputs call := by
          obtain ⟨root, now, cancelled, agenda, history, fault⟩ := s
          simp only at hagenda
          subst hagenda
          rfl
        exact heq ▸ Changes.single hask

end Reached

/-! ## Notice -/

theorem report_concat (s : State) (a : Address) (i : Nat) :
    s.report (a ++ [i]) = s.reportKid a i := by
  rw [State.report, List.getLast?_append_cons, List.dropLast_concat]
  rfl

/-- What is known when the child of a node reports that it has ended. -/
structure Noticing (s : State) (a : Address) (i : Nat) (job : Job) (kids : List Live) (kid : Live)
    (rest : List Task) : Prop where
  agenda : s.agenda = .report (a ++ [i]) :: rest
  at? : s.root.at? a = some (.mk job kids)
  run : job.status = .running
  container : job.node.kind ≠ .step
  getElem? : kids[i]? = some kid
  ended : kid.status.isTerminal

/-- How a node takes notice that one of its children has ended. -/
inductive TakesNotice (s : State) (a : Address) (i : Nat) (job : Job) (kids : List Live)
    (kid : Live) (rest : List Task) : State → Prop
  /-- A sequence has waited for the child; those before have succeeded, those after are pending. -/
  | sequence {frame : Frame} : job.node.kind = .sequence → job.frame? = some frame →
      frame.begun = i + 1 → (∀ j, j < i → s.statusAt (a ++ [j]) = some .succeeded) →
      (∀ j, i < j → j < job.arity → s.statusAt (a ++ [j]) = some .pending) →
      TakesNotice s a i job kids kid rest
        (({ s with agenda := rest } : State).reportNext a job frame kids kid)
  /-- A branch has chosen the child; the others have been skipped. -/
  | branch : job.node.kind = .branch →
      (∀ j, j < job.arity → j ≠ i → s.statusAt (a ++ [j]) = some .skipped) →
      TakesNotice s a i job kids kid rest
        ((({ s with agenda := rest } : State).finish a [kid] kid.entry.output).reported a)
  /-- The child is one of several. -/
  | group {frame : Frame} : job.node.kind.isGroup = true → job.frame? = some frame →
      TakesNotice s a i job kids kid rest
        (({ s with agenda := rest } : State).reportOne a job frame i kid)

namespace Noticing

variable {i : Nat} {kid : Live} (hn : Noticing s a i job kids kid rest)

include hn

theorem jobAt : s.jobAt a = some job :=
  jobAt_of_at? hn.at?

theorem mem_agenda : .report (a ++ [i]) ∈ s.agenda := by
  rw [hn.agenda]
  exact List.mem_cons_self

theorem active : Active s none (a ++ [i]) :=
  .inr (.inr (.inl hn.mem_agenda))

theorem statusAt_kid : s.statusAt (a ++ [i]) = some kid.status :=
  Reached.exists_statusAt hn.at? hn.getElem?

theorem lt_arity (hshape : Shape tree s) : i < job.arity := by
  rw [← hshape.length_kids hn.at?]
  exact (List.getElem?_eq_some_iff.1 hn.getElem?).1

/-- The node takes notice as its kind asks for. -/
theorem takesNotice (h : Reached setup tree s none) (htree : tree.Sound) :
    TakesNotice s a i job kids kid rest (({ s with agenda := rest } : State).report (a ++ [i])) := by
  have hcontrol := h.control htree
  have hactive := hn.active
  have hlt := hn.lt_arity (h.shape htree)
  obtain ⟨_, _, _, hhand⟩ := hcontrol.parent hactive
  rw [report_concat, State.reportKid]
  rw [show ({ s with agenda := rest } : State).root.at? a = some (.mk job kids) from hn.at?]
  simp only [hn.getElem?]
  cases (hcontrol.node a job hn.jobAt).busy hn.run hhand with
  | calling _ hstep => exact absurd hstep hn.container
  | @sequence frame k hstage hseq hbegun _ _ hbefore hafter =>
    -- only the child that the sequence waits for is active
    obtain rfl : i = k := by
      rcases Nat.lt_trichotomy i k with hless | heq | hmore
      · exact absurd hactive (hbefore i hless).1.2
      · exact heq
      · exact absurd hactive (hafter i hmore hlt).2
    have hframe : job.frame? = some frame := by rw [Job.frame?, hstage]
    cases hwork : job.node.work with
    | sequence =>
      simp only [hframe]
      exact .sequence hseq hframe hbegun (fun j hj => (hbefore j hj).2)
        fun j hj hj' => (hafter j hj hj').1
    | _ => rw [Node.kind, hwork] at hseq; cases hseq
  | @branch frame k hstage hbranch _ _ hothers =>
    obtain rfl : i = k := by
      by_contra hik
      exact (hothers i hlt hik).1.2 hactive
    have hframe : job.frame? = some frame := by rw [Job.frame?, hstage]
    cases hwork : job.node.work with
    | branch =>
      simp only [hframe]
      exact .branch hbranch fun j hj hji => (hothers j hj hji).2
    | _ => rw [Node.kind, hwork] at hbranch; cases hbranch
  | @group frame hstage hgroup _ =>
    have hframe : job.frame? = some frame := by rw [Job.frame?, hstage]
    simp only [hframe]
    cases hwork : job.node.work with
    | step => rw [Node.kind, hwork] at hgroup; cases hgroup
    | sequence => rw [Node.kind, hwork] at hgroup; cases hgroup
    | branch => rw [Node.kind, hwork] at hgroup; cases hgroup
    | _ => exact .group hgroup hframe

end Noticing

namespace Reached

/-- A node that reports its end has a node above it that runs. -/
theorem noticing {b : Address} (h : Reached setup tree s none) (htree : tree.Sound)
    (hagenda : s.agenda = .report b :: rest) :
    ∃ a i job kids kid, b = a ++ [i] ∧ Noticing s a i job kids kid rest := by
  have hcontrol := h.control htree
  have hshape := h.shape htree
  have hmem : .report b ∈ s.agenda := by rw [hagenda]; exact List.mem_cons_self
  have hproper : Proper s none (.report b) := hcontrol.proper _ hmem
  obtain ⟨hne, ⟨status, hstatus, hterminal⟩, _⟩ := hproper
  rcases List.eq_nil_or_concat b with rfl | ⟨a, i, rfl⟩
  · exact absurd rfl hne
  rw [List.concat_eq_append] at *
  have hactive : Active s none (a ++ [i]) := .inr (.inr (.inl hmem))
  obtain ⟨job, hjob, hrun, _⟩ := hcontrol.parent hactive
  obtain ⟨kids, hkids⟩ := at?_of_jobAt hjob
  have hlt := hcontrol.lt_arity hshape hjob hactive
  obtain ⟨kid, hkid⟩ : ∃ kid, kids[i]? = some kid :=
    ⟨_, List.getElem?_eq_getElem (by rw [hshape.length_kids hkids]; exact hlt)⟩
  refine ⟨a, i, job, kids, kid, rfl, hagenda, hkids, hrun, fun hstep => ?_, hkid, ?_⟩
  · rw [Job.arity_of_kind_ne (by rw [hstep]; decide),
      (hshape.sound a job hjob).children_eq_nil hstep] at hlt
    cases hlt
  · rw [exists_statusAt hkids hkid, Option.some.injEq] at hstatus
    rwa [hstatus]

/-! ## Children that have ended -/

section Sequence

variable {frame : Frame} {k : Nat} {kid : Live}

/-- A sequence whose child has succeeded goes on with the next one. -/
theorem goOn (hkids : s.root.at? a = some (.mk job kids)) (hrun : job.status = .running)
    (hkind : job.node.kind = .sequence) (hframe : job.frame? = some frame)
    (hbegun : frame.begun = k + 1) (hkid : kids[k]? = some kid) (hsucceeded : kid.status = .succeeded)
    (hlt : frame.begun < job.arity)
    (hbefore : ∀ j, j < k → s.statusAt (a ++ [j]) = some .succeeded)
    (hafter : ∀ j, k < j → j < job.arity → s.statusAt (a ++ [j]) = some .pending) :
    Changes setup .finish s (some a)
      ((s.setStage a (.hosting { frame with begun := frame.begun + 1 })).next
        (.enter (a ++ [frame.begun]))) none := by
  have harity := Job.arity_setStage (by rw [hkind]; decide)
    (.hosting { frame with begun := frame.begun + 1 })
  have hhost : Change setup .finish s (some a)
      (s.setStage a (.hosting { frame with begun := frame.begun + 1 })) (some a) :=
    .host _ (jobAt_of_at? hkids) hrun (by rw [hkind]; decide) (by rw [Job.winner, hframe]; rfl)
      harity (.inr ⟨frame, hframe, rfl⟩)
  refine (Changes.single hhost).trans (.single (.enterNext
    (jobAt_of_at? (at?_setStage hkids _)) hrun hkind Doing.fits_finish rfl rfl ?_ ?_ ?_))
  · rw [harity]
    exact hlt
  · intro j hj
    rw [statusAt_setStage]
    rcases Nat.lt_or_eq_of_le (Nat.le_of_lt_succ (hbegun ▸ hj)) with hless | rfl
    · exact hbefore j hless
    · rw [exists_statusAt hkids hkid, hsucceeded]
  · intro j hj hj'
    rw [statusAt_setStage]
    rw [harity] at hj'
    exact hafter j (by omega) hj'

/-- A sequence ends after its last child, and after one that has not succeeded. -/
theorem finishSequence (h : Reached setup tree s (some a)) (htree : tree.Sound)
    (hkids : s.root.at? a = some (.mk job kids)) (hrun : job.status = .running)
    (hkind : job.node.kind = .sequence) (hkid : kids[k]? = some kid) (hend : kid.status.isTerminal)
    (hlast : kid.status = .succeeded → job.arity ≤ k + 1)
    (hbefore : ∀ j, j < k → s.statusAt (a ++ [j]) = some .succeeded)
    (hafter : ∀ j, k < j → j < job.arity → s.statusAt (a ++ [j]) = some .pending) :
    Changes setup .finish s (some a) ((s.finish a kids (outputs kids)).reported a) none := by
  have hstep : job.node.kind ≠ .step := by rw [hkind]; decide
  have hrace : job.node.kind ≠ .race := by rw [hkind]; decide
  have hbranch : job.node.kind ≠ .branch := by rw [hkind]; decide
  have hwinner := h.winnerAt_eq_none htree (jobAt_of_at? hkids) hrace
  have hlt {j : Nat} {other : Live} (hother : kids[j]? = some other) : j < job.arity := by
    rw [← (h.shape htree).length_kids hkids]
    exact (List.getElem?_eq_some_iff.1 hother).1
  have hbefore' (j : Nat) (other : Live) (hj : j < k) (hother : kids[j]? = some other) :
      other.status = .succeeded := by
    have hstatus := hbefore j hj
    rwa [exists_statusAt hkids hother, Option.some.injEq] at hstatus
  have hafter' (j : Nat) (other : Live) (hj : k < j) (hother : kids[j]? = some other) :
      other.status = .pending := by
    have hstatus := hafter j hj (hlt hother)
    rwa [exists_statusAt hkids hother, Option.some.injEq] at hstatus
  have hended : (∀ other ∈ kids, (Live.status other).isTerminal) ∨
      ∃ other ∈ kids, (Live.status other).isTerminal ∧ other.status ≠ .succeeded := by
    by_cases hsucceeded : kid.status = .succeeded
    · refine .inl fun other hmem => ?_
      obtain ⟨j, hj⟩ := List.getElem?_of_mem hmem
      have hle := hlast hsucceeded
      rcases Nat.lt_or_ge j k with hjk | hjk
      · rw [hbefore' j other hjk hj]
        rfl
      · obtain rfl : j = k := by
          have := hlt hj
          omega
        rw [hkid, Option.some.injEq] at hj
        rwa [← hj]
    · exact .inr ⟨kid, List.mem_of_getElem? hkid, hend, hsucceeded⟩
  refine h.finish htree hkids hrun Doing.fits_finish ⟨⟨hstep, hrace⟩,
    fun _ hmem => hmem, rfl,
    h.cancelled_kid htree hkids hwinner, h.skipped_kid htree hkids hrun hbranch hwinner, hended,
    (fun hk => by rw [hkind] at hk; cases hk), fun _ => .inr ⟨k, hbefore', hafter'⟩,
    fun hk => absurd hk hbranch, fun hall => ⟨?_, fun b hab => ?_⟩⟩
  · unfold Earned
    cases hwork : job.node.work with
    | sequence => exact ⟨hall, rfl⟩
    | _ => rw [Node.kind, hwork] at hkind; cases hkind
  · exact h.not_pending_below htree hkids hrun hbranch
      (fun other hmem => by rw [hall other hmem]; rfl) hab

/-- A sequence goes on with its next child, or ends. -/
theorem reportNext (h : Reached setup tree s (some a)) (htree : tree.Sound)
    (hkids : s.root.at? a = some (.mk job kids)) (hrun : job.status = .running)
    (hkind : job.node.kind = .sequence) (hframe : job.frame? = some frame)
    (hbegun : frame.begun = k + 1) (hkid : kids[k]? = some kid) (hend : kid.status.isTerminal)
    (hbefore : ∀ j, j < k → s.statusAt (a ++ [j]) = some .succeeded)
    (hafter : ∀ j, k < j → j < job.arity → s.statusAt (a ++ [j]) = some .pending) :
    Changes setup .finish s (some a) (s.reportNext a job frame kids kid) none := by
  unfold State.reportNext
  rw [Job.count_eq_arity hframe]
  split
  · rename_i hgo
    exact goOn hkids hrun hkind hframe hbegun hkid hgo.1 hgo.2 hbefore hafter
  · rename_i hstop
    refine h.finishSequence htree hkids hrun hkind hkid hend (fun hsucceeded => ?_) hbefore hafter
    by_contra hlt
    exact hstop ⟨hsucceeded, by omega⟩

end Sequence

/-- Of several children only one has failed, if any. -/
theorem filter_failed {k : Nat} {kid : Live} (hkid : kids[k]? = some kid)
    (hothers : ∀ (j : Nat) (other : Live), j ≠ k → kids[j]? = some other →
      other.status ≠ .failed) :
    ([kid].filter fun kid => kid.status = .failed) =
      kids.filter fun kid => kid.status = .failed := by
  induction kids generalizing k with
  | nil => cases hkid
  | cons first rest ih =>
    cases k with
    | zero =>
      rw [List.getElem?_cons_zero, Option.some.injEq] at hkid
      subst hkid
      have hrest : (rest.filter fun kid => kid.status = .failed) = [] := by
        rw [List.filter_eq_nil_iff]
        intro other hmem
        obtain ⟨j, hj⟩ := List.getElem?_of_mem hmem
        have := hothers (j + 1) other (Nat.succ_ne_zero j) (by rwa [List.getElem?_cons_succ])
        simpa using this
      rw [List.filter_cons, List.filter_cons, hrest]
      rfl
    | succ k =>
      rw [List.getElem?_cons_succ] at hkid
      have hfirst : first.status ≠ .failed :=
        hothers 0 first (Nat.succ_ne_zero k).symm List.getElem?_cons_zero
      rw [ih hkid fun j other hj hother => hothers (j + 1) other (by omega)
        (by rwa [List.getElem?_cons_succ])]
      rw [List.filter_cons_of_neg (by simpa using hfirst)]

/-- A branch ends as its chosen child did. -/
theorem finishBranch {k : Nat} {kid : Live} (h : Reached setup tree s (some a))
    (htree : tree.Sound) (hkids : s.root.at? a = some (.mk job kids)) (hrun : job.status = .running)
    (hkind : job.node.kind = .branch) (hkid : kids[k]? = some kid) (hend : kid.status.isTerminal)
    (hskipped : kid.status = .skipped → s.Halted a)
    (hothers : ∀ (j : Nat) (other : Live), j ≠ k → kids[j]? = some other →
      other.status = .skipped)
    (hnone : ∀ b, a <+: b → s.statusAt b ≠ some .pending) :
    Changes setup .finish s (some a) ((s.finish a [kid] kid.entry.output).reported a) none := by
  have hstep : job.node.kind ≠ .step := by rw [hkind]; decide
  have hrace : job.node.kind ≠ .race := by rw [hkind]; decide
  have hwinner := h.winnerAt_eq_none htree (jobAt_of_at? hkids) hrace
  have hmem := List.mem_of_getElem? hkid
  refine h.finish htree hkids hrun Doing.fits_finish ⟨⟨hstep, hrace⟩,
    fun other hother => ?_,
    filter_failed hkid fun j other hj hother => by rw [hothers j other hj hother]; decide,
    fun other hother hstatus => ?_, fun other hother hstatus => ?_, .inl fun other hother => ?_,
    (fun hk => by rw [hkind] at hk; cases hk), fun hk => ?_, fun _ hnot other hother => ?_,
    fun hall => ⟨?_, hnone⟩⟩
  · rwa [List.mem_singleton.1 hother]
  · rw [List.mem_singleton] at hother
    subst hother
    exact h.cancelled_kid htree hkids hwinner other hmem hstatus
  · rw [List.mem_singleton] at hother
    subst hother
    exact hskipped hstatus
  · rwa [List.mem_singleton.1 hother]
  · rw [hkind] at hk
    cases hk
  · obtain ⟨chosen, hchosen, hnot⟩ := hnot
    rw [List.mem_singleton] at hchosen
    subst hchosen
    obtain ⟨j, hj⟩ := List.getElem?_of_mem hother
    by_cases hjk : j = k
    · subst hjk
      rw [hkid, Option.some.injEq] at hj
      rwa [← hj]
    · rw [hothers j other hjk hj]
      decide
  · unfold Earned
    cases hwork : job.node.work with
    | branch condition cases_ =>
      exact ⟨k, kid, hkid, hall kid (List.mem_singleton_self kid), rfl, hothers⟩
    | _ => rw [Node.kind, hwork] at hkind; cases hkind

end Reached

/-- Once a race is won, the calls of its other candidates have to stop. -/
def calledOff (s : State) (a : Address) (frame after : Frame) : State :=
  if frame.winner.isNone ∧ after.winner.isSome then s.tellCalls a else s

section CalledOff

variable {frame next : Frame}

theorem reportOne_eq (hframe : job.frame? = some frame) (i : Nat) (kid : Live) :
    ({ s with agenda := rest } : State).reportOne a job frame i kid =
      let t := (s.counted rest a job frame i kid).calledOff a frame (nextFrame job frame i kid)
      if frame.left = 1 then t.later (.join a) else t := by
  rw [State.reportOne, calledOff, State.counted, Job.count_eq_arity hframe]

/-- The node itself waits for no call. -/
theorem jobAt_calledOff (hjob : s.jobAt a = some job) (hstage : job.stage = .hosting next) :
    (s.calledOff a frame next).jobAt a = some job := by
  unfold calledOff
  split
  · have hcall : job.call? = none := by rw [Job.call?, hstage]
    rw [jobAt_tellCalls, if_pos (List.prefix_refl a), hjob, Option.map_some,
      Job.tell_of_call?_eq_none hcall]
  · exact hjob

theorem statusAt_calledOff (b : Address) : (s.calledOff a frame next).statusAt b = s.statusAt b := by
  unfold calledOff
  split
  · rw [State.statusAt, jobAt_tellCalls]
    split
    · rw [Option.map_map, State.statusAt]
      simp [Function.comp_def]
    · rfl
  · rfl

/-- The calls below the node have a reason to stop once its race is won. -/
theorem changes_calledOff (frame : Frame) (hjob : s.jobAt a = some job)
    (hstage : job.stage = .hosting next) :
    Changes setup doing s hand (s.calledOff a frame next) hand := by
  unfold calledOff
  split
  · rename_i hwon
    refine foldl_tell _ fun b hb => .inr ?_
    obtain ⟨⟨c, rfl⟩, hcall⟩ := (mem_callsUnder_iff ..).1 hb
    cases c with
    | nil =>
      rw [List.append_nil, callAt_of_jobAt hjob, Job.call?, hstage] at hcall
      cases hcall
    | cons j c => exact ⟨a, j, c, _, _, rfl, hjob, by rw [Job.frame?, hstage], hwon.2⟩
  · exact .refl s hand

end CalledOff

namespace Reached

/-- A node that runs several children takes notice that one has ended. -/
theorem reportOne {frame : Frame} {i : Nat} {kid : Live} (h : Reached setup tree s none)
    (htree : tree.Sound) (hagenda : s.agenda = .report (a ++ [i]) :: rest)
    (hkids : s.root.at? a = some (.mk job kids)) (hkid : kids[i]? = some kid)
    (hgroup : job.node.kind.isGroup = true) (hframe : job.frame? = some frame) :
    Changes setup .finish s none ({ s with agenda := rest }.reportOne a job frame i kid)
      none := by
  have hjob := jobAt_of_at? hkids
  have hcontrol := h.control htree
  have hr := hcontrol.reporting (h.shape htree) hagenda hjob hgroup hframe
  have hat : s.root.at? (a ++ [i]) = some kid := by rw [Live.at?_concat hkids, hkid]
  have hcount : Change setup .finish s none (s.counted rest a job frame i kid)
      (if frame.left = 1 then some a else none) := .count hagenda hjob hgroup hframe hat rfl
  have hself := hr.jobAt_self kid
  rw [reportOne_eq hframe]
  refine (Changes.single hcount).trans ((changes_calledOff frame hself rfl).trans ?_)
  split
  · rename_i hleft
    -- all children are done, so that the node is about to end
    have hleftEq := hr.left_eq hcontrol kid
    have hzero : remaining (s.counted rest a job frame i kid)
        (if frame.left = 1 then some a else none) a job.arity = 0 := by omega
    have harity : ({ job with stage := .hosting (nextFrame job frame i kid) } : Job).arity =
        job.arity := Job.arity_nextFrame hframe
    rw [if_pos hleft] at hzero
    refine .single (.gather (jobAt_calledOff hself rfl) hr.run hgroup Doing.fits_finish rfl ?_ ?_ ?_
      ?_)
    · rw [harity, hr.begun_nextFrame]
      have hbegun := hr.group.begun
      have hpos := hr.group.arity
      split <;> omega
    · change frame.left - 1 = 0
      rw [hleft]
    · rw [harity]
      exact hr.group.arity
    · intro j hj
      rw [harity] at hj
      rw [statusAt_calledOff]
      exact (remaining_eq_zero_iff.1 hzero j hj).1
  · exact .refl _ none

/-- Nothing pending is left below a branch when the child that it has chosen reports. -/
theorem not_pending_of_chosen {i : Nat} {kid : Live} (h : Reached setup tree s none)
    (htree : tree.Sound) (hn : Noticing s a i job kids kid rest)
    (hothers : ∀ j, j < job.arity → j ≠ i → s.statusAt (a ++ [j]) = some .skipped) {b : Address}
    (hab : a <+: b) : s.statusAt b ≠ some .pending := by
  have hcontrol := h.control htree
  obtain ⟨c, rfl⟩ := hab
  intro hpending
  cases c with
  | nil =>
    rw [List.append_nil, statusAt_of_jobAt hn.jobAt, hn.run] at hpending
    cases hpending
  | cons j c =>
    rw [List.append_cons] at hpending
    obtain ⟨below, hbelow, _⟩ := jobAt_of_statusAt hpending
    obtain ⟨other, hother⟩ := jobAt_of_append hbelow
    have hlt := ((h.shape htree).arity a j job hn.jobAt).1 (by rw [hother]; rfl)
    by_cases hj : j = i
    · subst hj
      exact hcontrol.closed_none (List.prefix_append _ c) hn.statusAt_kid hn.ended hpending
    · exact hcontrol.closed_none (List.prefix_append _ c) (hothers j hlt hj) rfl hpending

/-- A branch below which a race has been won may have skipped the child that it has chosen. -/
theorem halted_of_chosen {i : Nat} {kid : Live} (h : Reached setup tree s none)
    (htree : tree.Sound) (hn : Noticing s a i job kids kid rest) (hbranch : job.node.kind = .branch)
    (hskipped : kid.status = .skipped) : s.Halted a := by
  have hstatus := hn.statusAt_kid
  rw [hskipped] at hstatus
  have hwinner : s.winnerAt a = none :=
    h.winnerAt_eq_none htree hn.jobAt (by rw [hbranch]; decide)
  rcases (h.reasons htree).skipped a i job hn.jobAt hn.run hstatus with hhalted | ⟨_, hinactive⟩
  · exact halted_of_kid hwinner hhalted
  · exact absurd hn.active hinactive

/-- The node above one that has ended takes notice. -/
theorem report {b : Address} (h : Reached setup tree s none) (htree : tree.Sound)
    (hagenda : s.agenda = .report b :: rest) :
    Changes setup .finish s none ({ s with agenda := rest }.report b) none := by
  obtain ⟨a, i, job, kids, kid, rfl, hn⟩ := h.noticing htree hagenda
  have hnotice := hn.takesNotice h htree
  generalize ({ s with agenda := rest } : State).report (a ++ [i]) = t at hnotice ⊢
  cases hnotice with
  | sequence hseq hframe hbegun hbefore hafter =>
    have htake : Change setup .finish s none { s with agenda := rest } (some a) :=
      .takeReport hagenda hn.jobAt (.inl hseq) rfl
    exact (Changes.single htake).trans ((h.change htake).reportNext htree hn.at? hn.run hseq hframe
      hbegun hn.getElem? hn.ended hbefore hafter)
  | branch hbranch hothers =>
    have htake : Change setup .finish s none { s with agenda := rest } (some a) :=
      .takeReport hagenda hn.jobAt (.inr hbranch) rfl
    refine (Changes.single htake).trans ((h.change htake).finishBranch htree hn.at? hn.run hbranch
      hn.getElem? hn.ended (h.halted_of_chosen htree hn hbranch) (fun j other hj hother => ?_)
      fun b => h.not_pending_of_chosen htree hn hothers)
    have hlt : j < job.arity := by
      rw [← (h.shape htree).length_kids hn.at?]
      exact (List.getElem?_eq_some_iff.1 hother).1
    have hskipped := hothers j hlt hj
    rwa [exists_statusAt hn.at? hother, Option.some.injEq] at hskipped
  | group hgroup hframe => exact h.reportOne htree hagenda hn.at? hn.getElem? hgroup hframe

/-- What is known when all children of a node that runs several are done. -/
structure Joining (s : State) (a : Address) (job : Job) (kids : List Live) (frame : Frame) :
    Prop where
  at? : s.root.at? a = some (.mk job kids)
  run : job.status = .running
  group : job.node.kind.isGroup = true
  stage : job.stage = .hosting frame
  nonempty : kids ≠ []
  ended : ∀ kid ∈ kids, (Live.status kid).isTerminal

theorem joining (h : Reached setup tree s none) (htree : tree.Sound)
    (hagenda : s.agenda = .join a :: rest) : ∃ job kids frame, Joining s a job kids frame := by
  have hcontrol := h.control htree
  have hproper : Proper s none (.join a) :=
    hcontrol.proper _ (by rw [hagenda]; exact List.mem_cons_self)
  obtain ⟨job, frame, hjob, hrun, hstage, hgroup, hleft, hhand⟩ := hproper
  obtain ⟨kids, hkids⟩ := at?_of_jobAt hjob
  have hlength := (h.shape htree).length_kids hkids
  obtain ⟨frame', hstage', hknown⟩ := hcontrol.group_of_kind hjob hrun hhand hgroup
  rw [hstage, Stage.hosting.injEq] at hstage'
  subst hstage'
  refine ⟨job, kids, frame, hkids, hrun, hgroup, hstage, ?_, fun kid hmem => ?_⟩
  · rintro rfl
    have hpos := hknown.arity
    rw [← hlength] at hpos
    exact Nat.lt_irrefl 0 hpos
  · obtain ⟨i, hi⟩ := List.getElem?_of_mem hmem
    have hlt : i < job.arity := by
      rw [← hlength]
      exact (List.getElem?_eq_some_iff.1 hi).1
    obtain ⟨⟨status, hstatus, hterminal⟩, _⟩ :=
      remaining_eq_zero_iff.1 (hknown.left.symm.trans hleft) i hlt
    rw [exists_statusAt hkids hi, Option.some.injEq] at hstatus
    rwa [hstatus]

/-- A node that runs several children, all of which have ended, ends. -/
theorem joinTask (h : Reached setup tree s none) (htree : tree.Sound)
    (hagenda : s.agenda = .join a :: rest) :
    Changes setup .finish s none ({ s with agenda := rest }.join a) none := by
  obtain ⟨job, kids, frame, hj⟩ := h.joining htree hagenda
  have hframe : job.frame? = some frame := by rw [Job.frame?, hj.stage]
  have htake : Change setup .finish s none { s with agenda := rest } (some a) :=
    .takeJoin hagenda rfl
  exact (Changes.single htake).trans ((h.change htake).join htree hj.at? hj.run Doing.fits_finish
    hj.group hframe hj.ended (.inl hj.nonempty))

/-! ## The clock -/

/-- A call whose time has come has failed, or goes on. -/
theorem fire : Changes setup .call s none (s.fire a) none := by
  unfold State.fire
  split
  · exact .refl s none
  · rename_i call hcall
    split
    · exact .refl s none
    · rename_i houtcome
      rw [Option.not_isSome_iff_eq_none] at houtcome
      split
      · exact .single (.answer _ none none s.agenda hcall houtcome (.inr ⟨_, rfl⟩) (.inl rfl) rfl)
      · split
        · refine .single (.goOn call.acts none (s.agenda ++ [.proceed a]) hcall houtcome ?_
            (fun b hb => ?_) (.inl (by simp)) rfl)
          · simp [Task.isProceed]
          · simp [hb]
        · exact .refl s none

theorem jump (time : Int) : Changes setup .call s none (s.jump setup time) none := by
  have hfire (l : List Address) (t : State) :
      Changes setup .call t none (l.foldl State.fire t) none := by
    induction l generalizing t with
    | nil => exact .refl t none
    | cons a l ih => exact fire.trans (ih _)
  have htick : Change setup .call s none { s with now := max s.now time } none :=
    .tick (le_max_left ..) rfl
  unfold State.jump
  refine (Changes.single htick).trans ((hfire
    (({ s with now := max s.now time } : State).callsUnder []) _).trans ?_)
  simp only
  split
  · exact .single (.cancelRun rfl)
  · exact .refl _ none

/-! ## Steps -/

/-- A step of a run is a chain of changes. -/
theorem step (h : Reached setup tree s none) (htree : tree.Sound)
    (hstep : s.step setup = some t) : Changes setup (s.doing setup) s none t none := by
  unfold State.doing
  rcases step_cases hstep with ⟨task, agenda, hagenda, rfl⟩ | ⟨hagenda, _, time, _, rfl⟩
  · rw [hagenda]
    cases task with
    | enter a => exact h.enter htree hagenda
    | proceed a => exact h.proceed htree hagenda
    | wake a => exact h.wake htree hagenda
    | report a => exact h.report htree hagenda
    | join a => exact h.joinTask htree hagenda
  · rw [hagenda]
    exact jump time

/-- A run comes only to states that changes lead to. -/
theorem runWithin (h : Reached setup tree s none) (htree : tree.Sound) (steps : Nat) :
    Reached setup tree (s.runWithin setup steps) none := by
  induction steps generalizing s with
  | zero => exact h
  | succ steps ih =>
    rw [State.runWithin]
    split
    · rename_i t hstep
      exact ih (h.changes (h.step htree hstep))
    · exact h

theorem runToEnd (h : Reached setup tree s none) (htree : tree.Sound) :
    Reached setup tree (s.runToEnd setup) none := by
  fun_induction State.runToEnd s setup with
  | case1 s t hstep ih => exact ih (h.changes (h.step htree hstep))
  | case2 s => exact h

end Reached

/-! ## Numbers of steps -/

/-- One more step is done at the end. -/
theorem runWithin_succ (s : State) (setup : Setup) (steps : Nat) :
    s.runWithin setup (steps + 1) =
      ((s.runWithin setup steps).step setup).getD (s.runWithin setup steps) := by
  induction steps generalizing s with
  | zero =>
    rw [State.runWithin, State.runWithin]
    cases s.step setup <;> rfl
  | succ steps ih =>
    rw [State.runWithin]
    cases hstep : s.step setup with
    | none =>
      have hstay : s.runWithin setup (steps + 1) = s := by rw [State.runWithin, hstep]
      simp only [hstay, hstep, Option.getD_none]
    | some t =>
      have hgo : s.runWithin setup (steps + 1) = t.runWithin setup steps := by
        rw [State.runWithin, hstep]
      simp only [hgo]
      exact ih t

theorem runWithin_succ_of_step {steps : Nat} (hstep : (s.runWithin setup steps).step setup = some t) :
    s.runWithin setup (steps + 1) = t := by
  rw [runWithin_succ, hstep, Option.getD_some]

theorem runWithin_add (s : State) (setup : Setup) (steps more : Nat) :
    s.runWithin setup (steps + more) = (s.runWithin setup steps).runWithin setup more := by
  induction more with
  | zero => rfl
  | succ more ih => rw [← Nat.add_assoc, runWithin_succ, runWithin_succ, ih]

/-- A run comes only to states that changes lead to, whatever it is given. -/
theorem reached_runWithin (setup : Setup) (htree : tree.Sound) (steps : Nat) :
    Reached setup tree ((State.start setup tree).runWithin setup steps) none :=
  Reached.start.runWithin htree steps

/-- What holds of a state of a run and is kept by steps holds of all later states. -/
theorem Reached.runWithin_induction {P : State → Prop} (h : Reached setup tree s none)
    (htree : tree.Sound) (hs : P s)
    (hstep : ∀ s t, Reached setup tree s none → s.step setup = some t → P s → P t) (steps : Nat) :
    P (s.runWithin setup steps) := by
  induction steps with
  | zero => exact hs
  | succ steps ih =>
    rw [runWithin_succ]
    cases hnext : (s.runWithin setup steps).step setup with
    | none => exact ih
    | some t => exact hstep _ t (h.runWithin htree steps) hnext ih

/-- A run comes to its end after a number of steps. -/
theorem exists_runWithin (s : State) (setup : Setup) :
    ∃ steps, s.runToEnd setup = s.runWithin setup steps := by
  fun_induction State.runToEnd s setup with
  | case1 s t hstep ih =>
    obtain ⟨steps, hsteps⟩ := ih
    refine ⟨steps + 1, ?_⟩
    rw [hsteps, State.runWithin, hstep]
  | case2 s hstep => exact ⟨0, rfl⟩

end Workflow.State
