import Workflow.Proofs.Run.Ends

/-!
# How nodes start

The functions that start the node in hand are chains of changes, after which no node is in hand: the
node waits for a call or for its children, or has come to its end.

* `State.Started` is what is known of the node in hand from the time it starts until its children
  are asked to start.
-/

namespace Workflow.State

variable {setup : Setup} {tree : Node} {s t : State} {doing : Doing} {a : Address} {job : Job}
  {kids : List Live}

/-- The node in hand has started, and nothing below it has. -/
structure Started (setup : Setup) (tree : Node) (s : State) (a : Address) (job : Job)
    (kids : List Live) : Prop where
  reached : Reached setup tree s (some a)
  kids : s.root.at? a = some (.mk job kids)
  run : job.status = .running
  below : ∀ i c status, s.statusAt (a ++ i :: c) = some status → status = .pending
  winner : job.winner = none
  cancelled : s.cancelled = false
  halted : ¬ s.Halted a

namespace Started

theorem jobAt (h : Started setup tree s a job kids) : s.jobAt a = some job :=
  jobAt_of_at? h.kids

theorem pending (h : Started setup tree s a job kids) :
    ∀ kid ∈ kids, Live.status kid = .pending := by
  intro kid hmem
  obtain ⟨i, hi⟩ := List.getElem?_of_mem hmem
  exact h.below i [] _ (Reached.exists_statusAt h.kids hi)

/-- The children that the node should have are pending. -/
theorem statusAt_kid (h : Started setup tree s a job kids) (htree : tree.Sound) {i : Nat}
    (hi : i < job.arity) : s.statusAt (a ++ [i]) = some .pending := by
  rw [← (h.reached.shape htree).length_kids h.kids] at hi
  have hkid := List.getElem?_eq_getElem hi
  rw [Reached.exists_statusAt h.kids hkid, h.pending _ (List.mem_of_getElem? hkid)]

/-- The node notes what it knows about its children. -/
theorem host (h : Started setup tree s a job kids) (htree : tree.Sound)
    (o : Opening) (hkind : job.node.kind ≠ .step) (frame : Frame)
    (hwinner : frame.winner = none)
    (harity : ({ job with stage := .hosting frame } : Job).arity = job.arity) :
    Changes setup (.start a o) s (some a) (s.setStage a (.hosting frame)) (some a) ∧
      Started setup tree (s.setStage a (.hosting frame)) a { job with stage := .hosting frame }
        kids := by
  have hchange : Change setup (.start a o) s (some a) (s.setStage a (.hosting frame)) (some a) :=
    .host frame h.jobAt h.run hkind (hwinner.trans h.winner.symm) harity (.inl ⟨o, rfl⟩)
  refine ⟨.single hchange, h.reached.change hchange, at?_setStage h.kids _, h.run,
    fun i c status hstatus => ?_, hwinner, h.cancelled, ?_⟩
  · rw [statusAt_setStage] at hstatus
    exact h.below i c status hstatus
  · rw [hchange.halted_hand (h.reached.shape htree)]
    exact h.halted

/-- A container that cannot start fails. -/
theorem reject {failure : Failure} (h : Started setup tree s a job kids) (htree : tree.Sound)
    (hkind : job.node.kind ≠ .step)
    (hfailure : failure.kind = .binding ∨
      (job.node.kind = .branch ∧ ∃ value, failure = .noBranchMatched value)) :
    Changes setup (.start a (.refused failure)) s (some a) ((s.fail a failure).reported a) none :=
  h.reached.fail htree h.kids h.run (.rejected hkind rfl ⟨hfailure, h.pending⟩)

/-! ## Steps -/

/-- The inputs of a step are noted. -/
theorem bindStep (h : Started setup tree s a job kids) (htree : tree.Sound)
    (o : Opening) (hkind : job.node.kind = .step) (inputs : Fields Value)
    (hrecorded : ∀ earlier, setup.recorded? job.entry = some earlier → inputs = earlier.inputs) :
    Changes setup (.start a o) s (some a) (s.modifyEntry a fun e => { e with inputs }) (some a) ∧
      Started setup tree (s.modifyEntry a fun e => { e with inputs }) a
        { job with entry := { job.entry with inputs } } kids := by
  have hchange : Change setup (.start a o) s (some a)
      (s.modifyEntry a fun e => { e with inputs }) (some a) :=
    .bindStep inputs h.jobAt h.run hkind hrecorded ⟨o, rfl⟩
  refine ⟨.single hchange, h.reached.change hchange, at?_modifyEntry h.kids _, h.run,
    fun i c status hstatus => ?_, h.winner, h.cancelled, ?_⟩
  · have hsame := statusAt_modifyEntry s a (a ++ i :: c) (f := fun e => { e with inputs })
      fun _ => rfl
    exact h.below i c status (hsame.symm.trans hstatus)
  · rw [hchange.halted_hand (h.reached.shape htree)]
    exact h.halted

/-- A step takes over what is recorded of it, fails or is going to call its agent. -/
theorem beginStep {agent : String} {own : Option Binary64} (c : Context)
    (o : Opening) (h : Started setup tree s a job kids) (htree : tree.Sound)
    (hwork : job.node.work = .step agent own) (hstage : job.stage = .idle) :
    Changes setup (.start a o) s (some a) (s.beginStep setup a job agent own c) none := by
  have hkind : job.node.kind = .step := by rw [Node.kind, hwork]; rfl
  have hcongr (inputs : Fields Value) : setup.recorded? { job.entry with inputs } =
      setup.recorded? job.entry := setup.recorded?_congr rfl rfl
  unfold State.beginStep
  split
  · rename_i earlier hrecorded
    have hsame (other : Entry) (hother : setup.recorded? job.entry = some other) :
        earlier = other := by
      rw [hrecorded, Option.some.injEq] at hother
      exact hother
    obtain ⟨hchanges, hstarted⟩ := h.bindStep htree o hkind earlier.inputs
      fun other hother => by rw [hsame other hother]
    refine hchanges.trans (Reached.succeed hstarted.kids h.run (Doing.fits_of_step _ hkind) ?_
      fun b hab => hstarted.reached.not_pending_of_step htree hstarted.kids h.run hkind hab)
    unfold Earned
    simp only [hwork]
    intro other hother
    rw [hcongr] at hother
    rw [hsame other hother]
    exact ⟨rfl, rfl⟩
  · rename_i hrecorded
    split
    · exact h.reached.fail htree h.kids h.run (.unbound hkind hrecorded rfl)
    · rename_i inputs _
      obtain ⟨hchanges, hstarted⟩ := h.bindStep htree o hkind inputs
        fun other hother => by rw [hrecorded] at hother; cases hother
      exact hchanges.trans (.single (.callOut agent own hstarted.jobAt h.run hkind hstage
        ((hcongr inputs).trans hrecorded) hstarted.cancelled hwork ⟨o, rfl⟩))

/-! ## Nodes that run several children -/

/-- As many children are asked to start as may run at once; a node without children ends. -/
theorem spread {frame : Frame} (h : Started setup tree s a job kids) (htree : tree.Sound)
    (hfits : doing.Fits s a job) (hgroup : job.node.kind.isGroup = true)
    (hframe : job.frame? = some frame)
    (hbegun : frame.begun = min (setup.slots job.node.work job.arity) job.arity)
    (hleft : frame.left = job.arity) :
    Changes setup doing s (some a)
      (if job.arity = 0 then s.join a
        else { s with agenda :=
          s.agenda ++ (List.range frame.begun).map fun i => .enter (a ++ [i]) }) none := by
  split
  · rename_i harity
    have hnil : kids = [] := by
      rw [← List.length_eq_zero_iff, (h.reached.shape htree).length_kids h.kids, harity]
    refine h.reached.join htree h.kids h.run hfits hgroup hframe ?_ (.inr ⟨h.cancelled, h.halted⟩)
    rw [hnil]
    rintro kid ⟨⟩
  · rename_i harity
    exact .single (.fill h.jobAt h.run hgroup hfits hframe hbegun hleft (Nat.pos_of_ne_zero harity)
      fun j hj => h.statusAt_kid htree hj)

/-- Parallel nodes and races let their children start. -/
theorem openSlots (frame : Frame) (h : Started setup tree s a job kids) (htree : tree.Sound)
    (hgroup : job.node.kind.isGroup = true) (hbranch : job.node.kind ≠ .branch)
    (hloop : job.node.kind ≠ .loop) (hwinner : frame.winner = none) :
    Changes setup (.start a .all) s (some a)
      (s.openSlots setup a frame job.node.work kids.length) none := by
  have hlength := (h.reached.shape htree).length_kids h.kids
  have hkind : job.node.kind ≠ .step := by
    intro hk
    rw [hk] at hgroup
    cases hgroup
  have harity (frame : Frame) : ({ job with stage := .hosting frame } : Job).arity = job.arity :=
    Job.arity_setStage hloop _
  obtain ⟨hchanges, hstarted⟩ := h.host htree .all hkind
    { frame with
      begun := min (setup.slots job.node.work kids.length) kids.length
      left := kids.length } hwinner (harity _)
  have hspread := hstarted.spread htree (Doing.fits_all (b := a) hbranch hloop) hgroup
    rfl
    (by rw [harity, hlength]) (by rw [harity, hlength])
  refine hchanges.trans ?_
  rw [harity, ← hlength] at hspread
  exact hspread

/-! ## Sequences and branches -/

/-- A sequence lets its first child start. -/
theorem beginSequence {frame : Frame} (h : Started setup tree s a job kids)
    (htree : tree.Sound) (hkind : job.node.kind = .sequence) (hwinner : frame.winner = none) :
    Changes setup (.start a .all) s (some a) (s.beginSequence a frame kids) none := by
  have hstep : job.node.kind ≠ .step := by rw [hkind]; decide
  have hloop : job.node.kind ≠ .loop := by rw [hkind]; decide
  have hbranch : job.node.kind ≠ .branch := by rw [hkind]; decide
  cases kids with
  | nil =>
    refine h.reached.finish htree h.kids h.run (Doing.fits_all hbranch hloop)
      ⟨⟨hstep, by rw [hkind]; decide⟩, fun _ h => h, rfl, by simp, by simp, .inl (by simp), by simp,
      fun _ => .inl rfl, by simp, fun _ => ⟨?_, fun b hab => ?_⟩⟩
    · unfold Earned
      cases hwork : job.node.work with
      | sequence => exact ⟨by simp, rfl⟩
      | _ => rw [Node.kind, hwork] at hkind; cases hkind
    · exact h.reached.not_pending_below htree h.kids h.run (by rw [hkind]; decide) (by simp) hab
  | cons first rest =>
    obtain ⟨hchanges, hstarted⟩ := h.host htree .all hstep { frame with begun := 1 }
      hwinner (Job.arity_setStage hloop _)
    have hlength := (hstarted.reached.shape htree).length_kids hstarted.kids
    refine hchanges.trans (.single (.enterNext hstarted.jobAt h.run hkind
      (Doing.fits_all hbranch hloop) rfl rfl ?_ ?_ ?_))
    · rw [← hlength]
      exact Nat.succ_pos _
    · intro j hj
      cases hj
    · intro j _ hj
      exact hstarted.statusAt_kid htree hj

/-- The children of a branch at the positions of a list are left out. -/
theorem foldl_settle (doing : Doing) (l : List Nat)
    (hreached : Reached setup tree s (some a)) (hjob : s.jobAt a = some job)
    (hrun : job.status = .running) (hkind : job.node.kind = .branch) :
    let t := l.foldl (fun s i => s.settle (a ++ [i]) .skipped) s
    Changes setup doing s (some a) t (some a) ∧ t.jobAt a = some job ∧
      ∀ b, t.statusAt b =
        if (∃ i ∈ l, a ++ [i] <+: b) ∧ s.statusAt b = some .pending then some .skipped
        else s.statusAt b := by
  induction l generalizing s with
  | nil => exact ⟨.refl s _, hjob, by simp⟩
  | cons i l ih =>
    have hself : s.statusAt a = some .running := by rw [statusAt_of_jobAt hjob, hrun]
    have hnotPending : s.statusAt a ≠ some .pending := by rw [hself]; decide
    have hparent (p : Address) (j : Nat) (hp : a ++ [i] = p ++ [j]) :
        s.statusAt p ≠ some .pending := by
      obtain ⟨rfl, _⟩ := List.append_inj' hp rfl
      exact hnotPending
    have homitted (u : State) (hu : u.jobAt a = s.jobAt a) (_ : u.cancelled = s.cancelled)
        (c : Address) (hc : a ++ [i] <+: c) (_ : c ≠ a) : Omitted u a c .skipped := by
      obtain ⟨d, rfl⟩ := hc
      rw [← List.append_cons]
      exact .notChosen (hu.trans hjob) hrun hkind
    obtain ⟨hchanges, hsettled⟩ : Changes setup doing s (some a) (s.settle (a ++ [i]) .skipped)
        (some a) ∧ SettledUnder s (a ++ [i]) .skipped (s.settle (a ++ [i]) .skipped) :=
      hreached.settle (List.prefix_append a [i]) rfl hnotPending hparent homitted
    have hjob' : (s.settle (a ++ [i]) .skipped).jobAt a = some job := by
      rw [hsettled.job a fun h => hnotPending h.2, hjob]
    obtain ⟨hrest, hjobRest, hstatus⟩ := ih (hreached.changes hchanges) hjob'
    refine ⟨hchanges.trans hrest, hjobRest, fun b => ?_⟩
    rw [List.foldl_cons, hstatus, hsettled.status]
    by_cases hpending : s.statusAt b = some .pending
    · by_cases hi : a ++ [i] <+: b <;> simp [hpending, hi]
    · simp [hpending]

/-- A branch lets the child start that its condition selects. -/
theorem beginBranch (condition : Binding) (cases_ : List Value) (c : Context)
    (h : Started setup tree s a job kids) (htree : tree.Sound)
    (hkind : job.node.kind = .branch) {frame : Frame} (hframe : job.frame? = some frame) :
    Changes setup (.start a (s.branchOpening setup c condition cases_ kids.length)) s (some a)
      (s.beginBranch setup a c condition cases_ kids) none := by
  have hstep : job.node.kind ≠ .step := by rw [hkind]; decide
  have hlength := (h.reached.shape htree).length_kids h.kids
  unfold State.beginBranch branchOpening
  cases condition.evaluate (s.surroundings setup c) (some "condition") with
  | error e => exact h.reject htree hstep (.inl rfl)
  | ok value =>
    simp only
    split
    · rename_i hselected
      set k := cases_.findIdx fun case_ => matchesCase case_ value
      set others := (List.range kids.length).filter fun i => i ≠ k
      have hothers {i : Nat} : i ∈ others ↔ i < job.arity ∧ i ≠ k := by
        simp [others, hlength]
      obtain ⟨hchanges, hjob, hstatus⟩ := foldl_settle
        (.start a (.chosen k)) others h.reached h.jobAt h.run hkind
      rw [hlength] at hselected
      refine hchanges.trans (.single (.enterChosen hjob h.run hkind rfl hframe hselected ?_ ?_ ?_))
      · rw [hstatus, if_neg, h.statusAt_kid htree hselected]
        rintro ⟨⟨i, hi, hprefix⟩, _⟩
        have heq := List.IsPrefix.eq_of_length hprefix (by simp)
        exact (hothers.1 hi).2 (by simpa using heq)
      · rintro b ⟨d, rfl⟩ hne hnot
        rw [hstatus]
        split
        · decide
        · rename_i hleft
          intro hpending
          cases d with
          | nil => exact hne (List.append_nil a)
          | cons i d =>
            rw [List.append_cons a i d] at hpending hnot hleft
            refine hleft ⟨⟨i, hothers.2 ⟨?_, ?_⟩, List.prefix_append _ _⟩, hpending⟩
            · obtain ⟨below, hbelow, _⟩ := jobAt_of_statusAt hpending
              obtain ⟨kid, hkid⟩ := jobAt_of_append hbelow
              exact ((h.reached.shape htree).arity a i job h.jobAt).1 (by rw [hkid]; rfl)
            · intro hik
              rw [hik] at hnot
              exact hnot (List.prefix_append _ _)
      · intro j hj hjk
        rw [hstatus, if_pos ⟨⟨j, hothers.2 ⟨hj, hjk⟩, List.prefix_refl _⟩, h.statusAt_kid htree hj⟩]
    · exact h.reject htree hstep (.inr ⟨hkind, value, rfl⟩)

/-! ## Loops -/

/-- A loop gets an instance for every element of its source. -/
theorem expand {items : List Value} (frame : Frame) (h : Started setup tree s a job kids)
    (htree : tree.Sound) (hkind : job.node.kind = .loop) (hwinner : frame.winner = none)
    (harity : job.arity = 0) (hsource : frame.source = items) (t : State)
    (ht : t = ({ s with root := s.root.update (fun live => .mk live.job
      (Live.instances job.entry.path job.node items.length)) a }).setStage a (.hosting frame)) :
    Changes setup (.start a (.items items)) s (some a) t (some a) ∧
      Started setup tree t a { job with stage := .hosting frame }
        (Live.instances job.entry.path job.node items.length) := by
  subst hsource
  have hshape := h.reached.shape htree
  have hchange : Change setup (.start a (.items frame.source)) s (some a) t (some a) :=
    ht ▸ .expand frame h.jobAt h.run hkind harity h.winner hwinner rfl
  have hexp : Expansion s a job frame t := ⟨h.jobAt, h.run, hkind, harity, h.winner, hwinner, ht⟩
  obtain ⟨body, hbody⟩ := (hshape.sound a job h.jobAt).exists_body hkind
  refine ⟨.single hchange, h.reached.change hchange, ?_, h.run, fun i c status hstatus => ?_,
    hwinner, ?_, ?_⟩
  · rw [ht]
    exact at?_setStage (s := { s with root := s.root.update (fun live => .mk live.job
      (Live.instances job.entry.path job.node frame.source.length)) a })
        (Live.at?_update_self _ h.kids) _
  · obtain ⟨below, hbelow, rfl⟩ := jobAt_of_statusAt hstatus
    rw [hexp.jobAt_below hbody] at hbelow
    split at hbelow
    · obtain ⟨path, node, rfl, _⟩ := Live.jobAt_ofNode hbelow
      rfl
    · cases hbelow
  · rw [ht]
    exact h.cancelled
  · rw [hchange.halted_hand hshape]
    exact h.halted

/-- A loop lets the instances of its body start. -/
theorem beginLoop (source : Binding) (frame : Frame) (c : Context)
    (h : Started setup tree s a job kids) (htree : tree.Sound)
    (hkind : job.node.kind = .loop) (hwinner : frame.winner = none) (harity : job.arity = 0) :
    Changes setup (.start a (s.loopOpening setup c source)) s (some a)
      (s.beginLoop setup a c job frame source) none := by
  have hstep : job.node.kind ≠ .step := by rw [hkind]; decide
  have hgroup : job.node.kind.isGroup = true := by rw [hkind]; rfl
  unfold State.beginLoop loopOpening
  cases source.evaluate (s.surroundings setup c) (some "source") with
  | error e => exact h.reject htree hstep (.inl rfl)
  | ok value =>
    cases value with
    | array items =>
      set after : Frame :=
        { frame with
          source := items
          begun := min (setup.slots job.node.work items.length) items.length
          left := items.length }
      obtain ⟨hchanges, hstarted⟩ := h.expand after htree hkind hwinner harity rfl _ rfl
      have harityAfter : ({ job with stage := .hosting after } : Job).arity = items.length := by
        rw [Job.arity_of_loop _ rfl]
        exact hkind
      have hfits (t : State) :
          (Doing.start a (.items items)).Fits t a { job with stage := .hosting after } := by
        rintro b o ⟨⟩ _
        exact ⟨hkind, harityAfter⟩
      have hspread := hstarted.spread htree (hfits _) hgroup rfl (by rw [harityAfter])
        (by rw [harityAfter])
      rw [harityAfter] at hspread
      exact hchanges.trans hspread
    | _ => exact h.reject htree hstep (.inl rfl)

/-! ## Containers -/

/-- A container binds its inputs and lets its children start. -/
theorem beginContainer (c : Context) (h : Started setup tree s a job kids) (htree : tree.Sound)
    (hkind : job.node.kind ≠ .step) (hstage : job.stage = .idle) :
    Changes setup (.start a (s.opening setup c job.node kids.length)) s (some a)
      (s.beginContainer setup a job kids c) none := by
  unfold State.beginContainer opening
  cases bindInputs (s.surroundings setup c) job.node.header.inputs with
  | error e => exact h.reject htree hkind (.inl rfl)
  | ok bound =>
    have harity : ({ job with stage := .hosting { bound } } : Job).arity = job.arity := by
      rw [Job.arity, Job.arity, Job.frame?, Job.frame?, hstage]
      rfl
    obtain ⟨_, hstarted⟩ := h.host htree .all hkind { bound } rfl harity
    refine (h.host htree _ hkind { bound } rfl harity).1.trans ?_
    cases hwork : job.node.work with
    | step => rw [Node.kind, hwork] at hkind; exact absurd rfl hkind
    | sequence =>
      have hseq : job.node.kind = .sequence := by rw [Node.kind, hwork]; rfl
      exact hstarted.beginSequence htree hseq rfl
    | branch condition cases_ =>
      have hbranch : job.node.kind = .branch := by rw [Node.kind, hwork]; rfl
      have := hstarted.beginBranch condition cases_ (c.binding bound) htree hbranch rfl
      rwa [branchOpening_setStage] at this
    | loop source itemName indexName limit =>
      have hloop : job.node.kind = .loop := by rw [Node.kind, hwork]; rfl
      have hframe : ({ job with stage := .hosting { bound } } : Job).frame? = some { bound } := rfl
      have hzero : ({ job with stage := .hosting { bound } } : Job).arity = 0 := by
        rw [Job.arity_of_loop _ hframe]
        · rfl
        · exact hloop
      have := hstarted.beginLoop source { bound } (c.binding bound) htree hloop rfl hzero
      rwa [loopOpening_setStage] at this
    | parallel limit =>
      have hgroup : job.node.kind.isGroup = true := by rw [Node.kind, hwork]; rfl
      have hloop : job.node.kind ≠ .loop := by rw [Node.kind, hwork]; simp [Work.kind]
      have hbranch : job.node.kind ≠ .branch := by rw [Node.kind, hwork]; simp [Work.kind]
      have := hstarted.openSlots { bound } htree hgroup hbranch hloop rfl
      rwa [hwork] at this
    | race limit =>
      have hgroup : job.node.kind.isGroup = true := by rw [Node.kind, hwork]; rfl
      have hloop : job.node.kind ≠ .loop := by rw [Node.kind, hwork]; simp [Work.kind]
      have hbranch : job.node.kind ≠ .branch := by rw [Node.kind, hwork]; simp [Work.kind]
      have := hstarted.openSlots { bound } htree hgroup hbranch hloop rfl
      rwa [hwork] at this

end Started

/-! ## The start of a node -/

/-- How a node opens does not depend on the agenda. -/
theorem openingAt_eq (setup : Setup) (rest : List Task) (hkids : s.root.at? a = some (.mk job kids))
    (hmove : job.status.canBecome .running) :
    s.openingAt setup a = (({ s with agenda := rest } : State).move a .running "").opening setup
      (({ s with agenda := rest } : State).root.contextAt a) job.node kids.length := by
  have hjob := jobAt_of_at? hkids
  have hmoved := move_eq (s := { s with agenda := rest }) hjob hmove ""
  rw [openingAt, hkids]
  exact opening_congr (by rw [move_eq hjob hmove, hmoved]; rfl) setup _ _ _

/-- The node at the front of the agenda starts, unless the run or a race around it is over. -/
theorem Reached.started_of_enter {rest : List Task} (h : Reached setup tree s none)
    (htree : tree.Sound) (hagenda : s.agenda = .enter a :: rest)
    (hkids : s.root.at? a = some (.mk job kids)) (hcancelled : s.cancelled = false)
    (hhalted : ¬ s.Halted a) :
    Changes setup (.start a (s.openingAt setup a)) s none
        (({ s with agenda := rest } : State).move a .running "") (some a) ∧
      Started setup tree (({ s with agenda := rest } : State).move a .running "") a
        (job.moved .running s.now) kids ∧ job.stage = .idle := by
  have htake : Change setup (.start a (s.openingAt setup a)) s none { s with agenda := rest }
      (some a) := .takeEnter hagenda rfl
  have hreached := h.change htake
  have hcontrol := hreached.control htree
  have hproper : Proper s none (.enter a) :=
    (h.control htree).proper _ (by rw [hagenda]; exact List.mem_cons_self)
  have hpending : s.statusAt a = some .pending := hproper.1
  have hjob := jobAt_of_at? hkids
  have hstatus : job.status = .pending := by
    rwa [statusAt_of_jobAt hjob, Option.some.injEq] at hpending
  have hmove : job.status.canBecome .running := by rw [hstatus]; rfl
  generalize hs : ({ s with agenda := rest } : State) = s' at *
  have hnow : s.now = s'.now := by rw [← hs]
  have hkids' : s'.root.at? a = some (.mk job kids) := by rw [← hs]; exact hkids
  have hjob' := jobAt_of_at? hkids'
  have hpending' : s'.statusAt a = some .pending := by rw [← hs]; exact hpending
  have hcancelled' : s'.cancelled = false := by rw [← hs]; exact hcancelled
  have hhalted' : ¬ s'.Halted a := by rw [← hs]; exact hhalted
  have hbegin : Change setup (.start a (s.openingAt setup a)) s' (some a)
      (s'.move a .running "") (some a) := .begin hpending' hcancelled' hhalted' rfl
  have hidle : job.stage = .idle := ((hcontrol.node a job hjob').pending hstatus).1
  rw [hnow]
  refine ⟨(Changes.single htake).trans (.single hbegin), ⟨hreached.change hbegin,
    at?_move hkids' hmove "", Job.status_moved .., ?_, ?_, ?_, ?_⟩, hidle⟩
  · intro i c status hbelow
    rw [statusAt_move hjob' hmove, if_neg (by simp)] at hbelow
    exact hcontrol.below_pending (List.prefix_append _ _) hpending' hbelow
  · have hframe : (job.moved .running s'.now).frame? = none := by
      rw [Job.frame?, Job.moved, hidle]
    exact Job.winner_of_frame?_eq_none hframe
  · rw [cancelled_move, hcancelled']
  · rw [hbegin.halted_hand (hreached.shape htree)]
    exact hhalted'

/-- The node at the front of the agenda starts, or is left out. -/
theorem Reached.enter {rest : List Task} (h : Reached setup tree s none) (htree : tree.Sound)
    (hagenda : s.agenda = .enter a :: rest) :
    Changes setup (.start a (s.openingAt setup a)) s none ({ s with agenda := rest }.enter setup a)
      none := by
  have htake : Change setup (.start a (s.openingAt setup a)) s none { s with agenda := rest }
      (some a) := .takeEnter hagenda rfl
  have hproper : Proper s none (.enter a) :=
    (h.control htree).proper _ (by rw [hagenda]; exact List.mem_cons_self)
  have hpending : s.statusAt a = some .pending := hproper.1
  obtain ⟨job, hjob, hstatus⟩ := jobAt_of_statusAt hpending
  obtain ⟨kids, hkids⟩ := at?_of_jobAt hjob
  have hopening := openingAt_eq setup rest hkids (by rw [hstatus]; rfl)
  unfold State.enter
  rw [hkids]
  simp only
  split
  · rename_i hcancelled
    exact (Changes.single htake).trans ((h.change htake).leaveOut htree hpending
      (by rw [if_pos hcancelled]) (.cancelled hcancelled))
  · rename_i hcancelled
    rw [Bool.not_eq_true] at hcancelled
    split
    · rename_i hhalted
      rw [halted_iff hjob] at hhalted
      exact (Changes.single htake).trans ((h.change htake).leaveOut htree hpending
        (by rw [if_neg (by simpa using hcancelled)]) (.lost hcancelled hhalted))
    · rename_i hhalted
      rw [halted_iff hjob] at hhalted
      obtain ⟨hchanges, hstarted, hidle⟩ :=
        h.started_of_enter htree hagenda hkids hcancelled hhalted
      refine hchanges.trans ?_
      cases hwork : job.node.work with
      | step agent own => exact hstarted.beginStep _ _ htree hwork hidle
      | _ =>
        rw [hopening]
        refine hstarted.beginContainer _ htree ?_ hidle
        change job.node.kind ≠ .step
        rw [Node.kind, hwork]
        simp [Work.kind]

end Workflow.State
