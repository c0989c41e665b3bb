import Workflow.Executor.Echo
import Workflow.Proofs.Run.Sight
import Workflow.Proofs.Run.Turn
import Workflow.Proofs.Tree.Route

/-!
# Instances of loops are isolated

The nodes of an instance name each other, and everything around the loop, as the definition does, and
they never see another instance of a loop that they lie in.

* `Path.localizeFrom_eq` and `State.Inside.localize_definedPath` say that the path of a definition
  becomes the path of the node in the instances around.
* `Path.Localized.instance_eq` says that no path leads into another instance, and
  `State.Inside.evaluate_eq` that what is recorded there does not matter.
* `Setup.isolated_of_execute` says this of every node that runs or is about to start.
-/

namespace Workflow

/-! ## Paths that are localized -/

namespace Path

variable {instances : Fields Int} {before segments locals : List Segment} {expression : String}

theorem localizeFrom_of_isEmpty (h : instances.isEmpty = true) (expression : String)
    (before segments : List Segment) :
    localizeFrom expression instances before segments = .ok (before ++ segments) := by
  rw [List.isEmpty_iff] at h
  subst h
  induction segments generalizing before with
  | nil => rw [localizeFrom, List.append_nil]
  | cons segment segments ih =>
    rw [localizeFrom, Fields.get?_nil]
    simp only
    rw [ih, List.append_assoc, List.singleton_append]

/-- A path that is written from segments stands for what they become. -/
theorem localize_format (hproper : ∀ segment ∈ segments, segment.Proper)
    (h : localizeFrom (format segments) instances [] segments = .ok locals) :
    localize (format segments) instances = .ok (format locals) := by
  rw [localize, parse_format hproper]
  simp only
  split
  · rename_i hempty
    rw [localizeFrom_of_isEmpty hempty, List.nil_append, Except.ok.injEq] at h
    rw [h]
  · rw [h]

/-- An expression becomes a path, or it is not one, or one of its segments leads nowhere. -/
theorem localize_cases (expression : String) (instances : Fields Int) :
    (∃ cause, localize expression instances = .error (.malformed expression cause)) ∨
      (∃ segment position miss,
        localize expression instances = .error (.notFound expression segment position miss)) ∨
      ∃ path, localize expression instances = .ok path := by
  have hfrom (before segments : List Segment) (e : Error)
      (h : localizeFrom expression instances before segments = .error e) :
      ∃ segment position miss, e = .notFound expression segment position miss := by
    induction segments generalizing before with
    | nil => cases h
    | cons segment segments ih =>
      rw [localizeFrom] at h
      split at h
      · exact ih _ h
      · split at h
        · exact ⟨_, _, _, (Except.error.inj h).symm⟩
        · exact ih _ h
  rw [localize, parse]
  cases parseChars expression.toList with
  | error cause => exact .inl ⟨cause, rfl⟩
  | ok segments =>
    simp only
    split
    · exact .inr (.inr ⟨_, rfl⟩)
    · cases hlocal : localizeFrom expression instances [] segments with
      | error e =>
        obtain ⟨segment, position, miss, rfl⟩ := hfrom [] segments e hlocal
        exact .inr (.inl ⟨segment, position, miss, rfl⟩)
      | ok locals => exact .inr (.inr ⟨_, rfl⟩)

/-- A path that goes on after a running loop with an instance goes on with the one that runs. -/
theorem Localized.instance_eq {loop : List Segment} {current index : Int}
    (h : Localized instances before segments locals) (hbefore : before <+: loop)
    (hloop : Fields.get? instances (format loop) = some current)
    (hlocals : loop ++ [⟨instanceField, some index⟩] <+: before ++ locals) : index = current := by
  induction h with
  | nil =>
    have hlength := hlocals.length_le
    have := hbefore.length_le
    simp only [List.length_append, List.length_singleton, List.length_nil] at hlength
    omega
  | @cons before segments locals segment next hnext _ ih =>
    obtain ⟨more, rfl⟩ := hbefore
    rw [List.append_assoc, List.prefix_append_right_inj] at hlocals
    cases more with
    | nil =>
      -- the segment follows the loop itself
      rw [List.append_nil] at hloop
      have heq : (⟨instanceField, some index⟩ : Segment) = next := by
        simpa [List.cons_prefix_cons] using hlocals
      rcases hnext with ⟨hnone, _⟩ | ⟨other, hother, hlocal⟩
      · rw [hloop] at hnone
        cases hnone
      · rw [hloop, Option.some.injEq] at hother
        subst hother
        rcases localizeSegment_cases hlocal with ⟨_, _, rfl⟩ | ⟨rfl, hcurrent⟩
        · exact Option.some.inj (Segment.mk.inj heq).2
        · rw [← heq] at hcurrent
          exact Option.some.inj (hcurrent rfl nofun)
    | cons head more =>
      obtain ⟨rfl, hrest⟩ := List.cons_prefix_cons.1 hlocals
      refine ih ⟨more, by simp⟩ ?_
      have hsplit : before ++ head :: more = (before ++ [head]) ++ more := by simp
      rw [hsplit, List.append_assoc, List.prefix_append_right_inj]
      exact hrest

end Path

namespace State

variable {setup : Setup} {tree node : Node} {s t : State} {hand : Option Address}
  {a b c : Address} {job loop : Job} {i : Nat}

/-! ## Nodes that share instances -/

/-- The node lies in no instance of a loop but those that the other node lies in. -/
def Shares (s : State) (b a : Address) : Prop :=
  ∀ c i loop, s.Around b c i loop → c ++ [i] <+: a

/-- A node that is above another in the definition, and shares its instances, is above it. -/
theorem Shares.prefix_of_placeOf (h : s.Shares b a) (hshape : Shape tree s)
    (hjob : s.jobAt b = some job) (hplace : tree.placeOf b <+: tree.placeOf a) : b <+: a := by
  induction b using List.reverseRecOn generalizing job with
  | nil => exact List.nil_prefix
  | append_singleton b k ih =>
    obtain ⟨above, habove⟩ := jobAt_of_append hjob
    rw [hshape.placeOf_concat habove] at hplace
    have hbefore : s.Shares b a := fun c i loop hloop =>
      h c i loop ⟨hloop.within.trans (List.prefix_append b [k]), hloop.jobAt, hloop.kind⟩
    obtain ⟨d, rfl⟩ := ih hbefore habove ((List.prefix_append _ _).trans hplace)
    by_cases hkind : above.node.kind = .loop
    · exact h b k above ⟨List.prefix_rfl, habove, hkind⟩
    · rw [Node.placeOf_append (hshape.at?_placeOf habove), List.prefix_append_right_inj] at hplace
      cases d with
      | nil => simp [Node.placeOf] at hplace
      | cons m d =>
        rw [Node.placeOf, List.cons_prefix_cons, Node.childPosition_of_kind_ne hkind,
          Node.childPosition_of_kind_ne hkind] at hplace
        exact (List.prefix_append_right_inj b).2 (List.cons_prefix_cons.2 ⟨hplace.1, List.nil_prefix⟩)

/-- A child shares the instances if it is in one of them or its node is no loop. -/
theorem Shares.concat (h : s.Shares b a) (hjob : s.jobAt b = some job) {k : Nat}
    (hk : job.node.kind = .loop → b ++ [k] <+: a) : s.Shares (b ++ [k]) a := by
  rintro c i loop ⟨hwithin, hloop, hkind⟩
  rcases List.prefix_concat_iff.1 hwithin with heq | hwithin
  · obtain ⟨rfl, rfl⟩ := (List.append_singleton_inj ..).1 heq
    rw [hjob, Option.some.injEq] at hloop
    exact hk (hloop ▸ hkind)
  · exact h c i loop ⟨hwithin, hloop, hkind⟩

/-- Whatever the definition has, with loops only that are around a node, is a node that shares the
instances. -/
theorem Shape.exists_shares (hshape : Shape tree s) {other : Job} (ha : s.jobAt a = some other)
    {place : List Nat} (hnode : tree.at? place = some node)
    (hloops : ∀ above outer, above <+: place → above ≠ place → tree.at? above = some outer →
      outer.kind = .loop → above <+: tree.placeOf a ∧ above ≠ tree.placeOf a) :
    ∃ b job, s.jobAt b = some job ∧ tree.placeOf b = place ∧ s.Shares b a := by
  induction place using List.reverseRecOn generalizing node with
  | nil =>
    obtain ⟨root, hroot, _⟩ := hshape.root
    refine ⟨[], root, hroot, rfl, fun c i loop hloop => ?_⟩
    have := hloop.within.length_le
    simp at this
  | append_singleton place k ih =>
    rw [Node.at?_append] at hnode
    obtain ⟨outer, houter, hnode⟩ := Option.bind_eq_some_iff.1 hnode
    rw [Node.at?_cons] at hnode
    obtain ⟨child, hchild, _⟩ := Option.bind_eq_some_iff.1 hnode
    obtain ⟨b, job, hb, hplace, hshares⟩ := ih houter fun above outer' hfrom hne hat hkind =>
      hloops above outer' (hfrom.trans (List.prefix_append _ _)) (by
        rintro rfl
        have hlength := hfrom.length_le
        rw [List.length_append, List.length_singleton] at hlength
        omega) hat hkind
    have hdefined := hshape.at?_placeOf hb
    rw [hplace, houter, Option.some.injEq] at hdefined
    subst hdefined
    by_cases hkind : job.node.kind = .loop
    · -- the instance is the one that the node lies in
      obtain ⟨hfrom, hne⟩ := hloops place job.node (List.prefix_append _ _) (by simp) houter hkind
      obtain ⟨d, rfl⟩ := hshares.prefix_of_placeOf hshape hb (hplace.symm ▸ hfrom)
      cases d with
      | nil =>
        rw [List.append_nil] at hne
        exact absurd hplace.symm hne
      | cons i d =>
        have hwithin : b ++ [i] <+: b ++ i :: d :=
          (List.prefix_append_right_inj b).2 (List.cons_prefix_cons.2 ⟨rfl, List.nil_prefix⟩)
        obtain ⟨body, hbody⟩ := (hshape.sound b job hb).exists_body hkind
        have hk : k = 0 := by
          have := (List.getElem?_eq_some_iff.1 hchild).1
          simpa [hbody] using this
        have hsplit : b ++ i :: d = (b ++ [i]) ++ d := by simp
        obtain ⟨kid, hkid⟩ := jobAt_of_append (hsplit ▸ ha)
        exact ⟨b ++ [i], kid, hkid, by rw [hshape.placeOf_concat hb, hplace,
          Node.childPosition_of_loop hkind, hk], hshares.concat hb fun _ => hwithin⟩
    · have hlt : k < job.arity := by
        rw [Job.arity_of_kind_ne hkind]
        exact (List.getElem?_eq_some_iff.1 hchild).1
      obtain ⟨kid, hkid⟩ := hshape.exists_kid hb hlt
      exact ⟨b ++ [k], kid, hkid, by rw [hshape.placeOf_concat hb, hplace,
        Node.childPosition_of_kind_ne hkind], hshares.concat hb fun h => absurd h hkind⟩

/-! ## Paths of definitions -/

/-- Segment by segment the path of a definition becomes that of the node that shares the instances. -/
theorem Inside.localizeFrom_definedSegments (h : s.Inside a) (hshape : Shape tree s) {other : Job}
    (ha : s.jobAt a = some other) (hshares : s.Shares b a) (expression : String) {d : Address}
    (hb : s.jobAt b = some job) (hd : b = c ++ d) {above : Job} (hc : s.jobAt c = some above) :
    Path.localizeFrom expression (s.root.contextAt a).instances (tree.segmentsTo c)
      (above.node.definedSegments (above.node.placeOf d)) = .ok (tree.segmentsTo b) := by
  induction d generalizing c above with
  | nil =>
    rw [hd, List.append_nil]
    rfl
  | cons i d ih =>
    have hnext : b = (c ++ [i]) ++ d := by rw [hd, List.append_assoc, List.singleton_append]
    obtain ⟨kid, hkid⟩ := jobAt_of_append (hnext ▸ hb)
    have hchild := (hshape.kid c i above kid hc hkid).1
    have hsegments := hshape.segmentsTo_concat hc i
    have hrest := ih hnext hkid
    rw [Node.placeOf_cons hchild,
      Node.definedSegments_cons (by rw [← Node.kidAt_eq, hchild]), Path.localizeFrom,
      ← hshape.path_eq_format hc]
    by_cases hkind : above.node.kind = .loop
    · have hloop : s.Around b c i above := ⟨⟨d, hnext.symm⟩, hc, hkind⟩
      have hget := (h.get?_instances hshape ha).2
        ⟨c, i, above, ⟨hshares c i above hloop, hc, hkind⟩, rfl, rfl⟩
      rw [hsegments, Live.kidSegment_of_loop hkind] at hrest
      simp only [hget, Node.childSegment_of_loop hkind, Path.localizeSegment, and_self, if_true, hrest]
    · have hget : Fields.get? (s.root.contextAt a).instances above.entry.path = none := by
        rw [Option.eq_none_iff_forall_ne_some]
        intro current hcurrent
        obtain ⟨x, k, loop, hloop, hpath, _⟩ := (h.get?_instances hshape ha).1 hcurrent
        have hsame := hshape.path_inj hloop.jobAt hc hpath
        subst hsame
        have hjob := hloop.jobAt
        rw [hc, Option.some.injEq] at hjob
        exact hkind (hjob ▸ hloop.kind)
      have hposition := Node.childPosition_of_kind_ne hkind i
      rw [hsegments] at hrest
      simp only [hget, Node.childSegment_of_kind_ne hkind, hposition, hrest]

/-- The path of a definition stands for the path of the node that shares the instances. -/
theorem Inside.localize_definedPath (h : s.Inside a) (hshape : Shape tree s) {other : Job}
    (ha : s.jobAt a = some other) (hshares : s.Shares b a) (hb : s.jobAt b = some job) :
    Path.localize (tree.definedPath (tree.placeOf b)) (s.root.contextAt a).instances =
      .ok job.entry.path := by
  obtain ⟨root, hroot, hnode, _⟩ := hshape.root
  have hfrom := h.localizeFrom_definedSegments hshape ha hshares (tree.definedPath (tree.placeOf b))
    hb (List.nil_append b).symm hroot
  rw [hnode] at hfrom
  rw [hshape.path_eq_format hb]
  exact Path.localize_format (tree.proper_definedSegments _) hfrom

/-! ## What other instances record -/

/-- The instances that a node sees have positions for their indices. -/
theorem Inside.exists_nat (h : s.Inside a) (hshape : Shape tree s) (hjob : s.jobAt a = some job)
    (key : String) (current : Int)
    (hget : Fields.get? (s.root.contextAt a).instances key = some current) :
    ∃ n : Nat, current = n := by
  obtain ⟨c, i, loop, _, _, hcurrent⟩ := (h.get?_instances hshape hjob).1 hget
  exact ⟨i, hcurrent⟩

/-- The path that an expression stands for leads into no other instance of a loop around. -/
theorem Inside.instance_eq (h : s.Inside a) (hshape : Shape tree s) (hjob : s.jobAt a = some job)
    {expression path : String} (hlocal : Path.localize expression (s.root.contextAt a).instances = .ok path)
    (hloop : s.Around a c i loop) : ∃ segments, Path.parse path = .ok segments ∧
      (∀ segment ∈ segments, segment.Proper) ∧
      ∀ index, tree.segmentsTo c ++ [⟨Path.instanceField, some index⟩] <+: segments →
        index = (i : Int) := by
  obtain ⟨segments, locals, _, hparse, hlocalized, hproper⟩ :=
    Path.localized_of_localize (h.exists_nat hshape hjob) hlocal
  have hget := (h.get?_instances hshape hjob).2 ⟨c, i, loop, hloop, rfl, rfl⟩
  rw [hshape.path_eq_format hloop.jobAt] at hget
  exact ⟨locals, hparse, hproper, fun index hfrom =>
    hlocalized.instance_eq List.nil_prefix hget hfrom⟩

/-- The state with other things below an address. -/
def replaced (s : State) (f : Live → Live) (p : Address) : State :=
  { s with root := s.root.update f p }

theorem jobAt_replaced {f : Live → Live} {p x : Address} (h : ¬ p <+: x) :
    (s.replaced f p).jobAt x = s.jobAt x :=
  Live.jobAt_update_of_not_prefix f h

theorem isSome_jobAt_replaced {f : Live → Live} {p x : Address} (hp : (s.jobAt p).isSome)
    (h : x = p ∨ ¬ p <+: x) : ((s.replaced f p).jobAt x).isSome ↔ (s.jobAt x).isSome := by
  rcases h with rfl | h
  · obtain ⟨job, hjob⟩ := Option.isSome_iff_exists.1 hp
    obtain ⟨kids, hkids⟩ := at?_of_jobAt hjob
    have hat := Live.at?_update_append f hkids []
    rw [List.append_nil, Live.at?_nil] at hat
    have hnew : (s.replaced f x).jobAt x = some (f (.mk job kids)).job := Live.jobAt_of_at? hat
    simp only [hnew, hp, Option.isSome_some]
  · rw [jobAt_replaced h]

/-- A move of a node does to two tables that agree in it the same. -/
theorem jobAt_move_congr {x : Address} (hnow : t.now = s.now) (ha : t.jobAt a = s.jobAt a)
    (hx : t.jobAt x = s.jobAt x) (target : Status) (message : String) :
    (t.move a target message).jobAt x = (s.move a target message).jobAt x := by
  unfold move
  cases hjob : s.jobAt a with
  | none =>
    have hs : s.root.at? a = none := Option.map_eq_none_iff.1 hjob
    have ht : t.root.at? a = none := Option.map_eq_none_iff.1 (ha.trans hjob)
    simp only [hs, ht, jobAt_breakOff, hx]
  | some job =>
    obtain ⟨kids, hs⟩ := at?_of_jobAt hjob
    obtain ⟨kids', ht⟩ := at?_of_jobAt (ha.trans hjob)
    simp only [hs, ht, hnow, Live.entry, Live.job]
    cases job.entry.progress.move target s.now with
    | error e => simp only [jobAt_breakOff, hx]
    | ok progress => simp only [jobAt_note, jobAt_modifyEntry, hx]

theorem isSome_jobAt_move (s : State) (a x : Address) (target : Status) (message : String) :
    ((s.move a target message).jobAt x).isSome ↔ (s.jobAt x).isSome := by
  have hfixed := congrArg Option.isSome (SameFixed.move s a target message x)
  rw [Option.isSome_map, Option.isSome_map] at hfixed
  rw [hfixed]

section Other

variable {f : Live → Live} {j : Nat} {x : Address}

/-- Neither a node nor anything above it lies in an instance that the node does not lie in. -/
theorem Around.not_prefix (h : s.Around a c i loop) (hj : j ≠ i) (hx : x <+: a) :
    ¬ c ++ [j] <+: x := by
  intro hfrom
  have hsame := (List.prefix_of_prefix_length_le (hfrom.trans hx) h.within (by simp)).eq_of_length
    (by simp)
  exact hj ((List.append_singleton_inj ..).1 hsame).2

/-- What a node sees of the nodes above does not depend on another instance. -/
theorem Around.contextAt_replaced (h : s.Around a c i loop) (hj : j ≠ i)
    (hjob : s.jobAt a = some job) :
    Context.Same (s.root.contextAt a) ((s.replaced f (c ++ [j])).root.contextAt a) := by
  have hjobs {x : Address} (hx : x <+: a) : (s.replaced f (c ++ [j])).jobAt x = s.jobAt x :=
    jobAt_replaced (h.not_prefix hj hx)
  refine Live.contextAt_congr (Option.isSome_iff_exists.2 ⟨job, hjob⟩)
    (Option.isSome_iff_exists.2 ⟨job, (hjobs List.prefix_rfl).trans hjob⟩)
    fun x k d old new hx hold hnew => ?_
  have hsame := hjobs (hx ▸ List.prefix_append x (k :: d))
  obtain rfl : new = old := Option.some.inj (hnew.symm.trans (hsame.trans hold))
  exact ⟨rfl, rfl, rfl, rfl⟩

/-- When the node has moved, every node that is not in the other instance is as if that instance had
not been replaced. -/
theorem Around.alike_replaced (h : s.Around a c i loop) (hj : j ≠ i)
    (hother : (s.jobAt (c ++ [j])).isSome) {kid : Live}
    (hkid : (s.move a .running "").root.at? x = some kid) (hx : ¬ c ++ [j] <+: x) :
    ∃ kid kid', (s.move a .running "").root.at? x = some kid ∧
      ((s.replaced f (c ++ [j])).move a .running "").root.at? x = some kid' ∧ kid.Alike kid' := by
  have hself : (s.replaced f (c ++ [j])).jobAt a = s.jobAt a :=
    jobAt_replaced (h.not_prefix hj List.prefix_rfl)
  have hnow : (s.replaced f (c ++ [j])).now = s.now := rfl
  have hjob : (s.move a .running "").jobAt x = some kid.job := Live.jobAt_of_at? hkid
  have hjob' := jobAt_move_congr hnow hself (jobAt_replaced hx) .running ""
  refine Live.alike_of_jobAt hjob (hjob'.trans hjob) (.refl _) fun k => ?_
  refine (isSome_jobAt_move _ a _ .running "").trans
    ((isSome_jobAt_replaced hother ?_).trans (isSome_jobAt_move s a _ .running "").symm)
  by_cases heq : c ++ [j] = x ++ [k]
  · exact .inl heq.symm
  · rw [List.prefix_concat_iff]
    exact .inr (by simp [heq, hx])

/-- A path that does not lead into an instance does not lead past a node of it. -/
theorem Shape.not_prefix_trail {segments : List Segment} (h : Shape tree s)
    (hproper : ∀ segment ∈ segments, segment.Proper) (hloop : s.jobAt c = some loop)
    (hkind : loop.node.kind = .loop) (hj : (s.jobAt (c ++ [j])).isSome)
    (hnot : ¬ tree.segmentsTo c ++ [⟨Path.instanceField, some (j : Int)⟩] <+: segments) :
    ¬ c ++ [j] <+: s.root.trail segments := by
  rintro ⟨d, hd⟩
  obtain ⟨other, hother⟩ := Option.isSome_iff_exists.1 hj
  have hsegments := h.runs.segmentsTo_trail hproper
  rw [← hd, Node.segmentsTo_append (h.at?_placeOf hother), h.segmentsTo_concat hloop,
    Live.kidSegment_of_loop hkind] at hsegments
  exact hnot ((List.prefix_append _ _).trans hsegments)

/-- What another instance of a loop around a node records does not matter to its bindings. -/
theorem Inside.evaluate_eq (h : s.Inside a) (hshape : Shape tree s) (hjob : s.jobAt a = some job)
    (hloop : s.Around a c i loop) (hj : j ≠ i) (hother : (s.jobAt (c ++ [j])).isSome)
    (setup : Setup) (f : Live → Live) (scope : Fields Value) (binding : Binding)
    (input : Option String) :
    binding.evaluate { (s.replaced f (c ++ [j])).viewAt setup a with scope } input =
      binding.evaluate { s.viewAt setup a with scope } input := by
  have hmoved := hshape.of_sameFixed (SameFixed.move s a .running "")
  have hvalue (expression : String) :
      ({ (s.replaced f (c ++ [j])).viewAt setup a with scope } : Surroundings).valueAt expression =
        ({ s.viewAt setup a with scope } : Surroundings).valueAt expression := by
    refine Surroundings.valueAt_congr rfl rfl (hloop.contextAt_replaced hj hjob).2
      (fun x old hold => (hmoved.entry x old hold).2.1) fun path segments hlocal hparse x hx => ?_
    obtain ⟨_, hparse', hproper, hinstance⟩ := h.instance_eq hshape hjob hlocal hloop
    rw [hparse, Except.ok.injEq] at hparse'
    subst hparse'
    obtain ⟨kid, hkid⟩ := Live.exists_of_prefix_trail hx
    obtain ⟨loop', hloop', hnode⟩ : ∃ loop', (s.move a .running "").jobAt c = some loop' ∧
        loop'.node = loop.node := by
      have hfixed := SameFixed.move s a .running "" c
      rw [hloop.jobAt, Option.map_some, Option.map_eq_some_iff] at hfixed
      obtain ⟨loop', hloop', hfixed⟩ := hfixed
      exact ⟨loop', hloop', (Prod.mk.inj hfixed).1⟩
    refine hloop.alike_replaced hj hother hkid fun hfrom => ?_
    refine hmoved.not_prefix_trail hproper hloop' (hnode ▸ hloop.kind)
      ((isSome_jobAt_move s a _ .running "").2 hother) (fun hsegments => ?_) (hfrom.trans hx)
    exact hj (Int.ofNat_inj.1 (hinstance j hsegments))
  refine Surroundings.evaluate_congr ?_ ?_ (fun expression _ => hvalue expression) input <;> rfl

end Other

/-! ## Nodes that are isolated -/

/-- The node at an address is in one instance of every loop around it, and in no other. -/
structure Isolated (setup : Setup) (tree : Node) (s : State) (a : Address) : Prop where
  /-- The path of a definition, with loops only that are around the node, leads to its node in the
  definition and stands for the path of the one node of the run that shares the instances. -/
  addressed : ∀ place node, tree.at? place = some node →
    (∀ above outer, above <+: place → above ≠ place → tree.at? above = some outer →
      outer.kind = .loop → above <+: tree.placeOf a ∧ above ≠ tree.placeOf a) →
    tree.resolve (tree.definedPath place) = .ok (.node node) ∧
      ∃ b job, s.jobAt b = some job ∧ tree.placeOf b = place ∧ s.Shares b a ∧
        Path.localize (tree.definedPath place) (s.root.contextAt a).instances = .ok job.entry.path
  /-- Whatever is written as a path is none, leads nowhere, or stands for a path that leads into no
  other instance of a loop around the node. -/
  confined : ∀ expression, (∃ cause,
      Path.localize expression (s.root.contextAt a).instances =
        .error (.malformed expression cause)) ∨
    (∃ segment position miss, Path.localize expression (s.root.contextAt a).instances =
      .error (.notFound expression segment position miss)) ∨
    ∃ path, Path.localize expression (s.root.contextAt a).instances = .ok path ∧
      ∀ c i loop, s.Around a c i loop → ∃ above segments,
        Path.parse loop.entry.path = .ok above ∧ Path.parse path = .ok segments ∧
        ∀ index, above ++ [⟨Path.instanceField, some index⟩] <+: segments → index = (i : Int)
  /-- Bindings have the same values whatever another instance of a loop around the node records. -/
  unaffected : ∀ c i loop j, s.Around a c i loop → j ≠ i → (s.jobAt (c ++ [j])).isSome →
    ∀ f scope binding input,
      Binding.evaluate { (s.replaced f (c ++ [j])).viewAt setup a with scope } input binding =
        Binding.evaluate { s.viewAt setup a with scope } input binding

/-- Every node is isolated that everything above has begun of. -/
theorem Inside.isolated (h : s.Inside a) (hshape : Shape tree s) (htree : tree.Sound)
    (hjob : s.jobAt a = some job) (setup : Setup) : Isolated setup tree s a where
  addressed place node hnode hloops := by
    refine ⟨Node.resolve_definedPath htree hnode, ?_⟩
    obtain ⟨b, other, hb, rfl, hshares⟩ := hshape.exists_shares hjob hnode hloops
    exact ⟨b, other, hb, rfl, hshares, h.localize_definedPath hshape hjob hshares hb⟩
  confined expression := by
    rcases Path.localize_cases expression (s.root.contextAt a).instances with hbad | hnone |
      ⟨path, hpath⟩
    · exact .inl hbad
    · exact .inr (.inl hnone)
    · refine .inr (.inr ⟨path, hpath, fun c i loop hloop => ?_⟩)
      obtain ⟨segments, hparse, _, hinstance⟩ := h.instance_eq hshape hjob hpath hloop
      exact ⟨tree.segmentsTo c, segments, hshape.parse_path hloop.jobAt, hparse, hinstance⟩
  unaffected c i loop j hloop hj hother f scope binding input :=
    h.evaluate_eq hshape hjob hloop hj hother setup f scope binding input

end State

/-- In every run, every node that runs or is about to start names its own instances of the loops around
it as the definition does, and sees no other instance of them. -/
theorem Setup.isolated_of_execute {setup : Setup} {tree : Node} {separator : String}
    {ids rest : IdSource} {s : State} (htree : tree.Sound)
    (h : setup.execute tree separator ids = .ok (s, rest)) :
    ∃ prepared, tree.prepare separator setup.previous ids = .ok (prepared, rest) ∧
      ∀ steps a, Task.enter a ∈ ((State.start setup prepared).runWithin setup steps).agenda ∨
          ((State.start setup prepared).runWithin setup steps).statusAt a = some .running →
        State.Isolated setup prepared ((State.start setup prepared).runWithin setup steps) a := by
  obtain ⟨prepared, hprepare, hfinal⟩ := execute_final htree h
  refine ⟨prepared, hprepare, fun steps a ha => ?_⟩
  have hreached := State.reached_runWithin setup hfinal.sound steps
  have hactive : State.Active ((State.start setup prepared).runWithin setup steps) none a :=
    ha.elim (fun henter => .inr (.inl henter)) fun hrun => .inr (.inr (.inr hrun))
  obtain ⟨job, hjob⟩ := (hreached.control hfinal.sound).exists_of_active hactive
  exact (hreached.inside hfinal.sound hactive).isolated (hreached.shape hfinal.sound) hfinal.sound
    hjob setup

/-- A loop in a loop has such a run, and its innermost steps are isolated when they are about to
start. -/
theorem Setup.isolated_of_execute_loops : ∃ s rest prepared,
    ({ executor := Echo.executor } : Setup).execute
      (.mk {} (.loop (.literal (.array [.null, .null])) "outer" none none)
        [.mk {} (.loop (.literal (.array [.null])) "inner" none none) [.mk {} (.step "agent" none) []]])
      " > " .counting = .ok (s, rest) ∧
    State.Isolated { executor := Echo.executor } prepared
      ((State.start { executor := Echo.executor } prepared).runWithin
        { executor := Echo.executor } 2) [0, 0] := by
  obtain ⟨s, rest, h⟩ : ∃ s rest, ({ executor := Echo.executor } : Setup).execute
      (.mk {} (.loop (.literal (.array [.null, .null])) "outer" none none)
        [.mk {} (.loop (.literal (.array [.null])) "inner" none none) [.mk {} (.step "agent" none) []]])
      " > " .counting = .ok (s, rest) := ⟨_, _, rfl⟩
  have hsound : (Node.mk {} (.loop (.literal (.array [.null, .null])) "outer" none none)
      [.mk {} (.loop (.literal (.array [.null])) "inner" none none)
        [.mk {} (.step "agent" none) []]]).Sound := by
    simp [Node.Sound, Node.walk, Node.walkList, Node.Fits, Node.work, Node.children, Work.limit]
  obtain ⟨prepared, hprepare, hisolated⟩ := isolated_of_execute hsound h
  refine ⟨s, rest, prepared, h, hisolated 2 [0, 0] (.inl ?_)⟩
  cases hprepare
  exact List.mem_of_getElem? (i := 1) rfl

end Workflow
