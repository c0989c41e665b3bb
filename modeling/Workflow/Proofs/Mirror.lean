import Workflow.Proofs.Invocations
import Workflow.Proofs.Live.Descend
import Workflow.Proofs.Tree.Declared

/-!
# Results mirror definitions

The result of a run is laid out like the definition that was run, with an item of a loop for every
element of its source, and every node of it is found by its path.

* `Result.Mirrors` says that a result is laid out like a definition, and `State.Shape.mirrors` that every
  part of the result of a run is.
* `State.Sourced` says which list the source of a loop was evaluated to, and `State.Itemized` which items
  the loop has then.
* `Setup.mirrored_of_execute` says so of the end of a run.
-/

namespace Workflow

/-- What is recorded of the node is about the definition. -/
structure Result.Describes (n : Result) (node : Node) : Prop where
  id : n.entry.id = node.id
  kind : n.entry.kind = node.kind.name
  label : n.entry.label = node.label

/-- The result, whose root stands at the path `before`, is laid out like the definition. -/
structure Result.Mirrors (r : Result) (node : Node) (before : List Segment) : Prop where
  /-- With `input` for every `item[i]`, the path of every node leads to its definition. -/
  defined : ∀ n ∈ r.walk, ∃ segments target, Path.parse n.entry.path = .ok (before ++ segments) ∧
    node.resolve (Path.format (segments.map Segment.declared)) = .ok (.node target) ∧
    n.Describes target
  /-- What is defined below no loop has exactly one node, under its own path. -/
  covered : ∀ place target, node.at? place = some target → node.OutsideLoops place →
    ∃ n ∈ r.walk, n.entry.path = Path.format (before ++ node.definedSegments place) ∧
      n.Describes target ∧
      ∀ n' ∈ r.walk, Path.declared n'.entry.path = Path.declared n.entry.path → n' = n

namespace State

variable {setup : Setup} {tree : Node} {s : State} {a b : Address} {job : Job} {kids : List Live}
  {live : Live} {rest : List Task} {steps : Nat}

/-! ## Parts of results -/

namespace Shape

theorem describes (h : Shape tree s) (hlive : s.root.at? a = some live) :
    live.toResult.Describes live.job.node := by
  obtain ⟨hid, hkind, hlabel⟩ := h.entry a live.job (Live.jobAt_of_at? hlive)
  constructor <;> rw [Live.entry_toResult]
  · exact hid
  · exact hkind
  · exact hlabel

/-- The path of a node leads to its result. -/
theorem resolve_path (h : Shape tree s) (hsound : tree.Sound) (hlive : s.root.at? a = some live) :
    s.root.toResult.resolve live.entry.path = .ok (.node live.toResult) := by
  have hparse : Path.parse live.entry.path = .ok (tree.segmentsTo a) :=
    h.parse_path (Live.jobAt_of_at? hlive)
  rw [Result.resolve, Path.follow, hparse]
  exact h.runs.followFrom_segmentsTo hsound hlive _ 0

/-- The path of a node becomes that of its place. -/
theorem declared_path (h : Shape tree s) (hjob : s.jobAt a = some job) :
    Path.declared job.entry.path = tree.definedPath (tree.placeOf a) := by
  rw [Path.declared_of_parse (h.parse_path hjob), Node.declared_segmentsTo]
  rfl

theorem definedSegments_of_declared {job' : Job} (h : Shape tree s) (hjob : s.jobAt a = some job)
    (hjob' : s.jobAt b = some job')
    (hdeclared : Path.declared job.entry.path = Path.declared job'.entry.path) :
    tree.definedSegments (tree.placeOf a) = tree.definedSegments (tree.placeOf b) := by
  have hparse := tree.parse_definedPath (tree.placeOf a)
  rw [← h.declared_path hjob, hdeclared, h.declared_path hjob', Node.parse_definedPath,
    Except.ok.injEq] at hparse
  exact hparse.symm

/-- Every part of the result of a run is laid out like its definition. -/
theorem mirrors (h : Shape tree s) (hlive : s.root.at? a = some live) :
    live.toResult.Mirrors live.job.node (tree.segmentsTo a) := by
  have hjob : s.jobAt a = some live.job := Live.jobAt_of_at? hlive
  have hplace := h.at?_placeOf hjob
  have hsound : live.job.node.Sound := h.sound a live.job hjob
  have hruns := h.runs_at live a hlive
  have hat {c : Address} {kid : Live} (hkid : live.at? c = some kid) :
      s.root.at? (a ++ c) = some kid := by rw [Live.at?_append, hlive, Option.bind_some, hkid]
  have hsegments (c : Address) :
      tree.segmentsTo (a ++ c) = tree.segmentsTo a ++ live.job.node.segmentsTo c :=
    Node.segmentsTo_append hplace c
  constructor
  · intro n hn
    obtain ⟨c, kid, hkid, rfl⟩ := Live.mem_walk_toResult live n hn
    obtain ⟨target, htarget, hrunsKid⟩ := hruns.at? hkid
    refine ⟨live.job.node.segmentsTo c, target, ?_, ?_, ?_⟩
    · rw [Live.entry_toResult, ← hsegments]
      exact h.parse_path (Live.jobAt_of_at? (hat hkid))
    · rw [Node.declared_segmentsTo]
      exact Node.resolve_definedPath hsound htarget
    · have hnode : kid.job.node = target := hrunsKid.job.1
      exact hnode ▸ h.describes (hat hkid)
  · intro place target htarget houtside
    obtain ⟨⟨kid, hkid, hrunsKid⟩, hplaceOf, hdefined⟩ :=
      hruns.exists_of_outside houtside htarget
    have hkidJob : s.jobAt (a ++ place) = some kid.job := Live.jobAt_of_at? (hat hkid)
    refine ⟨kid.toResult, Live.toResult_mem_walk place live kid ?_ hkid, ?_, ?_, ?_⟩
    · intro b other kids' condition cases_ hb hwork
      rw [h.length_kids (hat hb)]
      exact h.le_of_branch (jobAt_of_at? (hat hb)) hwork
    · rw [Live.entry_toResult, ← hdefined, ← hsegments]
      exact h.path_eq_format hkidJob
    · have hnode : kid.job.node = target := hrunsKid.job.1
      exact hnode ▸ h.describes (hat hkid)
    · intro n' hn' hdeclared
      obtain ⟨c, kid', hkid', rfl⟩ := Live.mem_walk_toResult live n' hn'
      rw [Live.entry_toResult, Live.entry_toResult] at hdeclared
      -- below the part the two have one place, which lies below no loop
      have hsame := h.definedSegments_of_declared (Live.jobAt_of_at? (hat hkid')) hkidJob hdeclared
      rw [← Node.declared_segmentsTo, ← Node.declared_segmentsTo, hsegments, hsegments,
        List.map_append, List.map_append, List.append_cancel_left_eq, Node.declared_segmentsTo,
        Node.declared_segmentsTo, hplaceOf] at hsame
      obtain ⟨target', htarget', _⟩ := hruns.at? hkid'
      have hc : c = place :=
        Node.eq_of_declared hsound houtside htarget (by rw [htarget']; rfl) hsame
      rw [hc, hkid, Option.some.injEq] at hkid'
      rw [hkid']

/-- No two nodes of the result have one path. -/
theorem nodup_paths (h : Shape tree s) (hsound : tree.Sound) :
    (s.root.toResult.walk.map fun n => n.entry.path).Nodup := by
  have hpaths : (s.root.toResult.walk.map fun n => n.entry.path) =
      (s.root.walk []).map fun n => n.2.entry.path := by
    have := congrArg (List.map Entry.path) (h.runs.entries_walk hsound [])
    rwa [List.map_map, List.map_map] at this
  have hwalk : (s.root.walk []).Pairwise fun m n => ¬ n.1 <+: m.1 :=
    List.pairwise_map.1 (Live.pairwise_walk [] s.root)
  rw [hpaths, List.Nodup, List.pairwise_map]
  refine hwalk.imp_of_mem fun {m n} hm hn hprefix hpath => hprefix ?_
  obtain ⟨c, hc, hjob⟩ := Live.mem_walk_iff.1 (show (m.1, m.2) ∈ s.root.walk [] from hm)
  obtain ⟨d, hd, hjob'⟩ := Live.mem_walk_iff.1 (show (n.1, n.2) ∈ s.root.walk [] from hn)
  have hcd : c = d := h.path_inj hjob hjob' hpath
  rw [hc, hd, hcd]

end Shape

/-! ## Items of loops -/

/-- When the loop at an address starts, its source is evaluated to the list. -/
def Sourced (setup : Setup) (tree : Node) (a : Address) (elements : List Value) : Prop :=
  ∃ steps, Starts setup tree a steps ∧
    ((start setup tree).runWithin setup steps).openingAt setup a = .items elements

/-- The loop at an address has one item for every element that its source was evaluated to, and none
before that. Every item is laid out like the body. -/
structure Itemized (setup : Setup) (tree : Node) (a : Address) (loop : Node) (n : Result) :
    Prop where
  sourced : ∀ elements, Sourced setup tree a elements → n.items.length = elements.length
  unsourced : (∀ elements, ¬ Sourced setup tree a elements) → n.items = []
  mirrors : ∃ body, loop.children = [body] ∧ ∀ (i : Nat) (item : Result), n.items[i]? = some item →
    item.Mirrors body (tree.segmentsTo a ++ [⟨Path.instanceField, some (i : Int)⟩])

/-- A loop opens with the elements of its source, or not at all. -/
theorem Entering.openingAt_of_loop (h : Entering setup tree s a job kids rest)
    (hkind : job.node.kind = .loop) : (∃ elements, s.openingAt setup a = .items elements) ∨
      ∃ failure, s.openingAt setup a = .refused failure := by
  have hloop (c : Context) (source : Binding) (t : State) :
      (∃ elements, t.loopOpening setup c source = .items elements) ∨
        ∃ failure, t.loopOpening setup c source = .refused failure := by
    unfold loopOpening
    split
    · exact .inr ⟨_, rfl⟩
    · exact .inl ⟨_, rfl⟩
    · exact .inr ⟨_, rfl⟩
  rw [openingAt, h.kids]
  simp only [opening]
  split
  · exact .inr ⟨_, rfl⟩
  · cases hwork : job.node.work with
    | loop source itemName indexName limit => exact hloop _ _ _
    | _ => rw [Node.kind, hwork] at hkind; cases hkind

/-- The number of instances of a loop that has started follows from how it opened. -/
theorem Entering.arity_of_loop
    (h : Entering setup tree ((start setup tree).runWithin setup steps) a job kids rest)
    (htree : tree.Sound) (hkind : job.node.kind = .loop) : ∃ job',
      ((start setup tree).runWithin setup (steps + 1)).jobAt a = some job' ∧
      job'.status ≠ .pending ∧
      job'.arity = (((start setup tree).runWithin setup steps).openingAt setup a).source.length := by
  have hstep : job.node.kind ≠ .step := by rw [hkind]; decide
  obtain ⟨job', hjob', hnot⟩ := h.not_pending htree
  have hnode : job'.node = job.node := by
    have hafter := (reached_runWithin setup htree (steps + 1)).shape htree
    rw [h.runWithin_succ htree] at hafter
    exact (h.reached.shape htree).node_eq hafter h.jobAt hjob'
  rw [h.runWithin_succ htree]
  refine ⟨job', hjob', hnot, ?_⟩
  rw [Job.arity_eq_of_loop (by rw [hnode, hkind])]
  have hnotes : (({ (start setup tree).runWithin setup steps with agenda := rest } :
      State).enter setup a).notesAt a = job'.stage.notes? := by
    rw [State.notesAt, hjob']
    rfl
  rcases h.openingAt_of_loop hkind with ⟨elements, ho⟩ | ⟨failure, ho⟩
  · obtain ⟨bound, hbound⟩ := h.exists_bound fun failure hrefused => by
      rw [ho] at hrefused
      cases hrefused
    have hsome := hnotes.symm.trans (h.notesAt htree hstep hbound)
    rw [hsome]
    rfl
  · cases hsome : job'.stage.notes? with
    | none => rw [ho]; rfl
    | some notes =>
      have hnil := h.source_of_refused htree hstep ho (hnotes.trans hsome)
      rw [ho, Option.map_some, hnil]
      rfl

/-- A loop has one instance for every element of its source, and none without a source. -/
theorem Final.arity_of_loop (h : Final setup tree s) (hjob : s.jobAt a = some job)
    (hkind : job.node.kind = .loop) :
    (∀ elements, Sourced setup tree a elements → job.arity = elements.length) ∧
      ((∀ elements, ¬ Sourced setup tree a elements) → job.arity = 0) := by
  have hstarted {steps : Nat} {old : Job} {kids : List Live} {rest : List Task}
      (hentering : Entering setup tree ((start setup tree).runWithin setup steps) a old kids rest) :
      job.arity =
        (((start setup tree).runWithin setup steps).openingAt setup a).source.length := by
    have hnode := (hentering.reached.shape h.sound).node_eq h.shape hentering.jobAt hjob
    obtain ⟨new, hnew, hnot, harity⟩ := hentering.arity_of_loop h.sound (by rw [← hnode, hkind])
    obtain ⟨more, hmore⟩ := h.exists_runWithin_eq (steps + 1)
    obtain ⟨job', hjob', _, hsame⟩ :=
      (reached_runWithin setup h.sound (steps + 1)).arity_runWithin h.sound hnew hnot more
    rw [← hmore, hjob, Option.some.injEq] at hjob'
    rw [hjob', hsame, harity]
  constructor
  · rintro elements ⟨steps, hstarts, ho⟩
    obtain ⟨old, kids, rest, hentering⟩ := hstarts.entering h.sound
    rw [hstarted hentering, ho]
    rfl
  · intro hnone
    by_cases hbegun : job.entry.progress.started.isSome
    · obtain ⟨steps, old, kids, rest, hentering⟩ := h.exists_entering hjob hbegun
      have hnode := (hentering.reached.shape h.sound).node_eq h.shape hentering.jobAt hjob
      rcases hentering.openingAt_of_loop (by rw [← hnode, hkind]) with ⟨elements, ho⟩ | ⟨failure, ho⟩
      · exact absurd ⟨steps, ⟨⟨rest, hentering.agenda⟩, hentering.cancelled, hentering.halted⟩, ho⟩
          (hnone elements)
      · rw [hstarted hentering, ho]
        rfl
    · have hidle : job.stage = .idle := by
        by_contra hstage
        exact hbegun (h.reached.started_of_stage h.sound hjob hstage)
      rw [Job.arity_eq_of_loop hkind, hidle]
      rfl

theorem Final.itemized (h : Final setup tree s) (hkids : s.root.at? a = some (.mk job kids))
    (hkind : job.node.kind = .loop) :
    Itemized setup tree a job.node (Live.mk job kids).toResult := by
  have hjob : s.jobAt a = some job := jobAt_of_at? hkids
  have hitems : (Live.mk job kids).toResult.items = kids.map Live.toResult := by
    rw [Live.toResult, Live.toResults_eq_map]
    cases hwork : job.node.work with
    | loop source itemName indexName limit => rfl
    | _ => rw [Node.kind, hwork] at hkind; cases hkind
  have hlength : (Live.mk job kids).toResult.items.length = job.arity := by
    rw [hitems, List.length_map, h.shape.length_kids hkids]
  obtain ⟨hsourced, hunsourced⟩ := h.arity_of_loop hjob hkind
  obtain ⟨body, hbody⟩ := (h.shape.sound a job hjob).exists_body hkind
  refine ⟨fun elements he => hlength.trans (hsourced elements he), fun hnone => ?_, body, hbody, ?_⟩
  · exact List.eq_nil_of_length_eq_zero (hlength.trans (hunsourced hnone))
  · intro i item hitem
    rw [hitems, List.getElem?_map, Option.map_eq_some_iff] at hitem
    obtain ⟨kid, hkid, rfl⟩ := hitem
    have hat : s.root.at? (a ++ [i]) = some kid := by rw [Live.at?_concat hkids, hkid]
    have hnode := (h.shape.kid a i job kid.job hjob (Live.jobAt_of_at? hat)).1
    rw [Node.kidAt_of_kind_eq hkind, hbody, List.head?_cons, Option.some.injEq] at hnode
    have hmirrors := h.shape.mirrors hat
    rwa [h.shape.segmentsTo_concat hjob, Live.kidSegment_of_loop hkind, ← hnode] at hmirrors

/-! ## Whole results -/

/-- The result of the run mirrors the tree, and its nodes are found by their paths. -/
structure Mirrored (setup : Setup) (tree : Node) (s : State) : Prop where
  distinct : (s.result.tree.walk.map fun n => n.entry.path).Nodup
  retrieved : ∀ n ∈ s.result.tree.walk, s.result.tree.resolve n.entry.path = .ok (.node n)
  mirrors : s.result.tree.Mirrors tree []
  /-- Every loop has the items that its source calls for. -/
  itemized : ∀ n ∈ s.result.tree.walk, n.entry.kind = Kind.loop.name → ∃ a job,
    s.jobAt a = some job ∧ n.entry = job.entry ∧ Itemized setup tree a job.node n

theorem Final.mirrored (h : Final setup tree s) : Mirrored setup tree s where
  distinct := h.shape.nodup_paths h.sound
  retrieved := by
    intro n hn
    obtain ⟨a, live, hlive, rfl⟩ := Live.mem_walk_toResult s.root n hn
    rw [Live.entry_toResult]
    exact h.shape.resolve_path h.sound hlive
  mirrors := by
    obtain ⟨job, hjob, hnode, _⟩ := h.shape.root
    obtain ⟨kids, hkids⟩ := at?_of_jobAt hjob
    have hmirrors := h.shape.mirrors hkids
    rw [Live.at?_nil, Option.some.injEq] at hkids
    rw [← hkids] at hmirrors
    have hroot : s.root.job.node = tree := by
      rw [hkids]
      exact hnode
    rwa [hroot] at hmirrors
  itemized := by
    intro n hn hkind
    obtain ⟨a, ⟨job, kids⟩, hlive, rfl⟩ := Live.mem_walk_toResult s.root n hn
    have hjob : s.jobAt a = some job := jobAt_of_at? hlive
    rw [Live.entry_toResult] at hkind
    obtain ⟨_, hname, _⟩ := h.shape.entry a job hjob
    have hloop : job.node.kind = .loop := by
      have hnames : job.node.kind.name = Kind.loop.name := hname.symm.trans hkind
      revert hnames
      cases job.node.kind <;> decide
    exact ⟨a, job, hjob, Live.entry_toResult _, h.itemized hlive hloop⟩

end State

/-- The result of every run mirrors the tree that was run: paths are distinct and lead to their nodes;
without the positions of instances they lead to the definitions of their nodes; what is defined below no
loop has one node; and loops have one item, laid out like the body, for every element of their
sources. -/
theorem Setup.mirrored_of_execute {setup : Setup} {tree : Node} {separator : String}
    {ids rest : IdSource} {s : State} (htree : tree.Sound)
    (h : setup.execute tree separator ids = .ok (s, rest)) :
    ∃ prepared, tree.prepare separator setup.previous ids = .ok (prepared, rest) ∧
      State.Mirrored setup prepared s := by
  obtain ⟨prepared, hprepare, hfinal⟩ := execute_final htree h
  exact ⟨prepared, hprepare, hfinal.mirrored⟩

/-- A loop over two numbers whose body is a sequence is such a run. -/
theorem Setup.mirrored_of_execute_loop : ∃ s rest prepared,
    ({ executor := Echo.executor } : Setup).execute
      (.mk {} (.loop (.literal (.array [.bool true, .bool false])) "item" none none)
        [.mk {} .sequence [.mk {} (.step "only" none) []]])
      " > " .counting = .ok (s, rest) ∧ State.Mirrored { executor := Echo.executor } prepared s := by
  have hsound : (Node.mk {} (.loop (.literal (.array [.bool true, .bool false])) "item" none none)
      [.mk {} .sequence [.mk {} (.step "only" none) []]]).Sound := by
    simp [Node.Sound, Node.walk, Node.walkList, Node.Fits, Node.work, Node.children, Work.limit]
  obtain ⟨s, rest, h⟩ : ∃ s rest, ({ executor := Echo.executor } : Setup).execute
      (.mk {} (.loop (.literal (.array [.bool true, .bool false])) "item" none none)
        [.mk {} .sequence [.mk {} (.step "only" none) []]])
      " > " .counting = .ok (s, rest) := ⟨_, _, rfl⟩
  obtain ⟨prepared, _, hmirrored⟩ := mirrored_of_execute hsound h
  exact ⟨s, rest, prepared, h, hmirrored⟩

end Workflow
