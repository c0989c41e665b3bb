import Workflow.Proofs.Isolation
import Workflow.Proofs.Tree.Independence

/-!
# What nodes see at their turns

When the turn of a node comes, the nodes above it run, and any other node that its paths may lead past
has either come to its end or not started. Only the children of a node that runs several at once are
neither, and no path leads from one of them to another.

* `Node.Before` says that one node comes to its end before the other starts, and `Node.Beside` that two
  nodes lie below different children of a node that runs several at once.
* `State.Reached.isTerminal_before` and `State.Reached.pending_after` say how far the other nodes are
  when the turn of a node comes.
* `State.Inside.not_beside_trail` says that the paths of a node lead past no node beside it.
-/

namespace Workflow

/-! ## Addresses that part -/

namespace Node

variable {tree node : Node} {x a b c : Address} {i j : Nat}

/-- The addresses lie below different children of the node at the third one. -/
structure Parts (tree : Node) (x a c : Address) (i j : Nat) (node : Node) : Prop where
  left : c ++ [i] <+: x
  right : c ++ [j] <+: a
  ne : i ≠ j
  node : tree.at? (tree.placeOf c) = some node

/-- The first node comes to its end before the second one starts: it comes before it in a sequence, or
lies below another child of a branch. -/
def Before (tree : Node) (x a : Address) : Prop :=
  ∃ c i j node, Parts tree x a c i j node ∧
    ((node.kind = .sequence ∧ i < j) ∨ node.kind = .branch)

/-- The nodes lie below different children of a node that runs several at once. -/
def Beside (tree : Node) (x a : Address) : Prop :=
  ∃ c i j node, Parts tree x a c i j node ∧ node.kind.isGroup = true

/-- Addresses part unless one of them goes on after the other. -/
theorem exists_parting : ∀ {x a : Address}, ¬ x <+: a → ¬ a <+: x →
    ∃ c i j, i ≠ j ∧ c ++ [i] <+: x ∧ c ++ [j] <+: a
  | [], a => fun hx => absurd List.nil_prefix hx
  | _ :: _, [] => fun _ ha => absurd List.nil_prefix ha
  | i :: x, j :: a => by
    intro hx ha
    by_cases hij : i = j
    · subst hij
      rw [List.prefix_cons_inj] at hx ha
      obtain ⟨c, k, l, hkl, hleft, hright⟩ := exists_parting hx ha
      exact ⟨i :: c, k, l, hkl, (List.prefix_cons_inj i).2 hleft, (List.prefix_cons_inj i).2 hright⟩
    · exact ⟨[], i, j, hij, ⟨x, rfl⟩, ⟨a, rfl⟩⟩

theorem Parts.mono {y : Address} (h : Parts tree x a c i j node) (hxy : x <+: y) :
    Parts tree y a c i j node :=
  { h with left := h.left.trans hxy }

theorem Before.mono {y : Address} (h : tree.Before x a) (hxy : x <+: y) : tree.Before y a := by
  obtain ⟨c, i, j, node, hparts, hkind⟩ := h
  exact ⟨c, i, j, node, hparts.mono hxy, hkind⟩

/-- What comes to its end before a child does so before the node above, or lies below another child. -/
theorem Before.cases_concat {k : Nat} (h : tree.Before x (a ++ [k]))
    (hnode : tree.at? (tree.placeOf a) = some node) : tree.Before x a ∨
      ∃ i, i ≠ k ∧ a ++ [i] <+: x ∧ ((node.kind = .sequence ∧ i < k) ∨ node.kind = .branch) := by
  obtain ⟨c, i, j, above, hparts, hkind⟩ := h
  rcases List.prefix_concat_iff.1 hparts.right with heq | hright
  · obtain ⟨rfl, rfl⟩ := (List.append_singleton_inj ..).1 heq
    rw [hparts.node, Option.some.injEq] at hnode
    subst hnode
    exact .inr ⟨i, hparts.ne, hparts.left, hkind⟩
  · exact .inl ⟨c, i, j, above, { hparts with right := hright }, hkind⟩

end Node

namespace State

variable {setup : Setup} {tree node : Node} {s : State} {hand : Option Address} {x a c d : Address}
  {i j : Nat} {job old above : Job}

/-! ## How far the other nodes are -/

/-- The child that leads to an active node is active. -/
theorem Control.active_above (h : Control setup s hand) (ha : Active s hand a) (hc : c <+: a) :
    Active s hand c := by
  obtain ⟨d, rfl⟩ := hc
  by_cases hd : d = []
  · rwa [hd, List.append_nil] at ha
  · exact .inr (.inr (.inr (h.statusAt_above hd ha)))

/-- The node at which the address of an active node parts from another one runs. -/
theorem Reached.running_of_parts (h : Reached setup tree s none) (htree : tree.Sound)
    (ha : Active s none a) (hparts : tree.Parts x a c i j node) :
    ∃ above, s.jobAt c = some above ∧ above.node = node ∧ above.status = .running ∧
      Active s none (c ++ [j]) := by
  have hcontrol := h.control htree
  have hactive := hcontrol.active_above ha hparts.right
  obtain ⟨above, habove, hrun, _⟩ := hcontrol.parent hactive
  have hnode := (h.shape htree).at?_placeOf habove
  rw [hparts.node, Option.some.injEq] at hnode
  exact ⟨above, habove, hnode.symm, hrun, hactive⟩

/-- What comes to its end before an active node has come to its end. -/
theorem Reached.isTerminal_before (h : Reached setup tree s none) (htree : tree.Sound)
    (ha : Active s none a) (hbefore : tree.Before x a) (hx : s.jobAt x = some old) :
    old.status.isTerminal := by
  have hcontrol := h.control htree
  obtain ⟨c, i, j, node, hparts, hkind⟩ := hbefore
  obtain ⟨above, habove, rfl, hrun, hactive⟩ := h.running_of_parts htree ha hparts
  -- the child that leads to the other node is done
  have hdone : Done s none (c ++ [i]) := by
    obtain ⟨d, rfl⟩ := hparts.left
    obtain ⟨kid, hkid⟩ := jobAt_of_append hx
    have harity := (h.shape htree).lt_arity habove hkid
    have hj := hcontrol.lt_arity (h.shape htree) habove hactive
    cases (hcontrol.node c above habove).busy hrun (by simp) with
    | calling _ hstep =>
      rw [hstep] at hkind
      rcases hkind with ⟨hkind, _⟩ | hkind <;> cases hkind
    | @sequence frame k _ hsequence _ _ _ hbefore hafter =>
      rw [hsequence] at hkind
      obtain ⟨_, hij⟩ := hkind.resolve_right (by simp)
      refine (hbefore i ?_).1
      by_contra hki
      exact (hafter j (by omega) hj).2 hactive
    | @branch frame k _ _ _ _ hothers =>
      refine (hothers i harity ?_).1
      rintro rfl
      exact (hothers j hj hparts.ne.symm).1.2 hactive
    | group _ hgroup =>
      rcases hkind with ⟨hkind, _⟩ | hkind <;> rw [hkind] at hgroup <;> cases hgroup
  obtain ⟨⟨status, hstatus, hterminal⟩, _⟩ := hdone
  exact hcontrol.isTerminal_below hparts.left hstatus hterminal hx

/-- Whatever is neither above a node that is about to start, nor before it, nor beside it, has not
started. -/
theorem Reached.pending_after (h : Reached setup tree s none) (htree : tree.Sound)
    (ha : Active s none a) (hpending : s.statusAt a = some .pending) (hx : s.jobAt x = some old)
    (hnot : ¬ x <+: a) (hbefore : ¬ tree.Before x a) (hbeside : ¬ tree.Beside x a) :
    old.status = .pending := by
  have hcontrol := h.control htree
  by_cases hax : a <+: x
  · exact hcontrol.below_pending hax hpending (statusAt_of_jobAt hx)
  · obtain ⟨c, i, j, hij, hleft, hright⟩ := Node.exists_parting hnot hax
    obtain ⟨above, habove, hrun, _⟩ :=
      hcontrol.parent (hcontrol.active_above ha hright)
    have hparts : tree.Parts x a c i j above.node :=
      ⟨hleft, hright, hij, (h.shape htree).at?_placeOf habove⟩
    have hactive := hcontrol.active_above ha hright
    obtain ⟨d, rfl⟩ := id hleft
    obtain ⟨kid, hkid⟩ := jobAt_of_append hx
    have harity := (h.shape htree).lt_arity habove hkid
    cases (hcontrol.node c above habove).busy hrun (by simp) with
    | calling _ hstep =>
      exact absurd hstep ((h.shape htree).kind_ne_step habove harity)
    | @sequence frame k _ hsequence _ _ _ hdone hafter =>
      have hji : ¬ i < j := fun hlt => hbefore ⟨c, i, j, above.node, hparts, .inl ⟨hsequence, hlt⟩⟩
      have hkj : ¬ j < k := fun hlt => (hdone j hlt).1.2 hactive
      exact hcontrol.below_pending hleft (hafter i (by omega) harity).1 (statusAt_of_jobAt hx)
    | branch _ hbranch =>
      exact absurd ⟨c, i, j, above.node, hparts, .inr hbranch⟩ hbefore
    | group _ hgroup => exact absurd ⟨c, i, j, above.node, hparts, hgroup⟩ hbeside

/-! ## Where paths lead -/

/-- The segment that leads to a child names the child in the definition. -/
theorem childNamed_kidSegment {child : Node} (hchild : node.kidAt i = some child)
    (hfits : Node.Fits node.work node.children.length) :
    node.childNamed (Live.kidSegment node.work i) = some (node.childPosition i) := by
  obtain ⟨header, work, children⟩ := node
  have hlt : work.kind ≠ .loop → i < children.length := by
    intro hkind
    have hnode : (Node.mk header work children).kind ≠ .loop := hkind
    rw [Node.kidAt_of_kind_ne hnode] at hchild
    exact (List.getElem?_eq_some_iff.1 hchild).1
  cases work with
  | step agent timeout =>
    simp only [Node.Fits, Node.work, Node.children] at hfits
    have := hlt (by simp [Work.kind])
    omega
  | loop source itemName indexName limit =>
    simp [Node.childNamed, Node.work, Live.kidSegment, Node.childPosition, Node.kind, Work.kind]
  | branch condition cases =>
    have := hlt (by simp [Work.kind])
    simp only [Node.Fits, Node.work, Node.children] at hfits
    simp only [Node.childNamed, Node.work, Live.kidSegment, Node.childPosition, Node.kind, Work.kind]
    split
    · rename_i hi
      simp [hi]
    · have hi : i = cases.length := by omega
      simp [hi, Path.childField, Path.defaultField]
  | _ => simp [Node.childNamed, Node.work, Live.kidSegment, Node.childPosition, Node.kind, Work.kind]

/-- A segment that becomes the one that leads to a child names the child in the definition. -/
theorem Inside.childNamed_of_localizedTo {segment : Segment} {child : Node} (h : s.Inside a)
    (hshape : Shape tree s) (hjob : s.jobAt a = some job) (hc : s.jobAt c = some above)
    (hchild : above.node.kidAt i = some child)
    (hlocal : Path.LocalizedTo (s.root.contextAt a).instances (tree.segmentsTo c) segment
      (Live.kidSegment above.node.work i)) :
    above.node.childNamed segment = some (above.node.childPosition i) := by
  have hnamed := childNamed_kidSegment hchild (hshape.sound c above hc _ (Node.mem_walk_self _)).1
  rcases hlocal with ⟨_, heq⟩ | ⟨current, hget, hlocal⟩
  · rwa [← heq]
  · rcases Path.localizeSegment_cases hlocal with ⟨hfield, hindex, _⟩ | ⟨heq, _⟩
    · -- the node is a loop around, whose body is written in the place of the instance
      obtain ⟨outer, k, loop, hloop, hpath, _⟩ := (h.get?_instances hshape hjob).1 hget
      rw [← hshape.path_eq_format hc] at hpath
      obtain rfl := hshape.path_inj hloop.jobAt hc hpath
      have hsame := hloop.jobAt
      rw [hc, Option.some.injEq] at hsame
      subst hsame
      have hkind : above.node.work.kind = .loop := hloop.kind
      rw [Node.childPosition_of_loop hloop.kind, Node.childNamed]
      cases hwork : above.node.work with
      | loop source itemName indexName limit => simp [hfield, hindex]
      | _ => rw [hwork] at hkind; cases hkind
    · rwa [← heq]

/-- Where a path leads in a run, what the expression names leads in the definition. -/
theorem Inside.placeOf_prefix_route {segments locals : List Segment} (h : s.Inside a)
    (hshape : Shape tree s) (hjob : s.jobAt a = some job) (hc : s.jobAt c = some above)
    (hx : s.jobAt (c ++ d) = some old)
    (hlocal : Path.Localized (s.root.contextAt a).instances (tree.segmentsTo c) segments locals)
    (hlocals : above.node.segmentsTo d <+: locals) :
    above.node.placeOf d <+: above.node.route segments := by
  induction d generalizing c above segments locals with
  | nil =>
    rw [Node.placeOf]
    exact List.nil_prefix
  | cons i d ih =>
    have hcons : c ++ i :: d = (c ++ [i]) ++ d := by simp
    rw [hcons] at hx
    obtain ⟨kid, hkid⟩ := jobAt_of_append hx
    obtain ⟨hchild, _⟩ := hshape.kid c i above kid hc hkid
    rw [Node.segmentsTo_cons hchild] at hlocals
    cases hlocal with
    | nil => simp at hlocals
    | cons hfirst hrest =>
      rw [List.cons_prefix_cons] at hlocals
      obtain ⟨rfl, hlocals⟩ := hlocals
      rw [← hshape.segmentsTo_concat hc] at hrest
      rw [Node.placeOf_cons hchild, Node.route, h.childNamed_of_localizedTo hshape hjob hc hchild hfirst]
      rw [Node.kidAt_eq] at hchild
      simp only [hchild]
      exact (List.prefix_cons_inj _).2 (ih hkid hx hrest hlocals)

/-- A trail that leads past a node begins with the segments that lead to the node. -/
theorem Shape.segmentsTo_prefix_of_trail {segments : List Segment} (hshape : Shape tree s)
    (hproper : ∀ segment ∈ segments, segment.Proper) (hjob : s.jobAt b = some job)
    (hb : b <+: s.root.trail segments) : tree.segmentsTo b <+: segments := by
  obtain ⟨rest, hrest⟩ := hb
  have hall := hshape.runs.segmentsTo_trail hproper
  rw [← hrest, Node.segmentsTo_append (hshape.at?_placeOf hjob)] at hall
  exact (List.prefix_append _ _).trans hall

theorem SameFixed.jobAt_of {t : State} {new : Job} (h : SameFixed s t) (hnew : t.jobAt b = some new) :
    ∃ old, s.jobAt b = some old := by
  have hsame := h b
  rw [hnew, Option.map_some] at hsame
  obtain ⟨old, hold, _⟩ := Option.map_eq_some_iff.1 hsame.symm
  exact ⟨old, hold⟩

/-- An expression crosses if its path leads to another child of a parallel node that the node lies
below. -/
theorem Inside.crosses_of_segmentsTo {segments locals : List Segment} {kid : Job}
    (h : s.Inside a) (hshape : Shape tree s) (hjob : s.jobAt a = some job)
    (hlocal : Path.Localized (s.root.contextAt a).instances [] segments locals)
    (hright : c ++ [j] <+: a) (hne : i ≠ j) (habove : s.jobAt c = some above)
    (hkind : above.node.kind = .parallel) (hkid : s.jobAt (c ++ [i]) = some kid)
    (hsegments : tree.segmentsTo (c ++ [i]) <+: locals) :
    tree.Crosses (tree.placeOf a) (tree.route segments) := by
  obtain ⟨root, hroot, hrootNode, _⟩ := hshape.root
  have hloop : above.node.kind ≠ .loop := by simp [hkind]
  rw [← hrootNode] at hsegments
  have hstart : Path.Localized (s.root.contextAt a).instances (tree.segmentsTo []) segments locals := by
    rw [Node.segmentsTo]
    exact hlocal
  have hplace := h.placeOf_prefix_route (d := c ++ [i]) hshape hjob hroot hkid hstart hsegments
  rw [hrootNode, hshape.placeOf_concat habove, Node.childPosition_of_kind_ne hloop] at hplace
  obtain ⟨below, hbelow⟩ := hplace
  obtain ⟨rest, rfl⟩ := hright
  obtain ⟨inner, hinner⟩ := jobAt_of_append hjob
  refine ⟨tree.placeOf c, j, i, inner.node.placeOf rest, below, above.node, ?_, ?_, hne.symm,
    hshape.at?_placeOf habove, hkind⟩
  · rw [Node.placeOf_append (hshape.at?_placeOf hinner), hshape.placeOf_concat habove,
      Node.childPosition_of_kind_ne hloop]
    simp
  · rw [← hbelow]
    simp

/-- No path of a node leads past a node that lies beside it, if no binding crosses. -/
theorem Inside.not_beside_trail {t : State} {expression path : String} {segments : List Segment}
    (h : s.Inside a) (hshape : Shape tree s) (hjob : s.jobAt a = some job)
    (hindependent : tree.Independent) (hrace : ∀ node ∈ tree.walk, node.kind ≠ .race)
    (hmem : expression ∈ job.node.expressions)
    (hlocal : Path.localize expression (s.root.contextAt a).instances = .ok path)
    (hparse : Path.parse path = .ok segments) (hsame : SameFixed s t)
    (hx : x <+: t.root.trail segments) : ¬ tree.Beside x a := by
  rintro ⟨c, i, j, node, hparts, hgroup⟩
  obtain ⟨written, locals, hwritten, hparse', hlocalized, hproper⟩ :=
    Path.localized_of_localize (h.exists_nat hshape hjob) hlocal
  rw [hparse, Except.ok.injEq] at hparse'
  subst hparse'
  -- the trail leads to the child below which the other node lies
  have hkid := hparts.left.trans hx
  obtain ⟨kid, hkidAt⟩ := Live.exists_of_prefix_trail hkid
  have hkidJob : t.jobAt (c ++ [i]) = some kid.job := Live.jobAt_of_at? hkidAt
  have hsegments :=
    (hshape.of_sameFixed hsame).segmentsTo_prefix_of_trail hproper hkidJob hkid
  obtain ⟨kidBefore, hkidBefore⟩ := hsame.jobAt_of hkidJob
  obtain ⟨above, habove⟩ := jobAt_of_append hkidBefore
  have hnode := hshape.at?_placeOf habove
  rw [hparts.node, Option.some.injEq] at hnode
  subst hnode
  cases hkind : above.node.kind with
  | parallel =>
    exact hindependent _ job.node expression written (hshape.at?_placeOf hjob) hmem hwritten
      (h.crosses_of_segmentsTo hshape hjob hlocalized hparts.right hparts.ne habove hkind hkidBefore
        hsegments)
  | loop =>
    obtain ⟨_, hparse', _, hinstance⟩ := h.instance_eq hshape hjob hlocal ⟨hparts.right, habove, hkind⟩
    rw [hparse, Except.ok.injEq] at hparse'
    subst hparse'
    rw [hshape.segmentsTo_concat habove, Live.kidSegment_of_loop hkind] at hsegments
    exact hparts.ne (Int.ofNat_inj.1 (hinstance i hsegments))
  | race =>
    exact hrace above.node (hshape.walk_subset above habove (Node.mem_walk_self _)) hkind
  | _ => rw [hkind] at hgroup; cases hgroup

end State
end Workflow
