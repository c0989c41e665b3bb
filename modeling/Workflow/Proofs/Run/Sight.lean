import Workflow.Proofs.Fields
import Workflow.Proofs.Run.Control.Run
import Workflow.Proofs.Run.Paths

/-!
# What a node sees of the nodes above

What a node sees is collected on the way from the root, from the nodes above it that have begun.

* `Live.contextAt_congr` says which parts of the nodes above matter.
* `State.Inside` says that everything above a node has begun, and `State.Reached.inside` that this is
  so for the active nodes of a run.
* `State.Inside.get?_instances` says which instances of loops a node sees: those that it lies in.
-/

namespace Workflow

/-- Nodes below see the same of both nodes, but for a race that is won. -/
structure Job.SameSight (job job' : Job) : Prop where
  kind : job'.node.kind = job.node.kind
  names : job'.node.work.instanceNames = job.node.work.instanceNames
  path : job'.entry.path = job.entry.path
  notes : job'.frame?.map Frame.notes = job.frame?.map Frame.notes

/-- The contexts say the same, but for a race that is won. -/
def Context.Same (c c' : Context) : Prop :=
  c'.scope = c.scope ∧ c'.instances = c.instances

theorem Context.Same.below {c c' : Context} {job job' : Job} (h : Context.Same c c')
    (hjob : job.SameSight job') (i : Nat) : Context.Same (c.below job i) (c'.below job' i) := by
  obtain ⟨hscope, hinstances⟩ := h
  have hnotes := hjob.notes
  unfold Context.below
  cases hframe : job.frame? with
  | none =>
    rw [hframe, Option.map_none, Option.map_eq_none_iff] at hnotes
    rw [hnotes]
    exact ⟨hscope, hinstances⟩
  | some frame =>
    rw [hframe, Option.map_some, Option.map_eq_some_iff] at hnotes
    obtain ⟨frame', hframe', hsame⟩ := hnotes
    obtain ⟨hbound, hsource⟩ := Prod.mk.inj hsame
    simp only [hframe', Context.binding, Context.Same, hbound, hsource, hjob.names, hjob.kind,
      hjob.path, hscope, hinstances, and_self]

namespace Live

variable {live live' : Live} {a : Address} {job : Job}

/-- What a child sees is what the node above sees and adds. -/
theorem contextAt_concat {i : Nat} {kid : Job} (hjob : live.jobAt a = some job)
    (hkid : live.jobAt (a ++ [i]) = some kid) :
    live.contextAt (a ++ [i]) = (live.contextAt a).below job i := by
  rw [contextAt, contextAt]
  generalize ({} : Context) = c
  induction a generalizing live c with
  | nil =>
    obtain ⟨root, kids⟩ := live
    rw [jobAt, at?_nil, Option.map_some, Option.some.injEq] at hjob
    subst hjob
    rw [jobAt, List.nil_append, at?_cons, Option.map_eq_some_iff] at hkid
    obtain ⟨next, hnext, _⟩ := hkid
    obtain ⟨next, hnext, _⟩ := Option.bind_eq_some_iff.1 hnext
    simp only [List.nil_append, contextFrom, hnext]
    rfl
  | cons k a ih =>
    obtain ⟨root, kids⟩ := live
    rw [jobAt, List.cons_append, at?_cons] at hkid
    rw [jobAt, at?_cons] at hjob
    cases hnext : kids[k]? with
    | none => rw [hnext] at hjob; cases hjob
    | some next =>
      rw [hnext, Option.bind_some] at hjob hkid
      simp only [List.cons_append, contextFrom, hnext]
      exact ih hjob hkid _

/-- Nodes see the same if they do of all nodes above. -/
theorem contextAt_congr (ha : (live.jobAt a).isSome) (ha' : (live'.jobAt a).isSome)
    (h : ∀ c i d job job', a = c ++ i :: d → live.jobAt c = some job → live'.jobAt c = some job' →
      job.SameSight job') : Context.Same (live.contextAt a) (live'.contextAt a) := by
  induction a using List.reverseRecOn with
  | nil => exact ⟨rfl, rfl⟩
  | append_singleton a i ih =>
    obtain ⟨kid, hkid⟩ := Option.isSome_iff_exists.1 ha
    obtain ⟨kid', hkid'⟩ := Option.isSome_iff_exists.1 ha'
    obtain ⟨job, hjob⟩ := jobAt_of_append hkid
    obtain ⟨job', hjob'⟩ := jobAt_of_append hkid'
    rw [contextAt_concat hjob hkid, contextAt_concat hjob' hkid']
    refine Context.Same.below (ih (by rw [hjob]; rfl) (by rw [hjob']; rfl)
      fun c k d above above' hc => ?_) (h a i [] job job' rfl hjob hjob') i
    exact h c k (d ++ [i]) above above' (by rw [hc]; simp)

end Live

namespace State

variable {setup : Setup} {tree : Node} {s t : State} {hand : Option Address} {a b : Address}
  {job : Job}

/-- Everything above the address has begun. -/
def Inside (s : State) (a : Address) : Prop :=
  ∀ c i d, a = c ++ i :: d → ∃ job frame, s.jobAt c = some job ∧ job.frame? = some frame

theorem Inside.of_append (h : s.Inside (a ++ b)) : s.Inside a :=
  fun c i d hc => h c i (d ++ b) (by rw [hc]; simp)

/-- Everything above an active node has begun. -/
theorem Reached.inside (h : Reached setup tree s hand) (htree : tree.Sound)
    (hactive : Active s hand a) : s.Inside a := by
  rintro c i d rfl
  have hcontrol := h.control htree
  have hshape := h.shape htree
  obtain ⟨job, hjob, hrun, hhand⟩ := hcontrol.above (List.cons_ne_nil i d) hactive
  cases (hcontrol.node c job hjob).busy hrun hhand with
  | calling hstage hkind _ =>
    -- nothing lies below a step
    obtain ⟨below, hbelow⟩ := hcontrol.exists_of_active hactive
    rw [hshape.jobAt_below_eq_none hjob (hshape.arity_of_step hjob hkind)] at hbelow
    cases hbelow
  | sequence hstage => exact ⟨job, _, hjob, by rw [Job.frame?, hstage]⟩
  | branch hstage => exact ⟨job, _, hjob, by rw [Job.frame?, hstage]⟩
  | group hstage => exact ⟨job, _, hjob, by rw [Job.frame?, hstage]⟩

/-- A loop around a node runs the instance that the node lies in. -/
structure Around (s : State) (a c : Address) (i : Nat) (loop : Job) : Prop where
  within : c ++ [i] <+: a
  jobAt : s.jobAt c = some loop
  kind : loop.node.kind = .loop

/-- A node sees the instances that it lies in, under the paths of their loops. -/
theorem Inside.get?_instances (h : s.Inside a) (hshape : Shape tree s) (hjob : s.jobAt a = some job)
    {key : String} {current : Int} :
    Fields.get? (s.root.contextAt a).instances key = some current ↔
      ∃ c i loop, s.Around a c i loop ∧ loop.entry.path = key ∧ current = (i : Int) := by
  induction a using List.reverseRecOn generalizing job with
  | nil =>
    refine ⟨fun hget => (by cases hget), ?_⟩
    rintro ⟨c, i, loop, hloop, _⟩
    have := hloop.within.length_le
    simp at this
  | append_singleton a k ih =>
    obtain ⟨above, frame, habove, hframe⟩ := h a k [] rfl
    have hbefore := ih h.of_append habove
    have hget : Fields.get? (s.root.contextAt (a ++ [k])).instances key =
        if above.node.kind = .loop ∧ above.entry.path = key then some (k : Int)
        else Fields.get? (s.root.contextAt a).instances key := by
      rw [Live.contextAt_concat habove hjob, Context.below, hframe]
      by_cases hkind : above.node.kind = .loop
      · simp [Context.binding, hkind, Fields.get?_set]
      · simp [Context.binding, hkind]
    -- a loop around the child is the node above, or a loop around it
    have haround (c : Address) (i : Nat) (loop : Job) : s.Around (a ++ [k]) c i loop ↔
        (c = a ∧ i = k ∧ loop = above ∧ above.node.kind = .loop) ∨ s.Around a c i loop := by
      have hwithin : c ++ [i] <+: a ++ [k] ↔ (c = a ∧ i = k) ∨ c ++ [i] <+: a := by
        rw [List.prefix_concat_iff, List.append_singleton_inj]
      constructor
      · rintro ⟨h, hloop, hkind⟩
        rcases hwithin.1 h with ⟨rfl, rfl⟩ | h
        · rw [habove, Option.some.injEq] at hloop
          subst hloop
          exact .inl ⟨rfl, rfl, rfl, hkind⟩
        · exact .inr ⟨h, hloop, hkind⟩
      · rintro (⟨rfl, rfl, rfl, hkind⟩ | ⟨h, hloop, hkind⟩)
        · exact ⟨List.prefix_rfl, habove, hkind⟩
        · exact ⟨hwithin.2 (.inr h), hloop, hkind⟩
    rw [hget]
    split
    · rename_i hself
      constructor
      · intro hcurrent
        exact ⟨a, k, above, (haround a k above).2 (.inl ⟨rfl, rfl, rfl, hself.1⟩), hself.2,
          (Option.some.inj hcurrent).symm⟩
      · rintro ⟨c, i, loop, hloop, hpath, rfl⟩
        rcases (haround c i loop).1 hloop with ⟨_, rfl, _⟩ | hloop
        · rfl
        · -- no loop further above has the path of the node above
          have hsame := hshape.path_inj hloop.jobAt habove (hpath.trans hself.2.symm)
          have hlength := hloop.within.length_le
          rw [hsame, List.length_append, List.length_singleton] at hlength
          omega
    · rename_i hself
      refine hbefore.trans ⟨?_, ?_⟩
      · rintro ⟨c, i, loop, hloop, hrest⟩
        exact ⟨c, i, loop, (haround c i loop).2 (.inr hloop), hrest⟩
      · rintro ⟨c, i, loop, hloop, hpath, hcurrent⟩
        rcases (haround c i loop).1 hloop with ⟨_, _, rfl, hkind⟩ | hloop
        · exact absurd ⟨hkind, hpath⟩ hself
        · exact ⟨c, i, loop, hloop, hpath, hcurrent⟩

end State
end Workflow
