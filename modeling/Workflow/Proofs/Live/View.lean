import Workflow.Run.Live.Lemmas

/-!
# Live trees as tables

A live tree is read as a table that gives the state of the node at every address. What changes a
tree is described by what it does to the table.

* `Live.jobAt` is the table.
* `Live.jobAt_modify` and `Live.jobAt_update` say what changes at an address do to it.
* `Live.mem_walk_iff` says that a walk lists the table, and `Live.pairwise_walk` that it lists no
  node before the nodes that lie above it.
-/

namespace Workflow.Live

/-- What holds of a tree if it holds of the children of its root holds of all trees. -/
@[elab_as_elim]
theorem ind {motive : Live → Prop}
    (mk : ∀ job kids, (∀ kid ∈ kids, motive kid) → motive (mk job kids)) (live : Live) :
    motive live :=
  @Live.rec motive (fun kids => ∀ kid ∈ kids, motive kid) mk (List.forall_mem_nil _)
    (fun _ _ hkid hkids => List.forall_mem_cons.2 ⟨hkid, hkids⟩) live

/-- The state of the node at an address. -/
def jobAt (live : Live) (a : Address) : Option Job :=
  (live.at? a).map job

/-! ## Longer addresses -/

@[simp] theorem at?_nil (live : Live) : live.at? [] = some live := by
  cases live; rfl

theorem at?_cons (job : Job) (kids : List Live) (i : Nat) (a : Address) :
    (mk job kids).at? (i :: a) = kids[i]?.bind fun kid => kid.at? a := by
  rw [at?]
  cases kids[i]? <;> rfl

/-- The node at a longer address is found from the node at the shorter one. -/
theorem at?_append (live : Live) (a b : Address) :
    live.at? (a ++ b) = (live.at? a).bind fun kid => kid.at? b := by
  induction a generalizing live with
  | nil => simp
  | cons i a ih =>
    obtain ⟨job, kids⟩ := live
    rw [List.cons_append, at?_cons, at?_cons]
    cases kids[i]? with
    | none => rfl
    | some kid => exact ih kid

/-- The children of a node are the nodes at the next addresses. -/
theorem at?_concat {live : Live} {a : Address} {job : Job} {kids : List Live}
    (h : live.at? a = some (mk job kids)) (i : Nat) : live.at? (a ++ [i]) = kids[i]? := by
  rw [at?_append, h, Option.bind_some, at?_cons]
  cases kids[i]? <;> simp

theorem jobAt_of_at? {live kid : Live} {a : Address} (h : live.at? a = some kid) :
    live.jobAt a = some kid.job := by
  rw [jobAt, h]; rfl

theorem at?_of_jobAt {live : Live} {a : Address} {job : Job} (h : live.jobAt a = some job) :
    ∃ kids, live.at? a = some (mk job kids) := by
  obtain ⟨⟨job', kids⟩, hkid, hjob⟩ := Option.map_eq_some_iff.1 h
  subst hjob
  exact ⟨kids, hkid⟩

theorem jobAt_concat {live : Live} {a : Address} {job : Job} {kids : List Live}
    (h : live.at? a = some (mk job kids)) (i : Nat) :
    live.jobAt (a ++ [i]) = kids[i]?.map Live.job := by
  rw [jobAt, at?_concat h]

/-- Above every node there are nodes. -/
theorem jobAt_of_append {live : Live} {a b : Address} {job : Job}
    (h : live.jobAt (a ++ b) = some job) : ∃ above, live.jobAt a = some above := by
  rw [jobAt, at?_append] at h
  cases ha : live.at? a with
  | none => rw [ha] at h; cases h
  | some kid => exact ⟨kid.job, jobAt_of_at? ha⟩

/-! ## Changes -/

/-- A change at an address reaches exactly the node there. -/
theorem jobAt_modify (f : Job → Job) (live : Live) (a b : Address) :
    (live.modify f a).jobAt b = if b = a then (live.jobAt b).map f else live.jobAt b := by
  by_cases h : b = a
  · subst h
    rw [if_pos rfl]
    cases hb : live.at? b with
    | none => rw [modify, update_of_at?_eq_none _ hb, jobAt, hb]; rfl
    | some kid => rw [jobAt, jobAt, at?_modify_self f hb, hb]; rfl
  · rw [if_neg h]
    exact job_at?_modify_ne f (Ne.symm h)

/-- What is put in the place of a node is found below its address. -/
theorem at?_update_append (f : Live → Live) {live kid : Live} {a : Address}
    (h : live.at? a = some kid) (b : Address) :
    (live.update f a).at? (a ++ b) = (f kid).at? b := by
  rw [at?_append, at?_update_self f h, Option.bind_some]

/-- What is put in the place of a node changes no other node but those below it. -/
theorem jobAt_update_of_not_prefix (f : Live → Live) {live : Live} {a b : Address}
    (h : ¬ a <+: b) : (live.update f a).jobAt b = live.jobAt b := by
  induction a generalizing live b with
  | nil => exact absurd (List.nil_prefix) h
  | cons i a ih =>
    obtain ⟨job, kids⟩ := live
    cases b with
    | nil => rfl
    | cons j b =>
      rw [update, jobAt, jobAt, at?_cons, at?_cons, List.getElem?_modify]
      by_cases hij : i = j
      · subst hij
        cases kids[i]? with
        | none => rfl
        | some kid =>
          have hb : ¬ a <+: b := fun hab => h (List.cons_prefix_cons.2 ⟨rfl, hab⟩)
          simpa [jobAt] using @ih kid b hb
      · simp [hij]

/-- A change of a node that changes nothing. -/
theorem update_id {f : Live → Live} (hf : ∀ live, f live = live) (live : Live) (a : Address) :
    live.update f a = live := by
  induction a generalizing live with
  | nil => cases live; exact hf _
  | cons i a ih =>
    obtain ⟨job, kids⟩ := live
    have hkids : (fun kid => update f kid a) = id := funext ih
    rw [update, hkids, List.modify_id]

/-! ## Walks -/

mutual

theorem mem_walk_of_at? (a : Address) : (live : Live) → ∀ (b : Address) (kid : Live),
    live.at? b = some kid → (a ++ b, kid.job) ∈ live.walk a
  | mk job kids => by
    intro b kid h
    cases b with
    | nil =>
      rw [at?_nil, Option.some.injEq] at h
      subst h
      simp [walk, Live.job]
    | cons i b =>
      rw [at?_cons] at h
      obtain ⟨next, hnext, hkid⟩ := Option.bind_eq_some_iff.1 h
      rw [walk, List.mem_cons]
      right
      have := mem_walkKids_of_at? a 0 kids i next b kid hnext hkid
      rwa [Nat.zero_add] at this

theorem mem_walkKids_of_at? (a : Address) (position : Nat) : (kids : List Live) →
    ∀ (i : Nat) (next : Live) (b : Address) (kid : Live), kids[i]? = some next →
      next.at? b = some kid → (a ++ (position + i) :: b, kid.job) ∈ walkKids a position kids
  | [] => by simp
  | head :: tail => by
    intro i next b kid hnext hkid
    rw [walkKids, List.mem_append]
    cases i with
    | zero =>
      rw [List.getElem?_cons_zero, Option.some.injEq] at hnext
      subst hnext
      left
      simpa using mem_walk_of_at? (a ++ [position]) head b kid hkid
    | succ i =>
      rw [List.getElem?_cons_succ] at hnext
      right
      have := mem_walkKids_of_at? a (position + 1) tail i next b kid hnext hkid
      rwa [Nat.add_right_comm, Nat.add_assoc] at this

end

/-- A walk from a node lists what the table has below the node's address. -/
theorem mem_walk_iff {live : Live} {a b : Address} {job : Job} :
    (b, job) ∈ live.walk a ↔ ∃ c, b = a ++ c ∧ live.jobAt c = some job := by
  constructor
  · intro h
    obtain ⟨c, kid, hb, hkid, hjob⟩ := walk_at? a live (b, job) h
    exact ⟨c, hb, by rw [jobAt_of_at? hkid, hjob]⟩
  · rintro ⟨c, rfl, hjob⟩
    obtain ⟨kids, hkid⟩ := at?_of_jobAt hjob
    exact mem_walk_of_at? a live c _ hkid

mutual

/-- No node of a walk stands before one that lies above it, or twice. -/
theorem pairwise_walk (a : Address) : (live : Live) →
    ((live.walk a).map Prod.fst).Pairwise fun b c => ¬ c <+: b
  | mk job kids => by
    rw [walk, List.map_cons, List.pairwise_cons]
    refine ⟨?_, pairwise_walkKids a 0 kids⟩
    intro c hc hca
    obtain ⟨node, hnode, rfl⟩ := List.mem_map.1 hc
    obtain ⟨i, b, _, _, hb, _⟩ := walkKids_at? a 0 kids node hnode
    have hlength : node.1.length ≤ a.length := hca.length_le
    rw [hb, List.length_append, List.length_cons] at hlength
    omega

theorem pairwise_walkKids (a : Address) (position : Nat) : (kids : List Live) →
    ((walkKids a position kids).map Prod.fst).Pairwise fun b c => ¬ c <+: b
  | [] => by simp [walkKids]
  | head :: tail => by
    rw [walkKids, List.map_append, List.pairwise_append]
    refine ⟨pairwise_walk _ head, pairwise_walkKids a (position + 1) tail, ?_⟩
    intro b hb c hc hcb
    obtain ⟨node, hnode, rfl⟩ := List.mem_map.1 hb
    obtain ⟨other, hother, rfl⟩ := List.mem_map.1 hc
    obtain ⟨b', _, hb', _⟩ := walk_at? (a ++ [position]) head node hnode
    obtain ⟨i, c', _, _, hc', _⟩ := walkKids_at? a (position + 1) tail other hother
    rw [hb', hc', List.append_assoc, List.prefix_append_right_inj, List.singleton_append,
      List.cons_prefix_cons] at hcb
    omega

end

end Workflow.Live
