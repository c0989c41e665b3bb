import Workflow.Proofs.Freeze
import Workflow.Proofs.Run.Punctual

/-!
# Steps that have to stop

A step has to stop once the end of the run has been asked for or a race around it has been won. It has
been told so before time passes, and no step begins to wait that has to stop. So a step that waits has
not had to stop at an earlier instant.

* `State.Stopping` says that the node at an address has to stop.
* `State.now_le_of_stopping` says that no time passes while a step waits that has to.
-/

namespace Workflow.State

variable {setup : Setup} {tree : Node} {s t : State} {a : Address} {call : Call} {n m : Nat}

/-! ## What lasts -/

/-- The node at an address has to stop: the run is to end, or a race around the node has been won. -/
def Stopping (s : State) (a : Address) : Prop :=
  s.cancelled = true ∨ s.Halted a

theorem Reached.stopping_step (h : Reached setup tree s none) (htree : tree.Sound)
    (hstopping : s.Stopping a) (hstep : s.step setup = some t) : t.Stopping a := by
  cases hstopping with
  | inl hcancelled => exact .inl (h.cancelled_of_step htree hcancelled hstep)
  | inr hhalted =>
    refine .inr (h.changes_induction (P := fun u _ => u.Halted a) (h.step htree hstep) hhalted ?_)
    intro u v between next hu hchange hbefore
    exact hbefore.change hchange (hu.shape htree)

/-- A node that has to stop has to in all later states of the run. -/
theorem stopping_mono (htree : tree.Sound) (hle : m ≤ n)
    (h : ((start setup tree).runWithin setup m).Stopping a) :
    ((start setup tree).runWithin setup n).Stopping a := by
  obtain ⟨more, rfl⟩ := Nat.exists_eq_add_of_le hle
  rw [runWithin_add]
  exact (reached_runWithin setup htree m).runWithin_induction (P := fun s => s.Stopping a) htree h
    (fun _ _ hr hstep hbefore => hr.stopping_step htree hbefore hstep) more

/-- Time does not run backwards. -/
theorem now_mono (htree : tree.Sound) (hle : m ≤ n) :
    ((start setup tree).runWithin setup m).now ≤ ((start setup tree).runWithin setup n).now := by
  obtain ⟨more, rfl⟩ := Nat.exists_eq_add_of_le hle
  rw [runWithin_add]
  refine (reached_runWithin setup htree m).runWithin_induction
    (P := fun s => ((start setup tree).runWithin setup m).now ≤ s.now) htree le_rfl ?_ more
  intro s t hr hstep hbefore
  exact hbefore.trans (hr.now_le_of_step htree hstep)

/-! ## Steps that wait although they have to stop -/

/-- A step that has to stop does not begin to wait. -/
theorem Reached.callAt_of_stopping (h : Reached setup tree s none) (htree : tree.Sound)
    (hstep : s.step setup = some t) (hstopping : s.Stopping a) (hcall : t.callAt a = some call) :
    ∃ before, s.callAt a = some before := by
  have hchanges := h.step htree hstep
  have ht := h.changes hchanges
  obtain ⟨new, hnew, hrun, _, hkind, _⟩ := (ht.control htree).of_callAt hcall
  by_cases hbefore : ∃ old, s.jobAt a = some old ∧ old.entry.progress.started.isSome
  · obtain ⟨old, hold, hstarted⟩ := hbefore
    have hpending : old.status ≠ .pending := by
      intro hpending
      obtain ⟨hunstarted, _⟩ := ((h.chronicle htree).node a old hold).of_pending hpending
      rw [hunstarted.progress] at hstarted
      cases hstarted
    have hterminal : ¬ old.status.isTerminal := by
      intro hterminal
      obtain ⟨new', hnew', hentry, _⟩ := h.entry_step htree hold hterminal hstep
      rw [hnew, Option.some.injEq] at hnew'
      subst hnew'
      have hsame : old.status = new.status := by rw [Job.status, Job.status, hentry]
      rw [hsame, hrun] at hterminal
      cases hterminal
    have hnode := (h.shape htree).node_eq (ht.shape htree) hold hnew
    refine h.exists_callAt htree hold ?_ (hnode ▸ hkind)
    revert hpending hterminal
    cases old.status <;> decide
  · -- a step that starts does not have to stop
    have hstarted : new.entry.progress.started.isSome := by
      obtain ⟨x, _, _, _, hsome, _⟩ := ((ht.chronicle htree).node a new hnew).of_running hrun
      rw [hsome]
      rfl
    obtain ⟨_, hcancelled, hhalted⟩ := hchanges.started_of_not h htree
      (fun old hold hstarted => hbefore ⟨old, hold, hstarted⟩) hnew hstarted
    exfalso
    cases hstopping with
    | inl hstopped =>
      rw [hcancelled] at hstopped
      cases hstopped
    | inr hstopped => exact hhalted hstopped

/-- A step that waits and has to stop is to be told at this instant. -/
theorem agenda_of_stopping (htree : tree.Sound)
    (hstopping : ((start setup tree).runWithin setup n).Stopping a)
    (hcall : ((start setup tree).runWithin setup n).callAt a = some call) :
    ((start setup tree).runWithin setup n).agenda ≠ [] := by
  have hr := reached_runWithin setup htree n
  obtain ⟨job, hjob, hstage⟩ := jobAt_of_callAt hcall
  have htold : call.told = true := by
    cases hstopping with
    | inl hcancelled => exact (hr.waiting htree hjob hstage).cancelled hcancelled
    | inr hhalted => exact hushed_runWithin setup htree n a call hhalted hcall
  intro hnil
  rw [hr.not_told htree hnil hcall] at htold
  cases htold

/-- While a step waits that has to stop, no time passes. -/
theorem now_le_of_stopping (htree : tree.Sound)
    (hcall : ((start setup tree).runWithin setup n).callAt a = some call)
    (hstopping : ((start setup tree).runWithin setup m).Stopping a) :
    ((start setup tree).runWithin setup n).now ≤ ((start setup tree).runWithin setup m).now := by
  induction n generalizing call with
  | zero =>
    obtain ⟨job, hjob, hstage⟩ := jobAt_of_callAt hcall
    obtain ⟨path, node, rfl, _⟩ := Live.jobAt_ofNode hjob
    cases hstage
  | succ n ih =>
    by_cases hle : n + 1 ≤ m
    · exact now_mono htree hle
    · have hr := reached_runWithin setup htree n
      have hbefore := stopping_mono htree (by omega : m ≤ n) hstopping
      rw [runWithin_succ] at hcall ⊢
      cases hstep : ((start setup tree).runWithin setup n).step setup with
      | none =>
        rw [hstep, Option.getD_none] at hcall
        exact ih hcall
      | some t =>
        rw [hstep, Option.getD_some] at hcall
        obtain ⟨before, hcall'⟩ := hr.callAt_of_stopping htree hstep hbefore hcall
        have hagenda := agenda_of_stopping htree hbefore hcall'
        rw [Option.getD_some, (hr.advances htree hstep hagenda).now]
        exact ih hcall'

end Workflow.State
