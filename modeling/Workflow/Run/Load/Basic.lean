import Workflow.Run.Live.Lemmas
import Workflow.Run.Load.Levels
import Workflow.Run.State

/-!
# The load of a run

The load of a run is a quantity on several levels that says how much there is left to do.

* On the level `k + 2` it counts the loops of height `k` that have not started: a loop that starts
  gets instances, and the loops in them are less high.
* On the level 1 it counts the nodes that have not started and the calls that have not been made:
  what a call does is known when it is made.
* On the level 0 it counts what is to be done at this instant, the nodes that run, and what calls
  and containers still wait for.

A run with a fault does nothing more, and its load is zero.
-/

namespace Workflow

/-! ## The load of a node -/

mutual

/-- The height of a node in its tree. -/
def Node.height : Node → Nat
  | .mk _ _ children => Node.heights children + 1

/-- The greatest height of several nodes. -/
def Node.heights : List Node → Nat
  | [] => 0
  | node :: nodes => max (Node.height node) (Node.heights nodes)

end

/-- What a call still waits for. -/
def Call.load (call : Call) : Nat :=
  2 * call.acts.length + (if call.wakeAt.isSome then 2 else 0) +
    (if call.deadline.isSome then 1 else 0) + (if call.told then 0 else 2)

/-- The children that a node still waits for. -/
def Job.frameLoad (job : Job) (frame : Frame) : Nat :=
  2 * (job.count frame - frame.begun) + 2 * frame.left

/-- What the stage of a node still waits for. -/
def Job.stageLoad (job : Job) : Nat :=
  match job.stage with
  | .idle => 0
  | .calling call => call.load
  | .hosting frame => job.frameLoad frame

/-- The node waits for a call that has not been made. -/
def Job.unasked (job : Job) : Bool :=
  match job.stage with
  | .calling call => !call.asked
  | _ => false

/-- The load of a single node. -/
def Job.load (job : Job) : Levels
  | 0 => (if job.status = .running then 1 else 0) + job.stageLoad
  | 1 => (if job.status = .pending then 2 else 0) + (if job.unasked then 1 else 0)
  | k + 2 => if job.status = .pending ∧ job.node.kind = .loop ∧ job.node.height = k then 1 else 0

/-- A node has no load on a level above its height. -/
theorem Job.load_of_height_lt {job : Job} {k : Nat} (h : job.node.height < k) :
    job.load (k + 2) = 0 := by
  simp only [Job.load]
  rw [if_neg]
  omega

/-! ## The load of a tree -/

namespace Live

mutual

/-- The sum of a quantity over all nodes of a tree. -/
def total (w : Job → Nat) : Live → Nat
  | mk job kids => w job + totals w kids

/-- The sum of a quantity over all nodes of several trees. -/
def totals (w : Job → Nat) : List Live → Nat
  | [] => 0
  | kid :: kids => total w kid + totals w kids

end

theorem totals_modify (w : Job → Nat) (g : Live → Live) {kids : List Live} {i : Nat} {kid : Live}
    (h : kids[i]? = some kid) :
    totals w (kids.modify i g) + total w kid = totals w kids + total w (g kid) := by
  induction kids generalizing i with
  | nil => simp at h
  | cons head tail ih =>
    cases i with
    | zero =>
      simp only [List.getElem?_cons_zero, Option.some.injEq] at h
      subst h
      simp only [List.modify_zero_cons, totals]
      omega
    | succ i =>
      have := ih (i := i) (by simpa using h)
      simp only [List.modify_succ_cons, totals]
      omega

/-- A change at an address changes the sum by as much as it changes the sum below the address. -/
theorem total_update (w : Job → Nat) (f : Live → Live) {live kid : Live} {a : Address}
    (h : live.at? a = some kid) :
    total w (live.update f a) + total w kid = total w live + total w (f kid) := by
  induction a generalizing live with
  | nil =>
    simp only [at?, Option.some.injEq] at h
    subst h
    simp only [update]
    omega
  | cons i a ih =>
    obtain ⟨job, kids⟩ := live
    simp only [at?] at h
    split at h
    · rename_i next hnext
      have hkids := totals_modify w (fun kid => update f kid a) hnext
      have hnext := ih h
      simp only [update, total]
      omega
    · simp at h

/-- A change of a node changes the sum by as much as it changes the node's share. -/
theorem total_modify (w : Job → Nat) (f : Job → Job) {live kid : Live} {a : Address}
    (h : live.at? a = some kid) :
    total w (live.modify f a) + w kid.job = total w live + w (f kid.job) := by
  have := total_update w (onJob f) h
  obtain ⟨job, kids⟩ := kid
  simp only [onJob, total] at this
  simp only [modify, Live.job]
  omega

/-- A change that makes no tree heavier by more than `d` makes the whole tree no heavier by more. -/
theorem total_update_le (w : Job → Nat) (f : Live → Live) (d : Nat)
    (hf : ∀ live, total w (f live) ≤ total w live + d) (live : Live) (a : Address) :
    total w (live.update f a) ≤ total w live + d := by
  cases h : live.at? a with
  | none => rw [update_of_at?_eq_none f h]; omega
  | some kid =>
    have := total_update w f h
    have := hf kid
    omega

/-- A change that adds at most `d` to the share of any node adds at most `d` to the sum. -/
theorem total_modify_le (w : Job → Nat) (f : Job → Job) (d : Nat)
    (hf : ∀ job, w (f job) ≤ w job + d) (live : Live) (a : Address) :
    total w (live.modify f a) ≤ total w live + d := by
  refine total_update_le w (onJob f) d (fun live => ?_) live a
  obtain ⟨job, kids⟩ := live
  have := hf job
  simp only [onJob, total]
  omega

/-! ## Heights -/

mutual

/-- A tree before its run has no load on a level above its height. -/
theorem total_load_ofNode {k : Nat} (path : String) : (node : Node) → node.height < k →
    total (fun job => job.load (k + 2)) (ofNode path node) = 0
  | .mk header work children => by
    intro h
    have hjob : (pendingJob path (.mk header work children)).load (k + 2) = 0 :=
      Job.load_of_height_lt h
    simp only [Node.height] at h
    have hkids := totals_load_ofNodes (k := k) path work 0 children (by omega)
    simp only [ofNode, total, hjob]
    split
    · rfl
    · omega

/-- Several trees before their run have no load on a level above their heights. -/
theorem totals_load_ofNodes {k : Nat} (path : String) (work : Work) (position : Nat) :
    (nodes : List Node) → Node.heights nodes < k →
    totals (fun job => job.load (k + 2)) (ofNodes path work position nodes) = 0
  | [] => fun _ => rfl
  | node :: nodes => by
    intro h
    simp only [Node.heights] at h
    have hnode := total_load_ofNode (k := k) (Path.child path (kidSegment work position)) node
      (by omega)
    have hnodes := totals_load_ofNodes (k := k) path work (position + 1) nodes (by omega)
    simp only [ofNodes, totals]
    omega

end

theorem totals_eq_zero {w : Job → Nat} {kids : List Live} (h : ∀ kid ∈ kids, total w kid = 0) :
    totals w kids = 0 := by
  induction kids with
  | nil => rfl
  | cons kid kids ih =>
    have hkid := h kid (by simp)
    have hkids := ih fun next hnext => h next (by simp [hnext])
    simp only [totals]
    omega

/-- The instances of a loop have no load on the level of the loop's height. -/
theorem totals_load_instances {k : Nat} (path : String) (node : Node) (count : Nat)
    (h : node.height ≤ k) :
    totals (fun job => job.load (k + 2)) (instances path node count) = 0 := by
  obtain ⟨header, work, children⟩ := node
  unfold instances
  split
  · rename_i body rest hbody
    simp only [Node.children] at hbody
    subst hbody
    refine totals_eq_zero fun kid hkid => ?_
    obtain ⟨i, _, rfl⟩ := List.mem_map.1 hkid
    simp only [Node.height, Node.heights] at h
    exact total_load_ofNode _ body (by omega)
  · rfl

mutual

/-- A tree has a load on finitely many levels. -/
theorem total_load_bounded : (live : Live) →
    ∃ n, Levels.Bounded n fun k => total (fun job => job.load k) live
  | mk job kids => by
    obtain ⟨n, hn⟩ := totals_load_bounded kids
    refine ⟨max n (job.node.height + 3), fun k hk => ?_⟩
    have hkids : totals (fun job => job.load k) kids = 0 := hn k (by omega)
    obtain ⟨j, rfl⟩ : ∃ j, k = j + 2 := ⟨k - 2, by omega⟩
    have hjob : job.load (j + 2) = 0 := Job.load_of_height_lt (by omega)
    simp only [total]
    omega

/-- Several trees have a load on finitely many levels. -/
theorem totals_load_bounded : (kids : List Live) →
    ∃ n, Levels.Bounded n fun k => totals (fun job => job.load k) kids
  | [] => ⟨0, fun _ _ => rfl⟩
  | kid :: kids => by
    obtain ⟨m, hm⟩ := total_load_bounded kid
    obtain ⟨n, hn⟩ := totals_load_bounded kids
    refine ⟨max m n, fun k hk => ?_⟩
    have hkid : total (fun job => job.load k) kid = 0 := hm k (by omega)
    have hkids : totals (fun job => job.load k) kids = 0 := hn k (by omega)
    simp only [totals]
    omega

end

end Live

/-! ## The load of a run -/

namespace State

/-- What is to be done at this instant. -/
def currentLoad (s : State) : Nat :=
  s.agenda.length + (if s.cancelled then 0 else 1) + 1

/-- How much a run has left to do. -/
def load (s : State) : Levels := fun k =>
  if s.fault.isSome then 0
  else s.root.total (fun job => job.load k) + (if k = 0 then s.currentLoad else 0)

/-- A run has a load on finitely many levels. -/
theorem load_bounded (s : State) : ∃ n, Levels.Bounded n s.load := by
  obtain ⟨n, hn⟩ := s.root.total_load_bounded
  refine ⟨n + 1, fun k hk => ?_⟩
  have := hn k (by omega)
  have hk : k ≠ 0 := by omega
  simp [load, hk, this]

/-- The load of runs cannot shrink forever. -/
instance : WellFoundedRelation State where
  rel s t := Levels.Below s.load t.load
  wf := ⟨fun s =>
    let ⟨n, hn⟩ := s.load_bounded
    InvImage.accessible load (Levels.acc_of_bounded n s.load hn)⟩

end State
end Workflow
