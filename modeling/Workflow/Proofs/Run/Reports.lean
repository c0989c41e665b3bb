import Workflow.Proofs.Run.Control.Run

/-!
# Nodes that have ended report at once

A node that has come to its end reports it before anything else is done but for calls that go on: its
report is the first task of the agenda, and there is no other.

* `State.tasks` is what is to be done but for calls that go on.
* `State.Prompt` says that reports are first, and `State.Reached.prompt` that they are so in every
  state of a run.
-/

namespace Workflow.State

variable {setup : Setup} {tree : Node} {s t : State} {hand after : Option Address} {doing : Doing}
  {a b : Address}

/-- What is to be done, in order, but for calls that go on. -/
def tasks (s : State) : List Task :=
  s.agenda.filter fun task => !task.isProceed

theorem tasks_congr (h : t.agenda = s.agenda) : t.tasks = s.tasks := by
  rw [tasks, h, tasks]

theorem report_mem_tasks : .report b ∈ s.tasks ↔ .report b ∈ s.agenda := by
  simp [tasks, Task.isProceed]

/-- A report is the first task, and no node is in hand. -/
def Prompt (s : State) (hand : Option Address) : Prop :=
  ∀ b, .report b ∈ s.agenda → hand = none ∧ s.tasks.head? = some (.report b)

namespace Prompt

/-- No node reports while one is in hand. -/
theorem not_mem (h : Prompt s (some a)) (b : Address) : .report b ∉ s.agenda := fun hmem => by
  cases (h b hmem).1

theorem of_not_mem (h : ∀ b, .report b ∉ t.agenda) : Prompt t hand :=
  fun b hmem => absurd hmem (h b)

/-- What is added to the agenda while a node is in hand are no reports. -/
theorem of_mem (h : Prompt s (some a)) {tasks : List Task} (htasks : ∀ b, .report b ∉ tasks)
    (ht : ∀ b, .report b ∈ t.agenda → .report b ∈ s.agenda ∨ .report b ∈ tasks) : Prompt t hand :=
  of_not_mem fun b hmem => (ht b hmem).elim (h.not_mem b) (htasks b)

theorem next {task : Task} (h : Prompt s (some a)) (htask : ∀ b, .report b ≠ task) :
    Prompt (s.next task) hand :=
  h.of_mem (fun b hmem => htask b (List.mem_singleton.1 hmem)) fun _ hmem =>
    (List.mem_cons.1 hmem).symm.imp_right List.mem_singleton.2

/-- Whatever else is taken from the agenda, no node is to report. -/
theorem not_mem_of_cons {task : Task} {rest : List Task} (h : Prompt s none)
    (hagenda : s.agenda = task :: rest) (hproceed : task.isProceed = false)
    (htask : ∀ b, task ≠ .report b) (b : Address) : .report b ∉ rest := by
  intro hmem
  have hhead := (h b (by rw [hagenda]; exact List.mem_cons_of_mem _ hmem)).2
  rw [tasks, hagenda, List.filter_cons_of_pos (by rw [hproceed]; rfl), List.head?_cons,
    Option.some.injEq] at hhead
  exact htask b hhead

/-- When a report is taken from the agenda, no other node is to report. -/
theorem not_mem_of_report {rest : List Task} (h : Prompt s none) (hcontrol : Control setup s none)
    (hagenda : s.agenda = .report a :: rest) (b : Address) : .report b ∉ rest := by
  intro hmem
  have hhead := (h b (by rw [hagenda]; exact List.mem_cons_of_mem _ hmem)).2
  have hsingle := hcontrol.single
  have htasks : s.tasks = .report a :: rest.filter fun task => !task.isProceed := by
    rw [tasks, hagenda, List.filter_cons_of_pos (by rfl)]
  rw [htasks, List.head?_cons, Option.some.injEq] at hhead
  change s.tasks.Nodup at hsingle
  rw [htasks, hhead] at hsingle
  exact (List.nodup_cons.1 hsingle).1 (List.mem_filter.2 ⟨hmem, rfl⟩)

theorem of_tasks (h : Prompt s hand) (ht : t.tasks = s.tasks) : Prompt t hand := by
  intro b hmem
  rw [← report_mem_tasks, ht, report_mem_tasks] at hmem
  rw [ht]
  exact h b hmem

/-- What is put behind everything else does not come first. -/
theorem of_append {task : Task} (h : Prompt s hand) (htask : ∀ b, task ≠ .report b)
    (ht : t.tasks = s.tasks ++ [task]) : Prompt t hand := by
  intro b hmem
  rw [← report_mem_tasks, ht, List.mem_append, List.mem_singleton] at hmem
  have hmem := hmem.resolve_right (htask b).symm
  obtain ⟨hhand, hhead⟩ := h b (report_mem_tasks.1 hmem)
  rw [ht, List.head?_append, hhead]
  exact ⟨hhand, rfl⟩

theorem tell (h : Prompt s hand) (a : Address) : Prompt (s.tell a) hand := by
  cases hcall : s.callAt a with
  | none => rwa [tell_of_callAt_eq_none s a hcall]
  | some call =>
    have hagenda := agenda_tell s a hcall
    split at hagenda
    · exact h.of_tasks (tasks_congr hagenda)
    · have hwake : ∀ b, Task.wake a ≠ .report b := nofun
      refine h.of_append hwake ?_
      rw [tasks, hagenda, List.filter_append, tasks]
      rfl

theorem start (setup : Setup) (tree : Node) : Prompt (start setup tree) none := by
  intro b hmem
  rw [State.start, List.mem_singleton] at hmem
  cases hmem

theorem change (h : Prompt s hand) (hcontrol : Control setup s hand)
    (hchange : Change setup doing s hand t after) : Prompt t after := by
  cases hchange with
  | takeEnter hagenda => exact .of_not_mem (h.not_mem_of_cons hagenda rfl nofun)
  | begin | leave | succeed | fail | stop => exact h.of_tasks (tasks_congr (agenda_move ..))
  | @release a =>
    intro b hmem
    unfold State.reported at hmem ⊢
    split at hmem
    · exact absurd hmem (h.not_mem b)
    · rename_i ha
      rw [if_neg ha]
      rcases List.mem_cons.1 hmem with hb | hmem
      · cases hb
        exact ⟨rfl, rfl⟩
      · exact absurd hmem (h.not_mem b)
  | callOut | fill | gather => exact h.of_mem (by simp) fun _ => List.mem_append.1
  | enterNext | enterChosen => exact h.next nofun
  | takeReport hagenda => exact .of_not_mem (h.not_mem_of_report hcontrol hagenda)
  | @count a i job frame kid rest hagenda =>
    refine .of_not_mem fun b hmem => ?_
    rw [mem_agenda_counted] at hmem
    rcases hmem with hmem | ⟨_, hmem⟩
    · exact h.not_mem_of_report hcontrol hagenda b hmem
    · cases hmem
  | takeJoin hagenda => exact .of_not_mem (h.not_mem_of_cons hagenda rfl nofun)
  | takeWake hagenda => exact .of_not_mem (h.not_mem_of_cons hagenda rfl nofun)
  | @dropProceed a rest hagenda =>
    refine h.of_tasks ?_
    rw [tasks, tasks, hagenda, List.filter_cons_of_neg (by simp [Task.isProceed])]
  | goOn acts wakeAt agenda _ _ hfilter => exact h.of_tasks hfilter
  | @answer a call outcome wakeAt deadline agenda _ _ _ hagenda =>
    refine Prompt.tell (h.of_tasks ?_) a
    change agenda.filter _ = s.agenda.filter _
    rcases hagenda with rfl | heq
    · rfl
    · rw [heq, List.filter_cons_of_neg (by simp [Task.isProceed])]
  | tell => exact h.tell _
  | cancelRun =>
    exact cancelRun_induction (P := fun u => Prompt u none) s h h fun _ b hu => hu.tell b
  | _ => exact h

end Prompt

/-- Nodes that have ended report at once. -/
theorem Reached.prompt (h : Reached setup tree s hand) (htree : tree.Sound) : Prompt s hand := by
  induction h with
  | start => exact .start setup tree
  | change hr hchange ih => exact ih.change (hr.control htree) hchange

end Workflow.State
