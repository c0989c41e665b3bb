import Workflow.Proofs.Annotation
import Workflow.Proofs.Result.Document
import Workflow.Proofs.Run.Instants
import Workflow.Proofs.Run.Values

/-!
# Results that are saved

What a run leaves behind can be written to a file and read back: the file holds the same result, with all
entries, all that lies below them in order, and all events. So a run that resumes from the file is the
run that resumes from the result itself.

* `RunResult.SavedAs` says which texts a result is saved as, and `RunResult.Preserved` that nothing is
  lost in them.
* `Setup.preserved_of_execute` says that nothing is lost of what a run leaves behind, however it ended.

Numbers with a point are left out: a result is considered if there are none in its outputs, inputs and
details of errors. The clock has to show dates that can be written, from the year 1 to the year 9999.
-/

namespace Workflow

/-- The text is one that the result is saved as. -/
inductive RunResult.SavedAs (result : RunResult) : String → Prop
  /-- On one line. -/
  | packed : SavedAs result (result.toValue.toJson .packed)
  /-- As it is printed. -/
  | printed : SavedAs result (result.toValue.toJson .document ++ "\n")

/-- Nothing of the result is lost when it is saved. -/
structure RunResult.Preserved (result : RunResult) : Prop where
  /-- What is read is the result. -/
  read : ∀ text, result.SavedAs text → Document.checkText RunResult.check text = .ok result
  /-- A command finds the tree of the result in the file. -/
  found : ∀ (files : CommandLine.Files) (o : CommandLine.RunOptions) (path text : String),
    o.resume = some path → files.read path = .ok text → result.SavedAs text →
    o.previous files = .ok (some result.tree)
  /-- What it does then is to run the flow on this tree. -/
  resumed : ∀ (w : CommandLine.World) (r : Runner) (o : CommandLine.RunOptions) (flow : Flow)
    (ids : IdSource) (path text : String) (supplied : Fields Value), o.resume = some path →
    w.files.read path = .ok text → result.SavedAs text → o.supplied w.files = .ok (.ok supplied) →
    CommandLine.runFlow w r o flow ids =
      CommandLine.runWith w r o flow ids supplied (some result.tree)

namespace RunResult

variable {result : RunResult} {text : String}

/-! ## Texts of results -/

theorem SavedAs.parse (h : result.SavedAs text) (hplain : ∀ v ∈ result.tree.values, v.Plain) :
    Json.parse text = .ok result.toValue := by
  have hplain := plain_toValue hplain
  cases h with
  | packed => simpa using Json.parse_toJson JsonStyle.readable_packed hplain Json.spaces_nil
  | printed =>
    have hspace : Json.Spaces ['\n'] := by simp [Json.Spaces, Json.isSpace]
    exact Json.parse_toJson JsonStyle.readable_document hplain hspace

theorem SavedAs.return_not_mem (h : result.SavedAs text)
    (hplain : ∀ v ∈ result.tree.values, v.Plain) : '\r' ∉ text.toList := by
  have hplain := plain_toValue hplain
  cases h with
  | packed => exact Json.return_not_mem_toJson (by decide) (by decide) hplain
  | printed =>
    have hvalue : '\r' ∉ (result.toValue.toJson .document).toList :=
      Json.return_not_mem_toJson (by decide) (by decide) hplain
    simp [hvalue]

/-- Nothing is lost of a result with plain values and with points in time that have a date. -/
theorem preserved_of_plain (hplain : ∀ v ∈ result.tree.values, v.Plain) (hdated : result.Dated) :
    result.Preserved := by
  have hread (text : String) (h : result.SavedAs text) :
      Document.checkText check text = .ok result := by
    rw [Document.checkText, h.parse hplain]
    exact check_toValue hdated
  have hfound (files : CommandLine.Files) (o : CommandLine.RunOptions) (path text : String)
      (hresume : o.resume = some path) (hfile : files.read path = .ok text)
      (h : result.SavedAs text) : o.previous files = .ok (some result.tree) := by
    have htext := CommandLine.Files.text_of_not_mem hfile (h.return_not_mem hplain)
    simp only [CommandLine.RunOptions.previous, hresume, htext, bind, Except.bind, hread text h]
    rfl
  refine ⟨hread, hfound, fun w r o flow ids path text supplied hresume hfile h hsupplied => ?_⟩
  have hprevious := hfound w.files o path text hresume hfile h
  simp only [CommandLine.runFlow, hsupplied, hprevious, bind, Except.bind, pure, Except.pure]

end RunResult

/-! ## Results of runs -/

/-- If the clock only shows dates that can be written, so do the results. -/
theorem State.Within.dated {first : Int} {s : State} (h : s.Within first)
    (hfirst : Instant.InCalendar first) (hnow : Instant.InCalendar s.now) : s.result.Dated where
  tree := by
    intro node hnode
    obtain ⟨a, ⟨job, kids⟩, ha, rfl⟩ := Live.mem_walk_toResult s.root node hnode
    obtain ⟨hstarted, hfinished⟩ := h.node a job (jobAt_of_at? ha)
    rw [Live.entry_toResult]
    exact ⟨fun time htime => hfirst.between hnow (hstarted time htime),
      fun time htime => hfirst.between hnow (hfinished time htime)⟩
  trace := fun x hx => hfirst.between hnow (h.trace x hx)

/-- What a run leaves behind is preserved when it is saved, whether it succeeded, failed or was
cancelled. -/
theorem Setup.preserved_of_execute {setup : Setup} {tree : Node} {separator : String}
    {ids rest : IdSource} {s : State} {result : RunResult} (htree : tree.Sound)
    (hdeclared : tree.Distinct) (hgiven : setup.Distinct)
    (h : setup.execute tree separator ids = .ok (s, rest)) (hresult : s.outcome = .finished result)
    (hstart : Instant.InCalendar setup.startAt) (hnow : Instant.InCalendar s.now)
    (hwhole : ∀ v ∈ result.tree.values, v.Whole) : result.Preserved := by
  obtain ⟨prepared, hprepare, hfinal⟩ := execute_final htree h
  obtain ⟨rfl, _⟩ := hfinal.root_ended hresult
  have hdistinct : ∀ v ∈ s.result.tree.values, v.Distinct :=
    (hfinal.distinct hgiven (hdeclared.prepare hprepare)).results
  exact RunResult.preserved_of_plain (fun v hv => ⟨hwhole v hv, hdistinct v hv⟩)
    (hfinal.within.dated hstart hnow)

/-- A sequence whose second step asks for a variable that there is none of. -/
def brokenSequence : Node :=
  .mk {} .sequence [.mk { inputs := [("text", .literal (.object [("items", .array [.int 1, .null])]))] }
    (.step "first" none) [], .mk { inputs := [("name", .variable "missing")] } (.step "second" none) []]

/-- The result of a sequence that has failed, with outputs, inputs and the details of an error, is
preserved. -/
theorem Setup.preserved_of_execute_sequence : ∃ s rest,
    ({ executor := Echo.executor } : Setup).execute brokenSequence " > " .counting = .ok (s, rest) ∧
    s.outcome = .finished s.result ∧ s.result.status = .failed ∧ s.result.Preserved := by
  have hsound : brokenSequence.Sound := by
    simp [brokenSequence, Node.Sound, Node.walk, Node.walkList, Node.Fits, Node.work, Node.children,
      Work.limit]
  have hdeclared : brokenSequence.Distinct := by
    have hvalue : (Value.object [("items", .array [.int 1, .null])]).Distinct :=
      Value.Plain.distinct (by simp [Fields.names])
    have hliteral : (Binding.literal (.object [("items", .array [.int 1, .null])])).Distinct := by
      rintro _ ⟨⟩
      exact hvalue
    have hvariable : (Binding.variable "missing").Distinct := by
      rintro _ ⟨⟩
    have hnone {work : Work} (h : work.binding? = none) : ∀ b ∈ work.binding?, b.Distinct := by
      rw [h]
      rintro _ ⟨⟩
    simp only [brokenSequence, Node.Distinct, Node.walk, Node.walkList, List.append_nil,
      List.cons_append, List.nil_append, List.forall_mem_cons]
    exact ⟨⟨List.nodup_nil, List.forall_mem_nil _, hnone rfl⟩,
      ⟨List.nodup_singleton _, List.forall_mem_singleton.2 hliteral, hnone rfl⟩,
      ⟨List.nodup_singleton _, List.forall_mem_singleton.2 hvariable, hnone rfl⟩,
      List.forall_mem_nil _⟩
  have hgiven : Setup.Distinct { executor := Echo.executor } :=
    ⟨List.forall_mem_nil _, by rintro _ ⟨⟩, Echo.distinct_call⟩
  have hrun : ∃ s rest, ({ executor := Echo.executor } : Setup).execute brokenSequence " > "
      .counting = .ok (s, rest) ∧ s.root.status.isTerminal ∧ s.now = 0 ∧
      s.result.status = .failed ∧ ∀ v ∈ s.result.tree.values, v.Whole := by
    refine ⟨_, _, rfl, ?_⟩
    rw [run_eq 20 (Option.isNone_iff_eq_none.1 (by decide +kernel))]
    decide +kernel
  obtain ⟨s, rest, h, hended, hnow, hstatus, hwhole⟩ := hrun
  obtain ⟨_, _, hfinal⟩ := execute_final hsound h
  have hfinished := hfinal.outcome_of_ended hended
  have hdate : Instant.InCalendar 0 := by decide
  exact ⟨s, rest, h, hfinished, hstatus, preserved_of_execute hsound hdeclared hgiven h hfinished hdate
    (hnow ▸ hdate) hwhole⟩

end Workflow
