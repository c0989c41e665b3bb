import Workflow.Proofs.ExitCodes
import Workflow.Proofs.Json.LineEnds
import Workflow.Proofs.Json.RoundTrip

/-!
# Annotated documents

What is printed when a flow is annotated is a document of the same flow, in which every node has an
identifier and a label. To annotate that document prints it once more and draws no identifier.

* `Flow.Annotates` compares an annotated flow with the one that was given.
* `CommandLine.Stable` says of a text that it is such a document.
* `CommandLine.Command.annotate_stable` says that the text that is printed is stable.

How numbers with a point are read back is not followed up here: the document holds none of them, and no
step has a timeout, which is such a number.
-/

namespace Workflow

open Document

/-! ## Annotated flows -/

/-- The flow is the given one but for identifiers that were missing and labels, which are complete. -/
structure Flow.Annotates (annotated : Flow) (separator : String) (flow : Flow) : Prop where
  /-- Code, name, variables and agents are the given ones. -/
  kept : annotated = { flow with tree := annotated.tree }
  /-- So are the nodes, but for labels and missing identifiers. -/
  related : Node.Related Header.Marked flow.tree annotated.tree
  /-- Every node has an identifier of its own, and its label is the one that is derived. -/
  complete : annotated.tree.Annotated separator

namespace Runner

variable {r : Runner} {flow prepared : Flow} {ids rest : IdSource}

theorem annotates_of_prepare (hids : Function.Injective ids.draw)
    (h : r.prepare flow none ids = .ok (prepared, rest)) :
    prepared.Annotates r.settings.execution.separator flow := by
  obtain ⟨hkept, hrelated⟩ := kept_of_prepare h
  obtain ⟨tree, htree, rfl⟩ := prepare_eq_ok_iff.1 h
  exact ⟨hkept, hrelated, Node.annotated_of_prepare hids htree⟩

end Runner

namespace Flow.Annotates

variable {annotated flow : Flow} {separator : String}

theorem documented (h : annotated.Annotates separator flow) (hflow : flow.Documented) :
    annotated.Documented := by
  refine ⟨h.related.documented hflow.tree, ?_⟩
  rw [h.kept]
  exact hflow.vars

theorem plain (h : annotated.Annotates separator flow) (hflow : flow.Plain) : annotated.Plain := by
  refine ⟨h.related.plain hflow.tree, ?_, ?_⟩
  · rw [h.kept]
    exact hflow.vars
  · rw [h.kept]
    exact hflow.agents

end Flow.Annotates

/-! ## Printed documents -/

namespace CommandLine

/-- The text that is printed of a flow. -/
def printed (flow : Flow) : String :=
  flow.toValue.toJson .document ++ "\n"

theorem checkText_printed {flow : Flow} (hdocumented : flow.Documented) (hplain : flow.Plain) :
    Document.checkText Flow.check (printed flow) = .ok flow := by
  have hspace : Json.Spaces ['\n'] := by simp [Json.Spaces, Json.isSpace]
  have hparse : Json.parse (printed flow) = .ok flow.toValue :=
    Json.parse_toJson JsonStyle.readable_document (Flow.plain_toValue hdocumented hplain) hspace
  rw [Document.checkText, hparse]
  exact Flow.check_toValue hdocumented

/-- A text without carriage returns is read from a file as it is. -/
theorem Files.text_of_not_mem {files : Files} {path text : String} (h : files.read path = .ok text)
    (hreturn : '\r' ∉ text.toList) : files.text path = .ok text := by
  rw [Files.text, h]
  simp only [EnvFile.unifyLineEnds_of_not_mem hreturn, String.ofList_toList]

theorem return_not_mem_printed {flow : Flow} (hdocumented : flow.Documented)
    (hplain : flow.Plain) : '\r' ∉ (printed flow).toList := by
  have hvalue : '\r' ∉ (flow.toValue.toJson .document).toList :=
    Json.return_not_mem_toJson (by decide) (by decide) (Flow.plain_toValue hdocumented hplain)
  simp [printed, hvalue]

/-- The text is a document of the flow, annotated, and to annotate it prints it once more. -/
structure Stable (separator : String) (flow : Flow) (text : String) : Prop where
  /-- The text is accepted, and it holds the annotated flow. -/
  accepted : ∃ annotated, Document.checkText Flow.check text = .ok annotated ∧
    annotated.Annotates separator flow
  /-- Wherever a file holds the text and labels are joined in the same way, it is printed again, and no
  identifier is drawn. -/
  again : ∀ (w : World) (path : String) (ids : IdSource) (settings : Settings) (r : Runner),
    w.settings = .ok settings → Runner.of settings none = .ok r →
    settings.execution.separator = separator → w.files.read path = .ok text →
    ∃ out, Command.execute ⟨path, .annotate none⟩ w ids = .ok out ∧ out.exit = 0 ∧
      out.stdout = text ∧ out.ids = ids

/-- The file holds the JSON text of a value. -/
def World.Holds (w : World) (path : String) (v : Value) : Prop :=
  ∃ text, w.files.text path = .ok text ∧ Json.parse text = .ok v

variable {w : World} {r : Runner} {flow : Flow} {ids : IdSource} {path : String} {v : Value}

/-- What a command reads is in the value that the file holds. -/
theorem Command.Reads.check {action : Action} (h : Command.Reads ⟨path, action⟩ w r flow)
    (hv : w.Holds path v) : Flow.check v = .ok flow := by
  obtain ⟨text, htext, hcheck⟩ := h.flow
  obtain ⟨text', htext', hparse⟩ := hv
  rw [htext] at htext'
  cases htext'
  obtain ⟨v', hparse', hcheck⟩ := Document.check_of_checkText hcheck
  rw [hparse] at hparse'
  cases hparse'
  exact hcheck

/-- Where the annotated flow goes does not matter to what is read. -/
theorem Command.Reads.of_annotate {output other : Option String}
    (h : Command.Reads ⟨path, .annotate output⟩ w r flow) :
    Command.Reads ⟨path, .annotate other⟩ w r flow :=
  ⟨h.runner, h.flow⟩

theorem Command.execute_annotate {output : Option String} {prepared : Flow} {rest : IdSource}
    (h : Command.Reads ⟨path, .annotate output⟩ w r flow)
    (hprepare : r.prepare flow none ids = .ok (prepared, rest)) :
    ∃ lines, Command.execute ⟨path, .annotate output⟩ w ids =
      .ok { annotateFlow w r output prepared rest with stderr := lines } := by
  obtain ⟨lines, hexecute⟩ := Command.execute_of_reads h ids
  have haction : Action.execute w r flow ids (.annotate output) =
      annotateFlow w r output prepared rest := by
    rw [Action.execute, withPrepared, hprepare]
  rw [haction] at hexecute
  exact ⟨_, hexecute⟩

/-- A flow that is annotated already is printed as it is. -/
theorem stable_printed {prepared : Flow} {separator : String}
    (hannotates : prepared.Annotates separator flow) (hdocumented : flow.Documented)
    (hplain : flow.Plain) : Stable separator flow (printed prepared) := by
  have hdocumented := hannotates.documented hdocumented
  have hplain := hannotates.plain hplain
  have hcheck := checkText_printed hdocumented hplain
  have hreturn := return_not_mem_printed hdocumented hplain
  refine ⟨⟨prepared, hcheck, hannotates⟩, ?_⟩
  rintro w path ids settings r hsettings hrunner rfl hfile
  have hreads : Command.Reads ⟨path, .annotate none⟩ w r prepared :=
    ⟨⟨settings, hsettings, hrunner⟩, _, Files.text_of_not_mem hfile hreturn, hcheck⟩
  have hprepare : r.prepare prepared none ids = .ok (prepared, ids) := by
    refine Runner.prepare_eq_ok_iff.2 ⟨prepared.tree, ?_, rfl⟩
    rw [(Runner.of_eq_ok hrunner).1]
    exact hannotates.complete.prepare none ids
  obtain ⟨lines, hexecute⟩ := Command.execute_annotate hreads hprepare
  exact ⟨_, hexecute, rfl, rfl, rfl⟩

/-- The text that is printed when a flow is annotated is a document of the flow that stays as it is, and
it is also what is written to a file. -/
theorem Command.annotate_stable (hids : Function.Injective ids.draw)
    (hreads : Command.Reads ⟨path, .annotate none⟩ w r flow) (hholds : w.Holds path v)
    (hwhole : v.Whole) (huntimed : flow.tree.Untimed) (hdistinct : flow.tree.ids.Nodup) :
    ∃ out, Command.execute ⟨path, .annotate none⟩ w ids = .ok out ∧ out.exit = 0 ∧
      Stable r.settings.execution.separator flow out.stdout ∧
      ∀ output, w.files.writeFault output = none → ∃ out',
        Command.execute ⟨path, .annotate (some output)⟩ w ids = .ok out' ∧ out'.exit = 0 ∧
          out'.file = some (output, out.stdout) := by
  have hcheck := hreads.check hholds
  obtain ⟨text, _, hparse⟩ := hholds
  have hplain := Flow.plain_of_check ⟨hwhole, Json.distinct_of_parse hparse⟩ huntimed hcheck
  obtain ⟨tree, rest, htree⟩ :=
    Node.exists_prepare hdistinct r.settings.execution.separator none ids
  have hprepare : r.prepare flow none ids = .ok ({ flow with tree }, rest) :=
    Runner.prepare_eq_ok_iff.2 ⟨tree, htree, rfl⟩
  obtain ⟨lines, hexecute⟩ := Command.execute_annotate hreads hprepare
  refine ⟨_, hexecute, rfl, stable_printed (Runner.annotates_of_prepare hids hprepare)
    (Flow.documented_of_check hcheck) hplain, fun output hwritable => ?_⟩
  obtain ⟨lines', hexecute'⟩ := Command.execute_annotate hreads.of_annotate hprepare
  exact ⟨_, hexecute', by simp [annotateFlow, hwritable]⟩

/-- A document of a branch with a default; one of its steps has an identifier, and a field is carried
along. -/
def branchDocument : Value :=
  .object [("code", .string "c"), ("flow", .object [("kind", .string "branch"),
    ("note", .array [.int 1, .null]),
    ("condition", .object [("kind", .string "var"), ("name", .string "v")]),
    ("children", .array [.object [("when", .int 1),
      ("node", .object [("kind", .string "step"), ("agent", .string "a")])]]),
    ("default", .object [("kind", .string "step"), ("id", .string "d"), ("agent", .string "b")])])]

/-- The document of a branch is annotated, and the text is stable. -/
theorem Command.annotate_stable_branch : ∃ (w : World) (flow : Flow) (out : Output),
    w = { files := .single "flow.json" (branchDocument.toJson .line) } ∧
    flow.tree = .mk { extra := [("note", .array [.int 1, .null])] }
      (.branch (.variable "v") [.int 1])
      [.mk {} (.step "a" none) [], .mk { id := some "d" } (.step "b" none) []] ∧
    Command.execute ⟨"flow.json", .annotate none⟩ w .counting = .ok out ∧ out.exit = 0 ∧
    Stable defaultSeparator flow out.stdout := by
  have hplain : branchDocument.Plain := by simp [branchDocument, Fields.names]
  have hparse : Json.parse (branchDocument.toJson .line) = .ok branchDocument := by
    simpa using Json.parse_toJson JsonStyle.readable_line hplain Json.spaces_nil
  have htext : Files.text (.single "flow.json" (branchDocument.toJson .line)) "flow.json" =
      .ok (branchDocument.toJson .line) :=
    Files.text_of_not_mem rfl (Json.return_not_mem_toJson (by decide) (by decide) hplain)
  obtain ⟨flow, hflow, htree⟩ : ∃ flow, Flow.check branchDocument = .ok flow ∧ flow.tree =
      .mk { extra := [("note", .array [.int 1, .null])] } (.branch (.variable "v") [.int 1])
        [.mk {} (.step "a" none) [], .mk { id := some "d" } (.step "b" none) []] :=
    ⟨_, rfl, rfl⟩
  have hcheck : Document.checkText Flow.check (branchDocument.toJson .line) = .ok flow := by
    rw [Document.checkText, hparse]
    exact hflow
  obtain ⟨settings, r, hsettings, hrunner, hseparator⟩ : ∃ settings r,
      World.settings { files := .single "flow.json" (branchDocument.toJson .line) } = .ok settings ∧
      Runner.of settings none = .ok r ∧ r.settings.execution.separator = defaultSeparator :=
    ⟨_, _, rfl, rfl, rfl⟩
  have huntimed : flow.tree.Untimed := by
    rw [htree]
    simp [Node.Untimed, Node.walk, Node.walkList, Node.work, Work.Untimed]
  have hdistinct : flow.tree.ids.Nodup := by
    rw [htree]
    decide
  have hids : Function.Injective IdSource.counting.draw := IdSource.draw_countingFrom_injective 1
  obtain ⟨out, hexecute, hexit, hstable, _⟩ := Command.annotate_stable hids
    ⟨⟨settings, hsettings, hrunner⟩, _, htext, hcheck⟩ ⟨_, htext, hparse⟩ hplain.whole huntimed
    hdistinct
  rw [hseparator] at hstable
  exact ⟨_, flow, out, rfl, htree, hexecute, hexit, hstable⟩

end CommandLine
end Workflow
