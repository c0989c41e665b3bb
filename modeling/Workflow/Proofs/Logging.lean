import Workflow.Log.Loggers
import Workflow.Proofs.Fields
import Workflow.Proofs.Json.LineEnds
import Workflow.Proofs.Json.RoundTrip

/-!
# JSON log lines

Once logging is configured to JSON objects, whatever was configured before, the output is one line for
each record whose logger is enabled for its level, in the order of the records. Nothing that a record
holds ends a line early, and each line is read back as an object that tells what the record tells.

* `LogRecord.Tells` says what the text of a record is read back as.
* `LogRecord.tells_of_line` says that the text of a record is read back so.
* `Loggers.handlers_configure` and `Loggers.numberFor_install` say what is left of an earlier
  configuration: no handler, and no number of a chatty library's logger.
* `Loggers.lines_of_configure` says what is written of all records.
-/

namespace Workflow

/-! ## The text of a record -/

namespace LogRecord

/-- The arguments of a record fit its message, and its further fields are finite values with names. -/
structure Writable (r : LogRecord) : Prop where
  /-- The arguments take the places of the placeholders. -/
  fills : (Percent.fill r.message r.args).isSome = true
  /-- All numbers in further fields are finite, and no object gives a name twice. -/
  kept : (Value.object r.extra).Kept

/-- A text is read back as what a record tells. -/
structure Tells (r : LogRecord) (text : String) (fields : Fields Value) : Prop where
  /-- No character ends the line early, and no other control character stands in it. -/
  printable : ∀ c ∈ text.toList, 32 ≤ c.toNat
  /-- The text is an object. -/
  object : Json.parse text = .ok (.object fields)
  /-- It gives the name of the level. -/
  level : Fields.get? fields "level" = some (.string r.level.name)
  /-- It gives the name of the logger. -/
  logger : Fields.get? fields "logger" = some (.string r.logger)
  /-- It gives the message with the arguments in place. -/
  message : ∃ message, Percent.fill r.message r.args = some message ∧
    Fields.get? fields "message" = some (.string message)
  /-- It gives the further fields whose names are not a record's own and do not start with an
  underscore, if there are any. -/
  extra : Fields.get? fields "extra" = if r.shownExtra = [] then none else some (.object r.shownExtra)
  /-- It gives the text of the exception, if there is one. -/
  exception : Fields.get? fields "exception" =
    r.exception.map fun exception => .string (exceptionText exception)

variable {r : LogRecord}

theorem kept_shownExtra (h : (Value.object r.extra).Kept) : (Value.object r.shownExtra).Kept := by
  rw [Value.kept_object_iff] at h ⊢
  refine ⟨(List.filter_sublist.map Prod.fst).nodup h.1, fun field hfield => ?_⟩
  exact h.2 field (List.mem_of_mem_filter hfield)

theorem kept_fields (h : r.Writable) (message : String) : (Value.object (r.fields message)).Kept := by
  have hstring (s : String) : (Value.string s).Kept := (Value.plain_string s).kept
  have hextra := kept_shownExtra h.kept
  rw [Value.kept_object_iff, fields]
  cases r.exception <;> by_cases hempty : r.shownExtra.isEmpty = true <;>
    simp [hempty, hstring, hextra, Fields.names]

theorem get?_fields_extra (r : LogRecord) (message : String) : Fields.get? (r.fields message) "extra" =
    if r.shownExtra = [] then none else some (.object r.shownExtra) := by
  cases hextra : r.shownExtra <;> cases hexception : r.exception <;>
    simp [fields, hextra, hexception, Fields.get?_cons]

theorem get?_fields_exception (r : LogRecord) (message : String) :
    Fields.get? (r.fields message) "exception" =
      r.exception.map fun exception => .string (exceptionText exception) := by
  cases hextra : r.shownExtra <;> cases hexception : r.exception <;>
    simp [fields, hextra, hexception, Fields.get?_cons]

/-- The text of a record as a JSON object is read back as what the record tells. -/
theorem tells_of_line (h : r.Writable) :
    ∃ text fields, r.line .json = some text ∧ r.Tells text fields := by
  obtain ⟨message, hmessage⟩ := Option.isSome_iff_exists.1 h.fills
  have hkept := kept_fields h message
  refine ⟨(Value.object (r.fields message)).toJson .line, r.fields message,
    by simp [line, hmessage], ?_⟩
  constructor
  · exact Json.printable_toJson (by decide) (by decide) rfl hkept
  · simpa using Json.parse_toJson_of_kept JsonStyle.readable_line hkept Json.spaces_nil
  · rfl
  · rfl
  · exact ⟨message, hmessage, rfl⟩
  · exact get?_fields_extra r message
  · exact get?_fields_exception r message

end LogRecord

/-! ## The output -/

namespace Loggers

/-- Whatever handlers the root had, it has one of the form that is named. -/
theorem handlers_configure (t : Loggers) (level form : String) :
    (t.configure level form).2.handlers = [.named form] := by
  unfold configure Logging.ofNames
  cases hlevel : LogLevel.ofName? (Unicode.upper level) <;> simp [hlevel, install]

/-- The loggers of chatty libraries have numbers of their own, whatever they had. -/
theorem numberFor_install (t : Loggers) (l : Logging) {name : String} (h : name ∈ Logging.chatty) :
    (t.install l).numberFor name = l.chattyNumber := by
  have hpos : l.chattyNumber ≠ 0 := by
    have : 20 ≤ l.chattyNumber := Nat.le_max_right _ _
    omega
  have hget : Fields.get? (t.install l).numbers name = some l.chattyNumber := by
    simp only [Logging.chatty, List.mem_cons, List.not_mem_nil, or_false] at h
    rw [install, Fields.get?_update]
    rcases h with rfl | rfl | rfl <;> rfl
  obtain ⟨number, hnumber⟩ := Nat.exists_eq_succ_of_ne_zero hpos
  rw [numberFor, hget, hnumber]

/-- One handler writes one line for each record. -/
theorem exists_lines (records : List LogRecord) (h : ∀ r ∈ records, r.Writable) :
    ∃ texts, (records.flatMap fun r =>
        [LogForm.json].filterMap fun form => (r.line form).map (· ++ "\n")) = texts.map (· ++ "\n") ∧
      List.Forall₂ (fun r text => ∃ fields, r.Tells text fields) records texts := by
  induction records with
  | nil => exact ⟨[], rfl, .nil⟩
  | cons r records ih =>
    obtain ⟨hr, hmore⟩ := List.forall_mem_cons.1 h
    obtain ⟨texts, hwritten, htells⟩ := ih hmore
    obtain ⟨text, fields, hline, htext⟩ := LogRecord.tells_of_line hr
    refine ⟨text :: texts, ?_, .cons ⟨fields, htext⟩ htells⟩
    rw [List.flatMap_cons, hwritten]
    simp [hline]

/-- What is written of records once logging is configured to JSON objects: a line for each record whose
logger is enabled for its level, in their order. -/
theorem lines_of_configure (t : Loggers) (level : String) (records : List LogRecord)
    (h : ∀ r ∈ records, (t.configure level "json").2.enabled r = true → r.Writable) :
    ∃ texts, (t.configure level "json").2.write records = texts.map (· ++ "\n") ∧
      List.Forall₂ (fun r text => ∃ fields, r.Tells text fields)
        (records.filter (t.configure level "json").2.enabled) texts := by
  rw [write, handlers_configure, show LogForm.named "json" = .json from rfl]
  apply exists_lines
  intro r hr
  obtain ⟨hmem, henabled⟩ := List.mem_filter.1 hr
  exact h r hmem henabled

theorem lines_of_configure_twice :
    let t : Loggers := ({ handlers := [.text, .json] } : Loggers).install ⟨.debug, .json⟩
    let records : List LogRecord :=
      [{ logger := "httpx.client", level := .debug, message := "quiet" },
        { logger := "engine", level := .info, message := "Node %s\nfailed", args := [.string "$.input"],
          extra := [("seconds", .float (.ofDecimal false 5 (-1))), ("_hidden", .null)],
          exception := some ("ValueError", "bad\x0bvalue") }]
    (∀ r ∈ records, (t.configure "info" "json").2.enabled r = true → r.Writable) ∧
      ∃ texts, (t.configure "info" "json").2.write records = texts.map (· ++ "\n") ∧
        List.Forall₂ (fun r text => ∃ fields, r.Tells text fields)
          (records.filter (t.configure "info" "json").2.enabled) texts := by
  intro t records
  have h : ∀ r ∈ records, (t.configure "info" "json").2.enabled r = true → r.Writable := by
    intro r hr henabled
    simp only [records, List.mem_cons, List.not_mem_nil, or_false] at hr
    rcases hr with rfl | rfl
    · exact absurd henabled (by decide +kernel)
    · refine ⟨by decide +kernel, Value.kept_iff.2 ⟨?_, ?_⟩⟩
      · simp [Value.Finite, Value.walk, Value.walkFields, Value.float]
        decide +kernel
      · simp [Value.Distinct, Value.walk, Value.walkFields, Value.float, Fields.names]
  exact ⟨h, lines_of_configure t "info" records h⟩

end Loggers
end Workflow
