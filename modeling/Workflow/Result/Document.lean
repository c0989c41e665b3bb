import Workflow.Document.Check
import Workflow.Result.Basic
import Workflow.Text.Instant

/-!
# Results as documents

Reading and writing of results and runs. Fields that are not known are passed over; five fields of
an entry are required, everything else has a default.
-/

namespace Workflow

open Document

/-! ## Points in time -/

/-- The document of a point in time that may be absent. -/
def instantValue : Option Int → Value
  | some time => .string (Instant.text time "Z")
  | none => .null

/-- A point in time: a text, or a number of seconds, or of milliseconds if it is large. -/
def checkInstant : Check Int
  | .string s => match Instant.parse? s with
    | some time => .ok time
    | none =>
      .fail (.instantText (if s.length < 10 then "input is too short" else "invalid datetime"))
  | .number n =>
    match n.fraction? with
    | some f =>
      let seconds := if f.num.natAbs ≤ 20000000000 * f.den then 1000000 else 1000
      .ok (f.num * seconds / f.den)
    | none => .fail .instant
  | _ => .fail .instant

/-! ## Failures -/

namespace Failure

/-- The document of a failure. -/
def toValue (f : Failure) : Value :=
  .object [("kind", .string f.kind.name), ("message", .string f.message),
    ("details", .object f.details)]

/-- The check of the kind of a failure. -/
def checkKind : Check FailureKind :=
  oneOf FailureKind.ofName? (.enumeration (FailureKind.all.map FailureKind.name))

/-- The check of a failure. -/
def check : Check Failure :=
  recordOf fun fields =>
    (Checked.pure fun kind message details => { kind, message, details : Failure })
      |>.and (required fields "kind" checkKind)
      |>.and (required fields "message" text)
      |>.and (optional fields "details" [] (fieldsOf any))

end Failure

/-- The check of a status. -/
def Status.check : Check Status :=
  oneOf Status.ofName? (.enumeration (Status.all.map Status.name))

/-! ## Trees -/

/-- The fields of an entry. -/
def Entry.toFields (e : Entry) : Fields Value :=
  [("path", .string e.path), ("node_id", .ofString? e.id), ("kind", .string e.kind),
   ("label", .ofString? e.label), ("status", .string e.status.name), ("output", e.output),
   ("error", (e.error.map Failure.toValue).getD .null), ("inputs", .object e.inputs),
   ("started_at", instantValue e.progress.started),
   ("finished_at", instantValue e.progress.finished)]

/-- The check of an entry. -/
def Entry.check (fields : Fields Value) : Checked Entry :=
  (Checked.pure fun path id kind label status output error inputs started finished =>
      { path, id, kind, label, progress := { status, started, finished }, output, error,
        inputs : Entry })
    |>.and (required fields "path" text)
    |>.and (required fields "node_id" (nullable text))
    |>.and (required fields "kind" text)
    |>.and (required fields "label" (nullable text))
    |>.and (required fields "status" Status.check)
    |>.and (optional fields "output" .null any)
    |>.and (optional fields "error" none (nullable Failure.check))
    |>.and (optional fields "inputs" [] (fieldsOf any))
    |>.and (optional fields "started_at" none (nullable checkInstant))
    |>.and (optional fields "finished_at" none (nullable checkInstant))

namespace Result

mutual

/-- The document of a result. -/
def toValue : Result → Value
  | mk entry children default items =>
    .object (entry.toFields ++
      [("children", .array (listToValues children)), ("default", defaultToValue default),
       ("items", .array (listToValues items))])

/-- The documents of several results. -/
def listToValues : List Result → List Value
  | [] => []
  | r :: rs => toValue r :: listToValues rs

/-- The document of a result that may be absent. -/
def defaultToValue : Option Result → Value
  | none => .null
  | some r => toValue r

end

/-- The check of a result in a document no deeper than a bound. -/
def checkWithin : Nat → Check Result
  | 0, _ => .fail .record
  | bound + 1, v =>
    recordOf (fun fields =>
      (Checked.pure mk)
        |>.and (Entry.check fields)
        |>.and (optional fields "children" [] (listOf (checkWithin bound)))
        |>.and (optional fields "default" none (nullable (checkWithin bound)))
        |>.and (optional fields "items" [] (listOf (checkWithin bound)))) v

/-- The check of a result. -/
def check : Check Result := fun v =>
  checkWithin (v.depth + 1) v

end Result

/-! ## Runs -/

namespace Event

/-- The document of an event. -/
def toValue (e : Event) : Value :=
  .object [("path", .string e.path), ("node_id", .ofString? e.id), ("kind", .string e.kind),
    ("label", .ofString? e.label), ("previous", .string e.previous.name),
    ("status", .string e.status.name), ("timestamp", instantValue (some e.time)),
    ("error_kind", .ofString? (e.errorKind.map FailureKind.name)),
    ("message", .string e.message)]

/-- The check of an event. -/
def check : Check Event :=
  recordOf fun fields =>
    (Checked.pure fun path id kind label previous status time errorKind message =>
        { path, id, kind, label, previous, status, time, errorKind, message : Event })
      |>.and (required fields "path" text)
      |>.and (required fields "node_id" (nullable text))
      |>.and (required fields "kind" text)
      |>.and (required fields "label" (nullable text))
      |>.and (required fields "previous" Status.check)
      |>.and (required fields "status" Status.check)
      |>.and (optional fields "timestamp" 0 checkInstant)
      |>.and (optional fields "error_kind" none (nullable Failure.checkKind))
      |>.and (optional fields "message" "" text)

end Event

namespace RunResult

/-- The document of a run. -/
def toValue (r : RunResult) : Value :=
  .object [("status", .string r.status.name), ("tree", r.tree.toValue),
    ("trace", .array (r.trace.map Event.toValue))]

/-- The check of a run. -/
def check : Check RunResult :=
  recordOf fun fields =>
    (Checked.pure fun status tree trace => { status, tree, trace : RunResult })
      |>.and (required fields "status"
        (oneOf RunStatus.ofName? (.enumeration (RunStatus.all.map RunStatus.name))))
      |>.and (required fields "tree" Result.check)
      |>.and (optional fields "trace" [] (listOf Event.check))

end RunResult
end Workflow
