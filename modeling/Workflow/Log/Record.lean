import Workflow.Json.Writer
import Workflow.Text.Instant
import Workflow.Text.Percent
import Workflow.Unicode.Uppercase

/-!
# Log records

A record has a level, the name of a logger, and a message with arguments; it may carry further
fields and an exception.

* `LogLevel` orders records by their weight.
* `LogRecord.line` is the text of a record, as a JSON object or plainly.

A JSON text of a record holds no line end, since characters below the space are escaped.
-/

namespace Workflow

/-! ## Levels -/

/-- The weight of a record: the greater its number, the weightier the record. -/
structure LogLevel where
  /-- The number. -/
  number : Nat
  deriving DecidableEq, Inhabited

namespace LogLevel

/-- Everything. -/
def notSet : LogLevel := ⟨0⟩

/-- Details of interest to developers. -/
def debug : LogLevel := ⟨10⟩

/-- What is expected to happen. -/
def info : LogLevel := ⟨20⟩

/-- What is not expected to happen. -/
def warning : LogLevel := ⟨30⟩

/-- What went wrong. -/
def error : LogLevel := ⟨40⟩

/-- What ends the program. -/
def critical : LogLevel := ⟨50⟩

/-- The levels that have a name of their own. -/
def named : List (LogLevel × String) :=
  [(notSet, "NOTSET"), (debug, "DEBUG"), (info, "INFO"), (warning, "WARNING"), (error, "ERROR"),
   (critical, "CRITICAL")]

/-- The name of a level, with its number if it has no name of its own. -/
def name (l : LogLevel) : String :=
  match named.find? fun entry => entry.1 = l with
  | some entry => entry.2
  | none => s!"Level {l.number}"

/-- The levels by all their names. -/
def names : Fields LogLevel :=
  [("CRITICAL", critical), ("FATAL", critical), ("ERROR", error), ("WARN", warning),
   ("WARNING", warning), ("INFO", info), ("DEBUG", debug), ("NOTSET", notSet)]

/-- The level that a name in capitals stands for. -/
def ofName? (name : String) : Option LogLevel :=
  Fields.get? names name

end LogLevel

/-- A name that no level has. -/
structure UnknownLevel where
  /-- The name in capitals. -/
  name : String
  deriving DecidableEq

/-- The wording of an unknown level. -/
def UnknownLevel.message (e : UnknownLevel) : String :=
  s!"Unknown level: {Text.quoted e.name}"

/-! ## Records -/

/-- The form of log lines. -/
inductive LogForm where
  /-- JSON objects. -/
  | json
  /-- Plain text. -/
  | text
  deriving DecidableEq, Inhabited

namespace LogForm

/-- The name of a form. -/
def name : LogForm → String
  | json => "json"
  | text => "text"

/-- All forms. -/
def all : List LogForm := [json, text]

/-- The form that a name stands for. -/
def ofName? (name : String) : Option LogForm :=
  all.find? fun form => form.name == name

/-- The form of lines for a name; lines are JSON objects if the name is not known. -/
def named (name : String) : LogForm :=
  (ofName? name).getD json

end LogForm

/-- Something to be logged. -/
structure LogRecord where
  /-- The name of the logger. -/
  logger : String
  /-- The weight. -/
  level : LogLevel
  /-- The message, perhaps with placeholders. -/
  message : String
  /-- What takes the places of the placeholders. -/
  args : List Value := []
  /-- The seconds since 1970 at which the record was made. -/
  time : Number := .int 0
  /-- Further fields. -/
  extra : Fields Value := []
  /-- The name and the message of an exception. -/
  exception : Option (String × String) := none
  deriving Inhabited

namespace LogRecord

/-- The names that belong to records themselves. -/
def reserved : List String :=
  ["name", "msg", "args", "levelname", "levelno", "pathname", "filename", "module", "exc_info",
   "exc_text", "stack_info", "lineno", "funcName", "created", "msecs", "relativeCreated",
   "thread", "threadName", "processName", "process", "asctime", "message", "taskName"]

/-- The further fields that are written. -/
def shownExtra (r : LogRecord) : Fields Value :=
  r.extra.filter fun field => !reserved.contains field.1 && !field.1.startsWith "_"

/-- The text of an exception. -/
def exceptionText (exception : String × String) : String :=
  if exception.2.isEmpty then exception.1 else s!"{exception.1}: {exception.2}"

/-- The microseconds since 1970, a half going to the even neighbour. -/
def microseconds (r : LogRecord) : Int :=
  match r.time.fraction? with
  | some f =>
    let whole := (1000000 * f.num).fdiv f.den
    let twice := 2 * (1000000 * f.num - whole * f.den)
    if twice < f.den then whole else if f.den < twice then whole + 1 else whole + whole.fmod 2
  | none => 0

/-- The whole seconds since 1970. -/
def seconds (r : LogRecord) : Int :=
  match r.time.fraction? with
  | some f => f.num.fdiv f.den
  | none => 0

/-- The fields of the JSON object for a record with the given message. -/
def fields (r : LogRecord) (message : String) : Fields Value :=
  [("timestamp", .string (Instant.text r.microseconds "+00:00")),
    ("level", .string r.level.name), ("logger", .string r.logger), ("message", .string message)] ++
    (if r.shownExtra.isEmpty then [] else [("extra", .object r.shownExtra)]) ++
    (match r.exception with
      | some exception => [("exception", .string (exceptionText exception))]
      | none => [])

/-- The plain text of a record with the given message. -/
def plainText (r : LogRecord) (message : String) : String :=
  let line :=
    s!"{Instant.shortText (1000000 * r.seconds)} - {r.logger} - {r.level.name} - {message}"
  match r.exception with
  | some exception =>
    (if line.endsWith "\n" then line else line ++ "\n") ++ exceptionText exception
  | none => line

/-- The text of a record; there is none if its arguments do not fit its message. -/
def line (r : LogRecord) (form : LogForm) : Option String :=
  (Percent.fill r.message r.args).map fun message =>
    match form with
    | .json => (Value.object (r.fields message)).toJson .line
    | .text => r.plainText message

end LogRecord

end Workflow
