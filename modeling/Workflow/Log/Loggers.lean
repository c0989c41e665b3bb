import Workflow.Log.Record

/-!
# Loggers

The loggers of a process form a tree by their names, which dots divide. A record is written by all
handlers of the root if its logger is enabled for its level. The nearest logger upwards that has a number
of its own decides.

* `Logging` is what logging is configured to: a level and a form.
* `Loggers.configure` configures the loggers of a process, whatever they were before: the root has one
  handler then, and the loggers of chatty libraries are never enabled below `LogLevel.info`.
* `Loggers.write` is what is written of records, and `Logging.write` what is written in a new process.
-/

namespace Workflow

/-- Which records are written, and how. -/
structure Logging where
  /-- The least level. -/
  level : LogLevel
  /-- The form of lines. -/
  form : LogForm
  deriving Inhabited

namespace Logging

/-- The logging of a level and a form; the level may be written in any case. -/
def ofNames (level form : String) : Except UnknownLevel Logging :=
  let name := Unicode.upper level
  match LogLevel.ofName? name with
  | some level => .ok ⟨level, .named form⟩
  | none => .error ⟨name⟩

/-- The loggers of chatty libraries. -/
def chatty : List String := ["openai", "httpx", "httpcore"]

/-- The least number of a level for chatty libraries. -/
def chattyNumber (l : Logging) : Nat :=
  max l.level.number LogLevel.info.number

end Logging

/-! ## The loggers of a process -/

/-- The loggers of a process. -/
structure Loggers where
  /-- The forms of the root's handlers, each of which writes all records. -/
  handlers : List LogForm := []
  /-- The number of the root's level. -/
  root : Nat := LogLevel.warning.number
  /-- The loggers that there are with the numbers that they were given; nought stands for none. -/
  numbers : Fields Nat := []

namespace Loggers

/-- The number that decides for a logger without one of its own, whose name is given backwards. What
stands before a dot names an ancestor if there is a logger of that name. A dot next to the one that was
looked at last is passed over, and so is a dot in front. -/
def numberAbove (t : Loggers) : List Char → Nat
  | '.' :: c :: rest =>
    match Fields.get? t.numbers (String.ofList (c :: rest).reverse) with
    | some 0 => t.numberAbove (c :: rest)
    | some number => number
    | none => t.numberAbove rest
  | _ :: rest => t.numberAbove rest
  | [] => t.root

/-- The number that decides for a logger. -/
def numberFor (t : Loggers) (logger : String) : Nat :=
  match Fields.get? t.numbers logger with
  | some (number + 1) => number + 1
  | _ => t.numberAbove logger.toList.reverse

/-- The logger of a record is enabled for its level. -/
def enabled (t : Loggers) (r : LogRecord) : Bool :=
  t.numberFor r.logger ≤ r.level.number

/-- The lines that are written of records, each of which ends with a line end. -/
def write (t : Loggers) (records : List LogRecord) : List String :=
  (records.filter t.enabled).flatMap fun r =>
    t.handlers.filterMap fun form => (r.line form).map (· ++ "\n")

/-- The loggers once logging is configured: one handler takes the place of all others. -/
def install (t : Loggers) (l : Logging) : Loggers where
  handlers := [l.form]
  root := l.level.number
  numbers := Fields.update t.numbers (Logging.chatty.map fun name => (name, l.chattyNumber))

/-- Configures logging by the names of a level and a form. That there is no such level is found out when
the handlers are replaced already. -/
def configure (t : Loggers) (level form : String) : Except UnknownLevel Unit × Loggers :=
  match Logging.ofNames level form with
  | .ok l => (.ok (), t.install l)
  | .error e => (.error e, { t with handlers := [.named form] })

end Loggers

/-! ## Logging in a new process -/

namespace Logging

/-- The loggers of a new process. -/
def loggers (l : Logging) : Loggers :=
  ({} : Loggers).install l

/-- The least number of a level for a logger. -/
def numberFor (l : Logging) (logger : String) : Nat :=
  l.loggers.numberFor logger

/-- The record is written. -/
def admits (l : Logging) (r : LogRecord) : Bool :=
  l.loggers.enabled r

/-- The lines that are written of records. -/
def write (l : Logging) (records : List LogRecord) : List String :=
  l.loggers.write records

end Logging
end Workflow
