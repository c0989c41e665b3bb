import Workflow.CommandLine.Arguments
import Workflow.CommandLine.Help
import Workflow.Json.Reader
import Workflow.Settings.Basic
import Workflow.Value.Display

/-!
# Commands

The program has three commands: one annotates a flow, one shows what a path of it addresses, and
one runs it. `Command.parse` reads a command from the arguments of a command line.

`parseVariable` reads the assignment of a run variable: a name, an equals sign, and a value that is
JSON or else the text as it stands.
-/

namespace Workflow.CommandLine

/-! ## Paths of files -/

/-- The shortest way to write the path of a file without resolving it: doubled slashes and parts
that are a single point are dropped. -/
def normalPath (path : String) : String :=
  let parts := (path.splitOn "/").filter fun part => !part.isEmpty && part != "."
  let lead := path.toList.takeWhile (· = '/')
  let start := if lead.length = 2 then "//" else if lead.isEmpty then "" else "/"
  let text := start ++ "/".intercalate parts
  if text.isEmpty then "." else text

/-! ## Assignments -/

/-- A text that does not assign anything. -/
structure NoAssignment where
  /-- The text. -/
  text : String
  deriving DecidableEq

/-- The wording of a text that does not assign anything. -/
def NoAssignment.message (e : NoAssignment) : String :=
  s!"Expected NAME=VALUE, got {Text.quoted e.text}"

/-- The name and the value of an assignment. -/
def parseVariable (text : String) : Except NoAssignment (String × Value) :=
  match splitEquals text with
  | (_, none) => .error ⟨text⟩
  | (name, some raw) =>
    if name.isEmpty then .error ⟨text⟩
    else
      match Json.parse raw with
      | .ok value => .ok (name, value)
      | .error _ => .ok (name, .string raw)

/-! ## Commands -/

/-- What a run is told. -/
structure RunOptions where
  /-- The assignments of variables in order. -/
  vars : Fields Value := []
  /-- The file of further variables. -/
  variablesFile : Option String := none
  /-- What answers, if not what the settings say. -/
  provider : Option Provider := none
  /-- The file of an earlier result. -/
  resume : Option String := none
  /-- Changes of statuses are written while the run goes on. -/
  events : Bool := false
  deriving Inhabited

/-- What the program is to do with a flow. -/
inductive Action where
  /-- Writes the flow with identifiers and labels, to a file if one is given. -/
  | annotate (output : Option String)
  /-- Writes what a path addresses. -/
  | resolve (path : String)
  /-- Runs the flow and writes its result. -/
  | run (options : RunOptions)
  deriving Inhabited

/-- A command. -/
structure Command where
  /-- The file of the flow. -/
  flow : String
  /-- What to do with it. -/
  action : Action
  deriving Inhabited

/-- Why there is no command. -/
inductive NoCommand where
  /-- The version was asked for. -/
  | version
  /-- Help on the program, or on one of its commands, was asked for. -/
  | help (command : Option String)
  /-- The arguments of the program, or of one of its commands, are wrong. -/
  | wrong (command : Option String) (message : String)
  deriving DecidableEq

/-! ### Grammars -/

/-- The flag that asks for help. -/
def helpFlag : Flag := ⟨["-h", "--help"], false⟩

/-- The flag that asks for the version. -/
def versionFlag : Flag := ⟨["--version"], false⟩

/-- A flag with a value. -/
def valuedFlag (name : String) : Flag := ⟨[name], true⟩

/-- The flag that asks for events. -/
def eventsFlag : Flag := ⟨["--events"], false⟩

/-- The names of the commands. -/
def commandNames : List String := ["annotate", "resolve", "run"]

/-- The arguments before and with the name of a command. -/
def grammar : Grammar :=
  ⟨[helpFlag, versionFlag], ["command"], true⟩

/-- The arguments of a command. -/
def grammarOf (name : String) : Grammar :=
  match name with
  | "annotate" => { flags := [helpFlag, valuedFlag "--output"], places := ["flow"] }
  | "resolve" => { flags := [helpFlag], places := ["flow", "path"] }
  | _ =>
    { flags := [helpFlag, valuedFlag "--var", valuedFlag "--vars-file", valuedFlag "--executor",
        valuedFlag "--resume", eventsFlag],
      places := ["flow"] }

/-- The message of a value that is none of those allowed. -/
def invalidChoice (title given : String) (allowed : List String) : String :=
  let quoted := ", ".intercalate (allowed.map Text.quoted)
  s!"argument {title}: invalid choice: {Text.quoted given} (choose from {quoted})"

/-! ### Reading a command -/

/-- The command that is read so far: what to do, the places, and the options of a run. -/
structure Draft where
  /-- The file of the flow. -/
  flow : String := ""
  /-- The path in the flow. -/
  path : String := ""
  /-- The file to write to. -/
  output : Option String := none
  /-- The options of a run. -/
  options : RunOptions := {}

/-- Reads a flag with its value. -/
def Draft.flag (draft : Draft) (command : String) (flag : Flag) (value : String) :
    Except NoCommand Draft :=
  let options := draft.options
  match flag.names with
  | ["--output"] => .ok { draft with output := normalPath value }
  | ["--vars-file"] =>
    .ok { draft with options := { options with variablesFile := normalPath value } }
  | ["--resume"] => .ok { draft with options := { options with resume := normalPath value } }
  | ["--events"] => .ok { draft with options := { options with events := true } }
  | ["--executor"] =>
    match Provider.ofName? value with
    | some provider => .ok { draft with options := { options with provider } }
    | none =>
      .error (.wrong command (invalidChoice flag.title value (Provider.all.map Provider.name)))
  | ["--var"] =>
    match parseVariable value with
    | .ok (name, v) =>
      .ok { draft with options :=
        { options with vars := Fields.set options.vars name v } }
    | .error e => .error (.wrong command s!"argument {flag.title}: {e.message}")
  | _ => .error (.help command)

/-- Reads a flag or a place. -/
def Draft.part (draft : Draft) (command : String) : Part → Except NoCommand Draft
  | .flag flag value => draft.flag command flag (value.getD "")
  | .place name values =>
    let value := values.headD ""
    if name = "flow" then .ok { draft with flow := normalPath value }
    else .ok { draft with path := value }

/-- The command that is read. -/
def Draft.command (draft : Draft) (name : String) : Command where
  flow := draft.flow
  action :=
    match name with
    | "annotate" => .annotate draft.output
    | "resolve" => .resolve draft.path
    | _ => .run draft.options

/-- Reads the arguments of a command. The arguments that are for nothing stand beside it. -/
def parseAfter (name : String) (args : List String) : Except NoCommand (Command × List String) := do
  let scan := (grammarOf name).scan args
  let draft ← scan.parts.foldlM (fun (draft : Draft) part => draft.part name part) {}
  match scan.problem with
  | some message => throw (.wrong name message)
  | none => return (draft.command name, scan.extras)

/-- Reads the flags and the name before the arguments of a command. -/
def parseParts : List Part → Except NoCommand (Option (Command × List String))
  | [] => .ok none
  | .flag flag _ :: _ => .error (if flag = versionFlag then .version else .help none)
  | .place _ values :: rest =>
    let name := values.headD ""
    if commandNames.contains name then do
      let result ← parseAfter name values.tail
      let _ ← parseParts rest
      return some result
    else .error (.wrong none (invalidChoice "command" name commandNames))

/-- Reads a command. -/
def Command.parse (args : List String) : Except NoCommand Command := do
  let scan := grammar.scan args
  let result ← parseParts scan.parts
  match scan.problem, result with
  | some message, _ => throw (.wrong none message)
  | none, none => throw (.help none)
  | none, some (command, extras) =>
    match scan.extras ++ extras with
    | [] => return command
    | extras =>
      let names := " ".intercalate extras
      throw (.wrong none s!"unrecognized arguments: {names}")

end Workflow.CommandLine
