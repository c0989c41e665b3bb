import Workflow.CommandLine.Command
import Workflow.Flow.Document
import Workflow.Result.Document
import Workflow.Runner

/-!
# Execution of commands

`Command.execute` does what a command says, given the files and the environment: it reads the
settings, the flow and whatever else the command names, and says what is written to the two
outputs and to a file, and with which code the program exits.

The exit codes are 0 if all went well, 2 for anything that is not valid, 3 for a run that failed, 4
for a run that was cancelled, and 1 for anything else.
-/

namespace Workflow.CommandLine

/-! ## Files -/

/-- Why a file cannot be read or written. -/
inductive FileFault where
  /-- There is no such file or directory. -/
  | missing
  /-- The path is that of a directory. -/
  | directory
  /-- The path goes on below a file. -/
  | notDirectory
  /-- The file may not be accessed. -/
  | denied
  deriving DecidableEq

/-- The wording of a fault of the file at a path. -/
def FileFault.message (fault : FileFault) (path : String) : String :=
  let (number, reason) := match fault with
    | missing => (2, "No such file or directory")
    | directory => (21, "Is a directory")
    | notDirectory => (20, "Not a directory")
    | denied => (13, "Permission denied")
  s!"[Errno {toString number}] {reason}: {Text.quoted path}"

/-- The files around the program. -/
structure Files where
  /-- The text of a file. -/
  read : String → Except FileFault String
  /-- Why a file cannot be written, if it cannot. -/
  writeFault : String → Option FileFault

instance : Inhabited Files := ⟨⟨fun _ => .error .missing, fun _ => none⟩⟩

/-- The name of the file of environment variables. -/
def envFileName : String := ".env"

/-- The text of a file with all line ends written as one character. -/
def Files.text (files : Files) (path : String) : Except String String :=
  match files.read path with
  | .ok text => .ok (String.ofList (EnvFile.unifyLineEnds text.toList))
  | .error fault => .error (fault.message path)

/-! ## Outcomes -/

/-- What a command leaves behind. -/
structure Output where
  /-- The exit code. -/
  exit : Nat
  /-- What is written to the standard output. -/
  stdout : String := ""
  /-- The lines that are written to the standard error. -/
  stderr : List String := []
  /-- The file that is written, with its text. -/
  file : Option (String × String) := none
  /-- The source of further identifiers. -/
  ids : IdSource

/-- What the program does not handle. -/
inductive Escape where
  /-- A part of the settings is not JSON. -/
  | settings (field source : String)
  /-- The log level is not known. -/
  | level (cause : UnknownLevel)
  deriving DecidableEq

/-- The wording of what is not handled. -/
def Escape.message : Escape → String
  | settings field source => Settings.unreadableMessage field source
  | level cause => cause.message

/-- The circumstances of a command. -/
structure World where
  /-- The files. -/
  files : Files
  /-- The environment variables. -/
  environment : List (String × String) := []
  /-- The microseconds since 1970. -/
  time : Int := 0
  /-- The chat service. -/
  service : ChatRequest → ChatReply := fun _ => .content none
  deriving Inhabited

/-! ## Writing -/

/-- The logger of commands. -/
def logger : String := "agent_flow_engine.cli"

/-- A record of a command. -/
def record (level : LogLevel) (message : String) (time : Int) (extra : Fields Value) : Notice :=
  Runner.record logger level message time extra

/-- An event on one line, without the fields that are absent. -/
def eventLine (e : Event) : String :=
  match e.toValue with
  | .object fields => (Value.object (fields.filter fun field => !field.2.isNull)).toJson .packed
  | v => v.toJson .packed

/-- What is written of a notice. -/
def noticeLine (logging : Logging) (events : Bool) : Notice → Option String
  | .log r => if logging.admits r then r.line logging.form else none
  | .event e => if events then some (eventLine e) else none

/-- The record of the loop that a run is executed in. -/
def loopNotice (time : Int) : Notice :=
  Runner.record "asyncio" .debug "Using selector: EpollSelector" time []

/-- The records of the failed nodes of a result. -/
def failureNotices (result : Result) (time : Int) : List Notice :=
  (result.walk.filter fun node => node.status = .failed).filterMap fun node =>
    node.entry.error.map fun failure =>
      record .warning "Node failed" time
        [("node_path", .string node.entry.path), ("error_kind", .string failure.kind.name)]

/-- The lines and the exit of a command whose input is not valid. -/
def invalid (r : Runner) (time : Int) (message : String) : List String :=
  let warning := record .warning "Invalid input" time [("error", .string message)]
  (noticeLine r.logging false warning).toList ++ [s!"Invalid input: {message}"]

/-! ## Commands -/

/-- The settings of a command. -/
def World.settings (w : World) : Except Settings.Error Settings :=
  Settings.load (Sources.of w.environment (w.files.read envFileName).toOption) [] none none

/-- The settings with what a command says about them. -/
def Command.adjust (c : Command) (settings : Settings) : Settings :=
  match c.action with
  | .run { provider := some provider, .. } =>
    { settings with model := { settings.model with provider } }
  | _ => settings

/-- The value of a JSON text, or the message of what is wrong with it. -/
def readJson (text : String) : Except String Value :=
  match Json.parse text with
  | .ok v => .ok v
  | .error e => .error e.message

/-- The variables of a run: those of a file, and in their place those of the command. -/
def RunOptions.supplied (o : RunOptions) (files : Files) :
    Except String (Except String (Fields Value)) :=
  match o.variablesFile with
  | none => .ok (.ok o.vars)
  | some path => do
    match ← readJson (← files.text path) with
    | .object fields => return .ok (Fields.update fields o.vars)
    | _ => return .error s!"{path} must contain a JSON object"

/-- The earlier result of a run. -/
def RunOptions.previous (o : RunOptions) (files : Files) : Except String (Option Result) :=
  match o.resume with
  | none => .ok none
  | some path => do
    match Document.checkText RunResult.check (← files.text path) with
    | .ok result => return some result.tree
    | .error issues => throw (Document.report "RunResult" issues)

/-- Runs a flow with the supplied variables, on an earlier result if there is one. -/
def runWith (w : World) (r : Runner) (o : RunOptions) (flow : Flow) (ids : IdSource)
    (supplied : Fields Value) (previous : Option Result) : Output :=
  let occasion : Occasion := { previous, time := w.time, service := w.service }
  let attempt := r.run flow supplied occasion ids
  let lines := (loopNotice w.time :: attempt.notices).filterMap (noticeLine r.logging o.events)
  let ids := attempt.ids
  match attempt.result with
  | .error (.refused (.duplicateId cause)) =>
    { exit := 2, stderr := lines ++ [s!"Invalid flow tree: {cause.message}"], ids }
  | .error cause => { exit := 2, stderr := lines ++ invalid r w.time cause.message, ids }
  | .ok s =>
    match s.outcome with
    | .finished result =>
      let stdout := result.toValue.toJson .document ++ "\n"
      match result.status with
      | .succeeded => { exit := 0, stdout, stderr := lines, ids }
      | .cancelled => { exit := 4, stdout, stderr := lines, ids }
      | .failed =>
        let failed := (failureNotices result.tree s.now).filterMap (noticeLine r.logging false)
        { exit := 3, stdout, stderr := lines ++ failed, ids }
    | _ => { exit := 1, stderr := lines, ids }

/-- Runs a flow. -/
def runFlow (w : World) (r : Runner) (o : RunOptions) (flow : Flow) (ids : IdSource) : Output :=
  let inputs : Except String (Except String (Fields Value) × Option Result) := do
    match ← o.supplied w.files with
    | .error message => return (.error message, none)
    | .ok supplied => return (.ok supplied, ← o.previous w.files)
  match inputs with
  | .error message => { exit := 2, stderr := invalid r w.time message, ids }
  | .ok (.error message, _) => { exit := 2, stderr := [message], ids }
  | .ok (.ok supplied, previous) => runWith w r o flow ids supplied previous

/-- Annotates a flow. -/
def annotateFlow (w : World) (r : Runner) (output : Option String) (flow : Flow) (ids : IdSource) :
    Output :=
  let text := flow.toValue.toJson .document ++ "\n"
  match output with
  | none => { exit := 0, stdout := text, ids }
  | some path =>
    match w.files.writeFault path with
    | some fault => { exit := 2, stderr := invalid r w.time (fault.message path), ids }
    | none =>
      { exit := 0, stdout := s!"Annotated flow written to {path}\n", file := (path, text), ids }

/-- Shows what a path of a flow addresses. -/
def resolveFlow (path : String) (flow : Flow) (ids : IdSource) : Output :=
  match flow.tree.resolve path with
  | .ok place => { exit := 0, stdout := (place.toValue true).toJson .indented ++ "\n", ids }
  | .error e => { exit := 2, stderr := [s!"Path error: {e.message}"], ids }

/-- Goes on with a flow that has identifiers and labels. -/
def withPrepared (r : Runner) (flow : Flow) (ids : IdSource) (goOn : Flow → IdSource → Output) :
    Output :=
  match r.prepare flow none ids with
  | .error cause => { exit := 2, stderr := [s!"Invalid flow tree: {cause.message}"], ids }
  | .ok (flow, ids) => goOn flow ids

/-- Does what a command says with a flow. -/
def Action.execute (w : World) (r : Runner) (flow : Flow) (ids : IdSource) : Action → Output
  | .run o => runFlow w r o flow ids
  | .annotate output => withPrepared r flow ids (annotateFlow w r output)
  | .resolve path => withPrepared r flow ids (resolveFlow path)

/-- The files that a command reads. -/
def Command.reads (c : Command) : List String :=
  match c.action with
  | .run o => envFileName :: c.flow :: (o.variablesFile.toList ++ o.resume.toList)
  | _ => [envFileName, c.flow]

/-- Does what a command says. -/
def Command.execute (c : Command) (w : World) (ids : IdSource) : Except Escape Output :=
  match w.settings with
  | .error (.unreadable field source) => .error (.settings field source)
  | .error (.issues issues) =>
    .ok
      { exit := 2
        stderr := ["Configuration error (check your .env):",
          Document.report "FlowEngineConfig" issues]
        ids }
  | .ok settings =>
    match Runner.of (c.adjust settings) none with
    | .error cause => .error (.level cause)
    | .ok r =>
      let greeting := (noticeLine r.logging false (r.greeting w.time)).toList
      let refuse (reason : String) : Output :=
        { exit := 2, stderr := greeting ++ [s!"Invalid flow document {c.flow}:", reason], ids }
      match w.files.text c.flow with
      | .error reason => .ok (refuse reason)
      | .ok text =>
        match Document.checkText Flow.check text with
        | .error issues => .ok (refuse (Document.report "FlowDefinition" issues))
        | .ok flow =>
          let output := c.action.execute w r flow ids
          .ok { output with stderr := greeting ++ output.stderr }

/-! ## Command lines -/

/-- The exit code of a command line without a command. -/
def NoCommand.exit : NoCommand → Nat
  | .wrong .. => 2
  | _ => 0

/-- What a command line without a command writes to the standard output. -/
def NoCommand.stdout : NoCommand → List String
  | .version => [versionText]
  | .help command => helpOf command
  | .wrong .. => []

/-- What a command line without a command writes to the standard error. -/
def NoCommand.stderr : NoCommand → List String
  | .wrong command message => usageOf command ++ [s!"{titleOf command}: error: {message}"]
  | _ => []

end Workflow.CommandLine
