import Std.Time.DateTime.Timestamp
import Workflow.CommandLine.Execute

/-!
# The program

Reads what a command needs, executes it, and writes what it leaves behind.
-/

namespace Workflow.CommandLine

/-- Why a file could not be accessed. The code of an error may come with its sign changed. -/
def FileFault.ofError : IO.Error → FileFault
  | .noFileOrDirectory .. => .missing
  | .inappropriateType _ code _ => if code = 20 ∨ -code = 20 then .notDirectory else .directory
  | _ => .denied

/-- The text of a file, or why it could not be read. -/
def readText (path : String) : IO (Except FileFault String) := do
  try
    return .ok (← IO.FS.readFile path)
  catch e =>
    return .error (.ofError e)

/-- Writes a file, and says why if it could not. -/
def writeText (path text : String) : IO (Option FileFault) := do
  try
    IO.FS.writeFile path text
    return none
  catch e =>
    return some (.ofError e)

/-- The environment variables of the process. -/
def environment : IO (List (String × String)) := do
  match ← readText "/proc/self/environ" with
  | .error _ => return []
  | .ok text =>
    let entries := (text.splitToList (· = '\x00')).map splitEquals
    return entries.filterMap fun (name, value) => value.map fun value => (name, value)

/-- The files that a command reads. -/
def readFiles (c : Command) : IO Files := do
  let texts ← c.reads.mapM fun path => return (path, ← readText path)
  return { read := fun path => (Fields.get? texts path).getD (.error .missing),
           writeFault := fun _ => none }

/-- The microseconds since 1970. -/
def currentTime : IO Int := do
  let time ← Std.Time.Timestamp.now
  return time.toNanosecondsSinceUnixEpoch.val / 1000

/-- A source of identifiers that starts at a random one. -/
def randomIds : IO IdSource := do
  let bytes ← IO.getRandomBytes 16
  return .countingFrom (bytes.foldl (fun n byte => 256 * n + byte.toNat) 0)

/-- There is no way to a chat service. -/
def unreachableService : ChatRequest → ChatReply :=
  fun _ => .failed "APIConnectionError" "Connection error."

/-- Executes a command and writes the file that it leaves behind. What cannot be written is known
when the command is executed once more. -/
def perform (c : Command) : IO (Except Escape Output) := do
  let world : World :=
    { files := ← readFiles c, environment := ← environment, time := ← currentTime,
      service := unreachableService }
  let ids ← randomIds
  match c.execute world ids with
  | .ok { file := some (path, text), .. } =>
    match ← writeText path text with
    | none => return c.execute world ids
    | some fault =>
      let files := { world.files with writeFault := fun _ => some fault }
      return c.execute { world with files } ids
  | result => return result

/-- Writes lines to the standard error. -/
def writeErrors (lines : List String) : IO Unit :=
  lines.forM IO.eprintln

/-- Executes a command line and says with which code the program exits. -/
def execute (args : List String) : IO UInt32 := do
  match Command.parse args with
  | .error e =>
    e.stdout.forM IO.println
    writeErrors e.stderr
    return e.exit.toUInt32
  | .ok c =>
    match ← perform c with
    | .error e =>
      writeErrors [e.message]
      return 1
    | .ok output =>
      writeErrors output.stderr
      IO.print output.stdout
      return output.exit.toUInt32

end Workflow.CommandLine

/-- The program. -/
def main (args : List String) : IO UInt32 :=
  Workflow.CommandLine.execute args
