/-!
# Help

How the program and its commands are used: a usage that stands before messages on wrong arguments,
and a help that also says what all arguments mean.
-/

namespace Workflow.CommandLine

/-- The name of the program. -/
def programName : String := "flow-engine"

/-- The version of the program. -/
def versionText : String := "agent-flow-engine 0.1.0"

/-- The program, or one of its commands. -/
def titleOf : Option String → String
  | none => programName
  | some command => s!"{programName} {command}"

/-- How the program or one of its commands is used. -/
def usageOf (command : Option String) : List String :=
  let title := titleOf command
  match command with
  | none => [s!"usage: {title} [-h] [--version] \x7bannotate,resolve,run\x7d ..."]
  | some "annotate" => [s!"usage: {title} [-h] [--output OUTPUT] flow"]
  | some "resolve" => [s!"usage: {title} [-h] flow path"]
  | some _ =>
    [s!"usage: {title} [-h] [--var NAME=VALUE] [--vars-file VARS_FILE]",
      "                       [--executor \x7becho,openai\x7d] [--resume RESUME] [--events]",
      "                       flow"]

/-- What the arguments of the program or of one of its commands mean. -/
def argumentHelp : Option String → List String
  | none =>
    ["Define, inspect and run agent flows",
      "",
      "positional arguments:",
      "  \x7bannotate,resolve,run\x7d",
      "    annotate            Fill in node ids and breadcrumb labels and print the",
      "                        flow",
      "    resolve             Print the node a path expression addresses",
      "    run                 Execute a flow and print its result tree",
      "",
      "options:",
      "  -h, --help            show this help message and exit",
      "  --version             show program's version number and exit"]
  | some "annotate" =>
    ["positional arguments:",
      "  flow             Flow document (JSON)",
      "",
      "options:",
      "  -h, --help       show this help message and exit",
      "  --output OUTPUT  Write the annotated document here instead of stdout"]
  | some "resolve" =>
    ["positional arguments:",
      "  flow        Flow document (JSON)",
      "  path        Path expression, e.g. '$.input[1].input[0]'",
      "",
      "options:",
      "  -h, --help  show this help message and exit"]
  | some _ =>
    ["positional arguments:",
      "  flow                  Flow document (JSON)",
      "",
      "options:",
      "  -h, --help            show this help message and exit",
      "  --var NAME=VALUE      Run variable; VALUE is parsed as JSON when possible",
      "                        (repeatable)",
      "  --vars-file VARS_FILE",
      "                        JSON object with run variables (--var entries take",
      "                        precedence)",
      "  --executor \x7becho,openai\x7d",
      "                        Agent executor (defaults to FLOW_ENGINE_LLM_PROVIDER)",
      "  --resume RESUME       Result of an earlier run; its succeeded steps are",
      "                        reused",
      "  --events              Stream node transitions to stderr as JSON lines"]

/-- The help on the program or on one of its commands. -/
def helpOf (command : Option String) : List String :=
  usageOf command ++ "" :: argumentHelp command

end Workflow.CommandLine
