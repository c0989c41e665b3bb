import Workflow.Document.Check
import Workflow.Json.Reader
import Workflow.Log.Record
import Workflow.Settings.EnvFile
import Workflow.Tree.Label

/-!
# Settings

The settings of a program are its own and those of two parts: how workflows are executed, and which
language model answers. A setting is taken from what is given outright, else from the environment,
else from a file of environment variables, else it has a default.

* `Sources` holds the environment and the file.
* `Execution.load`, `Model.load` and `Settings.load` collect and check the settings.

Names of variables are compared without regard to case. A part of the settings may also be one
variable that holds a JSON object; what that leaves open is looked up as usual.
-/

namespace Workflow

open Document

/-! ## Sources -/

/-- Where settings come from. -/
structure Sources where
  /-- The variables of the environment, their names in lower case. -/
  environment : Fields String := []
  /-- The variables of a file, their names in lower case. -/
  file : Fields (Option String) := []
  deriving Inhabited

namespace Sources

/-- A name in lower case. -/
def lower (name : String) : String :=
  String.ofList (name.toList.map Char.toLower)

/-- The sources of an environment and, if there is one, the text of a file. -/
def of (environment : List (String × String)) (file : Option String) : Sources where
  environment := Fields.ofList (environment.map fun entry => (lower entry.1, entry.2))
  file :=
    match file with
    | some text =>
      Fields.ofList ((EnvFile.read environment text).map fun entry => (lower entry.1, entry.2))
    | none => []

/-- The value of a variable. -/
def get? (sources : Sources) (name : String) : Option String :=
  (Fields.get? sources.environment name).or (Fields.get? sources.file name).join

/-- The given fields, and those of the other names that have a variable of that name after
`stem`. -/
def collect (sources : Sources) (stem : String) (names : List String) (given : Fields Value) :
    Fields Value :=
  names.filterMap fun name =>
    match Fields.get? given name with
    | some value => some (name, value)
    | none => (sources.get? (stem ++ name)).map fun s => (name, .string s)

end Sources

/-! ## Execution -/

/-- How workflows are executed. -/
structure Execution where
  /-- The number of children of loops and parallel nodes that run at once. -/
  limit : Nat := 4
  /-- The number of seconds after which a call has failed, if its step does not say. -/
  timeout : Option Binary64 := none
  /-- What stands between the parts of a label. -/
  separator : String := defaultSeparator
  deriving Inhabited

namespace Execution

/-- The names of the fields. -/
def names : List String := ["loop_concurrency", "default_step_timeout", "label_separator"]

/-- The check of the fields. -/
def check (fields : Fields Value) : Checked Execution :=
  (Checked.pure fun limit timeout separator => { limit, timeout, separator : Execution })
    |>.and (optional fields "loop_concurrency" 4 positiveInt)
    |>.and (optional fields "default_step_timeout" none (nullable positiveFloat))
    |>.and (optional fields "label_separator" defaultSeparator someText)

/-- The settings, some of them given. -/
def load (sources : Sources) (given : Fields Value) : Checked Execution :=
  check (sources.collect "flow_engine_execution_" names given)

/-- The document of the settings. -/
def toValue (e : Execution) : Value :=
  .object [("loop_concurrency", .nat e.limit),
    ("default_step_timeout", .ofNumber? (e.timeout.map .float)),
    ("label_separator", .string e.separator)]

end Execution

/-! ## Models -/

/-- What answers the calls of agents. -/
inductive Provider where
  /-- Nothing: agents give back what they are given. -/
  | echo
  /-- A language model behind a chat service. -/
  | openai
  deriving DecidableEq, Inhabited

namespace Provider

/-- The name of a provider. -/
def name : Provider → String
  | echo => "echo"
  | openai => "openai"

/-- All providers. -/
def all : List Provider := [echo, openai]

/-- The provider that a name stands for. -/
def ofName? (name : String) : Option Provider :=
  all.find? fun provider => provider.name == name

end Provider

/-- Which language model answers, and how. -/
structure Model where
  /-- What answers. -/
  provider : Provider := .echo
  /-- The key of the service. -/
  key : Option String := none
  /-- The model of agents that do not name one. -/
  name : String := "gpt-4o-mini"
  /-- The temperature of answers. -/
  temperature : Binary64 := .ofDecimal false 7 (-1)
  /-- The address of the service, if it is another. -/
  address : Option String := none
  deriving Inhabited

namespace Model

/-- The names of the fields. -/
def names : List String :=
  ["provider", "openai_api_key", "openai_model", "openai_temperature", "openai_base_url"]

/-- A number from zero to two. -/
def checkTemperature (v : Value) : Checked Binary64 :=
  match float v with
  | .ok x =>
    if (Binary64.ofInt 2).less x then .fail (.above 2)
    else if x.less (Binary64.zero false) then .fail (.below 0)
    else .ok x
  | .error issues => .error issues

/-- The check of the fields. -/
def check (fields : Fields Value) : Checked Model :=
  let default : Model := {}
  (Checked.pure fun provider key name temperature address =>
      { provider, key, name, temperature, address : Model })
    |>.and (optional fields "provider" default.provider
      (oneOf Provider.ofName? (.literal (Provider.all.map Provider.name))))
    |>.and (optional fields "openai_api_key" none (nullable text))
    |>.and (optional fields "openai_model" default.name text)
    |>.and (optional fields "openai_temperature" default.temperature checkTemperature)
    |>.and (optional fields "openai_base_url" none (nullable text))

/-- The settings, some of them given. -/
def load (sources : Sources) (given : Fields Value) : Checked Model :=
  check (sources.collect "flow_engine_llm_" names given)

/-- The document of the settings. -/
def toValue (m : Model) : Value :=
  .object [("provider", .string m.provider.name), ("openai_api_key", .ofString? m.key),
    ("openai_model", .string m.name), ("openai_temperature", .float m.temperature),
    ("openai_base_url", .ofString? m.address)]

end Model

/-! ## The settings of the program -/

/-- The settings of the program. -/
structure Settings where
  /-- The least level of log records. -/
  logLevel : String := "INFO"
  /-- The form of log lines. -/
  logForm : LogForm := .json
  /-- All records are written, whatever the level. -/
  debug : Bool := false
  /-- How workflows are executed. -/
  execution : Execution := {}
  /-- Which language model answers. -/
  model : Model := {}
  deriving Inhabited

namespace Settings

/-- Why there are no settings. -/
inductive Error where
  /-- Settings are not what they should be. -/
  | issues (issues : List Issue)
  /-- The variable that holds a part of the settings is not JSON. -/
  | unreadable (field source : String)
  deriving DecidableEq

/-- The wording of a variable that is not JSON. -/
def unreadableMessage (field source : String) : String :=
  s!"error parsing value for field \"" ++ field ++ "\" from source \"" ++ source ++ "\""

/-! ### Parts in one variable -/

/-- The names of the fields of a part without regard to case; other names stay. -/
def canonical (names : List String) : Value → Value
  | .object fields =>
    .object (Fields.ofList (fields.map fun entry =>
      ((names.find? fun name => name == Sources.lower entry.1).getD entry.1, entry.2)))
  | v => v

/-- What a variable of one source holds of a part of the settings; the absent value counts as
nothing. -/
def partIn (value : Option String) (field source : String) (names : List String) :
    Except Error (Option Value) :=
  match value with
  | none => .ok none
  | some text =>
    match Json.parse text with
    | .error _ => .error (.unreadable field source)
    | .ok .null => .ok none
    | .ok v => .ok (some (canonical names v))

/-- The parts of the settings that a source holds. -/
def partsIn (get? : String → Option String) (source : String) :
    Except Error (Option Value × Option Value) := do
  let execution ← partIn (get? "flow_engine_execution") "execution" source Execution.names
  let model ← partIn (get? "flow_engine_llm") "llm" source Model.names
  return (execution, model)

/-- Two values of a part: objects are joined, else the first counts. -/
def joined (first second : Option Value) : Option Value :=
  match first, second with
  | some (.object fields), some (.object others) => some (.object (Fields.update others fields))
  | some v, _ => some v
  | none, v => v

/-! ### Loading -/

/-- A part of the settings: given, or from a variable, or with defaults of its own. -/
def part {α : Type} (type : String) (load : Fields Value → Checked α) (given : Option α)
    (value : Option Value) : Checked α :=
  match given with
  | some a => .ok a
  | none =>
    match value with
    | none => load []
    | some (.object fields) => load fields
    | some _ => .fail (.instanceOf type)

/-- The issues of a part whose defaults cannot be had; they come before all others. -/
def defaultIssues {α : Type} (load : Fields Value → Checked α) (given : Option α)
    (value : Option Value) : Option (List Issue) :=
  match given, value, load [] with
  | none, none, .error issues => some issues
  | _, _, _ => none

/-- The settings, some of them given. -/
def load (sources : Sources) (given : Fields Value) (execution : Option Execution)
    (model : Option Model) : Except Error Settings := do
  let (execution₁, model₁) ← partsIn (Fields.get? sources.environment) "EnvSettingsSource"
  let (execution₂, model₂) ←
    partsIn (fun name => (Fields.get? sources.file name).join) "DotEnvSettingsSource"
  let executionValue := joined execution₁ execution₂
  let modelValue := joined model₁ model₂
  let first := (defaultIssues (Execution.load sources) execution executionValue).or
    (defaultIssues (Model.load sources) model modelValue)
  if let some issues := first then throw (.issues issues)
  let fields := sources.collect "flow_engine_" ["log_level", "log_format", "debug"] given
  let checked :=
    (Checked.pure fun logLevel logForm debug execution model =>
        { logLevel, logForm, debug, execution, model : Settings })
      |>.and (optional fields "log_level" "INFO" text)
      |>.and (optional fields "log_format" .json
        (oneOf LogForm.ofName? (.literal (LogForm.all.map LogForm.name))))
      |>.and (optional fields "debug" false bool)
      |>.and ((part "ExecutionConfig" (Execution.load sources) execution executionValue).under
        (.name "execution"))
      |>.and ((part "LLMConfig" (Model.load sources) model modelValue).under (.name "llm"))
  match checked with
  | .ok settings => return settings
  | .error issues => throw (.issues issues)

/-- The document of the settings. -/
def toValue (s : Settings) : Value :=
  .object [("log_level", .string s.logLevel), ("log_format", .string s.logForm.name),
    ("debug", .bool s.debug), ("execution", s.execution.toValue), ("llm", s.model.toValue)]

end Settings
end Workflow
