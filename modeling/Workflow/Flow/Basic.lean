import Workflow.Node.Basic

/-!
# Flows

A flow is a workflow with the variables that a run of it takes and the agents that it calls.
-/

namespace Workflow

/-- The type of a variable. -/
inductive VariableType where
  /-- A text. -/
  | string
  /-- A number. -/
  | number
  /-- A truth value. -/
  | boolean
  /-- One of the variable's options. -/
  | enumeration
  /-- A text that is a URL. -/
  | url
  /-- Any value. -/
  | json
  deriving DecidableEq, Inhabited

namespace VariableType

/-- The name of a type. -/
def name : VariableType → String
  | string => "string"
  | number => "number"
  | boolean => "boolean"
  | enumeration => "enum"
  | url => "url"
  | json => "json"

/-- All types. -/
def all : List VariableType := [string, number, boolean, enumeration, url, json]

/-- The type that a name stands for. -/
def ofName? (name : String) : Option VariableType :=
  all.find? fun type => type.name == name

end VariableType

/-- The declaration of a variable. -/
structure Variable where
  /-- The name that the variable is referred to by. -/
  name : String
  /-- What its values are. -/
  type : VariableType := .string
  /-- A run must be given a value unless there is a default. -/
  required : Bool := false
  /-- The value of a run that is given none; there is no default if it is absent. -/
  default : Value := .null
  /-- The values of an enumeration. -/
  options : List String := []
  /-- What the variable is for. -/
  description : String := ""
  deriving Inhabited

/-- How an agent is realised by a language model. -/
structure Agent where
  /-- The name that steps call it by. -/
  name : String
  /-- The model; the configured one if it is empty. -/
  model : String := ""
  /-- The instructions that come before the inputs. -/
  system : String := ""
  /-- Descriptions of tools. -/
  tools : List (Fields Value) := []
  deriving Inhabited

/-- A workflow with its variables and agents. -/
structure Flow where
  /-- A short name for programs. -/
  code : String
  /-- A name for people. -/
  name : String := ""
  /-- The workflow. -/
  tree : Node
  /-- The declared variables. -/
  vars : List Variable := []
  /-- The agents. -/
  agents : List Agent := []
  deriving Inhabited

/-- The first agent of a name. -/
def Flow.agent? (flow : Flow) (name : String) : Option Agent :=
  flow.agents.find? fun agent => agent.name == name

end Workflow
