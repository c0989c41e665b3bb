import Workflow.Flow.Basic
import Workflow.Json.Reader
import Workflow.Node.Decode
import Workflow.Node.Encode

/-!
# Flows as documents

Reading and writing of variables, agents and flows. The three records admit no unknown field. The
name of a variable is one or more name characters, and an enumeration declares its options.
-/

namespace Workflow

open Document

/-! ## Variables -/

namespace Variable

/-- The form of a variable's name, in the words of messages. -/
def namePattern : String := "^\\w+$"

/-- The check of a variable's name. -/
def checkName (v : Value) : Checked String :=
  match text v with
  | .error issues => .error issues
  | .ok s =>
    if !s.isEmpty && s.toList.all Unicode.isNameChar then .ok s else .fail (.pattern namePattern)

/-- The check of a variable's fields one by one. -/
def checkFields (fields : Fields Value) : Checked Variable :=
  ((Checked.pure fun name type required default options description =>
      { name, type, required, default, options, description : Variable })
    |>.and (Document.required fields "name" checkName)
    |>.and (optional fields "type" .string
      (oneOf VariableType.ofName? (.enumeration (VariableType.all.map VariableType.name))))
    |>.and (optional fields "required" false bool)
    |>.and (optional fields "default" .null any)
    |>.and (optional fields "options" [] (listOf text))
    |>.and (optional fields "description" "" text)).also
    (noOthers fields ["name", "type", "required", "default", "options", "description"])

/-- The check of a variable. -/
def check : Check Variable :=
  recordOf fun fields =>
    match checkFields fields with
    | .error issues => .error issues
    | .ok variable_ =>
      if variable_.type = .enumeration ∧ variable_.options = [] then
        .fail (.rule s!"Enum variable {Text.quoted variable_.name} must declare options")
      else .ok variable_

/-- The document of a variable. -/
def toValue (v : Variable) : Value :=
  .object [("name", .string v.name), ("type", .string v.type.name), ("required", .bool v.required),
    ("default", v.default), ("options", .strings v.options),
    ("description", .string v.description)]

end Variable

/-! ## Agents -/

namespace Agent

/-- The check of an agent. -/
def check : Check Agent :=
  recordOf fun fields =>
    ((Checked.pure fun name model system tools => { name, model, system, tools : Agent })
      |>.and (required fields "name" text)
      |>.and (optional fields "model" "" text)
      |>.and (optional fields "system" "" text)
      |>.and (optional fields "tools" [] (listOf (fieldsOf any)))).also
      (noOthers fields ["name", "model", "system", "tools"])

/-- The document of an agent. -/
def toValue (a : Agent) : Value :=
  .object [("name", .string a.name), ("model", .string a.model), ("system", .string a.system),
    ("tools", .array (a.tools.map .object))]

end Agent

/-! ## Flows -/

namespace Flow

/-- The check of a flow. -/
def check : Check Flow :=
  recordOf fun fields =>
    ((Checked.pure fun code name tree vars agents =>
        { code, name, tree, vars, agents : Flow })
      |>.and (required fields "code" text)
      |>.and (optional fields "name" "" text)
      |>.and (required fields "flow" Node.check)
      |>.and (optional fields "inputs" [] (listOf Variable.check))
      |>.and (optional fields "agents" [] (listOf Agent.check))).also
      (noOthers fields ["code", "name", "flow", "inputs", "agents"])

/-- The document of a flow. -/
def toValue (flow : Flow) : Value :=
  .object [("code", .string flow.code), ("name", .string flow.name),
    ("flow", flow.tree.toValue false), ("inputs", .array (flow.vars.map Variable.toValue)),
    ("agents", .array (flow.agents.map Agent.toValue))]

end Flow

/-- The check of the value that a JSON text is. -/
def Document.checkText {α : Type} (check : Check α) (text : String) : Checked α :=
  match Json.parse text with
  | .error _ => .fail .json
  | .ok v => check v

end Workflow
