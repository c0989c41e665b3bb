import Workflow.Fields
import Workflow.Number.Basic

/-!
# Values

The values that flow through a workflow: what documents hold, what agents take and return. Whole
and double-precision numbers stay apart, and objects keep the order of their fields.
-/

namespace Workflow

/-- A value. -/
inductive Value where
  /-- The absent value. -/
  | null
  /-- A truth value. -/
  | bool (b : Bool)
  /-- A number. -/
  | number (n : Number)
  /-- A text. -/
  | string (s : String)
  /-- A list of values. -/
  | array (items : List Value)
  /-- An object with named values in order. -/
  | object (fields : List (String × Value))
  deriving Inhabited

namespace Value

/-- A whole number as a value. -/
def int (n : Int) : Value :=
  number (.int n)

/-- A natural number as a value. -/
def nat (n : Nat) : Value :=
  number (.int n)

/-- A double-precision number as a value. -/
def float (x : Binary64) : Value :=
  number (.float x)

/-- A text that may be absent. -/
def ofString? : Option String → Value
  | some s => string s
  | none => null

/-- A number that may be absent. -/
def ofNumber? : Option Number → Value
  | some n => number n
  | none => null

/-- A list of texts. -/
def strings (texts : List String) : Value :=
  array (texts.map string)

/-- The value is the absent value. -/
def isNull : Value → Bool
  | null => true
  | _ => false

/-- The text that a value is, if it is one. -/
def asString? : Value → Option String
  | string s => some s
  | _ => none

/-- The list that a value is, if it is one. -/
def asArray? : Value → Option (List Value)
  | array items => some items
  | _ => none

/-- The fields of the object that a value is, if it is one. -/
def asObject? : Value → Option (Fields Value)
  | object fields => some fields
  | _ => none

/-- What an object holds under a name; the absent value if there is no such field. -/
def field (v : Value) (name : String) : Value :=
  match v with
  | object fields => (Fields.get? fields name).getD null
  | _ => null

/-- A value counts as true unless it is absent, false, zero or empty. -/
def truthy : Value → Bool
  | null => false
  | bool b => b
  | number n => !n.isZero
  | string s => !s.isEmpty
  | array items => !items.isEmpty
  | object fields => !fields.isEmpty

/-- The name of a value's type. -/
def typeName : Value → String
  | null => "NoneType"
  | bool _ => "bool"
  | number (.int _) => "int"
  | number (.float _) => "float"
  | string _ => "str"
  | array _ => "list"
  | object _ => "dict"

/-! ## Depth -/

mutual

/-- The number of values on the longest way down into a value. -/
def depth : Value → Nat
  | array items => depthItems items + 1
  | object fields => depthFields fields + 1
  | _ => 1

/-- The greatest depth of the items of a list. -/
def depthItems : List Value → Nat
  | [] => 0
  | v :: items => max (depth v) (depthItems items)

/-- The greatest depth of the contents of fields. -/
def depthFields : List (String × Value) → Nat
  | [] => 0
  | (_, v) :: fields => max (depth v) (depthFields fields)

end

/-! ## Equality -/

/-- The number that a value counts as in comparisons: truth values count as zero and one. -/
def asNumber? : Value → Option Number
  | bool b => some (.int (if b then 1 else 0))
  | number n => some n
  | _ => none

mutual

/-- Equality of values. Numbers are equal across their kinds, truth values count as zero and one,
and the order of an object's fields does not matter. -/
def same : Value → Value → Bool
  | null, null => true
  | string s, string t => s == t
  | array items, array others => sameItems items others
  | object fields, object others =>
    fields.length == others.length && sameFields fields others
  | bool a, v => match v.asNumber? with
    | some n => n.same (.int (if a then 1 else 0))
    | none => false
  | number m, v => match v.asNumber? with
    | some n => m.same n
    | none => false
  | _, _ => false

/-- Equality of lists, place by place. -/
def sameItems : List Value → List Value → Bool
  | [], [] => true
  | v :: items, w :: others => same v w && sameItems items others
  | _, _ => false

/-- Every field is among the others with an equal value. -/
def sameFields : List (String × Value) → List (String × Value) → Bool
  | [], _ => true
  | (name, v) :: fields, others =>
    (match Fields.get? others name with
      | some w => same v w
      | none => false) && sameFields fields others

end

end Value
end Workflow
