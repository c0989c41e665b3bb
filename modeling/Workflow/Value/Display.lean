import Workflow.Text.Quoted
import Workflow.Value.Basic

/-!
# Values in messages

Messages show a text in quotes, the absent value as `None`, truth values with a capital, and lists
and objects in brackets with a space after each comma and colon. `Value.plain` is the same but for
a bare text, which has no quotes.
-/

namespace Workflow.Value

mutual

/-- A value as messages show it. -/
def displayChars : Value → List Char
  | null => "None".toList
  | bool b => (if b then "True" else "False").toList
  | number n => n.text .plain
  | string s => Text.quotedChars s.toList
  | array items => '[' :: displayItems items ++ [']']
  | object fields => '\x7b' :: displayFields fields ++ ['\x7d']

/-- The items of a list with commas between them. -/
def displayItems : List Value → List Char
  | [] => []
  | [v] => displayChars v
  | v :: w :: items => displayChars v ++ ", ".toList ++ displayItems (w :: items)

/-- The fields of an object with commas between them. -/
def displayFields : List (String × Value) → List Char
  | [] => []
  | [(name, v)] => Text.quotedChars name.toList ++ ": ".toList ++ displayChars v
  | (name, v) :: field :: fields =>
    Text.quotedChars name.toList ++ ": ".toList ++ displayChars v ++ ", ".toList ++
      displayFields (field :: fields)

end

/-- A value as messages show it. -/
def display (v : Value) : String :=
  String.ofList v.displayChars

/-- A bare text as it is, any other value as messages show it. -/
def plain : Value → String
  | string s => s
  | v => v.display

end Workflow.Value
