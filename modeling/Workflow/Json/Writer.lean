import Workflow.Text.Quoted
import Workflow.Value.Basic

/-!
# JSON texts: writing

* `JsonStyle` says what stands between items, how deep lines are indented, how numbers are laid out
  and whether characters beyond ASCII are escaped.
* `Value.toJson` writes a value in a style.

A character below the space is always escaped, so no written text holds a raw line end that comes
from the data.
-/

namespace Workflow

/-- How JSON texts are written. -/
structure JsonStyle where
  /-- What stands between two items on one line. -/
  comma : String
  /-- What stands between a name and its value. -/
  colon : String
  /-- The number of spaces that each level is indented by, if every item has a line of its own. -/
  indent : Option Nat
  /-- The layout of double-precision numbers. -/
  floats : FloatFormat
  /-- Characters beyond ASCII are escaped. -/
  ascii : Bool

namespace JsonStyle

/-- One line, with a space after each comma and colon. -/
def line : JsonStyle :=
  ⟨", ", ": ", none, .named, false⟩

/-- One line, with a space after each comma and colon and ASCII characters only. -/
def asciiLine : JsonStyle :=
  { line with ascii := true }

/-- An item a line, indented by two spaces. -/
def indented : JsonStyle :=
  ⟨",", ": ", some 2, .named, false⟩

/-- One line without spaces, numbers that are not finite being absent. -/
def packed : JsonStyle :=
  ⟨",", ":", none, .compact, false⟩

/-- An item a line, indented by two spaces, numbers that are not finite being absent. -/
def document : JsonStyle :=
  ⟨",", ": ", some 2, .compact, false⟩

end JsonStyle

namespace Json

/-- The escape of a UTF-16 unit. -/
def unitEscape (unit : Nat) : List Char :=
  '\\' :: 'u' :: Text.hexDigits 4 unit

/-- One character of a written text. -/
def escapedChar (ascii : Bool) (c : Char) : List Char :=
  if c = '"' then ['\\', '"']
  else if c = '\\' then ['\\', '\\']
  else if c = '\n' then ['\\', 'n']
  else if c = '\r' then ['\\', 'r']
  else if c = '\t' then ['\\', 't']
  else if c = '\x08' then ['\\', 'b']
  else if c = '\x0c' then ['\\', 'f']
  else if c.toNat < 32 then unitEscape c.toNat
  else if c.toNat < 127 || !ascii then [c]
  else if c.toNat < 0x10000 then unitEscape c.toNat
  else
    unitEscape (0xD800 + (c.toNat - 0x10000) / 0x400) ++
      unitEscape (0xDC00 + (c.toNat - 0x10000) % 0x400)

/-- A written text with its quotes. -/
def writeString (style : JsonStyle) (s : String) : List Char :=
  '"' :: s.toList.flatMap (escapedChar style.ascii) ++ ['"']

/-- What stands between the opening bracket, the items and the closing bracket. -/
def lineBreak (style : JsonStyle) (depth : Nat) : List Char :=
  match style.indent with
  | some width => '\n' :: List.replicate (width * depth) ' '
  | none => []

mutual

/-- A value at a depth of indentation. -/
def writeValue (style : JsonStyle) (depth : Nat) : Value → List Char
  | .null => "null".toList
  | .bool b => (if b then "true" else "false").toList
  | .number n => n.text style.floats
  | .string s => writeString style s
  | .array items =>
    if items.isEmpty then ['[', ']']
    else
      '[' :: lineBreak style (depth + 1) ++ writeItems style (depth + 1) items ++
        lineBreak style depth ++ [']']
  | .object fields =>
    if fields.isEmpty then ['\x7b', '\x7d']
    else
      '\x7b' :: lineBreak style (depth + 1) ++ writeFields style (depth + 1) fields ++
        lineBreak style depth ++ ['\x7d']

/-- The items of a list with commas between them. -/
def writeItems (style : JsonStyle) (depth : Nat) : List Value → List Char
  | [] => []
  | [v] => writeValue style depth v
  | v :: w :: items =>
    writeValue style depth v ++ style.comma.toList ++ lineBreak style depth ++
      writeItems style depth (w :: items)

/-- The fields of an object with commas between them. -/
def writeFields (style : JsonStyle) (depth : Nat) : List (String × Value) → List Char
  | [] => []
  | [(name, v)] => writeString style name ++ style.colon.toList ++ writeValue style depth v
  | (name, v) :: field :: fields =>
    writeString style name ++ style.colon.toList ++ writeValue style depth v ++
      style.comma.toList ++ lineBreak style depth ++ writeFields style depth (field :: fields)

end

end Json

/-- The JSON text of a value. -/
def Value.toJson (v : Value) (style : JsonStyle) : String :=
  String.ofList (Json.writeValue style 0 v)

end Workflow
