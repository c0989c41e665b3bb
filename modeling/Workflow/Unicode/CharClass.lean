import Workflow.Unicode.Letter
import Workflow.Unicode.Mark
import Workflow.Unicode.Numeric
import Workflow.Unicode.Unprintable

/-!
# Character classes

* `isWordChar`: letters, numeric characters and the underscore. Placeholders of templates and the
  fields of path expressions are made of these.
* `isNameChar`: word characters of the wider kind that the names of declared variables admit:
  marks, connectors and joiners are in it, bare numerals such as superscripts are not.
* `digitValue`: the value of a decimal digit of any script.
* `isPrintable`: characters that a quoted text shows as they are.
* `isBlank`: white space.
-/

namespace Workflow.Unicode

/-- A code point lies in one of the ranges. -/
def inRanges (ranges : List (Nat × Nat)) (code : Nat) : Bool :=
  ranges.any fun range => range.1 ≤ code && code ≤ range.2

/-- A letter of any script. -/
def isLetter (c : Char) : Bool :=
  c.isAlpha || (128 ≤ c.toNat && inRanges letterRanges c.toNat)

/-- The value of a decimal digit of any script. -/
def digitValue (c : Char) : Option Nat :=
  if c.isDigit then some (c.toNat - 48)
  else if c.toNat < 128 then none
  else (digitNoughts.find? fun nought => nought ≤ c.toNat && c.toNat < nought + 10).map
    (c.toNat - ·)

/-- A decimal digit of any script. -/
def isDecimalDigit (c : Char) : Bool :=
  (digitValue c).isSome

/-- A letter, a numeric character or the underscore. -/
def isWordChar (c : Char) : Bool :=
  c == '_' || isLetter c || isDecimalDigit c ||
    (128 ≤ c.toNat &&
      (inRanges letterNumberRanges c.toNat || inRanges otherNumberRanges c.toNat))

/-- Symbols that count as alphabetic: letters in circles and squares. -/
def enclosedLetterRanges : List (Nat × Nat) :=
  [(0x24B6, 0x24E9), (0x1F130, 0x1F149), (0x1F150, 0x1F169), (0x1F170, 0x1F189)]

/-- Connector punctuation and joiners beyond ASCII. -/
def connectorRanges : List (Nat × Nat) :=
  [(0x200C, 0x200D), (0x203F, 0x2040), (0x2054, 0x2054), (0xFE33, 0xFE34), (0xFE4D, 0xFE4F),
   (0xFF3F, 0xFF3F)]

/-- An alphabetic character, mark, decimal digit, connector or joiner. -/
def isNameChar (c : Char) : Bool :=
  c == '_' || isLetter c || isDecimalDigit c ||
    (128 ≤ c.toNat &&
      (inRanges markRanges c.toNat || inRanges letterNumberRanges c.toNat ||
        inRanges enclosedLetterRanges c.toNat || inRanges connectorRanges c.toNat))

/-- A character that a quoted text shows as it is. -/
def isPrintable (c : Char) : Bool :=
  if c.toNat < 127 then 32 ≤ c.toNat else !inRanges unprintableRanges c.toNat

/-- White space. -/
def isBlank (c : Char) : Bool :=
  c == ' ' || (9 ≤ c.toNat && c.toNat ≤ 13) ||
    (128 ≤ c.toNat && inRanges
      [(0x85, 0x85), (0xA0, 0xA0), (0x1680, 0x1680), (0x2000, 0x200A), (0x2028, 0x2029),
       (0x202F, 0x202F), (0x205F, 0x205F), (0x3000, 0x3000)] c.toNat)

/-- A text without the blanks at its two ends. -/
def trim (s : List Char) : List Char :=
  ((s.dropWhile isBlank).reverse.dropWhile isBlank).reverse

end Workflow.Unicode
