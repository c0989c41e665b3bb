import Workflow.Unicode.CharClass

/-!
# Quoted texts

A text in a message stands in single quotes, or in double quotes if it holds a single quote and no
double quote. The quote in use and the backslash are escaped, and so is every character that is
not printable: by a letter for tabs and line ends, else by its code point in as few of two, four or
eight hexadecimal digits as it needs.
-/

namespace Workflow.Text

/-- The lower-case hexadecimal digits of a number, filled up with noughts to a width. -/
def hexDigits (width n : Nat) : List Char :=
  let digits := Nat.toDigits 16 n
  List.replicate (width - digits.length) '0' ++ digits

/-- One character of a quoted text. -/
def quotedChar (quote c : Char) : List Char :=
  if c = quote ∨ c = '\\' then ['\\', c]
  else if c = '\t' then ['\\', 't']
  else if c = '\n' then ['\\', 'n']
  else if c = '\r' then ['\\', 'r']
  else if Unicode.isPrintable c then [c]
  else if c.toNat < 0x100 then '\\' :: 'x' :: hexDigits 2 c.toNat
  else if c.toNat < 0x10000 then '\\' :: 'u' :: hexDigits 4 c.toNat
  else '\\' :: 'U' :: hexDigits 8 c.toNat

/-- The quote that a text stands in. -/
def quoteFor (s : List Char) : Char :=
  if s.contains '\'' && !s.contains '"' then '"' else '\''

/-- A quoted text. -/
def quotedChars (s : List Char) : List Char :=
  quoteFor s :: s.flatMap (quotedChar (quoteFor s)) ++ [quoteFor s]

/-- A quoted text. -/
def quoted (s : String) : String :=
  String.ofList (quotedChars s.toList)

end Workflow.Text
