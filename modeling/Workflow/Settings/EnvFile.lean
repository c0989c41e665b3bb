import Workflow.Fields
import Workflow.Unicode.CharClass

/-!
# Files of environment variables

A file of environment variables has one binding `NAME=value` a line. A name may follow the word
`export` and may stand in single quotes. A value in quotes may go over several lines and has
escapes; a value without quotes ends with the line or with white space and a `#`. A line that is
not a binding is passed over.

* `EnvFile.bindings` reads the bindings of a text.
* `EnvFile.expand` puts values in place of the references `$\x7bNAME\x7d` and
  `$\x7bNAME:-default\x7d` of a value.
* `EnvFile.read` does both: a reference sees the bindings above it and then the surroundings.
-/

namespace Workflow.EnvFile

/-- White space, with the separators that texts of old had. -/
def isSpace (c : Char) : Bool :=
  Unicode.isBlank c || ('\x1c' ≤ c && c ≤ '\x1f')

/-- White space within a line. -/
def isLineSpace (c : Char) : Bool :=
  isSpace c && c != '\n' && c != '\r'

/-- The text with all line ends written as one character. -/
def unifyLineEnds : List Char → List Char
  | '\r' :: '\n' :: rest => '\n' :: unifyLineEnds rest
  | '\r' :: rest => '\n' :: unifyLineEnds rest
  | c :: rest => c :: unifyLineEnds rest
  | [] => []

/-! ## Parts of a binding -/

/-- What stands before the closing quote and what stands after it; a quote after a backslash does
not close. -/
def splitQuoted (quote : Char) : List Char → Option (List Char × List Char)
  | [] => none
  | c :: rest =>
    if c = quote then some ([], rest)
    else if c = '\\' then
      match rest with
      | [] => none
      | d :: rest =>
        if d = quote then
          match splitQuoted quote rest with
          | some (inside, after) => some (c :: d :: inside, after)
          | none => some ([c], rest)
        else (splitQuoted quote (d :: rest)).map fun (inside, after) => (c :: inside, after)
    else (splitQuoted quote rest).map fun (inside, after) => (c :: inside, after)

/-- The character that a letter stands for after a backslash. -/
def escape? (double : Bool) (c : Char) : Option Char :=
  if c = '\\' ∨ c = '\'' then some c
  else if !double then none
  else
    match c with
    | '"' => some '"'
    | 'a' => some '\x07'
    | 'b' => some '\x08'
    | 'f' => some '\x0c'
    | 'n' => some '\n'
    | 'r' => some '\r'
    | 't' => some '\t'
    | 'v' => some '\x0b'
    | _ => none

/-- The text with its escapes replaced. -/
def unescape (double : Bool) : List Char → List Char
  | '\\' :: c :: rest =>
    match escape? double c with
    | some d => d :: unescape double rest
    | none => '\\' :: unescape double (c :: rest)
  | c :: rest => c :: unescape double rest
  | [] => []

/-- The text without what follows white space and a `#`. -/
def dropComment : List Char → List Char
  | [] => []
  | c :: rest =>
    if isSpace c && (rest.dropWhile isSpace).head? == some '#' then []
    else c :: dropComment rest

/-- The text without the white space at its end. -/
def trimEnd (s : List Char) : List Char :=
  (s.reverse.dropWhile isSpace).reverse

/-- A text of the form `'name'` or a name without quotes, and what follows it. -/
def readName? : List Char → Option (List Char × List Char)
  | '\'' :: rest =>
    let name := rest.takeWhile (· ≠ '\'')
    match rest.dropWhile (· ≠ '\'') with
    | _ :: after => if name.isEmpty then none else some (name, after)
    | [] => none
  | s =>
    let inName (c : Char) : Bool := c != '=' && c != '#' && !isSpace c
    let name := s.takeWhile inName
    if name.isEmpty then none else some (name, s.dropWhile inName)

/-- A value after the equals sign, and what follows it. -/
def readValue? : List Char → Option (List Char × List Char)
  | '\'' :: rest => (splitQuoted '\'' rest).map fun (value, after) => (unescape false value, after)
  | '"' :: rest => (splitQuoted '"' rest).map fun (value, after) => (unescape true value, after)
  | s => some (trimEnd (dropComment (s.takeWhile (· ≠ '\n'))), s.dropWhile (· ≠ '\n'))

/-- What follows the rest of a line. -/
def skipLine (s : List Char) : List Char :=
  (s.dropWhile (· ≠ '\n')).drop 1

/-- What follows the end of a line, if at most a comment comes before it. -/
def readLineEnd? (s : List Char) : Option (List Char) :=
  let s := s.dropWhile isLineSpace
  match s with
  | '#' :: _ => some (skipLine s)
  | '\n' :: rest => some rest
  | [] => some []
  | _ => none

/-- What follows the word `export` and white space, if the text starts with that. -/
def skipExport (s : List Char) : List Char :=
  let after := s.drop 6
  if s.take 6 = "export".toList ∧ after.head?.any isLineSpace then after.dropWhile isLineSpace
  else s

/-- A name with its value, if it has one. -/
abbrev Line := String × Option String

/-- The binding that a text starts with, if it is one, and what follows it or its line. -/
def readBinding (s : List Char) : Option Line × List Char :=
  let s := skipExport s
  if s.head? = some '#' then (none, skipLine s)
  else
    match readName? s with
    | none => (none, skipLine s)
    | some (name, after) =>
      let after := after.dropWhile isLineSpace
      let (value, after) := match after with
        | '=' :: rest =>
          let rest := rest.dropWhile isLineSpace
          match readValue? rest with
          | some (value, after) => (some (some (String.ofList value)), after)
          | none => (none, rest)
        | _ => (some none, after)
      match value, readLineEnd? after with
      | some value, some rest => (some (String.ofList name, value), rest)
      | _, _ => (none, skipLine after)

/-! ## Files -/

/-- The bindings of a text, at most `count` of them. -/
def readBindings : Nat → List Char → List Line
  | 0, _ => []
  | count + 1, s =>
    match s.dropWhile isSpace with
    | [] => []
    | s =>
      match readBinding s with
      | (some line, rest) => line :: readBindings count rest
      | (none, rest) => readBindings count rest

/-- The bindings of a text in order. -/
def bindings (text : String) : List Line :=
  let s := unifyLineEnds text.toList
  readBindings s.length s

/-! ## References -/

/-- A reference at the start of a text, after its opening bracket: its name, its default, and what
follows it. -/
def readReference? (s : List Char) : Option (List Char × List Char × List Char) :=
  let inName (c : Char) : Bool := c != '\x7d' && c != ':'
  let name := s.takeWhile inName
  match s.dropWhile inName with
  | '\x7d' :: rest => some (name, [], rest)
  | ':' :: '-' :: rest =>
    match rest.dropWhile (· ≠ '\x7d') with
    | _ :: after => some (name, rest.takeWhile (· ≠ '\x7d'), after)
    | [] => none
  | _ => none

/-- The text with values in place of its references, at most `count` characters of it. -/
def expandWithin (look : String → Option String) : Nat → List Char → List Char
  | 0, _ => []
  | _, [] => []
  | count + 1, c :: rest =>
    let kept := c :: expandWithin look count rest
    match c, rest with
    | '$', '\x7b' :: after =>
      match readReference? after with
      | some (name, default, after) =>
        ((look (String.ofList name)).map String.toList).getD default ++
          expandWithin look count after
      | none => kept
    | _, _ => kept

/-- The text with values in place of its references. -/
def expand (look : String → Option String) (text : String) : String :=
  String.ofList (expandWithin look text.toList.length text.toList)

/-- What a reference sees: a binding above, even one without a value, before the surroundings. -/
def lookUp (surroundings : Fields String) (above : Fields (Option String)) (name : String) :
    Option String :=
  match Fields.get? above name with
  | some value => some (value.getD "")
  | none => Fields.get? surroundings name

/-- The bindings of a text with their references replaced, the last of those with one name. -/
def read (surroundings : Fields String) (text : String) : Fields (Option String) :=
  (bindings text).foldl
    (fun above line =>
      Fields.set above line.1 (line.2.map (expand (lookUp surroundings above))))
    []

end Workflow.EnvFile
