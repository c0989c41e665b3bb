import Workflow.Text.Quoted

/-!
# Command line arguments

A `Grammar` has flags, with or without a value, and places for arguments. `Grammar.scan` sorts the
arguments of a command line into the flags and places that they are for, in the order in which
they are to be looked at, together with those that are for nothing and the first problem after
them.

A flag may be shortened as long as that fits one flag only, and its value may follow an equals
sign. After `--` nothing is a flag. The last place of a grammar may take everything that follows
its first argument, flags included.
-/

namespace Workflow.CommandLine

/-- A flag. -/
structure Flag where
  /-- The names of the flag. -/
  names : List String
  /-- The flag has a value. -/
  valued : Bool
  deriving DecidableEq

/-- What messages call a flag. -/
def Flag.title (flag : Flag) : String :=
  "/".intercalate flag.names

/-- The flags and places of a command line. -/
structure Grammar where
  /-- The flags. -/
  flags : List Flag
  /-- The names of the places. -/
  places : List String
  /-- The last place takes everything that follows its first argument. -/
  open_ : Bool := false

/-- What an argument looks like. -/
inductive Token where
  /-- Something for a place or for a flag's value. -/
  | plain (text : String)
  /-- A flag, if it is known, perhaps with a value after an equals sign. -/
  | flag (flag : Option Flag) (text : String) (value : Option String)
  /-- The mark after which nothing is a flag. -/
  | endOfFlags

namespace Token

/-- The argument. -/
def text : Token → String
  | plain text => text
  | flag _ text _ => text
  | endOfFlags => "--"

/-- The argument is a flag. -/
def isFlag : Token → Bool
  | flag .. => true
  | _ => false

/-- The argument is the mark after which nothing is a flag. -/
def isEnd : Token → Bool
  | endOfFlags => true
  | _ => false

end Token

/-- A flag or place with what is given for it. -/
inductive Part where
  /-- A flag. -/
  | flag (flag : Flag) (value : Option String)
  /-- A place. -/
  | place (name : String) (values : List String)

/-- The arguments of a command line, sorted. -/
structure Scan where
  /-- The flags and places in order. -/
  parts : List Part := []
  /-- The arguments that are for nothing. -/
  extras : List String := []
  /-- What is wrong after all that. -/
  problem : Option String := none

/-! ## Telling flags from other arguments -/

/-- What stands before the first equals sign and what after it, if there is one. -/
def splitEquals (s : String) : String × Option String :=
  let front := s.toList.takeWhile (· ≠ '=')
  match s.toList.dropWhile (· ≠ '=') with
  | _ :: rest => (String.ofList front, some (String.ofList rest))
  | [] => (s, none)

/-- A minus and a decimal number. -/
def isNegativeNumber (s : String) : Bool :=
  match s.toList with
  | '-' :: rest =>
    match rest.dropWhile Char.isDigit with
    | [] => !rest.isEmpty
    | '.' :: digits => !digits.isEmpty && digits.all Char.isDigit
    | _ => false
  | _ => false

namespace Grammar

/-- The flags with all their names. -/
def named (g : Grammar) : List (String × Flag) :=
  g.flags.flatMap fun flag => flag.names.map fun name => (name, flag)

/-- The flags that an argument may be short for, with their names and the value after an equals
sign. -/
def candidates (g : Grammar) (arg : String) : List (String × Flag × Option String) :=
  if arg.startsWith "--" then
    let (stem, value) := splitEquals arg
    (g.named.filter fun entry => entry.1.startsWith stem).map fun entry =>
      (entry.1, entry.2, value)
  else
    g.named.filterMap fun entry =>
      if entry.1 = String.ofList (arg.toList.take 2) then
        some (entry.1, entry.2, some (String.ofList (arg.toList.drop 2)))
      else if entry.1.startsWith arg then some (entry.1, entry.2, none)
      else none

/-- What an argument looks like, or a message if it may be short for several flags. -/
def token (g : Grammar) (arg : String) : Except String Token :=
  let named := g.named
  let (stem, value) := splitEquals arg
  if !arg.startsWith "-" then .ok (.plain arg)
  else
    match named.lookup arg with
    | some flag => .ok (.flag flag arg none)
    | none =>
      if arg.length = 1 then .ok (.plain arg)
      else
        match value, named.lookup stem with
        | some value, some flag => .ok (.flag flag arg value)
        | _, _ =>
          match g.candidates arg with
          | [(_, flag, value)] => .ok (.flag flag arg value)
          | [] =>
            if isNegativeNumber arg || arg.contains ' ' then .ok (.plain arg)
            else .ok (.flag none arg none)
          | several =>
            let names := ", ".intercalate (several.map Prod.fst)
            .error s!"ambiguous option: {arg} could match {names}"

/-- What all arguments look like. -/
def tokens (g : Grammar) : List String → Except String (List Token)
  | [] => .ok []
  | arg :: args =>
    if arg = "--" then .ok (.endOfFlags :: args.map .plain)
    else
      match g.token arg with
      | .error message => .error message
      | .ok token =>
        match g.tokens args with
        | .error message => .error message
        | .ok tokens => .ok (token :: tokens)

/-! ## Filling places -/

/-- The places that the arguments at the front fill, the places that stay free, and the arguments
that are left. -/
def fill (g : Grammar) : List String → List Token → List Part × List String × List Token
  | [], tokens => ([], [], tokens)
  | place :: places, tokens =>
    let ends := tokens.takeWhile Token.isEnd
    match tokens.dropWhile Token.isEnd with
    | .plain text :: rest =>
      if g.open_ && places.isEmpty then
        ([.place place (tokens.map Token.text)], [], [])
      else
        let value := if ends.isEmpty && text = "--" then [] else [text]
        let (parts, free, left) := g.fill places (rest.dropWhile Token.isEnd)
        (.place place value :: parts, free, left)
    | _ => ([], place :: places, tokens)

/-! ## Sorting -/

/-- The flag at the front with its value, and the arguments after it. -/
def takeFlag (flag : Flag) (value : Option String) (rest : List Token) :
    Except String (Part × List Token) :=
  match value with
  | some v =>
    if flag.valued then .ok (.flag flag v, rest)
    else .error s!"argument {flag.title}: ignored explicit argument {Text.quoted v}"
  | none =>
    if !flag.valued then .ok (.flag flag none, rest)
    else
      match rest with
      | .plain text :: rest => .ok (.flag flag text, rest)
      | _ => .error s!"argument {flag.title}: expected one argument"

/-- Sorts what is left once there are no more flags. -/
def finish (g : Grammar) (places : List String) (tokens : List Token) : Scan :=
  let (parts, free, left) := g.fill places tokens
  let names := ", ".intercalate free
  { parts
    extras := left.map Token.text
    problem :=
      if free.isEmpty then none else some s!"the following arguments are required: {names}" }

/-- Sorts arguments that come after those of another scan. -/
def Scan.after (parts : List Part) (extras : List String) (scan : Scan) : Scan :=
  { scan with parts := parts ++ scan.parts, extras := extras ++ scan.extras }

/-- Sorts arguments, at most `count` times a flag or a row of places. -/
def sort (g : Grammar) : Nat → List String → List Token → Scan
  | 0, places, tokens => g.finish places tokens
  | count + 1, places, tokens =>
    if !tokens.any Token.isFlag then g.finish places tokens
    else
      let (parts, free, left) :=
        if (tokens.head?.map Token.isFlag).getD false then ([], places, tokens)
        else g.fill places tokens
      if left.length < tokens.length then Scan.after parts [] (g.sort count free left)
      else
        let extras := (tokens.takeWhile fun token => !token.isFlag).map Token.text
        match tokens.dropWhile fun token => !token.isFlag with
        | .flag none text _ :: rest => Scan.after [] (extras ++ [text]) (g.sort count places rest)
        | .flag (some flag) _ value :: rest =>
          match takeFlag flag value rest with
          | .error message => { extras, problem := message }
          | .ok (part, rest) => Scan.after [part] extras (g.sort count places rest)
        | _ => { extras }

/-- The arguments of a command line, sorted. -/
def scan (g : Grammar) (args : List String) : Scan :=
  match g.tokens args with
  | .error message => { problem := message }
  | .ok tokens => g.sort (tokens.length + 1) g.places tokens

end Grammar
end Workflow.CommandLine
