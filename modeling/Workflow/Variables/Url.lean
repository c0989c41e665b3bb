import Workflow.Unicode.CharClass

/-!
# URLs

`Url.check` decides whether a text is an absolute URL. Blanks and controls at the two ends do not
count, nor do tabs and line ends anywhere. What can be wrong is the scheme, the host or the port;
paths, queries and fragments admit everything.

The schemes of the web need a host, which is an IPv6 address in brackets, an IPv4 address if its
last label is a number, or a domain. Any other scheme has a host only after two slashes, and may
leave it empty.
-/

namespace Workflow.Url

/-- What is wrong with a text that is not a URL. -/
inductive Fault where
  /-- There is no text. -/
  | empty
  /-- There is no scheme. -/
  | noScheme
  /-- A host is needed. -/
  | noHost
  /-- The host is not a domain. -/
  | domain
  /-- The host of a scheme of another kind holds a forbidden character. -/
  | hostCharacter
  /-- The port is not a number below 65536. -/
  | port
  /-- A host in brackets is not an IPv6 address. -/
  | ipv6
  /-- A host that ends in a number is not an IPv4 address. -/
  | ipv4
  deriving DecidableEq

/-- The wording of a fault. -/
def Fault.message : Fault → String
  | empty => "input is empty"
  | noScheme => "relative URL without a base"
  | noHost => "empty host"
  | domain => "invalid international domain name"
  | hostCharacter => "invalid domain character"
  | port => "invalid port number"
  | ipv6 => "invalid IPv6 address"
  | ipv4 => "invalid IPv4 address"

/-! ## Addresses -/

/-- The pieces of a text between separators. -/
def splitAt (separator : Char) : List Char → List (List Char)
  | [] => [[]]
  | c :: rest =>
    if c = separator then [] :: splitAt separator rest
    else
      match splitAt separator rest with
      | [] => [[c]]
      | piece :: pieces => (c :: piece) :: pieces

/-- The value of a digit in bases up to sixteen. -/
def digit? (base : Nat) (c : Char) : Option Nat :=
  let value :=
    if c.isDigit then some (c.toNat - 48)
    else if 'a' ≤ c ∧ c ≤ 'f' then some (c.toNat - 87)
    else if 'A' ≤ c ∧ c ≤ 'F' then some (c.toNat - 55)
    else none
  value.filter (· < base)

/-- The number that digits of a base stand for; no digits stand for zero. -/
def numeral? (base : Nat) (digits : List Char) : Option Nat :=
  digits.foldlM (fun n c => (digit? base c).map (base * n + ·)) 0

/-- A part of an IPv4 address: decimal, octal after a nought, or hexadecimal after `0x`. -/
def ipv4Part? : List Char → Option Nat
  | [] => none
  | '0' :: 'x' :: digits => numeral? 16 digits
  | '0' :: 'X' :: digits => numeral? 16 digits
  | '0' :: d :: digits => numeral? 8 (d :: digits)
  | digits => numeral? 10 digits

/-- The labels of a host without an empty one at the end. -/
def labels (host : List Char) : List (List Char) :=
  let pieces := splitAt '.' host
  if 1 < pieces.length ∧ pieces.getLast? = some [] then pieces.dropLast else pieces

/-- The last label of a host is a number. -/
def endsInNumber (host : List Char) : Bool :=
  match (labels host).getLast? with
  | some label =>
    (!label.isEmpty && label.all Char.isDigit) ||
      (match label with
        | '0' :: 'x' :: digits => (numeral? 16 digits).isSome
        | '0' :: 'X' :: digits => (numeral? 16 digits).isSome
        | _ => false)
  | none => false

/-- A host is an IPv4 address of at most four parts, the last of which fills what is left. -/
def isIpv4 (host : List Char) : Bool :=
  match (labels host).mapM ipv4Part? with
  | none => false
  | some parts =>
    match parts.reverse with
    | [] => false
    | last :: others =>
      others.length < 4 && others.all (· < 256) && last < Nat.pow 256 (4 - others.length)

/-- A group of an IPv6 address: one to four hexadecimal digits. -/
def isIpv6Group (group : List Char) : Bool :=
  1 ≤ group.length && group.length ≤ 4 && group.all fun c => (digit? 16 c).isSome

/-- The IPv4 address that may end an IPv6 address: four decimal numbers without leading noughts. -/
def isDottedQuad (s : List Char) : Bool :=
  let parts := splitAt '.' s
  parts.length = 4 && parts.all fun part =>
    !part.isEmpty && part.all Char.isDigit && part.length ≤ 3 &&
      (part.length = 1 || part.head? != some '0') && (numeral? 10 part).any (· < 256)

/-- The number of sixteen-bit groups that a run of groups stands for, if all are well-formed. A
dotted quad may stand at the end of the address. -/
def groupCount? (atEnd : Bool) (s : List Char) : Option Nat :=
  if s.isEmpty then some 0
  else
    let groups := splitAt ':' s
    let last := groups.getLast?.getD []
    if groups.all isIpv6Group then some groups.length
    else if atEnd && groups.dropLast.all isIpv6Group && isDottedQuad last then
      some (groups.length + 1)
    else none

/-- The two sides of the first pair of colons. -/
def splitDoubleColon : List Char → Option (List Char × List Char)
  | [] => none
  | ':' :: ':' :: rest => some ([], rest)
  | c :: rest => (splitDoubleColon rest).map fun (left, right) => (c :: left, right)

/-- A text is an IPv6 address: eight groups, or fewer with one pair of colons for the others. -/
def isIpv6 (s : List Char) : Bool :=
  match splitDoubleColon s with
  | none => groupCount? true s = some 8
  | some (left, right) =>
    match groupCount? false left, groupCount? true right with
    | some m, some n => m + n < 8
    | _, _ => false

/-! ## Hosts -/

/-- A character that no host admits. -/
def isForbiddenInHost (c : Char) : Bool :=
  "\x00\t\n\r #/:<>?@[\\]^|".toList.contains c

/-- A character that no domain admits. -/
def isForbiddenInDomain (c : Char) : Bool :=
  isForbiddenInHost c || c.toNat < 32 || c = '%' || c.toNat = 127 ||
    (128 ≤ c.toNat && !Unicode.isPrintable c &&
      !List.contains [0xAD, 0x200B, 0x2060, 0xFEFF] c.toNat)

/-- A host without its percent escapes of ASCII characters. -/
def unescape : List Char → List Char
  | '%' :: a :: b :: rest =>
    match digit? 16 a, digit? 16 b with
    | some high, some low =>
      if high < 8 then Char.ofNat (16 * high + low) :: unescape rest
      else '%' :: unescape (a :: b :: rest)
    | _, _ => '%' :: unescape (a :: b :: rest)
  | c :: rest => c :: unescape rest
  | [] => []
termination_by s => s.length

/-- The host of a scheme of the web. -/
def checkHost (host : List Char) : Except Fault Unit :=
  match host with
  | '[' :: inner =>
    if inner.getLast? = some ']' ∧ isIpv6 inner.dropLast then .ok () else .error .ipv6
  | _ =>
    let domain := unescape host
    if domain.any isForbiddenInDomain then .error .domain
    else if domain.isEmpty then .error .noHost
    else if endsInNumber domain then if isIpv4 domain then .ok () else .error .ipv4
    else .ok ()

/-- The host of any other scheme. -/
def checkOtherHost (host : List Char) : Except Fault Unit :=
  match host with
  | '[' :: inner =>
    if inner.getLast? = some ']' ∧ isIpv6 inner.dropLast then .ok () else .error .ipv6
  | _ => if host.any isForbiddenInHost then .error .hostCharacter else .ok ()

/-! ## The parts of a URL -/

/-- The text up to the first colon outside of brackets, and what follows. -/
def splitPort (inBrackets : Bool) : List Char → List Char × Option (List Char)
  | [] => ([], none)
  | c :: rest =>
    if c = ':' && !inBrackets then ([], some rest)
    else
      let inside := if c = '[' then true else if c = ']' then false else inBrackets
      let (host, port) := splitPort inside rest
      (c :: host, port)

/-- The text after the last `@`. -/
def afterUserInfo (s : List Char) : List Char :=
  (s.reverse.takeWhile (· ≠ '@')).reverse

/-- A port is a number below 65536; it may be left out after its colon. -/
def checkPort (port : List Char) : Except Fault Unit :=
  if port.all Char.isDigit && (numeral? 10 port).any (· < 65536) then .ok () else .error .port

/-- The part of a URL between the slashes and the path. -/
def checkAuthority (special : Bool) (s : List Char) : Except Fault Unit :=
  let ends (c : Char) : Bool := c = '/' || c = '?' || c = '#' || (special && c = '\\')
  let authority := s.takeWhile fun c => !ends c
  let hostAndPort := afterUserInfo authority
  let (host, port) := splitPort false hostAndPort
  if host.isEmpty && (special || port.isSome || authority.contains '@') then .error .noHost
  else
    match if special then checkHost host else checkOtherHost host with
    | .error fault => .error fault
    | .ok () =>
      match port with
      | some port => checkPort port
      | none => .ok ()

/-- The host of a file: what stands between two slashes and the path, if anything. -/
def checkFile (s : List Char) : Except Fault Unit :=
  let isSlash (c : Char) : Bool := c = '/' || c = '\\'
  match s with
  | a :: b :: rest =>
    if isSlash a && isSlash b then
      let host := rest.takeWhile fun c => !(isSlash c || c = '?' || c = '#')
      let isDrive := host.length = 2 && host.head?.any Char.isAlpha &&
        (host.getLast? = some ':' || host.getLast? = some '|')
      if host.isEmpty || isDrive then .ok () else checkHost host
    else .ok ()
  | _ => .ok ()

/-- The schemes that need a host. -/
def webSchemes : List String := ["http", "https", "ws", "wss", "ftp"]

/-- The scheme in lower case and what follows its colon. -/
def splitScheme? (s : List Char) : Option (String × List Char) :=
  match s with
  | c :: _ =>
    if c.isAlpha then
      let inScheme (c : Char) : Bool := c.isAlphanum || c = '+' || c = '-' || c = '.'
      match s.dropWhile inScheme with
      | ':' :: rest => some (String.ofList ((s.takeWhile inScheme).map Char.toLower), rest)
      | _ => none
    else none
  | [] => none

/-- A text without what does not count: controls and spaces at its ends, tabs and line ends. -/
def strip (s : List Char) : List Char :=
  let blank (c : Char) : Bool := c.toNat ≤ 32
  let trimmed := ((s.dropWhile blank).reverse.dropWhile blank).reverse
  trimmed.filter fun c => c ≠ '\t' ∧ c ≠ '\n' ∧ c ≠ '\r'

/-- Decides whether a text is a URL. -/
def check (s : String) : Except Fault Unit :=
  if s.isEmpty then .error .empty
  else
    match splitScheme? (strip s.toList) with
    | none => .error .noScheme
    | some (scheme, rest) =>
      if scheme = "file" then checkFile rest
      else if webSchemes.contains scheme then
        checkAuthority true (rest.dropWhile fun c => c = '/' || c = '\\')
      else
        match rest with
        | '/' :: '/' :: rest => checkAuthority false rest
        | _ => .ok ()

end Workflow.Url
