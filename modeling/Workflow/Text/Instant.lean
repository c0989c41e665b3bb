/-!
# Points in time

A point in time is a number of microseconds since the start of the year 1970. `Instant.text` writes
it as a date and a time of the day in UTC, with six digits of a second if it is not a whole number
of seconds, and `Instant.parse?` reads such texts.
-/

namespace Workflow.Instant

/-! ## Calendar -/

/-- A day of the calendar. -/
structure Date where
  /-- The year. -/
  year : Int
  /-- The month, counted from one. -/
  month : Nat
  /-- The day of the month, counted from one. -/
  day : Nat
  deriving DecidableEq

/-- The day that lies a number of days after the start of 1970. Years are counted from March on, so
that the day that some years lack is their last. -/
def Date.ofDays (days : Int) : Date :=
  let shifted := days + 719468
  let era := shifted / 146097
  let dayOfEra := (shifted % 146097).toNat
  let yearOfEra := (dayOfEra - dayOfEra / 1460 + dayOfEra / 36524 - dayOfEra / 146096) / 365
  let dayOfYear := dayOfEra - (365 * yearOfEra + yearOfEra / 4 - yearOfEra / 100)
  let marchMonth := (5 * dayOfYear + 2) / 153
  let month := if marchMonth < 10 then marchMonth + 3 else marchMonth - 9
  { year := (yearOfEra : Int) + era * 400 + (if month ≤ 2 then 1 else 0)
    month
    day := dayOfYear - (153 * marchMonth + 2) / 5 + 1 }

/-- The number of days from the start of 1970 to a day. -/
def Date.toDays (date : Date) : Int :=
  let year := if date.month ≤ 2 then date.year - 1 else date.year
  let era := year / 400
  let yearOfEra := (year % 400).toNat
  let marchMonth := if date.month ≤ 2 then date.month + 9 else date.month - 3
  let dayOfYear := (153 * marchMonth + 2) / 5 + date.day - 1
  let dayOfEra := yearOfEra * 365 + yearOfEra / 4 - yearOfEra / 100 + dayOfYear
  era * 146097 + dayOfEra - 719468

/-! ## Writing -/

/-- A number with leading noughts up to a width. -/
def padded (width n : Nat) : List Char :=
  let digits := Nat.toDigits 10 n
  List.replicate (width - digits.length) '0' ++ digits

/-- The microseconds of a day. -/
def dayLength : Int := 86400000000

/-- The date of a point in time. -/
def dateChars (time : Int) : List Char :=
  let date := Date.ofDays (time / dayLength)
  padded 4 date.year.toNat ++ '-' :: padded 2 date.month ++ '-' :: padded 2 date.day

/-- The hours, minutes and seconds of a point in time. -/
def clockChars (time : Int) : List Char :=
  let second := (time % dayLength / 1000000).toNat
  padded 2 (second / 3600) ++ ':' :: padded 2 (second / 60 % 60) ++ ':' :: padded 2 (second % 60)

/-- The part of a second of a point in time, if there is one. -/
def fractionChars (time : Int) : List Char :=
  let micros := (time % 1000000).toNat
  if micros = 0 then [] else '.' :: padded 6 micros

/-- The text of a point in time with the given name of the time zone. -/
def text (time : Int) (zone : String) : String :=
  String.ofList (dateChars time ++ 'T' :: clockChars time ++ fractionChars time) ++ zone

/-- The text of a point in time to the second. -/
def shortText (time : Int) : String :=
  String.ofList (dateChars time ++ ' ' :: clockChars time)

/-! ## Reading -/

/-- The number that a fixed count of digits at the start of a text stands for. -/
def readDigits? (count : Nat) (s : List Char) : Option (Nat × List Char) :=
  let digits := s.take count
  if digits.length = count && digits.all Char.isDigit then
    some (digits.foldl (fun n c => 10 * n + (c.toNat - 48)) 0, s.drop count)
  else none

/-- The text after a character. -/
def readChar? (allowed : List Char) : List Char → Option (List Char)
  | c :: rest => if allowed.contains c then some rest else none
  | [] => none

/-- A date at the start of a text. -/
def readDate? (s : List Char) : Option (Date × List Char) := do
  let (year, s) ← readDigits? 4 s
  let s ← readChar? ['-'] s
  let (month, s) ← readDigits? 2 s
  let s ← readChar? ['-'] s
  let (day, s) ← readDigits? 2 s
  let date : Date := ⟨year, month, day⟩
  if 1 ≤ month ∧ month ≤ 12 ∧ Date.ofDays date.toDays = date then some (date, s) else none

/-- Hours and minutes at the start of a text, in minutes. -/
def readMinutes? (s : List Char) : Option (Nat × List Char) := do
  let (hour, s) ← readDigits? 2 s
  let s := (readChar? [':'] s).getD s
  let (minute, s) ← readDigits? 2 s
  if hour < 24 ∧ minute < 60 then some (hour * 60 + minute, s) else none

/-- The microseconds of a fraction of a second; digits beyond the sixth do not count. -/
def readFraction (s : List Char) : Nat × List Char :=
  match s with
  | '.' :: rest =>
    let digits := rest.takeWhile Char.isDigit
    let six := (digits ++ List.replicate 6 '0').take 6
    (six.foldl (fun n c => 10 * n + (c.toNat - 48)) 0, rest.dropWhile Char.isDigit)
  | _ => (0, s)

/-- Seconds with their fraction after a colon, in microseconds, if there are any. -/
def readSeconds? (s : List Char) : Option (Nat × List Char) :=
  match s with
  | ':' :: rest => do
    let (second, rest) ← readDigits? 2 rest
    let (micros, rest) := readFraction rest
    if second < 60 then some (second * 1000000 + micros, rest) else none
  | _ => some (0, s)

/-- The distance from UTC at the end of a text, in minutes; none counts as zero. -/
def readZone? : List Char → Option Int
  | [] => some 0
  | ['Z'] => some 0
  | ['z'] => some 0
  | sign :: rest => do
    let (minutes, rest) ← readMinutes? rest
    if !rest.isEmpty then none
    else if sign = '+' then some minutes
    else if sign = '-' then some (-minutes)
    else none

/-- The point in time that a text names. -/
def parse? (s : String) : Option Int := do
  let (date, rest) ← readDate? s.toList
  if rest.isEmpty then some (date.toDays * dayLength)
  else
    let rest ← readChar? ['T', 't', ' ', '_'] rest
    let (minutes, rest) ← readMinutes? rest
    let (micros, rest) ← readSeconds? rest
    let zone ← readZone? rest
    return date.toDays * dayLength + (minutes - zone) * 60000000 + micros

end Workflow.Instant
