import Mathlib.Algebra.Group.Nat.Defs
import Mathlib.Data.List.TakeWhile
import Workflow.Text.Instant

/-!
# Points in time that are written and read

The text of a point in time is read as this point, as long as its year has four digits.

* `Instant.InCalendar` says that the year is one of these.
* `Instant.toDays_ofDays` says that a date tells its day, whatever the day is.
* `Instant.parse?_text` says that what is written in UTC is read back.
-/

namespace Workflow.Instant

/-! ## The calendar -/

/-- A day of an era of four hundred years lies in a year of a span of four years of a century. -/
structure Dated (day century span year rest : Nat) : Prop where
  century_le : century ≤ 3
  span_le : span ≤ 24
  year_le : year ≤ 3
  rest_le : rest ≤ 365
  day_eq : day = 36524 * century + 1461 * span + 365 * year + rest
  /-- Only the last year of a span is longer, and the last span of a century is not, but for the last
  one. -/
  long : rest = 365 → year = 3 ∧ (span = 24 → century = 3)

theorem exists_dated {day : Nat} (h : day < 146097) :
    ∃ century span year rest, Dated day century span year rest := by
  obtain ⟨century, hcentury⟩ : ∃ century, min (day / 36524) 3 = century := ⟨_, rfl⟩
  obtain ⟨left, hleft⟩ : ∃ left, day - 36524 * century = left := ⟨_, rfl⟩
  obtain ⟨year, hyear⟩ : ∃ year, min (left % 1461 / 365) 3 = year := ⟨_, rfl⟩
  refine ⟨century, left / 1461, year, left % 1461 - 365 * year, ?_, ?_, ?_, ?_, ?_, ?_⟩ <;> omega

/-- The year of the era is computed from its day. -/
theorem Dated.year_eq {day century span year rest : Nat} (h : Dated day century span year rest) :
    (day - day / 1460 + day / 36524 - day / 146096) / 365 = 100 * century + 4 * span + year := by
  obtain ⟨hcentury, hspan, hyear, hrest, hday, hlong⟩ := h
  have hlast : 1461 * span + 365 * year + rest < 36524 ∨ (day = 146096 ∧ century = 3) := by
    by_cases hrest : rest = 365
    · by_cases hspan : span = 24
      · omega
      · omega
    · omega
  have hcenturies : day / 36524 - day / 146096 = century ∧ day / 146096 ≤ day / 36524 := by omega
  -- of the days that are left out of the count there is one more at the end of a span at most
  have hspans : day / 1460 = 25 * century + span ∨
      (day / 1460 = 25 * century + span + 1 ∧ 0 < rest) := by omega
  have hend : rest = 365 → day / 1460 = 25 * century + span + 1 := by omega
  omega

/-- The day of an era is a day of the year that is computed from it. -/
theorem exists_dayOfYear {day : Nat} (h : day < 146097) : ∃ year dayOfYear,
    year < 400 ∧ dayOfYear ≤ 365 ∧
      (day - day / 1460 + day / 36524 - day / 146096) / 365 = year ∧
      365 * year + year / 4 - year / 100 + dayOfYear = day := by
  obtain ⟨century, span, year, rest, hdated⟩ := exists_dated h
  obtain ⟨hcentury, hspan, hyear, hrest, hday, _⟩ := id hdated
  have hspans : (100 * century + 4 * span + year) / 4 = 25 * century + span := by omega
  have hcenturies : (100 * century + 4 * span + year) / 100 = century := by omega
  exact ⟨_, rest, by omega, hrest, hdated.year_eq, by omega⟩

/-- What the date of a day is made of. -/
structure Days (days : Int) (era : Int) (year dayOfYear month : Nat) : Prop where
  year_lt : year < 400
  dayOfYear_le : dayOfYear ≤ 365
  month_eq : (5 * dayOfYear + 2) / 153 = month
  days_eq : days = era * 146097 +
    ((365 * year + year / 4 - year / 100 + dayOfYear : Nat) : Int) - 719468
  date_eq : Date.ofDays days =
    { year := (year : Int) + era * 400 + (if month < 10 then 0 else 1)
      month := if month < 10 then month + 3 else month - 9
      day := dayOfYear - (153 * month + 2) / 5 + 1 }

theorem exists_days (days : Int) : ∃ era year dayOfYear month, Days days era year dayOfYear month := by
  obtain ⟨year, dayOfYear, hyear, hdayOfYear, hcomputed, hday⟩ :=
    exists_dayOfYear (show ((days + 719468) % 146097).toNat < 146097 by omega)
  have hrest : ((days + 719468) % 146097).toNat - (365 * year + year / 4 - year / 100) =
      dayOfYear := by omega
  refine ⟨(days + 719468) / 146097, year, dayOfYear, (5 * dayOfYear + 2) / 153, hyear, hdayOfYear,
    rfl, by omega, ?_⟩
  rw [Date.ofDays]
  simp only [hcomputed, hrest]
  by_cases hmonth : (5 * dayOfYear + 2) / 153 < 10
  · simp only [hmonth, if_true]
    rw [if_neg (by omega)]
  · simp only [hmonth, if_false]
    rw [if_pos (by omega)]

/-- The date of a day tells the day. -/
theorem toDays_ofDays (days : Int) : (Date.ofDays days).toDays = days := by
  obtain ⟨era, year, dayOfYear, month, hyear, hdayOfYear, hmonth, hdays, hdate⟩ := exists_days days
  have hera : ((year : Int) + era * 400) / 400 = era ∧
      (((year : Int) + era * 400) % 400).toNat = year := by omega
  rw [hdate, Date.toDays]
  by_cases hmarch : month < 10
  · simp only [hmarch, if_true]
    rw [if_neg (by omega), if_neg (by omega), Int.add_zero, hera.1, hera.2]
    omega
  · simp only [hmarch, if_false]
    rw [if_pos (by omega), if_pos (by omega), Int.add_sub_cancel, hera.1, hera.2]
    omega

/-- The point in time is in one of the years from 1 to 9999. -/
def InCalendar (time : Int) : Prop :=
  -62135596800000000 ≤ time ∧ time < 253402300800000000

instance (time : Int) : Decidable (InCalendar time) :=
  inferInstanceAs (Decidable (_ ∧ _))

theorem InCalendar.between {first last time : Int} (hfirst : InCalendar first)
    (hlast : InCalendar last) (h : first ≤ time ∧ time ≤ last) : InCalendar time :=
  ⟨Int.le_trans hfirst.1 h.1, Int.lt_of_le_of_lt h.2 hlast.2⟩

/-- The parts of the date of a point in time have no more digits than are written. -/
theorem InCalendar.date {time : Int} (h : InCalendar time) {date : Date}
    (hdate : Date.ofDays (time / dayLength) = date) :
    0 ≤ date.year ∧ date.year < 10000 ∧ 1 ≤ date.month ∧ date.month ≤ 12 ∧ date.day < 100 := by
  obtain ⟨hfirst, hlast⟩ := h
  obtain ⟨days, hdays⟩ : ∃ days, time / dayLength = days := ⟨_, rfl⟩
  have hbounds : -719162 ≤ days ∧ days ≤ 2932896 := by
    rw [dayLength] at hdays
    omega
  obtain ⟨era, year, dayOfYear, month, hyear, hdayOfYear, hmonth, heq, hof⟩ := exists_days days
  rw [hdays, hof] at hdate
  clear hfirst hlast hdays hof
  subst hdate
  by_cases hmarch : month < 10
  · simp only [hmarch, if_true]
    omega
  · simp only [hmarch, if_false]
    omega

/-! ## Digits -/

variable {n width : Nat} {rest : List Char}

theorem isDigit_of_mem_padded {c : Char} (h : c ∈ padded width n) : c.isDigit = true := by
  rcases List.mem_append.1 h with hzero | hdigit
  · rw [List.eq_of_mem_replicate hzero]
    rfl
  · exact Nat.isDigit_of_mem_toDigits (by decide) (by decide) hdigit

theorem length_padded (hwidth : 0 < width) (h : n < 10 ^ width) :
    (padded width n).length = width := by
  have hlength : (Nat.toDigits 10 n).length ≤ width :=
    (Nat.length_toDigits_le_iff (by decide) hwidth).2 h
  rw [padded, List.length_append, List.length_replicate]
  omega

/-- Leading noughts do not count. -/
theorem foldl_padded (width n : Nat) :
    (padded width n).foldl (fun n c => 10 * n + (c.toNat - 48)) 0 = n := by
  have hzeros (k : Nat) :
      (List.replicate k '0').foldl (fun n c => 10 * n + (c.toNat - 48)) 0 = 0 := by
    induction k with
    | zero => rfl
    | succ k ih => exact ih
  rw [padded, List.foldl_append, hzeros]
  exact Nat.ofDigitChars_ten_toDigits

/-- A number with leading noughts is read back. -/
theorem readDigits?_padded (hwidth : 0 < width) (h : n < 10 ^ width) (rest : List Char) :
    readDigits? width (padded width n ++ rest) = some (n, rest) := by
  have hlength := length_padded hwidth h
  have hdigits : (padded width n).all Char.isDigit = true :=
    List.all_eq_true.2 fun _ hc => isDigit_of_mem_padded hc
  rw [readDigits?, List.take_left' hlength, List.drop_left' hlength]
  simp only [hlength, hdigits, foldl_padded, decide_true, Bool.and_self, if_true]

/-! ## Texts -/

/-- The date of a point in time is read back. -/
theorem readDate?_dateChars {time : Int} (h : InCalendar time) (rest : List Char) :
    readDate? (dateChars time ++ rest) = some (Date.ofDays (time / dayLength), rest) := by
  obtain ⟨date, hdate⟩ : ∃ date, Date.ofDays (time / dayLength) = date := ⟨_, rfl⟩
  obtain ⟨hyear, hlast, hfirst, htwelve, hday⟩ := h.date hdate
  have hback : Date.ofDays date.toDays = date := by rw [← hdate, toDays_ofDays]
  have hyear' : ((date.year.toNat : Nat) : Int) = date.year := Int.toNat_of_nonneg hyear
  simp only [dateChars, hdate, List.append_assoc, List.cons_append]
  rw [readDate?, readDigits?_padded (by decide) (by omega)]
  simp only [bind, Option.bind, readChar?, List.contains_cons, beq_self_eq_true, Bool.true_or, if_true]
  rw [readDigits?_padded (by decide) (by omega)]
  simp only [beq_self_eq_true, Bool.true_or, if_true]
  rw [readDigits?_padded (by decide) hday]
  simp only [hyear', hback, hfirst, htwelve, and_self, if_true]

/-- What is written after a point is read back. -/
theorem readFraction_fractionChars (time : Int) {c : Char} (hc : c.isDigit = false) (hpoint : c ≠ '.') :
    readFraction (fractionChars time ++ c :: rest) = ((time % 1000000).toNat, c :: rest) := by
  rw [fractionChars]
  by_cases hzero : (time % 1000000).toNat = 0
  · simp only [hzero, if_true, List.nil_append]
    rw [readFraction]
    intro _ heq
    exact hpoint (List.cons.inj heq).1
  · have hmicroseconds : (time % 1000000).toNat < 10 ^ 6 := by omega
    have hlength := length_padded (by decide) hmicroseconds
    have htake : (padded 6 (time % 1000000).toNat ++ c :: rest).takeWhile Char.isDigit =
        padded 6 (time % 1000000).toNat := by
      rw [List.takeWhile_append_of_pos fun _ hd => isDigit_of_mem_padded hd,
        List.takeWhile_cons_of_neg (by simp [hc]), List.append_nil]
    have hdrop : (padded 6 (time % 1000000).toNat ++ c :: rest).dropWhile Char.isDigit =
        c :: rest := by
      rw [List.dropWhile_append_of_pos fun _ hd => isDigit_of_mem_padded hd,
        List.dropWhile_cons_of_neg (by simp [hc])]
    simp only [hzero, if_false, List.cons_append, readFraction, htake, hdrop]
    rw [List.take_left' hlength, foldl_padded]

/-- Hours and minutes are read back. -/
theorem readMinutes?_padded {hour minute : Nat} (hhour : hour < 24) (hminute : minute < 60)
    (rest : List Char) :
    readMinutes? (padded 2 hour ++ ':' :: (padded 2 minute ++ rest)) =
      some (hour * 60 + minute, rest) := by
  rw [readMinutes?, readDigits?_padded (by decide) (by omega)]
  simp only [bind, Option.bind, readChar?, List.contains_cons, beq_self_eq_true, Bool.true_or,
    if_true, Option.getD_some]
  rw [readDigits?_padded (by decide) (by omega)]
  simp only [hhour, hminute, and_self, if_true]

/-- Seconds with their fraction are read back. -/
theorem readSeconds?_padded {second : Nat} (hsecond : second < 60) (time : Int) {c : Char}
    (hc : c.isDigit = false) (hpoint : c ≠ '.') :
    readSeconds? (':' :: (padded 2 second ++ (fractionChars time ++ c :: rest))) =
      some (second * 1000000 + (time % 1000000).toNat, c :: rest) := by
  rw [readSeconds?, readDigits?_padded (by decide) (by omega)]
  simp only [bind, Option.bind, readFraction_fractionChars time hc hpoint, hsecond, if_true]

/-- What is written in UTC is read back. -/
theorem parse?_text {time : Int} (h : InCalendar time) : parse? (text time "Z") = some time := by
  obtain ⟨second, hsecond⟩ : ∃ second, (time % dayLength / 1000000).toNat = second := ⟨_, rfl⟩
  have hday : second < 86400 := by
    rw [dayLength] at hsecond
    omega
  have hlist : (text time "Z").toList = dateChars time ++ 'T' :: (padded 2 (second / 3600) ++
      ':' :: (padded 2 (second / 60 % 60) ++ ':' :: (padded 2 (second % 60) ++
        (fractionChars time ++ ['Z'])))) := by
    simp [text, clockChars, hsecond]
  rw [parse?, hlist, readDate?_dateChars h]
  simp only [bind, Option.bind, List.isEmpty_cons, Bool.false_eq_true, if_false, readChar?,
    List.contains_cons, beq_self_eq_true, Bool.true_or, if_true]
  rw [readMinutes?_padded (by omega) (by omega)]
  simp only
  rw [readSeconds?_padded (Nat.mod_lt _ (by decide)) time (by decide) (by decide)]
  simp only [readZone?, pure, toDays_ofDays, Option.some.injEq, Int.sub_zero]
  rw [dayLength] at hsecond ⊢
  omega

end Workflow.Instant
