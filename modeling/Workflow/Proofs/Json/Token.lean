import Mathlib.Tactic.SplitIfs
import Workflow.Json.Reader
import Workflow.Json.Writer

/-!
# Written texts and numbers are read back

* `Json.readString_escaped` reads what is written of a text, whatever the style escapes.
* `Json.readNumber?_text` reads what is written of a whole number, if what follows cannot go on with it.
-/

namespace Workflow

namespace Text

theorem hexDigits_four {n : Nat} (h : n < 65536) : hexDigits 4 n =
    [(n / 4096).digitChar, (n / 256 % 16).digitChar, (n / 16 % 16).digitChar,
      (n % 16).digitChar] := by
  have hzero : Nat.digitChar 0 = '0' := rfl
  have hstep {m : Nat} (hm : 16 ≤ m) :
      Nat.toDigits 16 m = Nat.toDigits 16 (m / 16) ++ [(m % 16).digitChar] :=
    Nat.toDigits_of_base_le (by decide) hm
  have hlast {m : Nat} (hm : m < 16) : Nat.toDigits 16 m = [m.digitChar] :=
    Nat.toDigits_of_lt_base hm
  have hdiv : n / 16 / 16 = n / 256 ∧ n / 256 / 16 = n / 4096 := by omega
  unfold hexDigits
  rcases Nat.lt_or_ge n 16 with h1 | h1
  · rw [hlast h1]
    simp [show n / 4096 = 0 by omega, show n / 256 = 0 by omega, show n / 16 = 0 by omega,
      show n % 16 = n by omega, hzero]
  rcases Nat.lt_or_ge n 256 with h2 | h2
  · rw [hstep h1, hlast (by omega)]
    simp [show n / 4096 = 0 by omega, show n / 256 = 0 by omega,
      show n / 16 % 16 = n / 16 by omega, hzero]
  rcases Nat.lt_or_ge n 4096 with h3 | h3
  · rw [hstep h1, hstep (by omega), hdiv.1, hlast (by omega)]
    simp [show n / 4096 = 0 by omega, show n / 256 % 16 = n / 256 by omega, hzero]
  · rw [hstep h1, hstep (by omega), hdiv.1, hstep (by omega), hdiv.2, hlast (by omega)]
    simp

end Text

namespace Json

/-! ## Texts -/

theorem hexValue?_digitChar : ∀ d, d < 16 → hexValue? d.digitChar = some d := by
  decide

/-- A written unit is read, if it is not at the end. -/
theorem readUnit?_hexDigits {n : Nat} (h : n < 65536) (next : Char) (rest : List Char) :
    readUnit? (Text.hexDigits 4 n ++ next :: rest) = some (n, next :: rest) := by
  rw [Text.hexDigits_four h]
  simp only [List.cons_append, List.nil_append, readUnit?,
    hexValue?_digitChar _ (show n / 4096 < 16 by omega),
    hexValue?_digitChar _ (show n / 256 % 16 < 16 by omega),
    hexValue?_digitChar _ (show n / 16 % 16 < 16 by omega),
    hexValue?_digitChar _ (show n % 16 < 16 by omega), bind, Option.bind, pure]
  congr 2
  omega

theorem toNat_lt (c : Char) : c.toNat < 0x110000 := by
  have hvalid : c.toNat < 0xD800 ∨ 0xDFFF < c.toNat ∧ c.toNat < 0x110000 := c.valid
  omega

/-- The number of a character is not half of a surrogate pair. -/
theorem unit_of_char (c : Char) (h : c.toNat < 65536) : c.toNat < 0xD800 ∨ 0xDFFF < c.toNat := by
  have hvalid : c.toNat < 0xD800 ∨ 0xDFFF < c.toNat ∧ c.toNat < 0x110000 := c.valid
  omega

variable {start done : List Char} {fuel : Nat} {next : Char} {rest : List Char}

/-- An escape of a whole character is read as the character. -/
theorem readString_unitEscape {n : Nat} (h : n < 0xD800 ∨ 0xDFFF < n) (hn : n < 65536) :
    readString start done (fuel + 1) (unitEscape n ++ next :: rest) =
      readString start (Char.ofNat n :: done) fuel (next :: rest) := by
  rw [unitEscape, List.cons_append, List.cons_append, readString]
  simp only [readUnit?_hexDigits hn]
  rw [if_pos (by simpa using h)]

/-- The escapes of the two halves of a character are read as the character. -/
theorem readString_unitEscape_append {n : Nat} (h : 65536 ≤ n) (hn : n < 0x110000) :
    readString start done (fuel + 1) (unitEscape (0xD800 + (n - 0x10000) / 0x400) ++
        unitEscape (0xDC00 + (n - 0x10000) % 0x400) ++ next :: rest) =
      readString start (Char.ofNat n :: done) fuel (next :: rest) := by
  have hhigh : 0xD800 + (n - 0x10000) / 0x400 < 65536 := by omega
  have hlow : 0xDC00 + (n - 0x10000) % 0x400 < 65536 := by omega
  have hcode : 0x10000 + (0xD800 + (n - 0x10000) / 0x400 - 0xD800) * 0x400 +
      (0xDC00 + (n - 0x10000) % 0x400 - 0xDC00) = n := by omega
  rw [unitEscape, List.cons_append, List.cons_append, List.cons_append, List.cons_append,
    List.append_assoc, readString, unitEscape, List.cons_append, List.cons_append]
  simp only [readUnit?_hexDigits hhigh, readUnit?_hexDigits hlow]
  rw [if_neg (by simp; omega), if_neg (by omega), if_neg (by simp; omega), hcode]

/-- A character that is neither a quote nor a backslash nor below the space is read as it is. -/
theorem readString_cons {c : Char} (hquote : c ≠ '"') (hbackslash : c ≠ '\\')
    (hc : 32 ≤ c.toNat) :
    readString start done (fuel + 1) (c :: rest) = readString start (c :: done) fuel rest := by
  rw [readString, if_neg (by omega)]
  · exact hquote
  · exact hbackslash

/-- One written character is read back. -/
theorem readString_escapedChar (ascii : Bool) (c : Char) :
    readString start done (fuel + 1) (escapedChar ascii c ++ next :: rest) =
      readString start (c :: done) fuel (next :: rest) := by
  have hbound := toNat_lt c
  unfold escapedChar
  split_ifs with hquote hbackslash hline hreturn htab hback hfeed hcontrol hplain hunit
  · subst hquote
    rfl
  · subst hbackslash
    rfl
  · subst hline
    rfl
  · subst hreturn
    rfl
  · subst htab
    rfl
  · subst hback
    rfl
  · subst hfeed
    rfl
  · rw [readString_unitEscape (.inl (by omega)) (by omega), Char.ofNat_toNat]
  · exact readString_cons hquote hbackslash (by omega)
  · rw [readString_unitEscape (unit_of_char c hunit) hunit, Char.ofNat_toNat]
  · rw [readString_unitEscape_append (by omega) hbound, Char.ofNat_toNat]

/-- What is written of a text is read back. -/
theorem readString_escaped (ascii : Bool) (cs : List Char) (h : cs.length < fuel) :
    readString start done fuel (cs.flatMap (escapedChar ascii) ++ '"' :: rest) =
      .ok (String.ofList (done.reverse ++ cs), rest) := by
  induction cs generalizing done fuel with
  | nil =>
    obtain ⟨fuel, rfl⟩ := Nat.exists_eq_succ_of_ne_zero (Nat.ne_zero_of_lt h)
    simp [readString]
  | cons c cs ih =>
    obtain ⟨fuel, rfl⟩ := Nat.exists_eq_succ_of_ne_zero (Nat.ne_zero_of_lt h)
    rw [List.flatMap_cons, List.append_assoc]
    obtain ⟨next, more, hnext⟩ : ∃ next more,
        cs.flatMap (escapedChar ascii) ++ '"' :: rest = next :: more :=
      List.exists_cons_of_ne_nil (by simp)
    rw [hnext, Nat.succ_eq_add_one, readString_escapedChar, ← hnext, ih (by simpa using h)]
    simp

/-! ## Whole numbers -/

/-- What cannot go on with a number. -/
def Stops (rest : List Char) : Prop :=
  ∀ c ∈ rest.head?, c.isDigit = false ∧ c ≠ '.' ∧ c ≠ 'e' ∧ c ≠ 'E'

theorem isDigit_toDigits (n : Nat) : ∀ c ∈ Nat.toDigits 10 n, c.isDigit = true :=
  fun _ h => Nat.isDigit_of_mem_toDigits (by decide) (by decide) h

theorem head?_toDigits_append (n : Nat) (rest : List Char) :
    (Nat.toDigits 10 n ++ rest).head? = (Nat.toDigits 10 n).head? := by
  obtain ⟨c, digits, h⟩ := List.exists_cons_of_ne_nil (Nat.toDigits_ne_nil (n := n) (b := 10))
  rw [h]
  rfl

theorem digitsValue_toDigits (n : Nat) : digitsValue (Nat.toDigits 10 n) = n :=
  Nat.ofDigitChars_ten_toDigits

/-- The digits of a number start with a nought only if the number is nought. -/
theorem head?_toDigits_ne {n : Nat} (h : n ≠ 0) : (Nat.toDigits 10 n).head? ≠ some '0' := by
  induction n using Nat.strongRecOn with
  | ind n ih =>
    rcases Nat.lt_or_ge n 10 with hlt | hge
    · have hdigit : ∀ d, d < 10 → d ≠ 0 → some d.digitChar ≠ some '0' := by decide
      rw [Nat.toDigits_of_lt_base hlt]
      exact hdigit n hlt h
    · rw [Nat.toDigits_of_base_le (by decide) hge, head?_toDigits_append]
      exact ih (n / 10) (by omega) (by omega)

/-- The digits of a number are read as a whole. -/
theorem readWhole_toDigits (n : Nat) (h : Stops rest) :
    readWhole (Nat.toDigits 10 n ++ rest) = (Nat.toDigits 10 n, rest) := by
  have htake : rest.takeWhile Char.isDigit = [] ∧ rest.dropWhile Char.isDigit = rest := by
    cases rest with
    | nil => exact ⟨rfl, rfl⟩
    | cons c rest =>
      have hc := (h c rfl).1
      simp [hc]
  by_cases hn : n = 0
  · subst hn
    rfl
  · unfold readWhole
    split
    · rename_i heq
      have hhead := congrArg List.head? heq
      rw [head?_toDigits_append] at hhead
      exact absurd hhead (head?_toDigits_ne hn)
    · rw [List.takeWhile_append_of_pos (isDigit_toDigits n),
        List.dropWhile_append_of_pos (isDigit_toDigits n), htake.1, htake.2, List.append_nil]

theorem readFraction_of_stops (h : Stops rest) : readFraction rest = ([], rest) := by
  unfold readFraction
  split
  · exact absurd rfl (h _ rfl).2.1
  · rfl

theorem readExponent_of_stops (h : Stops rest) : readExponent rest = (none, rest) := by
  unfold readExponent
  split
  · obtain ⟨_, _, he, hE⟩ := h _ rfl
    rw [if_neg (by simp [he, hE])]
  · rfl

/-- The digits of a number are read as the number, whatever sign they have. -/
theorem readNumber?_toDigits (n : Nat) (h : Stops rest) :
    readNumber? (Nat.toDigits 10 n ++ rest) = some (.int n, rest) ∧
      readNumber? ('-' :: (Nat.toDigits 10 n ++ rest)) = some (.int (-n), rest) := by
  have hminus : ∀ more, Nat.toDigits 10 n ++ rest ≠ '-' :: more := by
    intro more heq
    have hhead := congrArg List.head? heq
    rw [head?_toDigits_append] at hhead
    exact absurd (isDigit_toDigits n '-' (List.mem_of_mem_head? hhead)) (by decide)
  have hempty : (Nat.toDigits 10 n).isEmpty = false := by simp
  constructor
  · unfold readNumber?
    split
    rename_i negative body heq
    split at heq
    · rename_i more hmore
      exact absurd hmore (hminus more)
    · cases heq
      simp [readWhole_toDigits n h, readFraction_of_stops h, readExponent_of_stops h, hempty,
        digitsValue_toDigits]
  · unfold readNumber?
    simp [readWhole_toDigits n h, readFraction_of_stops h, readExponent_of_stops h, hempty,
      digitsValue_toDigits]

/-- What is written of a whole number is read back. -/
theorem readNumber?_text (floats : FloatFormat) (n : Int) (h : Stops rest) :
    readNumber? ((Number.int n).text floats ++ rest) = some (.int n, rest) := by
  change readNumber? ((toString n).toList ++ rest) = _
  cases n with
  | ofNat n => simpa [toString, Int.repr] using (readNumber?_toDigits n h).1
  | negSucc n =>
    simpa [toString, Int.repr, Int.negSucc_eq] using (readNumber?_toDigits (n + 1) h).2

end Json
end Workflow
