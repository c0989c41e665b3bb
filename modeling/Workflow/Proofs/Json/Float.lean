import Workflow.Proofs.Json.Token
import Workflow.Proofs.Number.Shortest

/-!
# Written double-precision numbers are read back

* `Json.ReadsDecimal` says that a text is read as a decimal number, whatever sign stands before it.
* `Json.exists_readsDecimal_layout` says so of what is laid out of digits: the decimal number has their value.
* `Binary64.scientific_spec` says that what is laid out of a decimal number stands for it.
* `Json.readNumber?_float` puts them together: a finite double-precision number is read back.
-/

namespace Workflow

namespace Json

/-! ## Digits -/

/-- What cannot go on with digits. -/
def EndsDigits (rest : List Char) : Prop :=
  ∀ c ∈ rest.head?, c.isDigit = false

theorem Stops.endsDigits {rest : List Char} (h : Stops rest) : EndsDigits rest :=
  fun c hc => (h c hc).1

theorem endsDigits_cons {c : Char} (h : c.isDigit = false) (rest : List Char) :
    EndsDigits (c :: rest) := by
  intro d hd
  cases hd
  exact h

variable {digits more rest : List Char} {power : Int} {f : FloatFormat}

theorem span_digits_append (hdigits : ∀ c ∈ digits, c.isDigit = true) (hrest : EndsDigits rest) :
    (digits ++ rest).takeWhile Char.isDigit = digits ∧
      (digits ++ rest).dropWhile Char.isDigit = rest := by
  rw [List.takeWhile_append_of_pos hdigits, List.dropWhile_append_of_pos hdigits]
  cases rest with
  | nil => simp
  | cons c rest =>
    have hc := hrest c rfl
    simp [hc]

theorem digitsValue_cons (c : Char) (digits : List Char) :
    digitsValue (c :: digits) = (c.toNat - 48) * 10 ^ digits.length + digitsValue digits := by
  have hstart (n : Nat) : digits.foldl (fun n c => 10 * n + (c.toNat - 48)) n =
      n * 10 ^ digits.length + digitsValue digits := by
    rw [digitsValue]
    induction digits generalizing n with
    | nil => simp
    | cons d digits ih =>
      rw [List.foldl_cons, ih, List.foldl_cons, ih (10 * 0 + _), List.length_cons]
      ring
  rw [digitsValue, List.foldl_cons, hstart, Nat.mul_zero, Nat.zero_add]

theorem digitsValue_append (digits more : List Char) :
    digitsValue (digits ++ more) = digitsValue digits * 10 ^ more.length + digitsValue more := by
  induction digits with
  | nil => simp [digitsValue]
  | cons c digits ih =>
    rw [List.cons_append, digitsValue_cons, digitsValue_cons, ih, List.length_append]
    ring

theorem digitsValue_replicate (n : Nat) : digitsValue (List.replicate n '0') = 0 := by
  induction n with
  | zero => rfl
  | succ n ih => simp [List.replicate_succ, digitsValue_cons, ih]

/-! ## Parts of numbers -/

theorem readWhole_append (hne : digits ≠ []) (hdigits : ∀ c ∈ digits, c.isDigit = true)
    (hhead : digits.head? = some '0' → digits = ['0']) (hrest : EndsDigits rest) :
    readWhole (digits ++ rest) = (digits, rest) := by
  obtain ⟨c, cs, rfl⟩ := List.exists_cons_of_ne_nil hne
  obtain ⟨htake, hdrop⟩ := span_digits_append hdigits hrest
  unfold readWhole
  split
  · rename_i heq
    cases heq
    cases hhead rfl
    rfl
  · rw [htake, hdrop]

theorem readFraction_append (hne : digits ≠ []) (hdigits : ∀ c ∈ digits, c.isDigit = true)
    (hrest : EndsDigits rest) : readFraction ('.' :: (digits ++ rest)) = (digits, rest) := by
  obtain ⟨htake, hdrop⟩ := span_digits_append hdigits hrest
  unfold readFraction
  simp [htake, hdrop, hne]

/-- The text of an exponent is a letter, perhaps a sign, and digits. -/
theorem exists_exponentText (f : FloatFormat) (power : Int) : ∃ digits : List Char, digits ≠ [] ∧
    (∀ c ∈ digits, c.isDigit = true) ∧ digitsValue digits = power.natAbs ∧
      f.exponentText power =
        'e' :: ((if power < 0 then ['-'] else if f.plusSign then ['+'] else []) ++ digits) := by
  refine ⟨List.replicate (f.exponentWidth - (Nat.toDigits 10 power.natAbs).length) '0' ++
    Nat.toDigits 10 power.natAbs, by simp, fun c hc => ?_, ?_, ?_⟩
  · rcases List.mem_append.1 hc with hc | hc
    · rw [List.eq_of_mem_replicate hc]
      rfl
    · exact isDigit_toDigits _ c hc
  · rw [digitsValue_append, digitsValue_replicate, digitsValue_toDigits, Nat.zero_mul, Nat.zero_add]
  · simp [FloatFormat.exponentText]

/-- The text of an exponent is read as the exponent. -/
theorem readExponent_exponentText (f : FloatFormat) (power : Int) (hrest : EndsDigits rest) :
    readExponent (f.exponentText power ++ rest) = (some power, rest) := by
  obtain ⟨digits, hne, hdigits, hvalue, htext⟩ := exists_exponentText f power
  obtain ⟨htake, hdrop⟩ := span_digits_append hdigits hrest
  have hnat : (power.natAbs : Int) = if power < 0 then -power else power := by
    split_ifs <;> omega
  rw [htext]
  by_cases hneg : power < 0
  · rw [if_pos hneg] at hnat
    simp [readExponent, hneg, htake, hdrop, hne, hvalue, hnat]
  rw [if_neg hneg] at hnat
  by_cases hplus : f.plusSign = true
  · simp [readExponent, hneg, hplus, htake, hdrop, hne, hvalue, hnat]
  · -- without a sign, the first digit is not taken for one
    obtain ⟨c, cs, rfl⟩ := List.exists_cons_of_ne_nil hne
    have hc := hdigits c List.mem_cons_self
    have hminus : c ≠ '-' := by rintro rfl; cases hc
    have hplus' : c ≠ '+' := by rintro rfl; cases hc
    rw [if_neg hneg, if_neg hplus, List.nil_append, List.cons_append, List.cons_append]
    rw [List.cons_append] at htake hdrop
    unfold readExponent
    dsimp only
    split
    · split
      · rename_i heq
        exact absurd (List.cons.inj heq).1 hminus
      · rename_i heq
        exact absurd (List.cons.inj heq).1 hplus'
      · simp [htake, hdrop, hvalue, hnat]
    · contradiction

/-- What is left is read as a decimal number, whatever sign stands before it. -/
def ReadsDecimal (body : List Char) (n : Nat) (exponent : Int) (rest : List Char) : Prop :=
  ∀ negative : Bool, readNumber? ((if negative then ['-'] else []) ++ body) =
    some (.float (.ofDecimal negative n exponent), rest)

/-- A number is read from its parts, if it has a fraction or an exponent. -/
theorem readsDecimal_of_parts {body whole afterWhole fraction afterFraction : List Char}
    {exponent : Option Int} (hwhole : readWhole body = (whole, afterWhole)) (hne : whole ≠ [])
    (hfraction : readFraction afterWhole = (fraction, afterFraction))
    (hexponent : readExponent afterFraction = (exponent, rest))
    (hfloat : fraction = [] → exponent.isSome = true) :
    ReadsDecimal body (digitsValue (whole ++ fraction)) (exponent.getD 0 - fraction.length) rest := by
  have hminus : ∀ more, body ≠ '-' :: more := by
    rintro more rfl
    simp [readWhole] at hwhole
    exact hne hwhole.1
  have hnot : (fraction.isEmpty && exponent.isNone) = false := by
    cases fraction with
    | nil => simpa using hfloat rfl
    | cons => rfl
  intro negative
  cases negative with
  | true => simp [readNumber?, hwhole, hne, hfraction, hexponent, hnot]
  | false =>
    rw [if_neg Bool.false_ne_true, List.nil_append]
    unfold readNumber?
    split
    rename_i heq
    split at heq
    · exact absurd rfl (hminus _)
    · cases heq
      simp [hwhole, hne, hfraction, hexponent, hnot]

/-! ## Layouts -/

/-- The number that digits stand for whose first one stands for ten to the power. -/
def scientificValue (digits : List Char) (power : Int) : ℚ :=
  digitsValue digits * 10 ^ (power + 1 - digits.length)

/-- One digit, perhaps a point and the others, and an exponent. -/
theorem readsDecimal_exponent (f : FloatFormat) (power : Int) {d : Char} {ds : List Char} (hd : d.isDigit = true)
    (hds : ∀ c ∈ ds, c.isDigit = true) (hrest : EndsDigits rest) :
    ReadsDecimal (d :: ((if ds = [] then [] else '.' :: ds) ++ (f.exponentText power ++ rest)))
      (digitsValue (d :: ds)) (power - ds.length) rest := by
  have hexponent := readExponent_exponentText f power hrest
  have hwhole (more : List Char) (hmore : EndsDigits more) : readWhole ([d] ++ more) = ([d], more) :=
    readWhole_append nofun (by simpa using hd) (by simp) hmore
  obtain ⟨digits, _, _, _, htext⟩ := exists_exponentText f power
  have hends : EndsDigits (f.exponentText power ++ rest) := by
    rw [htext]
    exact endsDigits_cons rfl _
  split_ifs with hnil
  · subst hnil
    have hletter : readFraction (f.exponentText power ++ rest) =
        ([], f.exponentText power ++ rest) := by
      rw [htext]
      rfl
    exact readsDecimal_of_parts (hwhole _ hends) nofun hletter hexponent fun _ => rfl
  · exact readsDecimal_of_parts (hwhole _ (endsDigits_cons rfl _)) nofun
      (readFraction_append hnil hds hends) hexponent fun _ => rfl

/-- Digits, a point and more digits. -/
theorem readsDecimal_point (whole fraction : List Char) (hne : whole ≠ [])
    (hwhole : ∀ c ∈ whole, c.isDigit = true) (hhead : whole.head? = some '0' → whole = ['0'])
    (hmore : fraction ≠ []) (hfraction : ∀ c ∈ fraction, c.isDigit = true) (hrest : Stops rest) :
    ReadsDecimal (whole ++ '.' :: (fraction ++ rest)) (digitsValue (whole ++ fraction))
      (-fraction.length) rest := by
  have h := readsDecimal_of_parts (readWhole_append hne hwhole hhead (endsDigits_cons rfl _)) hne
    (readFraction_append hmore hfraction hrest.endsDigits) (readExponent_of_stops hrest)
    fun hnil => absurd hnil hmore
  simpa using h

theorem isDigit_replicate (n : Nat) : ∀ c ∈ List.replicate n '0', c.isDigit = true := by
  intro c hc
  rw [List.eq_of_mem_replicate hc]
  rfl

theorem isDigit_append (h : ∀ c ∈ digits, c.isDigit = true) (hmore : ∀ c ∈ more, c.isDigit = true) :
    ∀ c ∈ digits ++ more, c.isDigit = true :=
  List.forall_mem_append.2 ⟨h, hmore⟩

/-- Noughts before the digits. -/
theorem readsDecimal_small (hne : digits ≠ []) (hdigits : ∀ c ∈ digits, c.isDigit = true)
    (hpower : power < 0) (hrest : Stops rest) :
    ReadsDecimal ('0' :: '.' :: List.replicate (-power - 1).toNat '0' ++ digits ++ rest)
      (digitsValue digits) (power + 1 - digits.length) rest := by
  have h := readsDecimal_point ['0'] _ nofun (by simp) (by simp) (by simp [hne])
    (isDigit_append (isDigit_replicate (-power - 1).toNat) hdigits) hrest
  have hvalue : digitsValue (['0'] ++ (List.replicate (-power - 1).toNat '0' ++ digits)) =
      digitsValue digits := by
    simp [digitsValue_cons, digitsValue_append, digitsValue_replicate]
  have hexponent : -((List.replicate (-power - 1).toNat '0' ++ digits).length : Int) =
      power + 1 - digits.length := by
    rw [List.length_append, List.length_replicate]
    omega
  rw [hvalue, hexponent] at h
  simpa using h

/-- Noughts after the digits, and a nought after the point. -/
theorem readsDecimal_padded (hne : digits ≠ []) (hdigits : ∀ c ∈ digits, c.isDigit = true)
    (hhead : digits.head? = some '0' → digits = ['0'] ∧ power = 0)
    (hlength : digits.length ≤ power.toNat + 1) (hrest : Stops rest) :
    ReadsDecimal (digits ++ List.replicate (power.toNat + 1 - digits.length) '0' ++ '.' :: '0' :: rest)
      (digitsValue digits * 10 ^ (power.toNat + 1 - digits.length + 1)) (-1) rest := by
  have hwholeHead : (digits ++ List.replicate (power.toNat + 1 - digits.length) '0').head? = some '0' →
      digits ++ List.replicate (power.toNat + 1 - digits.length) '0' = ['0'] := by
    rw [List.head?_append_of_ne_nil _ hne]
    intro h
    obtain ⟨rfl, rfl⟩ := hhead h
    rfl
  have h := readsDecimal_point _ ['0'] (by simp [hne]) (isDigit_append hdigits (isDigit_replicate _))
    hwholeHead nofun (by simp) hrest
  have hvalue : digitsValue (digits ++ List.replicate (power.toNat + 1 - digits.length) '0' ++ ['0']) =
      digitsValue digits * 10 ^ (power.toNat + 1 - digits.length + 1) := by
    rw [List.append_assoc, digitsValue_append, digitsValue_append, digitsValue_replicate,
      List.length_append, List.length_replicate]
    simp [digitsValue]
  rw [hvalue] at h
  simpa using h

/-- Some of the digits after the point. -/
theorem readsDecimal_split (hdigits : ∀ c ∈ digits, c.isDigit = true) (hhead : digits.head? ≠ some '0')
    (hpower : ¬ power < 0) (hlength : power.toNat + 1 < digits.length) (hrest : Stops rest) :
    ReadsDecimal (digits.take (power.toNat + 1) ++ '.' :: (digits.drop (power.toNat + 1) ++ rest))
      (digitsValue digits) (power + 1 - digits.length) rest := by
  have hne : digits ≠ [] := by
    rintro rfl
    cases hlength
  have hwholeHead : (digits.take (power.toNat + 1)).head? ≠ some '0' := by
    simpa [List.head?_take] using hhead
  have h := readsDecimal_point _ _ (by simp [hne]) (fun c hc => hdigits c (List.mem_of_mem_take hc))
    (fun hzero => absurd hzero hwholeHead) (by simpa using hlength)
    (fun c hc => hdigits c (List.mem_of_mem_drop hc)) hrest
  have hexponent : -((digits.drop (power.toNat + 1)).length : Int) = power + 1 - digits.length := by
    rw [List.length_drop]
    omega
  rwa [List.take_append_drop, hexponent] at h

/-- What is laid out of digits is read as a decimal number with their value. -/
theorem exists_readsDecimal_layout (hpoint : f.pointZero = true) (hne : digits ≠ [])
    (hdigits : ∀ c ∈ digits, c.isDigit = true)
    (hhead : digits.head? = some '0' → digits = ['0'] ∧ power = 0) (hrest : Stops rest) :
    ∃ (n : Nat) (exponent : Int), (n * 10 ^ exponent : ℚ) = scientificValue digits power ∧
      ReadsDecimal (f.layout digits power ++ rest) n exponent rest := by
  unfold FloatFormat.layout
  split
  · obtain ⟨d, ds, rfl⟩ := List.exists_cons_of_ne_nil hne
    obtain ⟨hd, hds⟩ := List.forall_mem_cons.1 hdigits
    refine ⟨digitsValue (d :: ds), power - ds.length, ?_, ?_⟩
    · rw [scientificValue, List.length_cons]
      congr 2
      push_cast
      ring
    · have h := readsDecimal_exponent f power hd hds hrest.endsDigits
      cases ds <;> simpa using h
  split
  · rename_i hneg
    exact ⟨_, _, rfl, readsDecimal_small hne hdigits hneg hrest⟩
  rename_i hneg
  dsimp only
  rcases Nat.lt_or_ge (power.toNat + 1) digits.length with hlength | hlength
  · -- a nought in front stands alone, so it has no digits after the point
    have hzero : digits.head? ≠ some '0' := by
      intro h
      obtain ⟨rfl, rfl⟩ := hhead h
      exact absurd hlength (by decide)
    have hpart : (digits.drop (power.toNat + 1)).isEmpty = false := by simpa using hlength
    have hnone : power.toNat + 1 - digits.length = 0 := by omega
    have h := readsDecimal_split hdigits hzero hneg hlength hrest
    exact ⟨_, _, rfl, by simpa [hpart, hnone] using h⟩
  · have hpart : (digits.drop (power.toNat + 1)).isEmpty = true := by simpa using hlength
    have hpower : power + 1 - digits.length = (power.toNat + 1 - digits.length : Nat) := by omega
    have h := readsDecimal_padded hne hdigits hhead hlength hrest
    refine ⟨_, _, ?_, by simpa [hpart, hpoint, List.take_of_length_le hlength] using h⟩
    rw [scientificValue, hpower, zpow_natCast, zpow_neg_one]
    push_cast
    ring

end Json

/-! ## Numbers -/

namespace Binary64

/-- Only noughts are dropped at the end of the digits of a decimal number. -/
theorem exists_toDigits_eq (d : Decimal) :
    ∃ zeros, Nat.toDigits 10 d.digits = d.scientific.1 ++ List.replicate zeros '0' := by
  obtain ⟨zeros, hzeros⟩ : ∃ zeros, ((Nat.toDigits 10 d.digits).reverse.takeWhile (· == '0')).reverse =
      List.replicate zeros '0' := ⟨_, List.eq_replicate_of_mem fun c hc => by
    simpa using List.all_eq_true.1 List.all_takeWhile c (List.mem_reverse.1 hc)⟩
  refine ⟨zeros, ?_⟩
  rw [← hzeros, Decimal.scientific, ← List.reverse_append, List.takeWhile_append_dropWhile,
    List.reverse_reverse]

theorem isDigit_scientific (d : Decimal) : ∀ c ∈ d.scientific.1, c.isDigit = true := by
  intro c hc
  obtain ⟨zeros, hzeros⟩ := exists_toDigits_eq d
  apply Json.isDigit_toDigits d.digits
  rw [hzeros]
  exact List.mem_append_left _ hc

/-- What is laid out of a positive decimal number stands for it. -/
theorem scientific_spec {d : Decimal} (hd : 0 < d.digits) :
    d.scientific.1 ≠ [] ∧ d.scientific.1.head? ≠ some '0' ∧
      Json.scientificValue d.scientific.1 d.scientific.2 = d.value := by
  obtain ⟨zeros, hzeros⟩ := exists_toDigits_eq d
  have hpower : d.scientific.2 = d.exponent + (Nat.toDigits 10 d.digits).length - 1 := rfl
  rw [hpower, hzeros, List.length_append, List.length_replicate]
  generalize d.scientific.1 = digits at *
  have hvalue : d.digits = Json.digitsValue digits * 10 ^ zeros := by
    rw [← Json.digitsValue_toDigits d.digits, hzeros, Json.digitsValue_append,
      Json.digitsValue_replicate, List.length_replicate, Nat.add_zero]
  have hne : digits ≠ [] := by
    rintro rfl
    simp [Json.digitsValue] at hvalue
    omega
  refine ⟨hne, ?_, ?_⟩
  · have hhead := Json.head?_toDigits_ne hd.ne'
    rwa [hzeros, List.head?_append_of_ne_nil _ hne] at hhead
  · have hexponent : d.exponent + ((digits.length + zeros : Nat) : Int) - 1 + 1 - digits.length =
        zeros + d.exponent := by
      push_cast
      ring
    rw [Json.scientificValue, Decimal.value, hvalue, hexponent, zpow_add₀ (by norm_num),
      zpow_natCast]
    push_cast
    ring

theorem exists_kind_eq {x : Binary64} (h : x.isFinite = true) :
    ∃ negative m e, x.kind = .finite negative m e := by
  unfold isFinite at h
  split at h
  · exact ⟨_, _, _, ‹_›⟩
  · cases h

theorem text_eq {x : Binary64} {negative : Bool} {m : Nat} {e : Int} (h : x.kind = .finite negative m e)
    (f : FloatFormat) : x.text f = (if negative then ['-'] else []) ++
      if m = 0 then f.layout ['0'] 0
      else f.layout (shortest m e).scientific.1 (shortest m e).scientific.2 := by
  rw [text, FloatFormat.write, h]
  by_cases hm : m = 0
  · simp [hm]
  · simp [hm]

end Binary64

namespace Json

variable {rest : List Char}

/-- What is written of a finite double-precision number is read back. -/
theorem readNumber?_float {floats : FloatFormat} (hpoint : floats.pointZero = true) {x : Binary64}
    (hx : x.isFinite = true) (hrest : Stops rest) :
    readNumber? ((Number.float x).text floats ++ rest) = some (.float x, rest) := by
  obtain ⟨negative, m, e, hkind⟩ := Binary64.exists_kind_eq hx
  rw [Number.text, Binary64.text_eq hkind, List.append_assoc]
  rcases Nat.eq_zero_or_pos m with rfl | hm
  · have hnought : ∀ c ∈ ['0'], c.isDigit = true := by simp
    obtain ⟨n, exponent, hvalue, hread⟩ :=
      exists_readsDecimal_layout hpoint (List.cons_ne_nil _ _) hnought (fun _ => ⟨rfl, rfl⟩) hrest
    have hn : n = 0 := by
      rw [scientificValue, show digitsValue ['0'] = 0 from rfl, Nat.cast_zero, zero_mul,
        mul_eq_zero_iff_right (by positivity)] at hvalue
      exact_mod_cast hvalue
    have hof : Binary64.ofDecimal negative n exponent = x := by
      rcases Binary64.finite_cases hkind with ⟨_, _, hx⟩ | ⟨hge, _⟩
      · rw [hn, hx]
        rfl
      · omega
    rw [if_pos rfl, hread negative, hof]
  · obtain ⟨hbound, he, _⟩ := Binary64.finite_bounds hkind
    have hrounds := Binary64.rounds_shortest hm hbound he
    have hdigits : 0 < (Binary64.shortest m e).digits := by
      by_contra hzero
      have hle := hrounds.zpow_le hm
      rw [Binary64.Decimal.value, Nat.eq_zero_of_not_pos hzero, Nat.cast_zero, zero_mul] at hle
      exact absurd hle (not_le.2 (by positivity))
    obtain ⟨hne, hhead, hscientific⟩ := Binary64.scientific_spec hdigits
    obtain ⟨n, exponent, hvalue, hread⟩ := exists_readsDecimal_layout hpoint hne
      (Binary64.isDigit_scientific _) (fun h => absurd h hhead) hrest
    have hof : Binary64.ofDecimal negative n exponent = x := by
      apply Binary64.ofDecimal_of_rounds hkind hm
      rwa [hvalue, hscientific]
    rw [if_neg hm.ne', hread negative, hof]

end Json
end Workflow
