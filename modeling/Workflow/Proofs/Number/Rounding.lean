import Mathlib.Algebra.Order.Field.Power
import Mathlib.Data.Rat.Cast.Order
import Mathlib.Tactic.Linarith
import Mathlib.Tactic.NormNum
import Mathlib.Tactic.Positivity
import Mathlib.Tactic.Ring
import Workflow.Number.Binary64

/-!
# Rounding to double-precision numbers

A fraction near enough to a double-precision number is rounded to it.

* `Binary64.Rounds` says which fractions are near enough to `m · 2 ^ e`.
* `Binary64.ofFraction_of_rounds` says that they are rounded to it, and `Binary64.ofDecimal_of_rounds`
  says so of decimal numbers.
-/

namespace Workflow

/-! ## Powers -/

theorem cast_twoPow (n : Nat) : (twoPow n : ℚ) = 2 ^ n := by
  simp [twoPow]

theorem cast_tenPow (n : Nat) : (tenPow n : ℚ) = 10 ^ n := by
  simp [tenPow]

theorem twoPow_pos (n : Nat) : 0 < twoPow n :=
  Nat.pow_pos (by decide)

theorem tenPow_pos (n : Nat) : 0 < tenPow n :=
  Nat.pow_pos (by decide)

/-- A power with an exponent of either sign, as a quotient of powers. -/
theorem pow_toNat_div {b : ℚ} (hb : b ≠ 0) (e : Int) : b ^ e.toNat / b ^ (-e).toNat = b ^ e := by
  rw [← zpow_natCast, ← zpow_natCast, ← zpow_sub₀ hb, Int.toNat_sub_toNat_neg]

theorem twoPow_div_twoPow (e : Int) : (twoPow e.toNat : ℚ) / twoPow (-e).toNat = 2 ^ e := by
  rw [cast_twoPow, cast_twoPow, pow_toNat_div two_ne_zero]

theorem tenPow_div_tenPow (e : Int) : (tenPow e.toNat : ℚ) / tenPow (-e).toNat = 10 ^ e := by
  rw [cast_tenPow, cast_tenPow, pow_toNat_div (by norm_num)]

namespace Binary64

/-! ## Bits -/

/-- The two kinds of finite numbers: those below the least power of two with a full mantissa, and the
others. -/
theorem finite_cases {x : Binary64} {negative : Bool} {m : Nat} {e : Int}
    (h : x.kind = .finite negative m e) :
    (m < 2 ^ 52 ∧ e = -1074 ∧ x = ofFields negative 0 m) ∨
      (2 ^ 52 ≤ m ∧ m < 2 ^ 53 ∧ -1074 ≤ e ∧ e ≤ 971 ∧
        x = ofFields negative (e + 1075).toNat (m - 2 ^ 52)) := by
  have hbound : x.bits.toNat < 2 ^ 64 := x.bits.toNat_lt
  have heq {n : Nat} (hn : n = x.bits.toNat) : x = ⟨UInt64.ofNat n⟩ := by
    rw [hn, UInt64.ofNat_toNat]
  have hmantissa : twoPow 52 = 4503599627370496 := rfl
  have hsign : twoPow 63 = 9223372036854775808 := rfl
  unfold kind at h
  dsimp only at h
  split at h
  · split at h <;> cases h
  split at h
  all_goals
    rename_i hfull hzero
    rw [hmantissa] at hfull hzero
    cases h
  · refine .inl ⟨Nat.mod_lt _ (twoPow_pos 52), rfl, heq ?_⟩
    simp only [hmantissa, hsign, decide_eq_true_eq]
    split_ifs <;> omega
  · rw [hmantissa]
    refine .inr ⟨by omega, by omega, by omega, by omega, heq ?_⟩
    simp only [hmantissa, hsign, decide_eq_true_eq]
    split_ifs <;> omega

theorem finite_bounds {x : Binary64} {negative : Bool} {m : Nat} {e : Int}
    (h : x.kind = .finite negative m e) : m < 2 ^ 53 ∧ -1074 ≤ e ∧ e ≤ 971 := by
  rcases finite_cases h with ⟨hm, he, _⟩ | ⟨_, hm, he, hmax, _⟩ <;> omega

/-! ## The nearest number -/

/-- The fraction is rounded to `m · 2 ^ e`. Below a power of two the numbers lie twice as close. -/
structure Rounds (m : Nat) (e : Int) (q : ℚ) : Prop where
  /-- The fraction is not too small. -/
  low : (m - if m = 2 ^ 52 ∧ -1074 < e then 1 / 4 else 1 / 2) * 2 ^ e ≤ q
  /-- The fraction is not too large. -/
  high : q ≤ (m + 1 / 2) * 2 ^ e
  /-- An odd mantissa has no ties. -/
  odd : m % 2 = 1 → (m - 1 / 2) * 2 ^ e < q ∧ q < (m + 1 / 2) * 2 ^ e

theorem Rounds.half_le {m : Nat} {e : Int} {q : ℚ} (h : Rounds m e q) : (m - 1 / 2) * 2 ^ e ≤ q := by
  refine le_trans ?_ h.low
  gcongr
  split_ifs <;> norm_num

theorem Rounds.zpow_le {m : Nat} {e : Int} {q : ℚ} (h : Rounds m e q) (hm : 0 < m) :
    2 ^ (e - 1) ≤ q := by
  refine le_trans ?_ h.half_le
  rw [zpow_sub_one₀ two_ne_zero, mul_comm]
  gcongr
  have : (1 : ℚ) ≤ m := by exact_mod_cast hm
  norm_num
  linarith

theorem Rounds.lt_zpow {m : Nat} {e : Int} {q : ℚ} (h : Rounds m e q) (hm : m < 2 ^ 53) :
    q < 2 ^ (e + 53) := by
  calc q ≤ (m + 1 / 2) * 2 ^ e := h.high
    _ < 2 ^ (53 : Int) * 2 ^ e := by
      gcongr
      have : (m : ℚ) + 1 ≤ 2 ^ 53 := by exact_mod_cast hm
      norm_num at this ⊢
      linarith
    _ = 2 ^ (e + 53) := by rw [← zpow_add₀ two_ne_zero, add_comm]

/-- Of the fractions below the numbers with an exponent, only the least number is near enough. -/
theorem Rounds.eq_of_lt {m : Nat} {e : Int} {q : ℚ} (h : Rounds m e q) (hm : 2 ^ 52 ≤ m)
    (hq : q < 2 ^ (52 : Int) * 2 ^ e) : m = 2 ^ 52 := by
  have hlt := lt_of_mul_lt_mul_right (h.half_le.trans_lt hq) (by positivity)
  have hle : (m : ℚ) < 2 ^ 52 + 1 := by
    norm_num at hlt
    linarith
  have hle : m < 2 ^ 52 + 1 := by exact_mod_cast hle
  omega

/-- A fraction no more than a half away from a number is rounded to it, unless it is half way from an odd
number. -/
theorem roundHalfEven_eq {num den m : Nat} (hden : 0 < den) (hlow : 2 * m * den ≤ 2 * num + den)
    (hhigh : 2 * num ≤ 2 * m * den + den)
    (hodd : m % 2 = 1 → 2 * m * den < 2 * num + den ∧ 2 * num < 2 * m * den + den) :
    roundHalfEven num den = m := by
  have hdivide := Nat.div_add_mod num den
  have hrest := Nat.mod_lt num hden
  unfold roundHalfEven
  dsimp only
  generalize num / den = k at *
  generalize num % den = r at *
  subst hdivide
  have hnear : m = k ∨ m = k + 1 := by
    have hle : m < k + 2 := by
      by_contra h
      have := Nat.mul_le_mul_right den (Nat.not_lt.1 h)
      linarith
    have hge : k < m + 1 := by
      by_contra h
      have := Nat.mul_le_mul_right den (Nat.not_lt.1 h)
      linarith
    omega
  rcases hnear with rfl | rfl
  · have hle : 2 * r ≤ den := by linarith
    have hlt : m % 2 = 1 → 2 * r < den := fun h => by linarith [hodd h]
    split_ifs <;> omega
  · have hge : den ≤ 2 * r := by linarith
    have hgt : (k + 1) % 2 = 1 → den < 2 * r := fun h => by linarith [hodd h]
    split_ifs <;> omega

theorem roundHalfEven_of_div {num den m : Nat} (hden : 0 < den) (hlow : (m : ℚ) - 1 / 2 ≤ num / den)
    (hhigh : (num : ℚ) / den ≤ m + 1 / 2)
    (hodd : m % 2 = 1 → (m : ℚ) - 1 / 2 < num / den ∧ (num : ℚ) / den < m + 1 / 2) :
    roundHalfEven num den = m := by
  have hpos : (0 : ℚ) < den := by exact_mod_cast hden
  rw [le_div_iff₀ hpos] at hlow
  rw [div_le_iff₀ hpos] at hhigh
  rw [lt_div_iff₀ hpos, div_lt_iff₀ hpos] at hodd
  refine roundHalfEven_eq hden ?_ ?_ fun h => ?_
  · have : (2 * m * den : ℚ) ≤ 2 * num + den := by linarith
    exact_mod_cast this
  · have : (2 * num : ℚ) ≤ 2 * m * den + den := by linarith
    exact_mod_cast this
  · obtain ⟨hlow, hhigh⟩ := hodd h
    have hlow : (2 * m * den : ℚ) < 2 * num + den := by linarith
    have hhigh : (2 * num : ℚ) < 2 * m * den + den := by linarith
    exact ⟨by exact_mod_cast hlow, by exact_mod_cast hhigh⟩

/-- The number is a power of two with the given exponent or lies between it and the next. -/
theorem floorLog2_spec {num den : Nat} (hnum : 0 < num) (hden : 0 < den) :
    (2 : ℚ) ^ floorLog2 num den ≤ num / den ∧ (num : ℚ) / den < 2 ^ (floorLog2 num den + 1) := by
  have hpos : (0 : ℚ) < den := by exact_mod_cast hden
  have hnumLow : (2 : ℚ) ^ (num.log2 : Int) ≤ num := by
    exact_mod_cast Nat.log2_self_le hnum.ne'
  have hnumHigh : (num : ℚ) < 2 ^ ((num.log2 : Int) + 1) := by
    exact_mod_cast Nat.lt_log2_self (n := num)
  have hdenLow : (2 : ℚ) ^ (den.log2 : Int) ≤ den := by
    exact_mod_cast Nat.log2_self_le hden.ne'
  have hdenHigh : (den : ℚ) < 2 ^ ((den.log2 : Int) + 1) := by
    exact_mod_cast Nat.lt_log2_self (n := den)
  unfold floorLog2
  generalize (num.log2 : Int) = a at *
  generalize (den.log2 : Int) = b at *
  have hlow : (2 : ℚ) ^ (a - b - 1) ≤ num / den := by
    rw [le_div_iff₀ hpos]
    calc (2 : ℚ) ^ (a - b - 1) * den ≤ 2 ^ (a - b - 1) * 2 ^ (b + 1) := by gcongr
      _ = 2 ^ a := by rw [← zpow_add₀ two_ne_zero]; congr 1; ring
      _ ≤ num := hnumLow
  have hhigh : (num : ℚ) / den < 2 ^ (a - b + 1) := by
    rw [div_lt_iff₀ hpos]
    calc (num : ℚ) < 2 ^ (a + 1) := hnumHigh
      _ = 2 ^ (a - b + 1) * 2 ^ b := by rw [← zpow_add₀ two_ne_zero]; congr 1; ring
      _ ≤ 2 ^ (a - b + 1) * den := by gcongr
  have hiff : num * twoPow (-(a - b)).toNat < den * twoPow (a - b).toNat ↔
      (num : ℚ) / den < 2 ^ (a - b) := by
    rw [← twoPow_div_twoPow, div_lt_div_iff₀ hpos (by exact_mod_cast twoPow_pos _),
      mul_comm (twoPow _ : ℚ)]
    norm_cast
  dsimp only
  split_ifs with h
  · exact ⟨hlow, by simpa using hiff.1 h⟩
  · exact ⟨not_lt.1 (mt hiff.2 h), hhigh⟩

theorem floorLog2_lt {num den : Nat} {k : Int} (hnum : 0 < num) (hden : 0 < den)
    (h : (num : ℚ) / den < 2 ^ k) : floorLog2 num den < k :=
  (zpow_lt_zpow_iff_right₀ one_lt_two).1 ((floorLog2_spec hnum hden).1.trans_lt h)

theorem le_floorLog2 {num den : Nat} {k : Int} (hnum : 0 < num) (hden : 0 < den)
    (h : 2 ^ k ≤ (num : ℚ) / den) : k ≤ floorLog2 num den :=
  Int.lt_add_one_iff.1
    ((zpow_lt_zpow_iff_right₀ one_lt_two).1 (h.trans_lt (floorLog2_spec hnum hden).2))

/-- The mantissa of a fraction for a given exponent. -/
theorem roundHalfEven_scaled {num den m : Nat} {e : Int} (hden : 0 < den)
    (hlow : ((m : ℚ) - 1 / 2) * 2 ^ e ≤ num / den) (hhigh : (num : ℚ) / den ≤ (m + 1 / 2) * 2 ^ e)
    (hodd : m % 2 = 1 → ((m : ℚ) - 1 / 2) * 2 ^ e < num / den ∧
      (num : ℚ) / den < (m + 1 / 2) * 2 ^ e) :
    roundHalfEven (num * twoPow (-e).toNat) (den * twoPow e.toNat) = m := by
  have hpos : (0 : ℚ) < 2 ^ e := by positivity
  have hscale : ((num * twoPow (-e).toNat : Nat) : ℚ) / (den * twoPow e.toNat : Nat) =
      num / den / 2 ^ e := by
    rw [← twoPow_div_twoPow, Nat.cast_mul, Nat.cast_mul, div_div_eq_mul_div, mul_div_mul_comm,
      ← mul_div_assoc, mul_div_right_comm]
  rw [← le_div_iff₀ hpos] at hlow
  rw [← div_le_iff₀ hpos] at hhigh
  rw [← lt_div_iff₀ hpos, ← div_lt_iff₀ hpos] at hodd
  apply roundHalfEven_of_div (Nat.mul_pos hden (twoPow_pos _))
  all_goals rwa [hscale]

/-- The exponent of the mantissa that a fraction is rounded to. -/
theorem exponent_of_rounds {m num den : Nat} {e : Int} (hm : m < 2 ^ 53) (he : -1074 ≤ e)
    (hnum : 0 < num) (hden : 0 < den) (h : Rounds m e (num / den))
    (hlow : e = -1074 ∨ (2 : ℚ) ^ (e + 52) ≤ num / den) :
    max (floorLog2 num den - 52) (-1074) = e := by
  have hlt : floorLog2 num den < e + 53 := floorLog2_lt hnum hden (h.lt_zpow hm)
  rcases hlow with rfl | hlow
  · omega
  · have := le_floorLog2 hnum hden hlow
    omega

/-- The fractions below a power of two that are rounded up to it have the exponent below. -/
theorem ofFraction_of_below {negative : Bool} {num den : Nat} {e : Int} (he : -1074 < e)
    (hmax : e ≤ 971) (hnum : 0 < num) (hden : 0 < den) (h : Rounds (2 ^ 52) e (num / den))
    (hbelow : (num : ℚ) / den < 2 ^ (52 : Int) * 2 ^ e) :
    ofFraction negative num den = ofFields negative (e + 1075).toNat 0 := by
  have hquarter : ((2 : ℚ) ^ 53 - 1 / 2) * 2 ^ (e - 1) ≤ num / den := by
    have hlow := h.low
    rw [if_pos ⟨rfl, he⟩] at hlow
    rw [zpow_sub_one₀ two_ne_zero]
    push_cast at hlow
    linarith
  have hupper : (num : ℚ) / den < 2 ^ 53 * 2 ^ (e - 1) := by
    rw [zpow_sub_one₀ two_ne_zero]
    norm_num at hbelow ⊢
    linarith
  have hexponent : max (floorLog2 num den - 52) (-1074) = e - 1 := by
    have hlt : floorLog2 num den < e + 52 := by
      apply floorLog2_lt hnum hden
      rwa [add_comm, zpow_add₀ two_ne_zero]
    have hle : e + 51 ≤ floorLog2 num den := by
      apply le_floorLog2 hnum hden
      refine le_trans ?_ hquarter
      rw [show e + 51 = 52 + (e - 1) by ring, zpow_add₀ two_ne_zero]
      gcongr
      norm_num
    omega
  have hmantissa : roundHalfEven (num * twoPow (-(e - 1)).toNat) (den * twoPow (e - 1).toNat) =
      2 ^ 53 := by
    apply roundHalfEven_scaled hden
    · exact_mod_cast hquarter
    · refine hupper.le.trans ?_
      push_cast
      gcongr
      norm_num
    · intro hodd
      cases hodd
  unfold ofFraction
  rw [if_neg hnum.ne', hexponent]
  dsimp only
  rw [hmantissa, show twoPow 52 = 2 ^ 52 from rfl, show twoPow 53 = 2 ^ 53 from rfl,
    if_neg (by norm_num), if_neg (by norm_num), if_neg (by omega)]
  congr 2
  ring

/-- A fraction that is near enough to a number is rounded to it. -/
theorem ofFraction_of_rounds {x : Binary64} {negative : Bool} {m num den : Nat} {e : Int}
    (hx : x.kind = .finite negative m e) (hnum : 0 < num) (hden : 0 < den)
    (h : Rounds m e (num / den)) : ofFraction negative num den = x := by
  obtain ⟨hm, he, hmax⟩ := finite_bounds hx
  have hsmall : m < 2 ^ 52 → e = -1074 := by
    rcases finite_cases hx with ⟨_, he, _⟩ | ⟨hge, _⟩ <;> omega
  have hfields : x = if m < 2 ^ 52 then ofFields negative 0 m
      else ofFields negative (e + 1075).toNat (m - 2 ^ 52) := by
    rcases finite_cases hx with ⟨hm, _, hx⟩ | ⟨hge, _, _, _, hx⟩
    · rw [if_pos hm, hx]
    · rw [if_neg (by omega), hx]
  by_cases hlow : e = -1074 ∨ (2 : ℚ) ^ (e + 52) ≤ num / den
  · have hmantissa := roundHalfEven_scaled hden h.half_le h.high h.odd
    unfold ofFraction
    rw [if_neg hnum.ne', exponent_of_rounds hm he hnum hden h hlow]
    dsimp only
    rw [hmantissa, hfields, show twoPow 52 = 2 ^ 52 from rfl, show twoPow 53 = 2 ^ 53 from rfl]
    split_ifs with hsubnormal
    · rfl
    · omega
    · rfl
  · rw [not_or, not_le, add_comm, zpow_add₀ two_ne_zero] at hlow
    obtain rfl := h.eq_of_lt (by omega) hlow.2
    rw [ofFraction_of_below (by omega) hmax hnum hden h hlow.2, hfields, if_neg (lt_irrefl _),
      Nat.sub_self]

/-! ## Decimal numbers -/

/-- The number of digits of a number. -/
theorem pow_length_toDigits {n : Nat} (hn : 0 < n) :
    10 ^ ((Nat.toDigits 10 n).length - 1) ≤ n ∧ n < 10 ^ (Nat.toDigits 10 n).length := by
  have hpos : 0 < (Nat.toDigits 10 n).length := Nat.length_toDigits_pos
  refine ⟨?_, (Nat.length_toDigits_le_iff (by decide) hpos).1 le_rfl⟩
  rcases Nat.eq_zero_or_pos ((Nat.toDigits 10 n).length - 1) with hzero | hmore
  · rwa [hzero]
  · by_contra h
    have := (Nat.length_toDigits_le_iff (b := 10) (by decide) hmore).2 (not_le.1 h)
    omega

/-- The powers of ten that a decimal number lies between. -/
theorem zpow_length_toDigits {n : Nat} (hn : 0 < n) (exponent : Int) :
    (10 : ℚ) ^ (((Nat.toDigits 10 n).length : Int) - 1 + exponent) ≤ n * 10 ^ exponent ∧
      (n * 10 ^ exponent : ℚ) < 10 ^ (((Nat.toDigits 10 n).length : Int) + exponent) := by
  have hlength : 0 < (Nat.toDigits 10 n).length := Nat.length_toDigits_pos
  obtain ⟨hleast, hgreatest⟩ := pow_length_toDigits hn
  generalize (Nat.toDigits 10 n).length = count at *
  have hten : (10 : ℚ) ≠ 0 := by norm_num
  rw [zpow_add₀ hten, zpow_add₀ hten, ← Nat.cast_pred hlength, zpow_natCast, zpow_natCast]
  constructor
  · gcongr
    exact_mod_cast hleast
  · gcongr
    exact_mod_cast hgreatest

/-- All finite numbers lie between the powers of ten that decimal exponents are compared with. -/
theorem two_zpow_le_ten_zpow : (2 : ℚ) ^ (1300 : Int) ≤ 10 ^ (400 : Int) := by
  rw [zpow_ofNat, zpow_ofNat, show 1300 = 13 * 100 by norm_num, show 400 = 4 * 100 by norm_num,
    pow_mul, pow_mul]
  gcongr
  norm_num

theorem ten_zpow_le_two_zpow : (10 : ℚ) ^ (-400 : Int) ≤ 2 ^ (-1300 : Int) := by
  rw [zpow_neg, zpow_neg]
  exact inv_anti₀ (by positivity) two_zpow_le_ten_zpow

/-- A decimal number that is near enough to a number is read as it. -/
theorem ofDecimal_of_rounds {x : Binary64} {negative : Bool} {m digits : Nat} {e exponent : Int}
    (hx : x.kind = .finite negative m e) (hm : 0 < m)
    (h : Rounds m e (digits * 10 ^ exponent)) : ofDecimal negative digits exponent = x := by
  obtain ⟨hbound, he, hmax⟩ := finite_bounds hx
  have hlow := h.zpow_le hm
  have hhigh := h.lt_zpow hbound
  have hdigits : 0 < digits := by
    by_contra hzero
    rw [Nat.eq_zero_of_not_pos hzero, Nat.cast_zero, zero_mul] at hlow
    exact absurd hlow (not_le.2 (by positivity))
  obtain ⟨hleast, hgreatest⟩ := zpow_length_toDigits hdigits exponent
  unfold ofDecimal
  generalize ((Nat.toDigits 10 digits).length : Int) = count at *
  have hten : (1 : ℚ) < 10 := by norm_num
  have hcount : count - 1 + exponent < 400 := by
    apply (zpow_lt_zpow_iff_right₀ hten).1
    calc (10 : ℚ) ^ (count - 1 + exponent) ≤ digits * 10 ^ exponent := hleast
      _ < 2 ^ (e + 53) := hhigh
      _ ≤ 2 ^ (1300 : Int) := zpow_le_zpow_right₀ one_le_two (by omega)
      _ ≤ 10 ^ (400 : Int) := two_zpow_le_ten_zpow
  have hcount' : -400 < count + exponent := by
    apply (zpow_lt_zpow_iff_right₀ hten).1
    calc (10 : ℚ) ^ (-400 : Int) ≤ 2 ^ (-1300 : Int) := ten_zpow_le_two_zpow
      _ ≤ 2 ^ (e - 1) := zpow_le_zpow_right₀ one_le_two (by omega)
      _ ≤ digits * 10 ^ exponent := hlow
      _ < 10 ^ (count + exponent) := hgreatest
  dsimp only
  rw [if_neg hdigits.ne', if_neg (by omega), if_neg (by omega)]
  apply ofFraction_of_rounds hx (Nat.mul_pos hdigits (tenPow_pos _)) (tenPow_pos _)
  rw [Nat.cast_mul, mul_div_assoc, tenPow_div_tenPow]
  exact h

end Binary64
end Workflow
