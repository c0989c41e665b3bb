import Mathlib.Data.Nat.Cast.Order.Field
import Workflow.Number.Shortest
import Workflow.Proofs.Number.Rounding

/-!
# Shortest digits

The decimal number that `Binary64.shortest` finds for a double-precision number is rounded to that
number.

* `Binary64.holds_iff` says which decimal numbers lie in the interval of a number.
* `Binary64.rounds_shortest` says that a point of one of the grids is found.
-/

namespace Workflow.Binary64

/-- The number that a decimal number is. -/
def Decimal.value (d : Decimal) : ℚ :=
  d.digits * 10 ^ d.exponent

/-! ## The interval of a number -/

/-- A quarter of a multiple of the unit of the last place. -/
theorem quarter_mul_zpow (n : Nat) (e : Int) :
    ((n * twoPow e.toNat : Nat) : ℚ) / (4 * twoPow (-e).toNat : Nat) = n / 4 * 2 ^ e := by
  push_cast
  rw [mul_div_mul_comm, twoPow_div_twoPow]

theorem interval_den_pos (m : Nat) (e : Int) : 0 < (interval m e).den :=
  Nat.mul_pos (by decide) (twoPow_pos _)

/-- The number whose interval is taken, as a fraction. -/
theorem interval_value (m : Nat) (e : Int) :
    ((interval m e).value : ℚ) / (interval m e).den = m * 2 ^ e := by
  rw [interval, quarter_mul_zpow]
  push_cast
  ring

theorem interval_low {m : Nat} (hm : 0 < m) (e : Int) : ((interval m e).low : ℚ) / (interval m e).den =
    (m - if m = 2 ^ 52 ∧ -1074 < e then 1 / 4 else 1 / 2) * 2 ^ e := by
  rw [interval, quarter_mul_zpow, show twoPow 52 = 2 ^ 52 from rfl]
  split_ifs
  · rw [Nat.cast_sub (by omega)]
    push_cast
    ring
  · rw [Nat.cast_sub (by omega)]
    push_cast
    ring

theorem interval_high (m : Nat) (e : Int) :
    ((interval m e).high : ℚ) / (interval m e).den = (m + 1 / 2) * 2 ^ e := by
  rw [interval, quarter_mul_zpow]
  push_cast
  ring

/-- A decimal number is compared with a fraction by whole numbers. -/
theorem mul_tenPow_cases {den : Nat} (hden : 0 < den) (bound digits : Nat) (exponent : Int) :
    ((bound * tenPow (-exponent).toNat ≤ digits * tenPow exponent.toNat * den ↔
        (bound : ℚ) / den ≤ digits * 10 ^ exponent) ∧
      (digits * tenPow exponent.toNat * den ≤ bound * tenPow (-exponent).toNat ↔
        (digits * 10 ^ exponent : ℚ) ≤ bound / den)) := by
  have hden : (0 : ℚ) < den := by exact_mod_cast hden
  have hten : (0 : ℚ) < tenPow (-exponent).toNat := by exact_mod_cast tenPow_pos _
  rw [← tenPow_div_tenPow, ← mul_div_assoc, div_le_div_iff₀ hden hten, div_le_div_iff₀ hten hden]
  constructor <;> norm_cast

/-- The decimal numbers in the interval of a number are those that are rounded to it. -/
theorem holds_iff {m : Nat} {e : Int} (hm : 0 < m) {digits : Nat} {exponent : Int} :
    (interval m e).holds digits exponent = true ↔ Rounds m e (digits * 10 ^ exponent) := by
  obtain ⟨hlow, hlow'⟩ := mul_tenPow_cases (interval_den_pos m e) (interval m e).low digits exponent
  obtain ⟨hhigh', hhigh⟩ := mul_tenPow_cases (interval_den_pos m e) (interval m e).high digits exponent
  rw [interval_low hm] at hlow hlow'
  rw [interval_high] at hhigh hhigh'
  unfold Interval.holds
  dsimp only
  split_ifs with hclosed
  · have heven : m % 2 ≠ 1 := by simp [interval] at hclosed; omega
    rw [Bool.and_eq_true, decide_eq_true_eq, decide_eq_true_eq, hlow, hhigh]
    exact ⟨fun h => ⟨h.1, h.2, fun hodd => absurd hodd heven⟩, fun h => ⟨h.low, h.high⟩⟩
  · have hodd : m % 2 = 1 := by simp [interval] at hclosed; omega
    have hhalf : ¬ (m = 2 ^ 52 ∧ -1074 < e) := by omega
    rw [if_neg hhalf] at hlow hlow'
    rw [Bool.and_eq_true, decide_eq_true_eq, decide_eq_true_eq, ← not_le, ← not_le, hlow', hhigh',
      not_le, not_le]
    refine ⟨fun h => ⟨?_, h.2.le, fun _ => h⟩, fun h => h.odd hodd⟩
    rw [if_neg hhalf]
    exact h.1.le

/-! ## Grids -/

theorem Interval.holds_of_gridPoint? {i : Interval} {exponent : Int} {digits : Nat}
    (h : i.gridPoint? exponent = some digits) : i.holds digits exponent = true := by
  unfold gridPoint? at h
  dsimp only at h
  split_ifs at h <;> cases h <;> assumption

/-- The point of a grid that is not above a number. -/
def Interval.below (i : Interval) (exponent : Int) : Nat :=
  i.value * tenPow (-exponent).toNat / (i.den * tenPow exponent.toNat)

/-- A grid has a point in the interval if the one below the number lies in it. -/
theorem Interval.gridPoint?_isSome {i : Interval} {exponent : Int}
    (h : i.holds (i.below exponent) exponent = true) : (i.gridPoint? exponent).isSome = true := by
  unfold gridPoint?
  dsimp only
  rw [below] at h
  split_ifs <;> rfl

/-- A point of one of the grids is found if the last of them has one. -/
theorem Interval.holds_firstPoint {i : Interval} {finer : Nat} {exponent : Int}
    (h : (i.gridPoint? (exponent - finer)).isSome = true) :
    i.holds (i.firstPoint exponent finer).digits (i.firstPoint exponent finer).exponent = true := by
  induction finer generalizing exponent with
  | zero =>
    rw [Nat.cast_zero, sub_zero] at h
    obtain ⟨digits, hdigits⟩ := Option.isSome_iff_exists.1 h
    rw [firstPoint, hdigits]
    exact holds_of_gridPoint? hdigits
  | succ finer ih =>
    rw [firstPoint]
    cases hdigits : i.gridPoint? exponent with
    | some digits => exact holds_of_gridPoint? hdigits
    | none =>
      apply ih
      rwa [sub_sub, add_comm, ← Nat.cast_succ]

/-- The point below a number is nearer to it than the next one. -/
theorem below_spec (m : Nat) (e exponent : Int) :
    ((interval m e).below exponent : ℚ) * 10 ^ exponent ≤ m * 2 ^ e ∧
      (m : ℚ) * 2 ^ e < ((interval m e).below exponent + 1) * 10 ^ exponent := by
  have hpos : (0 : ℚ) < 10 ^ exponent := by positivity
  have hden : 0 < (interval m e).den * tenPow exponent.toNat :=
    Nat.mul_pos (interval_den_pos m e) (tenPow_pos _)
  have hscale : ((interval m e).value * tenPow (-exponent).toNat : Nat) /
      ((interval m e).den * tenPow exponent.toNat : Nat) = (m * 2 ^ e / 10 ^ exponent : ℚ) := by
    rw [← interval_value, ← tenPow_div_tenPow, Nat.cast_mul, Nat.cast_mul, div_div_div_eq]
  constructor
  · rw [← le_div_iff₀ hpos, ← hscale]
    exact Nat.cast_div_le
  · rw [← div_lt_iff₀ hpos, ← hscale, div_lt_iff₀ (by exact_mod_cast hden)]
    norm_cast
    rw [mul_comm (_ + 1)]
    exact Nat.lt_mul_div_succ _ hden

/-! ## Shortest digits -/

theorem zpow_floorLog10_le {num den : Nat} (hden : 0 < den) (h : den ≤ num * tenPow 400) :
    (10 : ℚ) ^ floorLog10 num den ≤ num / den := by
  have hlength : 0 < (Nat.toDigits 10 (num * tenPow 400 / den)).length := Nat.length_toDigits_pos
  have hleast := (pow_length_toDigits (Nat.div_pos h hden)).1
  unfold floorLog10
  generalize (Nat.toDigits 10 (num * tenPow 400 / den)).length = count at *
  have hten : (10 : ℚ) ≠ 0 := by norm_num
  calc (10 : ℚ) ^ ((count : Int) - 401) = ((10 ^ (count - 1) : Nat) : ℚ) / 10 ^ (400 : Int) := by
        rw [Nat.cast_pow, Nat.cast_ofNat, ← zpow_natCast, Nat.cast_pred hlength, ← zpow_sub₀ hten]
        congr 1
        ring
    _ ≤ ((num * tenPow 400 : Nat) : ℚ) / den / 10 ^ (400 : Int) := by
        gcongr
        exact (Nat.cast_le.2 hleast).trans Nat.cast_div_le
    _ = num / den := by
        rw [Nat.cast_mul, cast_tenPow, zpow_ofNat, mul_div_right_comm, mul_div_cancel_right₀]
        positivity

theorem den_le_value_mul {m : Nat} {e : Int} (hm : 0 < m) (he : -1074 ≤ e) :
    (interval m e).den ≤ (interval m e).value * tenPow 400 := by
  have hden : (0 : ℚ) < (interval m e).den := by exact_mod_cast interval_den_pos m e
  have hone : (1 : ℚ) ≤ m := by exact_mod_cast hm
  have hleast : (10 : ℚ) ^ (-400 : Int) ≤ m * 2 ^ e := by
    calc (10 : ℚ) ^ (-400 : Int) ≤ 2 ^ (-1300 : Int) := ten_zpow_le_two_zpow
      _ ≤ 2 ^ e := zpow_le_zpow_right₀ one_le_two (by omega)
      _ ≤ m * 2 ^ e := le_mul_of_one_le_left (by positivity) hone
  rw [← interval_value, le_div_iff₀ hden, zpow_neg, inv_mul_le_iff₀ (by positivity), zpow_ofNat,
    ← cast_tenPow, mul_comm] at hleast
  exact_mod_cast hleast

/-- The shortest digits of a number are rounded to it. -/
theorem rounds_shortest {m : Nat} {e : Int} (hm : 0 < m) (hbound : m < 2 ^ 53) (he : -1074 ≤ e) :
    Rounds m e (shortest m e).value := by
  have hunit : (0 : ℚ) < 2 ^ e := by positivity
  have hpower : (10 : ℚ) ^ floorLog10 (interval m e).value (interval m e).den ≤ m * 2 ^ e := by
    rw [← interval_value]
    exact zpow_floorLog10_le (interval_den_pos m e) (den_le_value_mul hm he)
  refine (holds_iff hm).1 (Interval.holds_firstPoint (Interval.gridPoint?_isSome ?_))
  generalize floorLog10 (interval m e).value (interval m e).den = power at *
  obtain ⟨hle, hlt⟩ := below_spec m e (power - (17 : Nat))
  -- the last grid is finer than a quarter of the unit of the last place
  have hfine : (10 : ℚ) ^ (power - (17 : Nat)) ≤ 1 / 4 * 2 ^ e := by
    rw [zpow_sub₀ (by norm_num), div_le_iff₀ (by positivity)]
    have hm : (m : ℚ) ≤ 2 ^ 53 := by exact_mod_cast hbound.le
    calc (10 : ℚ) ^ power ≤ m * 2 ^ e := hpower
      _ ≤ 2 ^ 53 * 2 ^ e := by gcongr
      _ ≤ 1 / 4 * 2 ^ e * 10 ^ ((17 : Nat) : Int) := by
        norm_num
        linarith
  rw [holds_iff hm]
  generalize (interval m e).below (power - (17 : Nat)) = digits at *
  refine ⟨?_, ?_, fun _ => ⟨?_, ?_⟩⟩
  all_goals
    generalize (10 : ℚ) ^ (power - (17 : Nat)) = step at *
    generalize (2 : ℚ) ^ e = unit at *
  · split_ifs <;> linarith
  all_goals linarith

end Workflow.Binary64
