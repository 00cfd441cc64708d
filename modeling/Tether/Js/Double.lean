import Mathlib.Data.Int.Log
import Mathlib.Data.Rat.Floor
import Mathlib.Tactic.Linarith
import Mathlib.Tactic.GCongr
import Mathlib.Tactic.NormNum

/-!
# Rounding to doubles

Of a sum or a product JavaScript keeps the nearest double: a number of 53 binary digits, the
even one of two that are as near, with its last place at 2⁻¹⁰⁷⁴ or above. What is too large
for that is infinite.

## Main definitions

* `nearestInt` — the nearest integer
* `lastPlace`, `nearestDouble` — the last place of a double, and the nearest one

## Main results

* `nearestDouble_le`, `le_nearestDouble` — rounding does not pass a whole number below 2⁵³
-/

namespace Js

/-- The nearest integer, the even one of two that are as near. -/
def nearestInt (x : ℚ) : ℤ :=
  if x - ⌊x⌋ < 1 / 2 then ⌊x⌋
  else if 1 / 2 < x - ⌊x⌋ then ⌊x⌋ + 1
  else if ⌊x⌋ % 2 = 0 then ⌊x⌋
  else ⌊x⌋ + 1

/-- The exponent of the last binary digit that a double near `x` has. -/
def lastPlace (x : ℚ) : ℤ := max (Int.log 2 |x| - 52) (-1074)

/-- The nearest number with 53 binary digits. -/
def nearestDouble (x : ℚ) : ℚ := nearestInt (x / 2 ^ lastPlace x) * 2 ^ lastPlace x

/-! ### Integers -/

theorem nearestInt_cases (x : ℚ) :
    nearestInt x = ⌊x⌋ ∨ nearestInt x = ⌊x⌋ + 1 ∧ ((⌊x⌋ : ℤ) : ℚ) < x := by
  rw [nearestInt]
  split_ifs with low high even
  · exact .inl rfl
  · exact .inr ⟨rfl, by linarith⟩
  · exact .inl rfl
  · exact .inr ⟨rfl, by linarith⟩

theorem nearestInt_le {x : ℚ} {n : ℤ} (le : x ≤ n) : nearestInt x ≤ n := by
  rcases nearestInt_cases x with down | ⟨up, above⟩
  · rw [down]
    exact_mod_cast (Int.floor_le x).trans le
  · rw [up]
    have less : ((⌊x⌋ : ℤ) : ℚ) < n := above.trans_le le
    exact Int.add_one_le_of_lt (by exact_mod_cast less)

theorem le_nearestInt {x : ℚ} {n : ℤ} (le : n ≤ x) : n ≤ nearestInt x := by
  have floor : n ≤ ⌊x⌋ := Int.le_floor.mpr le
  rcases nearestInt_cases x with down | ⟨up, -⟩
  · rwa [down]
  · rw [up]
    exact floor.trans (Int.le_add_one le_rfl)

/-! ### Doubles -/

/-- A whole number is a multiple of every last place that is at most one. -/
theorem exists_int_of_lastPlace {e : ℤ} (small : e ≤ 0) (n : ℕ) :
    ∃ m : ℤ, (n : ℚ) / 2 ^ e = m := by
  refine ⟨n * 2 ^ (-e).toNat, ?_⟩
  have power : (2 : ℚ) ^ (-e) = 2 ^ (-e).toNat := by
    rw [← zpow_natCast, Int.toNat_of_nonneg (by omega)]
  push_cast
  rw [← power, zpow_neg, div_eq_mul_inv]

theorem lastPlace_nonpos {x : ℚ} (positive : 0 < x) (small : x < 2 ^ 53) : lastPlace x ≤ 0 := by
  have log : Int.log 2 x < 53 :=
    (Int.lt_zpow_iff_log_lt (by decide) positive).mp (by exact_mod_cast small)
  rw [lastPlace, abs_of_pos positive]
  omega

/-- Rounding up does not pass a whole number. -/
theorem nearestDouble_le {x : ℚ} {n : ℕ} (small : n < 2 ^ 53) (le : x ≤ n) :
    nearestDouble x ≤ n := by
  rw [nearestDouble]
  have unit : (0 : ℚ) < 2 ^ lastPlace x := zpow_pos two_pos _
  rcases le_or_gt x 0 with negative | positive
  · have rounded : nearestInt (x / 2 ^ lastPlace x) ≤ 0 := by
      refine nearestInt_le ?_
      rw [Int.cast_zero]
      exact div_nonpos_of_nonpos_of_nonneg negative unit.le
    have product : (nearestInt (x / 2 ^ lastPlace x) : ℚ) * 2 ^ lastPlace x ≤ 0 :=
      mul_nonpos_of_nonpos_of_nonneg (by exact_mod_cast rounded) unit.le
    exact product.trans (Nat.cast_nonneg n)
  · have bound : (n : ℚ) < 2 ^ 53 := by exact_mod_cast small
    obtain ⟨m, whole⟩ := exists_int_of_lastPlace (lastPlace_nonpos positive (le.trans_lt bound)) n
    have rounded : nearestInt (x / 2 ^ lastPlace x) ≤ m := by
      refine nearestInt_le ?_
      rw [← whole]
      exact div_le_div_of_nonneg_right le unit.le
    calc (nearestInt (x / 2 ^ lastPlace x) : ℚ) * 2 ^ lastPlace x
        ≤ m * 2 ^ lastPlace x := by gcongr
      _ = n := by rw [← whole, div_mul_cancel₀ _ unit.ne']

/-- Rounding down does not pass a whole number. -/
theorem le_nearestDouble {x : ℚ} {n : ℕ} (small : n < 2 ^ 53) (le : n ≤ x) :
    n ≤ nearestDouble x := by
  rw [nearestDouble]
  have unit : (0 : ℚ) < 2 ^ lastPlace x := zpow_pos two_pos _
  rcases ((Nat.cast_nonneg n).trans le).eq_or_lt with zero | above
  · have rounded : 0 ≤ nearestInt (x / 2 ^ lastPlace x) := by
      refine le_nearestInt ?_
      rw [← zero, Int.cast_zero, zero_div]
    calc (n : ℚ) ≤ 0 := le.trans zero.ge
      _ ≤ nearestInt (x / 2 ^ lastPlace x) * 2 ^ lastPlace x :=
        mul_nonneg (by exact_mod_cast rounded) unit.le
  rcases lt_or_ge x (2 ^ 53) with short | long
  · obtain ⟨m, whole⟩ := exists_int_of_lastPlace (lastPlace_nonpos above short) n
    have rounded : m ≤ nearestInt (x / 2 ^ lastPlace x) := by
      refine le_nearestInt ?_
      rw [← whole]
      exact div_le_div_of_nonneg_right le unit.le
    calc (n : ℚ) = m * 2 ^ lastPlace x := by rw [← whole, div_mul_cancel₀ _ unit.ne']
      _ ≤ nearestInt (x / 2 ^ lastPlace x) * 2 ^ lastPlace x := by gcongr
  · -- the first of the 53 digits of a long number is beyond those of `n`
    have log : 53 ≤ Int.log 2 x :=
      (Int.zpow_le_iff_le_log (by decide) above).mp (by exact_mod_cast long)
    have place : lastPlace x = Int.log 2 x - 52 := by
      rw [lastPlace, abs_of_pos above]
      omega
    have digits : (2 : ℚ) ^ Int.log 2 x = 2 ^ 52 * 2 ^ lastPlace x := by
      rw [place, ← zpow_natCast, ← zpow_add₀ (by norm_num)]
      congr 1
      omega
    have rounded : 2 ^ 52 ≤ nearestInt (x / 2 ^ lastPlace x) := by
      refine le_nearestInt ?_
      have first : (2 : ℚ) ^ Int.log 2 x ≤ x := by
        exact_mod_cast Int.zpow_log_le_self (by decide) above
      rw [le_div_iff₀ unit, Int.cast_pow, Int.cast_ofNat, ← digits]
      exact first
    calc (n : ℚ) ≤ 2 ^ 53 := by exact_mod_cast small.le
      _ ≤ 2 ^ Int.log 2 x := by
        rw [← zpow_natCast]
        exact zpow_le_zpow_right₀ (by norm_num) (by exact_mod_cast log)
      _ = 2 ^ 52 * 2 ^ lastPlace x := digits
      _ ≤ nearestInt (x / 2 ^ lastPlace x) * 2 ^ lastPlace x := by
        gcongr
        exact_mod_cast rounded

example : nearestDouble (1 / 10) = 3602879701896397 / 36028797018963968 := by decide +kernel

end Js
