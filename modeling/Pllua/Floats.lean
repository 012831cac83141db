-- Binary floating-point numbers as rational numbers: rounding to an integer as
-- the processors do it, and to a number with 53 binary digits, with the bounds
-- of the error.
import Mathlib.Data.Int.Log
import Mathlib.Data.Rat.Floor
import Mathlib.Tactic.Linarith
import Mathlib.Tactic.NormNum
import Mathlib.Algebra.Order.Field.Power
import Mathlib.Tactic.FieldSimp
import Mathlib.Tactic.Ring

namespace pllua.floats

/-! ## To an integer -/

/-- To the nearest integer, and from the middle of two to the even one. -/
def rint (q : ℚ) : ℤ :=
  have f := ⌊q⌋
  if q - f < 1 / 2 then f
  else if 1 / 2 < q - f then f + 1
  else if f % 2 = 0 then f else f + 1

theorem rint_near (q : ℚ) : |q - rint q| ≤ 1 / 2 := by
  have hle := Int.floor_le q
  have hlt := Int.lt_floor_add_one q
  unfold rint
  dsimp only
  rw [abs_le]
  split
  · constructor <;> linarith
  · split
    · push_cast
      constructor <;> linarith
    · split
      · constructor <;> linarith
      · push_cast
        constructor <;> linarith

/-- The integer that is near enough is the one. -/
theorem rint_eq {q : ℚ} {k : ℤ} (h : |q - k| < 1 / 2) : rint q = k := by
  have hnear := abs_le.mp (rint_near q)
  rw [abs_lt] at h
  have hlo : (rint q : ℚ) < k + 1 := by linarith [hnear.1, h.2]
  have hhi : (k : ℚ) < rint q + 1 := by linarith [hnear.2, h.1]
  have hlo' : rint q < k + 1 := by exact_mod_cast hlo
  have hhi' : k < rint q + 1 := by exact_mod_cast hhi
  omega

theorem rint_int (k : ℤ) : rint k = k := rint_eq (by simp)

/-! ## To 53 digits -/

/-- The exponent of the last digit. -/
def last_digit (q : ℚ) : ℤ := max (Int.log 2 |q| - 52) (-1074)

/-- The number with 53 binary digits, and with none after digit 1074, that is nearest. -/
def round_double (q : ℚ) : ℚ := rint (q / 2 ^ last_digit q) * 2 ^ last_digit q

theorem two_zpow_pos (e : ℤ) : (0 : ℚ) < 2 ^ e := zpow_pos (by norm_num) e

/-- The error is half of the last digit at most. -/
theorem round_double_error (q : ℚ) : |q - round_double q| ≤ 2 ^ last_digit q / 2 := by
  have hpos := two_zpow_pos (last_digit q)
  have hnear := rint_near (q / 2 ^ last_digit q)
  have hscale : q - round_double q =
      (q / 2 ^ last_digit q - rint (q / 2 ^ last_digit q)) * 2 ^ last_digit q := by
    unfold round_double
    field_simp
  rw [hscale, abs_mul, abs_of_pos hpos]
  calc |q / 2 ^ last_digit q - rint (q / 2 ^ last_digit q)| * 2 ^ last_digit q
      ≤ 1 / 2 * 2 ^ last_digit q := mul_le_mul_of_nonneg_right hnear hpos.le
    _ = 2 ^ last_digit q / 2 := by ring

/-- A number that is a multiple of its last digit stays as it is. -/
theorem round_double_multiple {q : ℚ} (k : ℤ) (h : q = k * 2 ^ last_digit q) :
    round_double q = q := by
  have hpos := two_zpow_pos (last_digit q)
  have hdiv : q / 2 ^ last_digit q = k := by
    rw [div_eq_iff hpos.ne']
    exact h
  unfold round_double
  rw [hdiv, rint_int]
  exact h.symm

theorem last_digit_le {q : ℚ} {e : ℤ} (hq : q ≠ 0) (h : |q| < 2 ^ e) (he : -1021 ≤ e) :
    last_digit q ≤ e - 53 := by
  have hpos : 0 < |q| := abs_pos.mpr hq
  have hlog : (2 : ℚ) ^ Int.log 2 |q| ≤ |q| := by
    exact_mod_cast Int.zpow_log_le_self (by norm_num : 1 < 2) hpos
  have hlt : Int.log 2 |q| < e := (zpow_lt_zpow_iff_right₀ (by norm_num : (1 : ℚ) < 2)).mp
    (hlog.trans_lt h)
  unfold last_digit
  omega

/-- A number below a power of two is rounded within 54 digits of it. -/
theorem round_double_near {q : ℚ} {e : ℤ} (h : |q| < 2 ^ e) (he : -1021 ≤ e) :
    |q - round_double q| ≤ 2 ^ (e - 54) := by
  rcases eq_or_ne q 0 with rfl | hq
  · have hzero : round_double 0 = 0 := round_double_multiple 0 (by simp)
    rw [hzero, sub_zero, abs_zero]
    exact (two_zpow_pos _).le
  · have hlast := last_digit_le hq h he
    have hhalf : (2 : ℚ) ^ (e - 54) = 2 ^ (e - 53) / 2 := by
      have hexp : e - 54 = e - 53 + -1 := by ring
      rw [hexp, zpow_add₀ (by norm_num : (2 : ℚ) ≠ 0), zpow_neg_one, div_eq_mul_inv]
    rw [hhalf]
    refine (round_double_error q).trans ?_
    have hmono := zpow_le_zpow_right₀ (by norm_num : (1 : ℚ) ≤ 2) hlast
    linarith

/-- An integer of 53 digits stays as it is. -/
theorem round_double_int {k : ℤ} (h : |k| < 2 ^ 53) : round_double k = k := by
  rcases eq_or_ne k 0 with rfl | hk
  · exact_mod_cast round_double_multiple (q := 0) 0 (by simp)
  · have hq : ((k : ℚ)) ≠ 0 := by exact_mod_cast hk
    have habs : |(k : ℚ)| < 2 ^ (53 : ℤ) := by exact_mod_cast h
    have hlast := last_digit_le hq habs (by norm_num)
    obtain ⟨n, hn⟩ := Int.eq_ofNat_of_zero_le (neg_nonneg.mpr (hlast.trans (by norm_num)))
    refine round_double_multiple (k * 2 ^ n) ?_
    have hdigit : last_digit (k : ℚ) = -(n : ℤ) := by omega
    rw [hdigit, zpow_neg, zpow_natCast]
    push_cast
    field_simp

end pllua.floats
