-- Rounding of rational numbers to integers, and to a number of decimal digits.
import Mathlib.Data.Rat.Floor
import Mathlib.Algebra.Order.Field.Power
import Mathlib.Tactic.Linarith
import Mathlib.Tactic.NormNum
import Mathlib.Tactic.Positivity
import Mathlib.Tactic.FieldSimp

namespace pllua.rounding

/-- To the nearest integer, and from the middle of two away from zero. -/
def round_away (q : ℚ) : ℤ := if 0 ≤ q then ⌊q + 1 / 2⌋ else ⌈q - 1 / 2⌉

/-- Toward zero. -/
def truncate (q : ℚ) : ℤ := if 0 ≤ q then ⌊q⌋ else ⌈q⌉

/-- `f` at the digit `n` after the point, or before it for a negative `n`. -/
def to_digits (f : ℚ → ℤ) (q : ℚ) (n : ℤ) : ℚ := f (q * 10 ^ n) / 10 ^ n

theorem round_away_near (q : ℚ) : |q - round_away q| ≤ 1 / 2 := by
  unfold round_away
  rw [abs_le]
  split
  · have hle := Int.floor_le (q + 1 / 2)
    have hlt := Int.lt_floor_add_one (q + 1 / 2)
    constructor <;> linarith
  · have hle := Int.le_ceil (q - 1 / 2)
    have hlt := Int.ceil_lt_add_one (q - 1 / 2)
    constructor <;> linarith

theorem round_away_int (k : ℤ) : round_away k = k := by
  unfold round_away
  split
  · rw [Int.floor_eq_iff]
    constructor <;> linarith
  · rw [Int.ceil_eq_iff]
    constructor <;> linarith

theorem truncate_int (k : ℤ) : truncate k = k := by
  unfold truncate
  split
  · exact Int.floor_intCast k
  · exact Int.ceil_intCast k

theorem round_away_small {q : ℚ} (h : |q| < 1 / 2) : round_away q = 0 := by
  rw [abs_lt] at h
  unfold round_away
  split
  · rw [Int.floor_eq_iff]
    constructor <;> push_cast <;> linarith
  · rw [Int.ceil_eq_iff]
    constructor <;> push_cast <;> linarith

theorem truncate_small {q : ℚ} (h : |q| < 1) : truncate q = 0 := by
  rw [abs_lt] at h
  unfold truncate
  split
  · rw [Int.floor_eq_iff]
    constructor <;> push_cast <;> linarith
  · rw [Int.ceil_eq_iff]
    constructor <;> push_cast <;> linarith

/-- What has no more digits is what it was. -/
theorem to_digits_scale {f : ℚ → ℤ} (hf : ∀ k : ℤ, f k = k) {q : ℚ} {m : ℤ} {scale : ℕ} {n : ℤ}
    (hq : q = m / 10 ^ scale) (hn : (scale : ℤ) ≤ n) : to_digits f q n = q := by
  have hten : (10 : ℚ) ≠ 0 := by norm_num
  obtain ⟨k, hk⟩ := Int.eq_ofNat_of_zero_le (sub_nonneg.mpr hn)
  have hshift : q * 10 ^ n = ((m * 10 ^ k : ℤ) : ℚ) := by
    have hnk : n = (scale : ℤ) + k := by omega
    rw [hq, hnk, zpow_add₀ hten, zpow_natCast, zpow_natCast]
    push_cast
    field_simp
  rw [to_digits, hshift, hf, ← hshift]
  field_simp

/-- At a digit left of all digits nothing is left. -/
theorem to_digits_small {f : ℚ → ℤ} (hf : ∀ q : ℚ, |q| < 1 / 2 → f q = 0) {q : ℚ} {digits : ℕ}
    {n : ℤ} (hq : |q| < 10 ^ digits) (hn : n < -digits) : to_digits f q n = 0 := by
  have hten : (10 : ℚ) ≠ 0 := by norm_num
  have hpos : (0 : ℚ) < 10 ^ n := by positivity
  have hshift : |q * 10 ^ n| < 1 / 2 := by
    rw [abs_mul, abs_of_pos hpos]
    calc |q| * 10 ^ n < 10 ^ digits * 10 ^ n := mul_lt_mul_of_pos_right hq hpos
      _ = 10 ^ ((digits : ℤ) + n) := by rw [zpow_add₀ hten, zpow_natCast]
      _ ≤ 10 ^ (-1 : ℤ) := zpow_le_zpow_right₀ (by norm_num) (by omega)
      _ < 1 / 2 := by norm_num
  rw [to_digits, hf _ hshift]
  simp

end pllua.rounding
