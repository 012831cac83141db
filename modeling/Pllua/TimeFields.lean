-- The calendar fields of a time. A table may give any number for a field, and
-- the code carries what is too much, or too little, into the next field, but
-- for 23:59:60 and its like and for 24:00:00, which are times of their own.
import Mathlib.Order.Basic
import Mathlib.Algebra.Order.Group.Int

namespace pllua.time

/-! ## Division -/

/-- `floordiv`. The division of C cuts toward zero. -/
def floordiv (dividend divisor : Int) : Int :=
  dividend.tdiv divisor -
    if dividend < 0 ∧ dividend.tmod divisor ≠ 0 then 1 else 0

/-- `calc_overflow`: what is left of the field, and the next field. -/
def calc_overflow (val modulus nextfield : Int) : Int × Int :=
  have carry := floordiv val modulus
  (val - carry * modulus, nextfield + carry)

/-- For a positive divisor the division is the floor. -/
theorem floordiv_eq (dividend : Int) {divisor : Int} (h : 0 < divisor) :
    floordiv dividend divisor = dividend / divisor := by
  have hq := Int.mul_tdiv_add_tmod dividend divisor
  have hf := Int.mul_ediv_add_emod dividend divisor
  have hnn := Int.emod_nonneg dividend (by omega : divisor ≠ 0)
  have hlt := Int.emod_lt_of_pos dividend h
  unfold floordiv
  rcases lt_or_ge dividend 0 with hneg | hpos
  · rw [Int.tdiv_eq_ediv, Int.tmod_eq_emod]
    rcases Decidable.em (divisor ∣ dividend) with hd | hd
    · have hz : dividend % divisor = 0 := Int.emod_eq_zero_of_dvd hd
      simp [hd, hz]
    · have hz : dividend % divisor ≠ 0 := fun hz => hd (Int.dvd_of_emod_eq_zero hz)
      have hsign : divisor.sign = 1 := Int.sign_eq_one_of_pos h
      have hmod : dividend % divisor - (divisor.natAbs : Int) ≠ 0 := by omega
      simp only [Int.not_le.mpr hneg, hd, or_self, if_false, hsign, hneg, true_and, if_pos hmod]
      omega
  · rw [Int.tdiv_eq_ediv_of_nonneg hpos, if_neg (by omega)]
    omega

@[simp] theorem calc_overflow_fst (val nextfield : Int) {modulus : Int} (h : 0 < modulus) :
    (calc_overflow val modulus nextfield).1 = val % modulus := by
  have hd := Int.mul_ediv_add_emod val modulus
  rw [Int.mul_comm] at hd
  simp only [calc_overflow, floordiv_eq val h]
  omega

@[simp] theorem calc_overflow_snd (val nextfield : Int) {modulus : Int} (h : 0 < modulus) :
    (calc_overflow val modulus nextfield).2 = nextfield + val / modulus := by
  simp only [calc_overflow, floordiv_eq val h]

/-- Nothing is lost: the field and the next field count what they counted. -/
theorem calc_overflow_total (val modulus nextfield : Int) :
    modulus * (calc_overflow val modulus nextfield).2 + (calc_overflow val modulus nextfield).1 =
      modulus * nextfield + val := by
  simp only [calc_overflow, Int.mul_comm modulus, Int.add_mul]
  omega

/-! ## The fields -/

/-- `struct pg_tm`. -/
structure pg_tm where
  tm_sec : Int
  tm_min : Int
  tm_hour : Int
  tm_mday : Int
  tm_mon : Int
  tm_year : Int
  tm_isdst : Int
  tm_gmtoff : Int
deriving DecidableEq, Repr

/-- The months from the year 0. -/
def pg_tm.months (tm : pg_tm) : Int := 12 * tm.tm_year + tm.tm_mon

/-- The seconds from the day 0. -/
def pg_tm.seconds (tm : pg_tm) : Int :=
  tm.tm_mday * 86400 + tm.tm_hour * 3600 + tm.tm_min * 60 + tm.tm_sec

/-- The time is exactly 24:00:00. -/
def pg_tm.Midnight (tm : pg_tm) : Prop := tm.tm_hour = 24 ∧ tm.tm_min = 0 ∧ tm.tm_sec = 0

instance (tm : pg_tm) : Decidable tm.Midnight := by unfold pg_tm.Midnight; infer_instance

/-- The seconds that go over, but for xx:59:60. -/
def carry_sec (tm : pg_tm) : pg_tm :=
  if tm.tm_sec < 0 ∨ tm.tm_sec > 60 ∨ (tm.tm_sec = 60 ∧ tm.tm_min ≠ 59) then
    have r := calc_overflow tm.tm_sec 60 tm.tm_min
    { tm with tm_sec := r.1, tm_min := r.2 }
  else tm

def carry_min (tm : pg_tm) : pg_tm :=
  if tm.tm_min < 0 ∨ tm.tm_min ≥ 60 then
    have r := calc_overflow tm.tm_min 60 tm.tm_hour
    { tm with tm_min := r.1, tm_hour := r.2 }
  else tm

def carry_hour (tm : pg_tm) : pg_tm :=
  if tm.tm_hour < 0 ∨ tm.tm_hour ≥ 24 then
    have r := calc_overflow tm.tm_hour 24 tm.tm_mday
    { tm with tm_hour := r.1, tm_mday := r.2 }
  else tm

/-- Months count from 1. -/
def carry_mon (tm : pg_tm) : pg_tm :=
  if tm.tm_mon < 1 ∨ tm.tm_mon > 12 then
    have r := calc_overflow (tm.tm_mon - 1) 12 tm.tm_year
    { tm with tm_mon := 1 + r.1, tm_year := r.2 }
  else tm

/-- The carry steps of `pllua_time_tosql`, for a type that is not `interval`. -/
def normalize (tm : pg_tm) : pg_tm :=
  carry_mon <|
    if tm.tm_hour ≠ 24 ∨ tm.tm_min ≠ 0 ∨ tm.tm_sec ≠ 0 then
      carry_hour (carry_min (carry_sec tm))
    else tm

/-! ## What the carries keep -/

/-- The fields are those of a clock and a calendar. -/
structure pg_tm.Normal (tm : pg_tm) : Prop where
  mon : 1 ≤ tm.tm_mon ∧ tm.tm_mon ≤ 12
  min : 0 ≤ tm.tm_min ∧ tm.tm_min ≤ 59
  hour : (0 ≤ tm.tm_hour ∧ tm.tm_hour ≤ 23) ∨ tm.Midnight
  sec : (0 ≤ tm.tm_sec ∧ tm.tm_sec ≤ 59) ∨ (tm.tm_sec = 60 ∧ tm.tm_min = 59)

/-- Two fields count the same: the seconds and the months of both are the same. -/
structure SameTime (tm tm' : pg_tm) : Prop where
  months : tm'.months = tm.months
  seconds : tm'.seconds = tm.seconds

theorem SameTime.refl (tm : pg_tm) : SameTime tm tm := ⟨rfl, rfl⟩

theorem SameTime.trans {a b c : pg_tm} (h : SameTime a b) (h' : SameTime b c) : SameTime a c :=
  ⟨h'.months.trans h.months, h'.seconds.trans h.seconds⟩

theorem carry_sec_same (tm : pg_tm) : SameTime tm (carry_sec tm) := by
  have htotal := calc_overflow_total tm.tm_sec 60 tm.tm_min
  unfold carry_sec
  split
  · refine ⟨rfl, ?_⟩
    simp only [pg_tm.seconds]
    omega
  · exact SameTime.refl tm

theorem carry_min_same (tm : pg_tm) : SameTime tm (carry_min tm) := by
  have htotal := calc_overflow_total tm.tm_min 60 tm.tm_hour
  unfold carry_min
  split
  · refine ⟨rfl, ?_⟩
    simp only [pg_tm.seconds]
    omega
  · exact SameTime.refl tm

theorem carry_hour_same (tm : pg_tm) : SameTime tm (carry_hour tm) := by
  have htotal := calc_overflow_total tm.tm_hour 24 tm.tm_mday
  unfold carry_hour
  split
  · refine ⟨rfl, ?_⟩
    simp only [pg_tm.seconds]
    omega
  · exact SameTime.refl tm

theorem carry_mon_same (tm : pg_tm) : SameTime tm (carry_mon tm) := by
  have htotal := calc_overflow_total (tm.tm_mon - 1) 12 tm.tm_year
  unfold carry_mon
  split
  · refine ⟨?_, rfl⟩
    simp only [pg_tm.months]
    omega
  · exact SameTime.refl tm

/-! ## The ranges -/

/-- The seconds are in range, or it is second 60 of a minute 59. The minute 59 is what
the next carry leaves alone. -/
theorem carry_sec_range (tm : pg_tm) :
    (0 ≤ (carry_sec tm).tm_sec ∧ (carry_sec tm).tm_sec ≤ 59) ∨
      ((carry_sec tm).tm_sec = 60 ∧ (carry_sec tm).tm_min = 59) := by
  have hfst := calc_overflow_fst tm.tm_sec tm.tm_min (by decide : (0 : Int) < 60)
  unfold carry_sec
  split
  · dsimp only
    omega
  · omega

theorem carry_min_range (tm : pg_tm) :
    0 ≤ (carry_min tm).tm_min ∧ (carry_min tm).tm_min ≤ 59 := by
  have hfst := calc_overflow_fst tm.tm_min tm.tm_hour (by decide : (0 : Int) < 60)
  unfold carry_min
  split
  · dsimp only
    omega
  · omega

theorem carry_hour_range (tm : pg_tm) :
    0 ≤ (carry_hour tm).tm_hour ∧ (carry_hour tm).tm_hour ≤ 23 := by
  have hfst := calc_overflow_fst tm.tm_hour tm.tm_mday (by decide : (0 : Int) < 24)
  unfold carry_hour
  split
  · dsimp only
    omega
  · omega

theorem carry_mon_range (tm : pg_tm) :
    1 ≤ (carry_mon tm).tm_mon ∧ (carry_mon tm).tm_mon ≤ 12 := by
  have hfst := calc_overflow_fst (tm.tm_mon - 1) tm.tm_year (by decide : (0 : Int) < 12)
  unfold carry_mon
  split
  · dsimp only
    omega
  · omega

/-- A minute in range stays, and the seconds are not touched. -/
theorem carry_min_keeps (tm : pg_tm) :
    (carry_min tm).tm_sec = tm.tm_sec ∧
      (0 ≤ tm.tm_min → tm.tm_min ≤ 59 → (carry_min tm).tm_min = tm.tm_min) := by
  unfold carry_min
  split
  · exact ⟨rfl, by omega⟩
  · exact ⟨rfl, fun _ _ => rfl⟩

theorem carry_hour_keeps (tm : pg_tm) :
    (carry_hour tm).tm_sec = tm.tm_sec ∧ (carry_hour tm).tm_min = tm.tm_min := by
  unfold carry_hour
  split <;> exact ⟨rfl, rfl⟩

theorem carry_mon_keeps (tm : pg_tm) :
    (carry_mon tm).tm_sec = tm.tm_sec ∧ (carry_mon tm).tm_min = tm.tm_min ∧
      (carry_mon tm).tm_hour = tm.tm_hour := by
  unfold carry_mon
  split <;> exact ⟨rfl, rfl, rfl⟩

theorem normalize_same (tm : pg_tm) : SameTime tm (normalize tm) := by
  unfold normalize
  refine SameTime.trans ?_ (carry_mon_same _)
  split
  · exact ((carry_sec_same tm).trans (carry_min_same _)).trans (carry_hour_same _)
  · exact SameTime.refl tm

theorem normalize_normal (tm : pg_tm) : (normalize tm).Normal := by
  unfold normalize
  split
  case isTrue =>
    have hs := carry_sec_range tm
    have hm := carry_min_range (carry_sec tm)
    have hh := carry_hour_range (carry_min (carry_sec tm))
    obtain ⟨hms, hmm⟩ := carry_min_keeps (carry_sec tm)
    obtain ⟨hhs, hhm⟩ := carry_hour_keeps (carry_min (carry_sec tm))
    obtain ⟨hos, hom, hoh⟩ := carry_mon_keeps (carry_hour (carry_min (carry_sec tm)))
    exact ⟨carry_mon_range _, by omega, Or.inl (by omega), by omega⟩
  case isFalse hmid =>
    obtain ⟨hos, hom, hoh⟩ := carry_mon_keeps tm
    have hmid' : (carry_mon tm).Midnight := ⟨by omega, by omega, by omega⟩
    exact ⟨carry_mon_range _, by omega, Or.inr hmid', by omega⟩

/-- The carry steps change neither what the fields count in months nor what they count
in seconds, they leave the fields of a clock, and a carry leaves a value of the
field, for a negative number as for a positive one. -/
theorem normalize_means (tm : pg_tm) :
    SameTime tm (normalize tm) ∧ (normalize tm).Normal ∧
      ∀ val modulus nextfield : Int, 0 < modulus →
        0 ≤ (calc_overflow val modulus nextfield).1 ∧
          (calc_overflow val modulus nextfield).1 < modulus := by
  refine ⟨normalize_same tm, normalize_normal tm, fun val modulus nextfield h => ?_⟩
  rw [calc_overflow_fst val nextfield h]
  exact ⟨Int.emod_nonneg val (by omega), Int.emod_lt_of_pos val h⟩

/-- One second before the year 2000, with a month 13. -/
theorem normalize_means_second_before :
    SameTime ⟨-1, 0, 0, 1, 13, 1999, -1, 0⟩ ⟨59, 59, 23, 0, 1, 2000, -1, 0⟩ ∧
      0 ≤ (calc_overflow (-1) 60 0).1 ∧ (calc_overflow (-1) 60 0).1 < 60 := by
  obtain ⟨hsame, -, hrange⟩ := normalize_means ⟨-1, 0, 0, 1, 13, 1999, -1, 0⟩
  have hn : normalize ⟨-1, 0, 0, 1, 13, 1999, -1, 0⟩ = ⟨59, 59, 23, 0, 1, 2000, -1, 0⟩ := by
    decide
  rw [hn] at hsame
  exact ⟨hsame, hrange (-1) 60 0 (by decide)⟩

-- the two times that stay
example : normalize ⟨60, 59, 23, 31, 12, 2016, -1, 0⟩ = ⟨60, 59, 23, 31, 12, 2016, -1, 0⟩ := by
  decide
example : normalize ⟨0, 0, 24, 31, 12, 2016, -1, 0⟩ = ⟨0, 0, 24, 31, 12, 2016, -1, 0⟩ := by decide

end pllua.time
