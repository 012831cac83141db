-- The value that a table denotes, and when the constructor makes it: where all that is counted
-- fits, no infinite field is left out, and the microseconds come through a float of seconds.
import Pllua.Calendar
import Pllua.TimeAmounts

open pllua.calendar pllua.floats pllua.rounding
open pllua.constructors (c_int bind_eq_ok)
open pllua.numeric (Float8 c_int_eq_iff)
open pllua.time

namespace pllua.datetime

/-! ## What a table denotes -/

/-- The day of a date, from 2000. The months count on over the ends of the year. -/
def day_of (year month day : Int) : Int :=
  date2j ((12 * year + (month - 1)) / 12) ((12 * year + (month - 1)) % 12 + 1) day -
    POSTGRES_EPOCH_JDATE

/-- The microseconds from 2000, with those of the fields that may be floats. -/
def Table.instant (t : Table) (usecs : Int) : Int :=
  if t.found_epoch = 0 then
    day_of t.year.whole t.month.whole t.day.whole * USECS_PER_DAY + t.hour.whole * USECS_PER_HOUR +
      t.min.whole * USECS_PER_MINUTE + usecs
  else unix_epoch + usecs

/-- The microseconds of the fields that may be floats. A field is rounded to a microsecond that is
less than one from it, so that whole microseconds stay. -/
def Table.Microseconds (t : Table) (usecs : Int) : Prop :=
  ∃ s m u e em eu : Int,
    |t.sec.amount * 1000000 - s| < 1 ∧ |t.msec.amount * 1000 - m| < 1 ∧ |t.usec.amount - u| < 1 ∧
    |t.epoch.amount * 1000000 - e| < 1 ∧ |t.epoch_msec.amount * 1000 - em| < 1 ∧
    |t.epoch_usec.amount - eu| < 1 ∧ usecs = s + m + u + (e + em + eu)

/-- The calendar fields, carried. -/
def Table.carried (t : Table) : pg_tm := time.normalize t.tm

section
variable {Z : Type} (pg : Pg Z)

/-- A value is that of finite fields. A time is one of any day. The times 24:00:00 and 23:59:60 are
of the day that they end. -/
def DenotesFinite (t : Table) (usecs : Int) : TimeValue → Prop
  | .date d => d * USECS_PER_DAY ≤ t.instant usecs ∧
      (t.instant usecs < (d + 1) * USECS_PER_DAY ∨
        clock_seconds t.carried = 86400 ∧ t.instant usecs = (d + 1) * USECS_PER_DAY)
  | .timestamp x => x = t.instant usecs
  | .timestamptz x =>
    x = t.instant usecs + (if t.found_epoch = 0 then
      (determine_timezone_offset pg t.carried pg.session_timezone).1 else 0) * USECS_PER_SEC
  | .time x => (x - t.instant usecs) % USECS_PER_DAY = 0
  | .timetz x zone => (x - t.instant usecs) % USECS_PER_DAY = 0 ∧ zone = 0
  | .interval i =>
    i = if t.found_epoch = 0 then
      ⟨12 * t.year.whole + t.month.whole, t.day.whole, t.hour.whole * USECS_PER_HOUR +
        t.min.whole * USECS_PER_MINUTE + usecs⟩
      else ⟨0, 0, usecs⟩

/-- An infinite value. -/
def TimeValue.Infinite (neg : Bool) : TimeValue → Prop
  | .timestamp x => x = infinite_timestamp (inf_sign_of neg)
  | .timestamptz x => x = infinite_timestamp (inf_sign_of neg)
  | _ => False

/-- A value is that of the fields of a table. -/
structure Denotes (t : Table) (v : TimeValue) : Prop where
  finite : t.Finite → ∃ usecs, t.Microseconds usecs ∧ DenotesFinite pg t usecs v
  infinite : ∀ w ∈ t.numbers, ∀ neg, w.reads = .infinite neg → v.Infinite neg

def TimeValue.InRange (v : TimeValue) : Prop := v.Valid ∨ ∃ neg, v.Infinite neg

end

/-! ## What has to fit -/

/-- The carries from one field to the next are in the range of an `int`. -/
structure CarriesFit (tm : pg_tm) : Prop where
  clock : ¬ tm.Midnight → c_ints (carry_sec tm) = carry_sec tm ∧
    c_ints (carry_min (carry_sec tm)) = carry_min (carry_sec tm) ∧
    c_ints (carry_hour (carry_min (carry_sec tm))) = carry_hour (carry_min (carry_sec tm))
  month : c_int (tm.tm_mon - 1) = tm.tm_mon - 1
  calendar : c_ints (time.normalize tm) = time.normalize tm

/-- The microseconds that come from a float of seconds. -/
def FloatKeeps (secs : Float8) (usecs : Int) : Prop :=
  ∃ v, secs = .fin v ∧ rint (round_double (v * 1000000)) = usecs

/-- All microseconds but those of the whole seconds. -/
def Table.usecs (t : Table) : Int := t.microsecs + t.epoch_microsecs

/-- The date is one that PostgreSQL counts, and the microseconds stay in the day. -/
structure DateKept (t : Table) : Prop where
  counted : -4799 ≤ t.carried.tm_year
  valid : IS_VALID_DATE (date2j t.carried.tm_year t.carried.tm_mon
    t.carried.tm_mday - POSTGRES_EPOCH_JDATE)
  begins : 0 ≤ clock_seconds t.carried * USECS_PER_SEC + t.usecs
  ends : clock_seconds t.carried * USECS_PER_SEC + t.usecs < USECS_PER_DAY ∨
    clock_seconds t.carried = 86400 ∧ t.usecs = 0

/-- The interval of the fields. -/
def Table.interval (t : Table) : Interval :=
  ⟨12 * t.year.whole + t.month.whole, t.day.whole, t.hour.whole * USECS_PER_HOUR +
    t.min.whole * USECS_PER_MINUTE + (t.sec.whole * 1000000 + t.usecs)⟩

section
variable {Z : Type} (pg : Pg Z)

/-- The seconds that a timestamp is off for the zone of the session. -/
def Table.offset (t : Table) : TimeType → Int
  | .TIMESTAMPTZOID => if t.found_epoch = 0 then
      (determine_timezone_offset pg t.carried pg.session_timezone).1 else 0
  | _ => 0

/-- A timestamp to which the microseconds can be added in 64 bits. -/
def Table.SumFits (oid : TimeType) (t : Table) : Prop :=
  have shift := t.offset pg oid * USECS_PER_SEC
  IS_VALID_TIMESTAMP (t.instant (t.sec.whole * 1000000) + shift) →
    -2 ^ 63 ≤ t.instant (t.sec.whole * 1000000 + t.usecs) + shift ∧
      t.instant (t.sec.whole * 1000000 + t.usecs) + shift < 2 ^ 63

/-- What the type does with the microseconds keeps them. -/
def Table.UsecsKept (t : Table) : TimeType → Prop
  | .DATEOID => t.found_epoch = 0 → DateKept t
  | .TIMESTAMPOID => FloatKeeps (float_seconds t.usecs) t.usecs ∧ t.SumFits pg .TIMESTAMPOID
  | .TIMESTAMPTZOID => FloatKeeps (float_seconds t.usecs) t.usecs ∧ t.SumFits pg .TIMESTAMPTZOID
  | .TIMEOID | .TIMETZOID => FloatKeeps (float_seconds t.usecs) t.usecs ∧
      (t.found_epoch = 0 → clock_seconds t.carried * USECS_PER_SEC + t.usecs < 2 ^ 63)
  | .INTERVALOID =>
    if t.found_epoch = 0 then
      FloatKeeps (from_fields.interval_sec t.sec.whole t.usecs) (t.sec.whole * 1000000 + t.usecs) ∧
        (-2 ^ 63 ≤ t.sec.whole * 1000000 + t.usecs ∧ t.sec.whole * 1000000 + t.usecs < 2 ^ 63) ∧
        t.interval.Fits
    else FloatKeeps (float_seconds t.usecs) t.usecs

/-- Finite fields fit in all that they go through. -/
structure Table.Exact (oid : TimeType) (t : Table) : Prop where
  fits : t.Fits
  usecs_fit : -2 ^ 63 ≤ t.usecs ∧ t.usecs < 2 ^ 63
  stored : t.found_epoch = 0 → c_ints t.tm = t.tm
  carried : t.found_epoch = 0 → oid ≠ .INTERVALOID → CarriesFit t.tm
  kept : t.UsecsKept pg oid

/-- Nothing is cut or left out. -/
structure Table.Kept (oid : TimeType) (t : Table) : Prop where
  finite : t.found_epoch = 0 → oid = .TIMESTAMPOID ∨ oid = .TIMESTAMPTZOID → t.Finite
  exact : t.Finite → t.Exact pg oid

end

/-- What PostgreSQL documents on dates: `date2j` is that of the calendar for the days of a date, if
its divisions are of no negative year, and what is no timestamp is refused. -/
structure DocumentedDates {Z : Type} (pg : Pg Z) : Prop where
  date2j : ∀ y m d, -4799 ≤ y → (1 ≤ m ∧ m ≤ 12) →
    IS_VALID_DATE (date2j y m d - POSTGRES_EPOCH_JDATE) → pg.date2j y m d = date2j y m d
  tm2timestamp : ∀ tm tzo, (1 ≤ tm.tm_mon ∧ tm.tm_mon ≤ 12) → Fits32 tm.tm_mday →
    Clock tm.tm_hour tm.tm_min tm.tm_sec → OffsetInRange (tzo.getD 0) →
    have t := (calendar.date2j tm.tm_year tm.tm_mon tm.tm_mday - POSTGRES_EPOCH_JDATE) *
      USECS_PER_DAY + clock_seconds tm * USECS_PER_SEC + tzo.getD 0 * USECS_PER_SEC
    pg.tm2timestamp tm 0 tzo =
      if IS_VALID_JULIAN tm.tm_year tm.tm_mon ∧ IS_VALID_TIMESTAMP t then some t else none
  pg_next_dst_boundary : ∀ z time, OffsetInRange (pg.pg_next_dst_boundary z time).before_gmtoff ∧
    OffsetInRange (pg.pg_next_dst_boundary z time).after_gmtoff

theorem fixed_zones_dates : DocumentedDates fixed_zones where
  date2j := fun _ _ _ _ _ _ => rfl
  tm2timestamp := fun tm tzo _ _ _ _ => by
    show fixed_tm2timestamp tm 0 tzo = _
    unfold fixed_tm2timestamp
    dsimp only
    rw [Int.add_zero]
  pg_next_dst_boundary := fun z _ => ⟨z.in_range, greenwich.in_range⟩

/-! ## The fields together -/

theorem instant_add (t : Table) (a b : Int) : t.instant (a + b) = t.instant a + b := by
  unfold Table.instant
  split
  · omega
  · omega

/-- The carries with bounds are those without. -/
theorem normalize_int_fits {tm : pg_tm} (h : CarriesFit tm) :
    normalize_int tm = time.normalize tm := by
  have hcarry (tm' : pg_tm) (hmon : tm'.tm_mon = tm.tm_mon)
      (hfits : c_ints (carry_mon tm') = carry_mon tm') : carry_mon_int tm' = carry_mon tm' := by
    unfold carry_mon_int
    unfold carry_mon at hfits ⊢
    rw [hmon, h.month]
    split
    · rename_i hout
      rw [if_pos (by rw [hmon]; exact hout)] at hfits
      rw [hmon] at hfits
      exact hfits
    · rfl
  have hcal := h.calendar
  unfold time.normalize at hcal
  unfold normalize_int time.normalize
  by_cases hmid : tm.Midnight
  · have hnot : ¬ (tm.tm_hour ≠ 24 ∨ tm.tm_min ≠ 0 ∨ tm.tm_sec ≠ 0) := by
      unfold pg_tm.Midnight at hmid
      omega
    rw [if_neg hnot] at hcal
    rw [if_neg hnot, if_neg hnot]
    exact hcarry tm rfl hcal
  · obtain ⟨hsec, hmin, hhour⟩ := h.clock hmid
    have hclock : tm.tm_hour ≠ 24 ∨ tm.tm_min ≠ 0 ∨ tm.tm_sec ≠ 0 := by
      unfold pg_tm.Midnight at hmid
      omega
    rw [if_pos hclock] at hcal
    rw [if_pos hclock, if_pos hclock, hsec, hmin, hhour]
    refine hcarry _ ?_ hcal
    unfold carry_hour carry_min carry_sec
    split <;> split <;> split <;> rfl

theorem carried_eq {t : Table} (h : CarriesFit t.tm) : normalize_int t.tm = t.carried :=
  normalize_int_fits h

theorem carried_normal (t : Table) : t.carried.Normal := normalize_normal t.tm

theorem carried_mday {t : Table} (h : CarriesFit t.tm) : Fits32 t.carried.tm_mday := by
  have hmday : c_int t.carried.tm_mday = t.carried.tm_mday :=
    congrArg pg_tm.tm_mday h.calendar
  have hrange := (c_int_eq_iff _).mp hmday
  unfold Fits32
  omega

/-- A day of a month is counted on over its end. -/
theorem date2j_day (year month day : Int) : date2j year month day = date2j year month 0 + day := by
  unfold date2j
  dsimp only
  omega

theorem normal_clock {tm : pg_tm} (h : tm.Normal) : Clock tm.tm_hour tm.tm_min tm.tm_sec := by
  obtain ⟨-, hmin, hhour, hsec⟩ := h
  unfold pg_tm.Midnight at hhour
  exact ⟨by omega, hmin, by omega, by omega⟩

/-- The instant of carried fields is that of the fields. -/
theorem carried_instant {t : Table} (hepoch : t.found_epoch = 0) (usecs : Int) :
    (date2j t.carried.tm_year t.carried.tm_mon t.carried.tm_mday -
        POSTGRES_EPOCH_JDATE) * USECS_PER_DAY + clock_seconds t.carried * USECS_PER_SEC +
        usecs = t.instant (t.sec.whole * 1000000 + usecs) := by
  obtain ⟨hmonths, hseconds⟩ : SameTime t.tm t.carried := normalize_same t.tm
  have hnormal := carried_normal t
  have hmon := hnormal.mon
  unfold Table.instant day_of
  rw [if_pos hepoch, date2j_day, date2j_day _ _ t.day.whole]
  unfold pg_tm.months at hmonths
  unfold pg_tm.seconds at hseconds
  have hyear : t.carried.tm_year = (12 * t.year.whole + (t.month.whole - 1)) / 12 := by
    have hm : t.tm.tm_mon = t.month.whole := rfl
    have hy : t.tm.tm_year = t.year.whole := rfl
    omega
  have hmonth : t.carried.tm_mon =
      (12 * t.year.whole + (t.month.whole - 1)) % 12 + 1 := by
    have hm : t.tm.tm_mon = t.month.whole := rfl
    have hy : t.tm.tm_year = t.year.whole := rfl
    omega
  rw [hyear, hmonth]
  generalize date2j _ _ 0 = first
  have htm : t.tm.tm_mday = t.day.whole ∧ t.tm.tm_hour = t.hour.whole ∧
      t.tm.tm_min = t.min.whole ∧ t.tm.tm_sec = t.sec.whole := ⟨rfl, rfl, rfl, rfl⟩
  unfold clock_seconds POSTGRES_EPOCH_JDATE USECS_PER_DAY USECS_PER_SEC USECS_PER_HOUR
    USECS_PER_MINUTE
  omega

/-- The microseconds that the code counts are those of the fields. -/
theorem table_microseconds {t : Table} (hfin : t.Finite) (h : t.Fits) :
    t.Microseconds (t.sec.whole * 1000000 + t.usecs) := by
  simp only [Table.Finite, Table.numbers, List.forall_mem_cons] at hfin
  obtain ⟨hfeu, hfem, hfe, hfu, hfm, hfs, -⟩ := hfin
  have hmsec := scaled_near hfm h.msec
  have hepoch := scaled_near hfe h.epoch
  have hepoch' := scaled_near hfem h.epoch_msec
  have hepoch'' := scaled_near hfeu h.epoch_usec
  rw [Int.cast_one, mul_one] at hepoch''
  rw [Int.cast_ofNat] at hmsec hepoch hepoch'
  refine ⟨_, _, _, _, _, _, sec_near hfs h.sec, hmsec, rounded_near hfu h.usec, hepoch,
    hepoch', hepoch'', ?_⟩
  unfold Table.usecs Table.microsecs Table.epoch_microsecs
  omega

/-! ## The microseconds -/

section
variable {Z : Type} {pg : Pg Z}

theorem usec_interval_kept (hpg : Documented pg) {k : Int} (hk : -2 ^ 63 ≤ k ∧ k < 2 ^ 63)
    (h : FloatKeeps (float_seconds k) k) : usec_interval pg k = .ok ⟨0, 0, k⟩ := by
  obtain ⟨v, hv, hrint⟩ := h
  have hinterval := hpg.make_interval 0 0 0 0 0 0 v
  simp only [hrint, Int.zero_mul, Int.zero_add] at hinterval
  unfold usec_interval
  rw [hv]
  have hzero : -2 ^ 31 ≤ (0 : Int) ∧ (0 : Int) < 2 ^ 31 := by decide
  exact hinterval hk ⟨hzero, hzero, hk⟩

/-- Less than 2^32 seconds come through a float with all their microseconds. -/
theorem float_kept {k : Int} (h : |k| < 4294967296000000) : FloatKeeps (float_seconds k) k := by
  have hk : |(k : ℚ)| < 4294967296000000 := by exact_mod_cast h
  have hint : round_double k = k := round_double_int (h.trans (by norm_num))
  have hbound := abs_lt.mp hk
  have hseconds : |(k : ℚ) / 1000000| < 2 ^ (32 : ℤ) := by
    have hpower : (2 : ℚ) ^ (32 : ℤ) = 4294967296 := by norm_num
    rw [hpower]
    exact abs_lt.mpr ⟨by linarith, by linarith⟩
  have hround := abs_le.mp ((round_double_near hseconds (by norm_num)).trans
    (by norm_num : (2 : ℚ) ^ (32 - 54 : ℤ) ≤ 24 / 100000000))
  generalize hv : round_double ((k : ℚ) / 1000000) = v at hround
  have hsize : |round_double ((k : ℚ) / 1000000)| < 2 ^ (64 : ℤ) := by
    have hpower : (4294967297 : ℚ) < 2 ^ (64 : ℤ) := by norm_num
    rw [hv]
    exact (abs_lt.mpr ⟨by linarith, by linarith⟩ : |v| < 4294967297).trans hpower
  have hproduct : |v * 1000000| < 2 ^ (52 : ℤ) := by
    have hpower : (2 : ℚ) ^ (52 : ℤ) = 4503599627370496 := by norm_num
    rw [hpower]
    exact abs_lt.mpr ⟨by linarith, by linarith⟩
  have hround' := abs_le.mp ((round_double_near hproduct (by norm_num)).trans
    (by norm_num : (2 : ℚ) ^ (52 - 54 : ℤ) ≤ 1 / 4))
  refine ⟨v, ?_, rint_eq (abs_lt.mpr ⟨by linarith, by linarith⟩)⟩
  unfold float_seconds
  rw [hint, to_float_small hsize, hv]

/-- Microseconds that are kept are added. -/
theorem add_usec_kept (hpg : Documented pg) {α : Type} {k : Int} (hk : -2 ^ 63 ≤ k ∧ k < 2 ^ 63)
    (h : FloatKeeps (float_seconds k) k) {t : α} {pl : α → Interval → Except String α}
    {value : α → TimeValue} {v : TimeValue} (hv : from_fields.add_usec pg k t pl value = .ok v) :
    (k = 0 ∧ v = value t) ∨ ∃ t', pl t ⟨0, 0, k⟩ = .ok t' ∧ v = value t' := by
  unfold from_fields.add_usec at hv
  by_cases h0 : k ≠ 0
  · rw [if_pos h0, usec_interval_kept hpg hk h] at hv
    obtain ⟨i, hi, hv⟩ := bind_eq_ok hv
    cases hi
    obtain ⟨t', ht', hv⟩ := bind_eq_ok hv
    cases hv
    exact Or.inr ⟨t', ht', rfl⟩
  · rw [if_neg h0] at hv
    cases hv
    exact Or.inl ⟨not_not.mp h0, rfl⟩

/-- A timestamp to which microseconds are added is in range, or there is an error. -/
theorem add_timestamp (hpg : Documented pg) {k t : Int} (ht : IS_VALID_TIMESTAMP t)
    (hk : -2 ^ 63 ≤ k ∧ k < 2 ^ 63) (h : FloatKeeps (float_seconds k) k)
    {pl : Int → Interval → Except String Int} {value : Int → TimeValue} {v : TimeValue}
    (hpl : (IS_VALID_TIMESTAMP (t + k) → pl t ⟨0, 0, k⟩ = .ok (t + k)) ∧
      (¬ IS_VALID_TIMESTAMP (t + k) → ∃ e, pl t ⟨0, 0, k⟩ = .error e))
    (hv : from_fields.add_usec pg k t pl value = .ok v) :
    IS_VALID_TIMESTAMP (t + k) ∧ v = value (t + k) := by
  rcases add_usec_kept hpg hk h hv with ⟨rfl, rfl⟩ | ⟨t', ht', rfl⟩
  · rw [Int.add_zero]
    exact ⟨ht, rfl⟩
  · by_cases hvalid : IS_VALID_TIMESTAMP (t + k)
    · rw [hpl.1 hvalid] at ht'
      cases ht'
      exact ⟨hvalid, rfl⟩
    · obtain ⟨e, he⟩ := hpl.2 hvalid
      rw [he] at ht'
      cases ht'

/-! ## Each type from its fields -/

/-- The sum with the microseconds fits. -/
theorem sum_fits {t : Table} {oid : TimeType} (h : t.SumFits pg oid) {x : Int}
    (hx : x = t.instant (t.sec.whole * 1000000) + t.offset pg oid * USECS_PER_SEC)
    (hvalid : IS_VALID_TIMESTAMP x) : -2 ^ 63 ≤ x + t.usecs ∧ x + t.usecs < 2 ^ 63 := by
  have hsum := h (hx ▸ hvalid)
  rw [instant_add] at hsum
  omega

/-- The offset of the session is one of a zone. -/
theorem determine_in_range (hdates : DocumentedDates pg) (tm : pg_tm) (tz : Z) :
    OffsetInRange (determine_timezone_offset pg tm tz).1 := by
  unfold determine_timezone_offset
  have hzero : OffsetInRange 0 := by unfold OffsetInRange; omega
  have hneg {g : Int} (h : OffsetInRange g) : OffsetInRange (-g) := by
    unfold OffsetInRange at h ⊢
    omega
  split
  · exact hzero
  · dsimp only
    generalize hb : pg.pg_next_dst_boundary tz _ = b
    have hbefore : OffsetInRange (-b.before_gmtoff) := by
      rw [← hb]
      exact hneg (hdates.pg_next_dst_boundary _ _).1
    have hafter : OffsetInRange (-b.after_gmtoff) := by
      rw [← hb]
      exact hneg (hdates.pg_next_dst_boundary _ _).2
    split
    · exact hzero
    · repeat' split
      all_goals assumption

variable {t : Table} {f : Fields} {v : TimeValue}

theorem timestamp_from_fields (hpg : Documented pg) (hdates : DocumentedDates pg)
    (hepoch : t.found_epoch = 0) (hx : t.Exact pg .TIMESTAMPOID) (htm : f.tm = t.tm)
    (husec : f.microsecs = t.usecs)
    (hv : from_fields pg .TIMESTAMPOID f no_zone none = .ok v) :
    v.Valid ∧ DenotesFinite pg t (t.sec.whole * 1000000 + t.usecs) v := by
  have hcarry := hx.carried hepoch TimeType.noConfusion
  have hnormal := carried_normal t
  have hinstant := carried_instant hepoch t.usecs
  have hstamp := hdates.tm2timestamp t.carried none hnormal.mon (carried_mday hcarry)
    (normal_clock hnormal) (by unfold OffsetInRange; rw [Option.getD_none]; omega)
  rw [Option.getD_none, Int.zero_mul, Int.add_zero] at hstamp
  unfold from_fields at hv
  dsimp only at hv
  rw [htm, carried_eq hcarry, hstamp, husec] at hv
  generalize (date2j t.carried.tm_year t.carried.tm_mon t.carried.tm_mday -
    POSTGRES_EPOCH_JDATE) * USECS_PER_DAY + clock_seconds t.carried * USECS_PER_SEC = x
    at hv hinstant
  by_cases hvalid : IS_VALID_JULIAN t.carried.tm_year t.carried.tm_mon ∧
      IS_VALID_TIMESTAMP x
  · rw [if_pos hvalid] at hv
    have hbefore : x = t.instant (t.sec.whole * 1000000) + 0 * USECS_PER_SEC := by
      rw [instant_add] at hinstant
      omega
    have hsum := sum_fits hx.kept.2 hbefore hvalid.2
    obtain ⟨hrange, rfl⟩ := add_timestamp hpg hvalid.2 hx.usecs_fit hx.kept.1
      (hpg.timestamp_pl_interval x t.usecs hvalid.2 hsum) hv
    exact ⟨hrange, hinstant⟩
  · rw [if_neg hvalid] at hv
    cases hv

theorem timestamptz_from_fields (hpg : Documented pg) (hdates : DocumentedDates pg)
    (hepoch : t.found_epoch = 0) (hx : t.Exact pg .TIMESTAMPTZOID) (htm : f.tm = t.tm)
    (husec : f.microsecs = t.usecs)
    (hv : from_fields pg .TIMESTAMPTZOID f no_zone none = .ok v) :
    v.Valid ∧ DenotesFinite pg t (t.sec.whole * 1000000 + t.usecs) v := by
  have hcarry := hx.carried hepoch TimeType.noConfusion
  have hnormal := carried_normal t
  have hinstant := carried_instant hepoch t.usecs
  have hclock := normal_clock hnormal
  have hoffset := determine_in_range hdates t.carried pg.session_timezone
  unfold from_fields at hv
  dsimp only at hv
  rw [htm, carried_eq hcarry, Option.getD_none, husec] at hv
  generalize htzo : determine_timezone_offset pg t.carried pg.session_timezone = tzo at *
  have hstamp := hdates.tm2timestamp { t.carried with tm_isdst := tzo.2 } (some tzo.1)
    hnormal.mon (carried_mday hcarry) hclock (by rw [Option.getD_some]; exact hoffset)
  have hseconds : clock_seconds { t.carried with tm_isdst := tzo.2 } =
      clock_seconds t.carried := rfl
  rw [Option.getD_some, hseconds] at hstamp
  dsimp only at hstamp
  rw [hstamp] at hv
  generalize (date2j t.carried.tm_year t.carried.tm_mon t.carried.tm_mday -
    POSTGRES_EPOCH_JDATE) * USECS_PER_DAY + clock_seconds t.carried * USECS_PER_SEC = x
    at hv hinstant
  by_cases hvalid : IS_VALID_JULIAN t.carried.tm_year t.carried.tm_mon ∧
      IS_VALID_TIMESTAMP (x + tzo.1 * USECS_PER_SEC)
  · rw [if_pos hvalid] at hv
    have hoffset : t.offset pg .TIMESTAMPTZOID = tzo.1 := by
      unfold Table.offset
      dsimp only
      rw [if_pos hepoch, htzo]
    have hbefore : x + tzo.1 * USECS_PER_SEC = t.instant (t.sec.whole * 1000000) +
        t.offset pg .TIMESTAMPTZOID * USECS_PER_SEC := by
      rw [instant_add] at hinstant
      rw [hoffset]
      omega
    have hsum := sum_fits hx.kept.2 hbefore hvalid.2
    obtain ⟨hrange, rfl⟩ := add_timestamp hpg hvalid.2 hx.usecs_fit hx.kept.1
      (hpg.timestamptz_pl_interval _ t.usecs hvalid.2 hsum) hv
    refine ⟨hrange, ?_⟩
    unfold DenotesFinite
    dsimp only
    rw [if_pos hepoch, htzo, ← hinstant]
    omega
  · rw [if_neg hvalid] at hv
    cases hv

/-- A time of day and microseconds beyond it, within any day. -/
theorem add_time {clock : Int} (usecs : Int) (hclock : 0 ≤ clock ∧ clock ≤ 86400) :
    (0 ≤ clock * USECS_PER_SEC ∧ clock * USECS_PER_SEC ≤ USECS_PER_DAY) ∧
      (0 ≤ (clock * USECS_PER_SEC + usecs) % USECS_PER_DAY ∧
        (clock * USECS_PER_SEC + usecs) % USECS_PER_DAY ≤ USECS_PER_DAY) := by
  unfold USECS_PER_SEC USECS_PER_DAY
  omega

/-- The time of an instant is within its day. -/
theorem time_of_instant {days x y : Int} (h : days * USECS_PER_DAY + x = y) :
    (x % USECS_PER_DAY - y) % USECS_PER_DAY = 0 ∧ (x - y) % USECS_PER_DAY = 0 := by
  subst h
  unfold USECS_PER_DAY
  omega

theorem clock_range {tm : pg_tm} (h : tm.Normal) :
    0 ≤ clock_seconds tm ∧ clock_seconds tm ≤ 86400 := by
  obtain ⟨hhour, hmin, hsec, hday⟩ := normal_clock h
  unfold clock_seconds
  omega

theorem usecs_fits {k : Int} (h : -2 ^ 63 ≤ k ∧ k < 2 ^ 63) : Interval.Fits ⟨0, 0, k⟩ := by
  have hzero : -2 ^ 31 ≤ (0 : Int) ∧ (0 : Int) < 2 ^ 31 := by decide
  exact ⟨hzero, hzero, h⟩

/-- A time of day to which the microseconds are added, for either type. -/
theorem add_clock {α : Type} (ofTime : Int → α) (hpg : Documented pg) (hepoch : t.found_epoch = 0)
    {pl : α → Interval → Except String α} {value : α → TimeValue} {v : TimeValue}
    (hfit : -2 ^ 63 ≤ t.usecs ∧ t.usecs < 2 ^ 63)
    (hkept : FloatKeeps (float_seconds t.usecs) t.usecs)
    (hsum : clock_seconds t.carried * USECS_PER_SEC + t.usecs < 2 ^ 63)
    (hpl : ∀ x (i : Interval), (0 ≤ x ∧ x ≤ USECS_PER_DAY) → i.Fits →
      (-2 ^ 63 ≤ x + i.time ∧ x + i.time < 2 ^ 63) →
        pl (ofTime x) i = .ok (ofTime ((x + i.time) % USECS_PER_DAY)))
    (hv : from_fields.add_usec pg t.usecs (ofTime (clock_seconds t.carried * USECS_PER_SEC)) pl
      value = .ok v) :
    ∃ x, v = value (ofTime x) ∧ (0 ≤ x ∧ x ≤ USECS_PER_DAY) ∧
      (x - t.instant (t.sec.whole * 1000000 + t.usecs)) % USECS_PER_DAY = 0 := by
  have hinstant := carried_instant hepoch t.usecs
  obtain ⟨hwhole, hrange⟩ := add_time t.usecs (clock_range (carried_normal t))
  rw [Int.add_assoc] at hinstant
  obtain ⟨hmod, hsame⟩ := time_of_instant hinstant
  have hadd := hpl _ _ hwhole (usecs_fits hfit) ⟨by dsimp only; omega, hsum⟩
  rcases add_usec_kept hpg hfit hkept hv with ⟨h0, rfl⟩ | ⟨x, hx, rfl⟩
  · refine ⟨_, rfl, hwhole, ?_⟩
    rw [h0] at hsame ⊢
    rwa [Int.add_zero] at hsame
  · cases hx.symm.trans hadd
    exact ⟨_, rfl, hrange, hmod⟩

theorem time_from_fields (hpg : Documented pg) (hepoch : t.found_epoch = 0)
    (hx : t.Exact pg .TIMEOID) (htm : f.tm = t.tm) (husec : f.microsecs = t.usecs)
    (hv : from_fields pg .TIMEOID f no_zone none = .ok v) :
    v.Valid ∧ DenotesFinite pg t (t.sec.whole * 1000000 + t.usecs) v := by
  have hcarry := hx.carried hepoch TimeType.noConfusion
  unfold from_fields at hv
  dsimp only at hv
  rw [htm, carried_eq hcarry, husec] at hv
  obtain ⟨x, hmake, hv⟩ := bind_eq_ok hv
  rw [hpg.make_time _ _ _ (normal_clock (carried_normal t))] at hmake
  cases hmake
  obtain ⟨x, rfl, hvalid, hdenotes⟩ := add_clock id hpg hepoch hx.usecs_fit hx.kept.1
    (hx.kept.2 hepoch) hpg.time_pl_interval hv
  exact ⟨hvalid, hdenotes⟩

theorem timetz_from_fields (hpg : Documented pg) (hepoch : t.found_epoch = 0)
    (hx : t.Exact pg .TIMETZOID) (htm : f.tm = t.tm) (husec : f.microsecs = t.usecs)
    (hv : from_fields pg .TIMETZOID f no_zone none = .ok v) :
    v.Valid ∧ DenotesFinite pg t (t.sec.whole * 1000000 + t.usecs) v := by
  have hcarry := hx.carried hepoch TimeType.noConfusion
  have hzone : -57600 < (0 : Int) ∧ (0 : Int) < 57600 := by decide
  unfold from_fields at hv
  dsimp only at hv
  rw [htm, carried_eq hcarry, husec] at hv
  obtain ⟨x, hmake, hv⟩ := bind_eq_ok hv
  cases hmake.symm.trans (timetz_of_offset hpg (normal_clock (carried_normal t)) hzone)
  obtain ⟨x, rfl, hvalid, hdenotes⟩ := add_clock (·, 0) hpg hepoch hx.usecs_fit
    hx.kept.1 (hx.kept.2 hepoch) (fun x i => hpg.timetz_pl_interval x 0 i) hv
  exact ⟨⟨hvalid, hzone⟩, hdenotes, rfl⟩

theorem date_from_fields (hdates : DocumentedDates pg) (hepoch : t.found_epoch = 0)
    (hx : t.Exact pg .DATEOID) (htm : f.tm = t.tm)
    (hv : from_fields pg .DATEOID f no_zone none = .ok v) :
    v.Valid ∧ DenotesFinite pg t (t.sec.whole * 1000000 + t.usecs) v := by
  have hcarry := hx.carried hepoch TimeType.noConfusion
  have hnormal := carried_normal t
  have hinstant := carried_instant hepoch t.usecs
  obtain ⟨hcounted, hvalid, hbegins, hends⟩ := hx.kept hepoch
  unfold from_fields at hv
  dsimp only at hv
  rw [htm, carried_eq hcarry, hdates.date2j _ _ _ hcounted hnormal.mon hvalid,
    valid_date_int hvalid] at hv
  cases hv
  refine ⟨hvalid, ?_, ?_⟩
  · rw [← hinstant]
    omega
  · rw [← hinstant, Int.add_mul, Int.one_mul]
    rcases hends with hends | ⟨hclock, h0⟩
    · exact Or.inl (by omega)
    · refine Or.inr ⟨hclock, ?_⟩
      rw [hclock, h0]
      unfold USECS_PER_SEC USECS_PER_DAY
      omega

theorem interval_from_fields (hpg : Documented pg) (hepoch : t.found_epoch = 0)
    (hx : t.Exact pg .INTERVALOID) (htm : f.tm = t.tm) (husec : f.microsecs = t.usecs)
    (hv : from_fields pg .INTERVALOID f no_zone none = .ok v) :
    v.Valid ∧ DenotesFinite pg t (t.sec.whole * 1000000 + t.usecs) v := by
  have hkept := hx.kept
  unfold Table.UsecsKept at hkept
  dsimp only at hkept
  rw [if_pos hepoch] at hkept
  obtain ⟨⟨w, hw, hrint⟩, hsecs, hfits⟩ := hkept
  have hsec : t.tm.tm_sec = t.sec.whole := rfl
  unfold from_fields at hv
  dsimp only at hv
  rw [htm, husec, hsec, hw] at hv
  obtain ⟨i, hmake, hv⟩ := bind_eq_ok hv
  cases hv
  have hinterval := hpg.make_interval t.tm.tm_year t.tm.tm_mon 0 t.tm.tm_mday t.tm.tm_hour
    t.tm.tm_min w
  have hsame : (⟨t.tm.tm_year * 12 + t.tm.tm_mon, 0 * 7 + t.tm.tm_mday,
      t.tm.tm_hour * USECS_PER_HOUR + t.tm.tm_min * USECS_PER_MINUTE +
        (t.sec.whole * 1000000 + t.usecs)⟩ : Interval) = t.interval := by
    rw [Int.zero_mul, Int.zero_add, Int.mul_comm t.tm.tm_year]
    rfl
  dsimp only at hinterval
  rw [hrint, hsame] at hinterval
  rw [hinterval hsecs hfits] at hmake
  cases hmake
  refine ⟨hfits, ?_⟩
  unfold DenotesFinite
  dsimp only
  rw [if_pos hepoch]
  rfl

/-! ## Each type from an epoch -/

theorem unix_epoch_valid : IS_VALID_TIMESTAMP unix_epoch := by decide

theorem epoch_instant (hepoch : t.found_epoch ≠ 0) (usecs : Int) :
    t.instant usecs = unix_epoch + usecs := by
  unfold Table.instant
  rw [if_neg hepoch]

/-- A timestamp of an epoch, that is in range or an error. -/
theorem epoch_timestamp (hpg : Documented pg) {k x : Int}
    (hsum : -2 ^ 63 ≤ unix_epoch + k ∧ unix_epoch + k < 2 ^ 63)
    (h : pg.timestamptz_pl_interval unix_epoch ⟨0, 0, k⟩ = .ok x) :
    IS_VALID_TIMESTAMP x ∧ x = unix_epoch + k := by
  have hpl := hpg.timestamptz_pl_interval unix_epoch k unix_epoch_valid hsum
  by_cases hvalid : IS_VALID_TIMESTAMP (unix_epoch + k)
  · cases h.symm.trans (hpl.1 hvalid)
    exact ⟨hvalid, rfl⟩
  · obtain ⟨e, he⟩ := hpl.2 hvalid
    rw [he] at h
    cases h

theorem midnight_clock : Clock 0 0 0 := by refine ⟨?_, ?_, ?_, ?_⟩ <;> decide

theorem epoch_date_denotes (hepoch : t.found_epoch ≠ 0)
    (hv : epoch_date pg t.usecs no_zone none = .ok v) :
    v.Valid ∧ DenotesFinite pg t t.usecs v := by
  have hday : (0 : Int) < 86400 * 1000000 := by decide
  unfold epoch_date at hv
  have hshifts : (!no_zone.shifts) = true := rfl
  rw [if_pos hshifts, floordiv_eq _ hday] at hv
  dsimp only at hv
  split at hv
  · rename_i hvalid
    cases hv
    refine ⟨hvalid, ?_, Or.inl ?_⟩
    · rw [epoch_instant hepoch]
      unfold unix_epoch UNIX_EPOCH_JDATE POSTGRES_EPOCH_JDATE USECS_PER_DAY
      omega
    · rw [epoch_instant hepoch]
      unfold unix_epoch UNIX_EPOCH_JDATE POSTGRES_EPOCH_JDATE USECS_PER_DAY
      omega
  · cases hv

/-- The time of an epoch. -/
theorem epoch_time (hepoch : t.found_epoch ≠ 0) :
    (0 ≤ (0 + t.usecs) % USECS_PER_DAY ∧ (0 + t.usecs) % USECS_PER_DAY ≤ USECS_PER_DAY) ∧
      ((0 + t.usecs) % USECS_PER_DAY - t.instant t.usecs) % USECS_PER_DAY = 0 := by
  rw [epoch_instant hepoch]
  unfold unix_epoch UNIX_EPOCH_JDATE POSTGRES_EPOCH_JDATE USECS_PER_DAY
  omega

/-- The sum of the epoch and its microseconds fits. -/
theorem epoch_sum_fits {oid : TimeType} (hepoch : t.found_epoch ≠ 0) (hsec : t.sec.whole = 0)
    (h : t.SumFits pg oid) : -2 ^ 63 ≤ unix_epoch + t.usecs ∧ unix_epoch + t.usecs < 2 ^ 63 := by
  have hoffset : t.offset pg oid = 0 := by
    unfold Table.offset
    split
    · exact if_neg hepoch
    · rfl
  refine sum_fits h ?_ unix_epoch_valid
  rw [hoffset, hsec, epoch_instant hepoch]
  omega

/-- A value from a finite epoch. -/
theorem from_epoch_denotes (hpg : Documented pg) {oid : TimeType} (hepoch : t.found_epoch ≠ 0)
    (hsec : t.sec.whole = 0) (hx : t.Exact pg oid) (husec : c_int64 (f.microsecs + f.epoch_microsecs) = t.usecs)
    (hsign : f.inf_sign = 0) (hv : from_epoch pg oid f no_zone none = .ok v) :
    v.Valid ∧ DenotesFinite pg t t.usecs v := by
  have hfit := hx.usecs_fit
  have hkept := hx.kept
  have hday : 0 ≤ (0 : Int) ∧ (0 : Int) ≤ USECS_PER_DAY := by decide
  have hzone : -57600 < (0 : Int) ∧ (0 : Int) < 57600 := by decide
  have hnot : ¬ f.inf_sign ≠ 0 := not_not.mpr hsign
  unfold from_epoch at hv
  dsimp only at hv
  rw [husec] at hv
  cases oid with
  | DATEOID => exact epoch_date_denotes hepoch hv
  | TIMESTAMPTZOID =>
    dsimp only at hv
    rw [usec_interval_kept hpg hfit hkept.1] at hv
    obtain ⟨i, hi, hv⟩ := bind_eq_ok hv
    cases hi
    rw [if_neg hnot] at hv
    obtain ⟨x, hx, hv⟩ := bind_eq_ok hv
    obtain ⟨hvalid, rfl⟩ := epoch_timestamp hpg (epoch_sum_fits hepoch hsec hkept.2) hx
    cases hv
    refine ⟨hvalid, ?_⟩
    unfold DenotesFinite
    dsimp only
    rw [if_neg hepoch, epoch_instant hepoch]
    omega
  | TIMESTAMPOID =>
    dsimp only at hv
    rw [usec_interval_kept hpg hfit hkept.1] at hv
    obtain ⟨i, hi, hv⟩ := bind_eq_ok hv
    cases hi
    rw [if_neg hnot] at hv
    obtain ⟨x, hx, hv⟩ := bind_eq_ok hv
    obtain ⟨hvalid, rfl⟩ := epoch_timestamp hpg (epoch_sum_fits hepoch hsec hkept.2) hx
    cases hv
    exact ⟨hvalid, (epoch_instant hepoch t.usecs).symm⟩
  | TIMEOID =>
    dsimp only at hv
    rw [usec_interval_kept hpg hfit hkept.1] at hv
    obtain ⟨i, hi, hv⟩ := bind_eq_ok hv
    cases hi
    obtain ⟨x, hmake, hv⟩ := bind_eq_ok hv
    have hmidnight := hpg.make_time 0 0 0 midnight_clock
    rw [Int.cast_zero] at hmidnight
    cases hmake.symm.trans hmidnight
    obtain ⟨x, hx, hv⟩ := bind_eq_ok hv
    cases hv
    have hpl := hpg.time_pl_interval 0 _ hday (usecs_fits hfit) (by rw [Int.zero_add]; exact hfit)
    cases hx.symm.trans hpl
    exact epoch_time hepoch
  | TIMETZOID =>
    dsimp only at hv
    rw [usec_interval_kept hpg hfit hkept.1] at hv
    obtain ⟨i, hi, hv⟩ := bind_eq_ok hv
    cases hi
    obtain ⟨x, hmake, hv⟩ := bind_eq_ok hv
    cases hmake.symm.trans (timetz_of_offset hpg midnight_clock hzone)
    obtain ⟨x, hx, hv⟩ := bind_eq_ok hv
    cases hv
    have hpl := hpg.timetz_pl_interval 0 0 _ hday (usecs_fits hfit)
      (by rw [Int.zero_add]; exact hfit)
    cases hx.symm.trans hpl
    exact ⟨⟨(epoch_time hepoch).1, hzone⟩, (epoch_time hepoch).2, rfl⟩
  | INTERVALOID =>
    unfold Table.UsecsKept at hkept
    dsimp only at hkept hv
    rw [if_neg hepoch] at hkept
    rw [usec_interval_kept hpg hfit hkept] at hv
    cases hv
    refine ⟨usecs_fits hfit, ?_⟩
    unfold DenotesFinite
    dsimp only
    rw [if_neg hepoch]

/-- An infinite epoch gives an infinite timestamp. -/
theorem from_epoch_infinite {oid : TimeType}
    (hoid : oid = .TIMESTAMPOID ∨ oid = .TIMESTAMPTZOID) {neg : Bool}
    (hsign : f.inf_sign = inf_sign_of neg) (hv : from_epoch pg oid f no_zone none = .ok v) :
    v.Infinite neg := by
  have hne : f.inf_sign ≠ 0 := by
    rw [hsign]
    exact inf_sign_of_ne neg
  unfold from_epoch at hv
  rcases hoid with rfl | rfl <;>
  · dsimp only at hv
    obtain ⟨i, -, hv⟩ := bind_eq_ok hv
    rw [if_pos hne] at hv
    cases hv
    exact congrArg infinite_timestamp hsign

/-! ## All types -/

theorem refuse_ok {c : Bool} {message : String} {u : Unit} (h : refuse c message = .ok u) :
    c = false := by
  unfold refuse at h
  split at h
  · cases h
  · rename_i hc
    exact Bool.eq_false_iff.mpr hc

/-- What the checks leave: one epoch at most, then no seconds, and infinite fields for timestamps
alone. -/
theorem check_table_ok {oid : TimeType} {z : Zone} {u : Unit}
    (h : check_table oid t f z = .ok u) :
    t.found_epoch ≤ 1 ∧ (t.found_epoch ≠ 0 → t.sec.is_nil = true) ∧
      (f.inf_sign ≠ 0 → oid = .TIMESTAMPOID ∨ oid = .TIMESTAMPTZOID) := by
  unfold check_table at h
  obtain ⟨u', hform, h⟩ := bind_eq_ok h
  have hsign := refuse_ok h
  unfold check_form at hform
  split at hform
  · cases hform
  · rename_i hle
    refine ⟨by omega, fun hne => ?_, fun hne => ?_⟩
    · have hone : t.found_epoch = 1 := by omega
      rw [if_pos hone] at hform
      unfold check_epoch at hform
      obtain ⟨_, -, hform⟩ := bind_eq_ok hform
      obtain ⟨_, htime, hform⟩ := bind_eq_ok hform
      have hfields := refuse_ok htime
      simp only [Bool.or_eq_false_iff, Bool.not_eq_false'] at hfields
      exact hfields.2
    · simp only [hne, ne_eq, not_false_eq_true, decide_true, Bool.true_and, Bool.not_eq_false',
        Bool.or_eq_true, decide_eq_true_eq] at hsign
      exact hsign

/-- The microseconds of a table with no epoch. -/
theorem usecs_no_epoch (hepoch : t.found_epoch = 0) : t.usecs = t.microsecs := by
  unfold Table.found_epoch at hepoch
  have hnil {v : LuaVal} (h : (if v.is_nil = true then 0 else 1) = 0) : v.is_nil = true := by
    split at h
    · assumption
    · cases h
  unfold Table.usecs Table.epoch_microsecs
  rw [scaled_nil (hnil (by omega) : t.epoch.is_nil = true),
    scaled_nil (hnil (by omega) : t.epoch_msec.is_nil = true),
    scaled_nil (hnil (by omega) : t.epoch_usec.is_nil = true)]
  omega

/-- The value of finite fields. -/
theorem finite_denotes (hpg : Documented pg) (hdates : DocumentedDates pg) {oid : TimeType}
    {z : Zone} {tz : Option Z} (htz : t.timezone = .nil) (hfin : t.Finite) (hx : t.Exact pg oid)
    (hread : read_table pg t = .ok (f, z)) {u : Unit} (hcheck : check_table oid t f z = .ok u)
    (hchoose : choose_timezone pg z = .ok tz)
    (hv : (if t.found_epoch = 1 then from_epoch pg oid f z tz else from_fields pg oid f z tz) =
      .ok v) :
    v.Valid ∧ DenotesFinite pg t (t.sec.whole * 1000000 + t.usecs) v := by
  obtain ⟨rfl, hsigned, hfields⟩ := read_table_ok htz hread
  obtain ⟨hone, hsec, -⟩ := check_table_ok hcheck
  obtain ⟨htm, husec, hepochs⟩ := hfields hfin hx.fits hone
  cases hchoose
  by_cases hepoch : t.found_epoch = 0
  · rw [if_neg (by omega)] at hv
    have hstored := hx.stored hepoch
    have hint : c_int t.sec.whole = t.sec.whole := congrArg pg_tm.tm_sec hstored
    have htm' : f.tm = t.tm := by
      rw [htm, ← hstored]
      unfold c_ints Table.tm
      dsimp only
      rw [hint]
    have husec' : f.microsecs = t.usecs := by
      rw [husec, ← usecs_no_epoch hepoch, c_int64_eq hx.usecs_fit]
    cases oid with
    | DATEOID => exact date_from_fields hdates hepoch hx htm' hv
    | TIMESTAMPOID => exact timestamp_from_fields hpg hdates hepoch hx htm' husec' hv
    | TIMESTAMPTZOID => exact timestamptz_from_fields hpg hdates hepoch hx htm' husec' hv
    | TIMEOID => exact time_from_fields hpg hepoch hx htm' husec' hv
    | TIMETZOID => exact timetz_from_fields hpg hepoch hx htm' husec' hv
    | INTERVALOID => exact interval_from_fields hpg hepoch hx htm' husec' hv
  · rw [if_pos (by omega)] at hv
    have hzero : t.sec.whole = 0 := whole_int (reads_nil (hsec hepoch))
    have husec' : c_int64 (f.microsecs + f.epoch_microsecs) = t.usecs := by
      rw [husec, hepochs, c_int64_add]
      exact c_int64_eq hx.usecs_fit
    rw [hzero, Int.zero_mul, Int.zero_add]
    exact from_epoch_denotes hpg hepoch hzero hx husec' (hsigned.finite hfin) hv

variable (pg) in
/-- Where nothing is cut or left out, the constructor makes a value in the range of its type that
is the value of the fields, or raises an error. -/
theorem table_denotes (hpg : Documented pg) (hdates : DocumentedDates pg) (oid : TimeType)
    (t : Table) (htz : t.timezone = .nil) (h : t.Kept pg oid) (v : TimeValue)
    (hv : pllua_time_tosql pg oid t = .ok v) : v.InRange ∧ Denotes pg t v := by
  unfold pllua_time_tosql at hv
  obtain ⟨⟨f, z⟩, hread, hv⟩ := bind_eq_ok hv
  obtain ⟨u, hcheck, hv⟩ := bind_eq_ok hv
  obtain ⟨tz, hchoose, hv⟩ := bind_eq_ok hv
  by_cases hfin : t.Finite
  · have hx := h.exact hfin
    obtain ⟨hvalid, hdenotes⟩ := finite_denotes hpg hdates htz hfin hx hread hcheck hchoose hv
    refine ⟨Or.inl hvalid, fun _ => ⟨_, table_microseconds hfin hx.fits, hdenotes⟩, ?_⟩
    intro w hw neg hneg
    exact absurd hneg (hfin w hw neg)
  · obtain ⟨rfl, hsigned, -⟩ := read_table_ok htz hread
    obtain ⟨hone, -, hoid⟩ := check_table_ok hcheck
    cases hchoose
    have hinfinite (w : LuaVal) (hw : w ∈ t.numbers) (neg : Bool) (hneg : w.reads = .infinite neg) :
        v.Infinite neg := by
      have hsign := hsigned.infinite w hw neg hneg
      have hoid' := hoid (by rw [hsign]; exact inf_sign_of_ne neg)
      have hepoch : t.found_epoch ≠ 0 := fun h0 => hfin (h.finite h0 hoid')
      rw [if_pos (by omega)] at hv
      exact from_epoch_infinite hoid' hsign hv
    have hsome : ∃ w ∈ t.numbers, ∃ neg, w.reads = .infinite neg := by
      by_contra hnone
      refine hfin fun w hw neg hneg => hnone ⟨w, hw, neg, hneg⟩
    obtain ⟨w, hw, neg, hneg⟩ := hsome
    exact ⟨Or.inr ⟨neg, hinfinite w hw neg hneg⟩, fun hall => absurd hall hfin, hinfinite⟩

end

/-! ## Tables of what does not fit -/

/-- The microseconds of whole fields are not rounded. -/
theorem microseconds_int {t : Table} {k sec msec usec epoch epoch_msec epoch_usec : Int}
    (hsec : t.sec.reads = .int sec) (hmsec : t.msec.reads = .int msec)
    (husec : t.usec.reads = .int usec) (hepoch : t.epoch.reads = .int epoch)
    (hepoch' : t.epoch_msec.reads = .int epoch_msec)
    (hepoch'' : t.epoch_usec.reads = .int epoch_usec) (h : t.Microseconds k) :
    k = sec * 1000000 + msec * 1000 + usec +
      (epoch * 1000000 + epoch_msec * 1000 + epoch_usec) := by
  obtain ⟨s, m, u, e, em, eu, hs, hm, hu, he, hem, heu, rfl⟩ := h
  have hexact {n j : Int} {q : ℚ} (hq : q = n) (h : |q - j| < 1) : j = n := by
    rw [hq] at h
    have hlt : |n - j| < 1 := by exact_mod_cast h
    have hbound := abs_lt.mp hlt
    omega
  have hamount {v : LuaVal} {i : Int} (h : v.reads = .int i) : v.amount = i := by
    unfold LuaVal.amount
    rw [h]
    rfl
  rw [hexact (n := sec * 1000000) (by rw [hamount hsec]; push_cast; rfl) hs,
    hexact (n := msec * 1000) (by rw [hamount hmsec]; push_cast; rfl) hm,
    hexact (hamount husec) hu,
    hexact (n := epoch * 1000000) (by rw [hamount hepoch]; push_cast; rfl) he,
    hexact (n := epoch_msec * 1000) (by rw [hamount hepoch']; push_cast; rfl) hem,
    hexact (hamount hepoch'') heu]

theorem reads_pushinteger {k : Int} (h : -2 ^ 63 ≤ k ∧ k < 2 ^ 63) :
    (pushinteger k).reads = .int k := by
  simp only [LuaVal.reads, pushinteger, LuaVal.tonumber, Int64.toInt_ofInt_of_le h.1 h.2]

/-- The year 2^32 + 2024. -/
def wrapped_year : Table :=
  { year := pushinteger 4294969320, month := pushinteger 1, day := pushinteger 1 }

/-- An epoch that has 2^64 microseconds and some more. -/
def wrapped_epoch : Table := { epoch := pushinteger 18446744073710 }

def infinite_year : Table :=
  { year := .number (.float (.inf false)), month := pushinteger 1, day := pushinteger 1 }

theorem wrapped_year_other : ¬ Denotes fixed_zones wrapped_year (.date 8766) := by
  intro h
  have hnil : LuaVal.nil.reads = .int 0 := rfl
  have hone := reads_pushinteger (by decide : -2 ^ 63 ≤ (1 : Int) ∧ (1 : Int) < 2 ^ 63)
  have hyear := reads_pushinteger
    (by decide : -2 ^ 63 ≤ (4294969320 : Int) ∧ (4294969320 : Int) < 2 ^ 63)
  have hfin : wrapped_year.Finite := by
    simp only [Table.Finite, Table.numbers, List.forall_mem_cons]
    exact ⟨finite_int hnil, finite_int hnil, finite_int hnil, finite_int hnil, finite_int hnil,
      finite_int hnil, finite_int hnil, finite_int hnil, finite_int hone, finite_int hone,
      finite_int hyear, fun v hv => absurd hv List.not_mem_nil⟩
  obtain ⟨k, hk, -, hends⟩ := h.finite hfin
  have hzero : k = 0 := microseconds_int hnil hnil hnil hnil hnil hnil hk
  have hinstant : 8767 * USECS_PER_DAY < wrapped_year.instant 0 := by
    have hwhole : wrapped_year.year.whole = 4294969320 ∧ wrapped_year.month.whole = 1 ∧
        wrapped_year.day.whole = 1 ∧ wrapped_year.hour.whole = 0 ∧ wrapped_year.min.whole = 0 :=
      ⟨whole_int hyear, whole_int hone, whole_int hone, whole_int hnil, whole_int hnil⟩
    obtain ⟨hy, hm, hd, hh, hmin⟩ := hwhole
    unfold Table.instant
    rw [hy, hm, hd, hh, hmin]
    decide +kernel
  rw [hzero] at hends
  omega

theorem wrapped_epoch_other : ¬ Denotes fixed_zones wrapped_epoch (.date (-10957)) := by
  intro h
  have hnil : LuaVal.nil.reads = .int 0 := rfl
  have hepoch := reads_pushinteger
    (by decide : -2 ^ 63 ≤ (18446744073710 : Int) ∧ (18446744073710 : Int) < 2 ^ 63)
  have hfin : wrapped_epoch.Finite := by
    simp only [Table.Finite, Table.numbers, List.forall_mem_cons]
    exact ⟨finite_int hnil, finite_int hnil, finite_int hepoch, finite_int hnil, finite_int hnil,
      finite_int hnil, finite_int hnil, finite_int hnil, finite_int hnil, finite_int hnil,
      finite_int hnil, fun v hv => absurd hv List.not_mem_nil⟩
  obtain ⟨k, hk, -, hends⟩ := h.finite hfin
  have husec : k = 18446744073710000000 :=
    microseconds_int hnil hnil hnil hepoch hnil hnil hk
  have hinstant : wrapped_epoch.instant k = unix_epoch + k := epoch_instant (by decide) k
  rw [hinstant, husec] at hends
  revert hends
  decide

theorem infinite_year_other :
    ¬ Denotes fixed_zones infinite_year (.timestamp (-63113904000000000)) := by
  intro h
  have hmem : LuaVal.number (.float (.inf false)) ∈ infinite_year.numbers := by
    simp [Table.numbers, infinite_year]
  have hinfinite : (-63113904000000000 : Int) = infinite_timestamp (inf_sign_of false) :=
    h.infinite _ hmem false rfl
  revert hinfinite
  decide

/-- The year is taken as 2024, the epoch as the first half second of 1970, and the infinite year as
the year before 1. -/
theorem wrapped_tables_accepted :
    Documented fixed_zones ∧ DocumentedDates fixed_zones ∧
      (pllua_time_tosql fixed_zones .DATEOID wrapped_year = .ok (.date 8766) ∧
        ¬ Denotes fixed_zones wrapped_year (.date 8766)) ∧
      (pllua_time_tosql fixed_zones .DATEOID wrapped_epoch = .ok (.date (-10957)) ∧
        ¬ Denotes fixed_zones wrapped_epoch (.date (-10957))) ∧
      (pllua_time_tosql fixed_zones .TIMESTAMPOID infinite_year =
          .ok (.timestamp (-63113904000000000)) ∧
        ¬ Denotes fixed_zones infinite_year (.timestamp (-63113904000000000))) :=
  ⟨fixed_zones_documented, fixed_zones_dates, ⟨by decide +kernel, wrapped_year_other⟩,
    ⟨by decide +kernel, wrapped_epoch_other⟩, ⟨by decide +kernel, infinite_year_other⟩⟩

/-- Fields that are all carried. -/
def carried_fields : Table :=
  { year := pushinteger 2024
    month := pushinteger 14
    day := pushinteger (-3)
    hour := pushinteger 25
    min := pushinteger 61
    sec := pushinteger 61 }

theorem carried_fields_finite : carried_fields.Finite ∧
    carried_fields.tm = ⟨61, 61, 25, -3, 14, 2024, -1, 0⟩ := by
  have hnil : LuaVal.nil.reads = .int 0 := rfl
  have hyear : carried_fields.year.reads = .int 2024 := reads_pushinteger (by decide)
  have hmonth : carried_fields.month.reads = .int 14 := reads_pushinteger (by decide)
  have hday : carried_fields.day.reads = .int (-3) := reads_pushinteger (by decide)
  have hhour : carried_fields.hour.reads = .int 25 := reads_pushinteger (by decide)
  have hmin : carried_fields.min.reads = .int 61 := reads_pushinteger (by decide)
  have hsec : carried_fields.sec.reads = .int 61 := reads_pushinteger (by decide)
  constructor
  · simp only [Table.Finite, Table.numbers, List.forall_mem_cons]
    exact ⟨finite_int hnil, finite_int hnil, finite_int hnil, finite_int hnil, finite_int hnil,
      finite_int hsec, finite_int hmin, finite_int hhour, finite_int hday, finite_int hmonth,
      finite_int hyear, fun v hv => absurd hv List.not_mem_nil⟩
  · unfold Table.tm
    rw [whole_int hyear, whole_int hmonth, whole_int hday, whole_int hhour, whole_int hmin,
      whole_int hsec]
    rfl

theorem carried_fields_kept : carried_fields.Kept fixed_zones .TIMESTAMPOID := by
  obtain ⟨hfin, htm⟩ := carried_fields_finite
  have hsec : carried_fields.sec.reads = .int 61 := reads_pushinteger (by decide)
  have husec : carried_fields.usecs = 0 := by
    unfold Table.usecs Table.microsecs Table.epoch_microsecs LuaVal.sec_usec
    rw [hsec]
    rfl
  have hnone (scale : Int) : LuaVal.nil.ScaleFits scale := by
    show -2 ^ 63 ≤ 0 * scale ∧ 0 * scale < 2 ^ 63
    omega
  refine ⟨fun _ _ => hfin, fun _ => ⟨⟨?_, hnone 1000, trivial, hnone 1000000, hnone 1000, hnone 1⟩,
    ?_, fun _ => ?_, fun _ _ => ?_, ?_⟩⟩
  · rw [whole_int hsec]
    unfold Fits32
    decide
  · rw [husec]
    decide
  · rw [htm]
    decide
  · rw [htm]
    exact ⟨fun _ => by decide, by decide, by decide⟩
  · unfold Table.UsecsKept
    dsimp only
    refine ⟨by rw [husec]; exact float_kept (by decide), fun hvalid => ?_⟩
    rw [husec, Int.add_zero]
    unfold IS_VALID_TIMESTAMP at hvalid
    omega

/-- They are 2025-01-29 02:02:01. -/
theorem carried_fields_denote :
    (TimeValue.timestamp 791431321000000).InRange ∧
      Denotes fixed_zones carried_fields (.timestamp 791431321000000) :=
  table_denotes fixed_zones fixed_zones_documented fixed_zones_dates .TIMESTAMPOID carried_fields
    rfl carried_fields_kept _ (by decide +kernel)

end pllua.datetime
