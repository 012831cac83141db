-- PostgreSQL with zones of fixed offsets alone: a zone is its seconds east of Greenwich.
-- It does all that is documented, so the laws of times speak of something.
import Pllua.Calendar
import Pllua.TimeTables

open pllua.calendar pllua.floats pllua.rounding
open pllua.numeric (Float8)
open pllua.time

namespace pllua.datetime

/-! ## The functions -/

/-- A zone by its offset. -/
structure FixedZone where
  gmtoff : Int
  in_range : OffsetInRange gmtoff

instance (g : Int) : Decidable (OffsetInRange g) := by unfold OffsetInRange; infer_instance

def greenwich : FixedZone := ⟨0, by decide⟩

/-- The zone of an offset that is west of Greenwich. -/
def fixed_tzset_offset (g : Int) : Option FixedZone :=
  if h : OffsetInRange (-g) then some ⟨-g, h⟩ else none

/-- The fields of a local time. -/
def local_tm (t gmtoff : Int) : pg_tm :=
  have date := j2date (t / USECS_PER_DAY + POSTGRES_EPOCH_JDATE)
  have time := t % USECS_PER_DAY
  { tm_sec := time / USECS_PER_SEC % 60
    tm_min := time / USECS_PER_MINUTE % 60
    tm_hour := time / USECS_PER_HOUR
    tm_mday := date.2.2
    tm_mon := date.2.1
    tm_year := date.1
    tm_isdst := 0
    tm_gmtoff := gmtoff }

def fixed_timestamp2tm (t : Int) (tz : Option FixedZone) : Option (pg_tm × Int) :=
  have gmtoff := (tz.getD greenwich).gmtoff
  have shown := t + gmtoff * USECS_PER_SEC
  some (local_tm shown gmtoff, shown % USECS_PER_SEC)

/-- The microseconds of a timestamp, if it is one. -/
def fixed_tm2timestamp (tm : pg_tm) (fsec : Int) (tzo : Option Int) : Option Int :=
  have t := (date2j tm.tm_year tm.tm_mon tm.tm_mday - POSTGRES_EPOCH_JDATE) * USECS_PER_DAY +
    clock_seconds tm * USECS_PER_SEC + fsec + tzo.getD 0 * USECS_PER_SEC
  if IS_VALID_JULIAN tm.tm_year tm.tm_mon ∧ IS_VALID_TIMESTAMP t then some t else none

instance (i : Interval) : Decidable i.Fits :=
  decidable_of_iff ((-2 ^ 31 ≤ i.month ∧ i.month < 2 ^ 31) ∧ (-2 ^ 31 ≤ i.day ∧ i.day < 2 ^ 31) ∧
    (-2 ^ 63 ≤ i.time ∧ i.time < 2 ^ 63))
    ⟨fun h => ⟨h.1, h.2.1, h.2.2⟩, fun h => ⟨h.month, h.day, h.time⟩⟩

def fixed_make_interval (years months weeks days hours mins : Int) (secs : Float8) :
    Except String Interval :=
  match secs with
  | .fin s =>
    have i : Interval := ⟨years * 12 + months, weeks * 7 + days,
      hours * USECS_PER_HOUR + mins * USECS_PER_MINUTE + rint (round_double (s * 1000000))⟩
    if i.Fits then .ok i else .error "interval out of range"
  | _ => .error "interval out of range"

def fixed_make_time (hour min : Int) (sec : Float8) : Except String Int :=
  match sec with
  | .fin s =>
    have time := (hour * 3600 + min * 60) * USECS_PER_SEC + rint (round_double (s * 1000000))
    if 0 ≤ hour ∧ 0 ≤ min ∧ min ≤ 59 ∧ 0 ≤ s ∧ s ≤ 60 ∧ time ≤ USECS_PER_DAY then .ok time
    else .error "time field value out of range"
  | _ => .error "time field value out of range"

def fixed_timetz_in (hour min sec : Int) (neg : Bool) (zhour zmin zsec : Int) :
    Except String (Int × Int) :=
  have zone := zhour * 3600 + zmin * 60 + zsec
  .ok ((hour * 3600 + min * 60 + sec) * USECS_PER_SEC, if neg then zone else -zone)

/-- The months of an interval are added first, where the day is cut to the last of the month, then
the days, then the time. -/
def fixed_pl_interval (t : Int) (i : Interval) : Except String Int :=
  have date := j2date (t / USECS_PER_DAY + POSTGRES_EPOCH_JDATE)
  have months := date.1 * 12 + (date.2.1 - 1) + i.month
  have first := date2j (months / 12) (months % 12 + 1) 1
  have last := date2j ((months + 1) / 12) ((months + 1) % 12 + 1) 1 - first
  have day := if i.month = 0 then t / USECS_PER_DAY
    else first + (min date.2.2 last - 1) - POSTGRES_EPOCH_JDATE
  have t := (day + i.day) * USECS_PER_DAY + t % USECS_PER_DAY + i.time
  if IS_VALID_TIMESTAMP t then .ok t else .error "timestamp out of range"

/-- The date of a Unix time. -/
def fixed_localtime (time : Int) (tz : FixedZone) : Option (Int × Int × Int) :=
  some (j2date ((time + tz.gmtoff) / 86400 + UNIX_EPOCH_JDATE))

def fixed_interval2itm (i : Interval) : pg_tm × Int :=
  ({ tm_sec := (i.time.tmod USECS_PER_MINUTE).tdiv USECS_PER_SEC
     tm_min := (i.time.tmod USECS_PER_HOUR).tdiv USECS_PER_MINUTE
     tm_hour := i.time.tdiv USECS_PER_HOUR
     tm_mday := i.day
     tm_mon := i.month.tmod 12
     tm_year := i.month.tdiv 12
     tm_isdst := -1
     tm_gmtoff := 0 }, i.time.tmod USECS_PER_SEC)

def fixed_zones : Pg FixedZone :=
  { session_timezone := greenwich
    pg_tzset_offset := fixed_tzset_offset
    pg_tzset := fun name => if name = "UTC" then some greenwich else none
    DecodeTimezone := fun _ => none
    pg_next_dst_boundary := fun tz _ => ⟨0, tz.gmtoff, 0, 0, 0, 0⟩
    date2j := date2j
    j2date := j2date
    pg_localtime := fixed_localtime
    timestamp2tm := fixed_timestamp2tm
    tm2timestamp := fixed_tm2timestamp
    make_interval := fixed_make_interval
    make_time := fixed_make_time
    timetz_in := fixed_timetz_in
    timestamp_pl_interval := fixed_pl_interval
    timestamptz_pl_interval := fixed_pl_interval
    time_pl_interval := fun t i => .ok ((t + i.time) % USECS_PER_DAY)
    timetz_pl_interval := fun t i => .ok ((t.1 + i.time) % USECS_PER_DAY, t.2)
    interval2itm := fixed_interval2itm
    time_part_epoch := fun t => round_double (t / 1000000)
    timetz_part_epoch := fun t => round_double (round_double (t.1 / 1000000) + t.2)
    timetz_part_timezone := fun t => (-t.2 : Int) }

/-! ## They do what is documented -/

/-- The days from 4714-11-17 BC are of valid years. -/
theorem julian_of_day {jd year month day : Int} (hjd : date2j year month day = jd)
    (hmonth : 1 ≤ month ∧ month ≤ 12) (hday : 1 ≤ day ∧ day ≤ 31)
    (hlow : -7 ≤ jd) (hhigh : jd < 2147483494) : IS_VALID_JULIAN year month := by
  unfold date2j at hjd
  dsimp only at hjd
  unfold IS_VALID_JULIAN
  split at hjd <;> omega

theorem j2date_julian {jd : Int} (hlow : -7 ≤ jd) (hhigh : jd < 2147483494) :
    IS_VALID_JULIAN (j2date jd).1 (j2date jd).2.1 :=
  julian_of_day (date2j_j2date jd) (j2date_range jd).1 (j2date_range jd).2 hlow hhigh

/-- The fields of a local time are those that a clock shows. -/
theorem local_tm_shows {t : Int} (gmtoff : Int)
    (h : -211814092800000000 ≤ t ∧ t ≤ 9223372036000000000) :
    Shows fixed_zones (local_tm t gmtoff) (t % USECS_PER_SEC) t := by
  have hdate := date2j_j2date (t / USECS_PER_DAY + POSTGRES_EPOCH_JDATE)
  have hrange := j2date_range (t / USECS_PER_DAY + POSTGRES_EPOCH_JDATE)
  have hjd : -7 ≤ t / USECS_PER_DAY + POSTGRES_EPOCH_JDATE ∧
      t / USECS_PER_DAY + POSTGRES_EPOCH_JDATE < 2147483494 := by
    unfold USECS_PER_DAY POSTGRES_EPOCH_JDATE
    omega
  have hjulian := j2date_julian hjd.1 hjd.2
  refine ⟨hjulian, hrange.1, hrange.2, ?_, ?_, ?_, ?_, ?_⟩
  · unfold local_tm USECS_PER_HOUR USECS_PER_DAY
    dsimp only
    omega
  · unfold local_tm USECS_PER_MINUTE USECS_PER_DAY
    dsimp only
    omega
  · unfold local_tm USECS_PER_SEC USECS_PER_DAY
    dsimp only
    omega
  · unfold USECS_PER_SEC
    omega
  · unfold stamp clock_seconds local_tm fixed_zones
    dsimp only
    rw [hdate]
    unfold USECS_PER_HOUR USECS_PER_MINUTE USECS_PER_SEC USECS_PER_DAY
    omega

theorem fixed_tm2timestamp_eq {tm : pg_tm} (fsec : Int) (tzo : Option Int)
    (h : IS_VALID_JULIAN tm.tm_year tm.tm_mon) :
    fixed_tm2timestamp tm fsec tzo =
      if IS_VALID_TIMESTAMP (stamp fixed_zones tm fsec + tzo.getD 0 * USECS_PER_SEC)
      then some (stamp fixed_zones tm fsec + tzo.getD 0 * USECS_PER_SEC) else none := by
  unfold fixed_tm2timestamp stamp fixed_zones
  dsimp only
  simp only [h, true_and]

/-- Without months and days the time alone is added. -/
theorem fixed_pl_interval_eq (t time : Int) :
    fixed_pl_interval t ⟨0, 0, time⟩ =
      if IS_VALID_TIMESTAMP (t + time) then .ok (t + time) else .error "timestamp out of range" := by
  have hsum : (t / USECS_PER_DAY + 0) * USECS_PER_DAY + t % USECS_PER_DAY + time = t + time := by
    unfold USECS_PER_DAY
    omega
  unfold fixed_pl_interval
  dsimp only
  rw [if_pos rfl, hsum]

/-- The float of the seconds of a time of a day. -/
theorem time_seconds {t : Int} (ht : 0 ≤ t ∧ t ≤ USECS_PER_DAY) :
    |round_double ((t : ℚ) / 1000000) - t / 1000000| ≤ 2 ^ (-37 : ℤ) ∧
      ∀ k : ℤ, t = k * 1000000 → round_double ((t : ℚ) / 1000000) = k := by
  unfold USECS_PER_DAY at ht
  have hlow : (0 : ℚ) ≤ t := by exact_mod_cast ht.1
  have hhigh : (t : ℚ) ≤ 86400000000 := by exact_mod_cast ht.2
  have hsize : |(t : ℚ) / 1000000| < 2 ^ (17 : ℤ) := by
    have hpower : (2 : ℚ) ^ (17 : ℤ) = 131072 := by norm_num
    rw [hpower]
    exact abs_lt.mpr ⟨by linarith, by linarith⟩
  constructor
  · rw [abs_sub_comm]
    exact (round_double_near hsize (by norm_num)).trans (by norm_num)
  · intro k hk
    have hint : (t : ℚ) / 1000000 = k := by
      rw [hk]
      push_cast
      ring
    rw [hint]
    exact round_double_int (abs_lt.mpr ⟨by omega, by omega⟩)

/-- The float of the seconds of a time of a day with a zone, in two steps. -/
theorem timetz_seconds {t zone : Int} (ht : 0 ≤ t ∧ t ≤ USECS_PER_DAY)
    (hzone : -57600 < zone ∧ zone < 57600) :
    Seconds (round_double (round_double (t / 1000000) + zone)) (t + zone * USECS_PER_SEC) := by
  obtain ⟨hnear, hwhole⟩ := time_seconds ht
  have htotal : ((t + zone * USECS_PER_SEC : ℤ) : ℚ) / 1000000 = t / 1000000 + zone := by
    unfold USECS_PER_SEC
    push_cast
    ring
  unfold USECS_PER_DAY at ht
  have hlow : (0 : ℚ) ≤ t := by exact_mod_cast ht.1
  have hhigh : (t : ℚ) ≤ 86400000000 := by exact_mod_cast ht.2
  have hlow' : (-57600 : ℚ) < zone := by exact_mod_cast hzone.1
  have hhigh' : (zone : ℚ) < 57600 := by exact_mod_cast hzone.2
  have hsize : |round_double ((t : ℚ) / 1000000) + zone| < 2 ^ (18 : ℤ) := by
    have hbound := abs_le.mp (hnear.trans (by norm_num : (2 : ℚ) ^ (-37 : ℤ) ≤ 1))
    have hpower : (2 : ℚ) ^ (18 : ℤ) = 262144 := by norm_num
    rw [hpower]
    exact abs_lt.mpr ⟨by linarith, by linarith⟩
  have hround := round_double_near hsize (by norm_num)
  refine ⟨?_, ?_⟩
  · rw [htotal]
    have htri := abs_sub_le (round_double (round_double ((t : ℚ) / 1000000) + zone))
      (round_double ((t : ℚ) / 1000000) + zone) (t / 1000000 + zone)
    rw [abs_sub_comm (round_double (round_double ((t : ℚ) / 1000000) + zone))
      (round_double ((t : ℚ) / 1000000) + zone), add_sub_add_right_eq_sub] at htri
    exact htri.trans ((add_le_add hround hnear).trans (by norm_num))
  · intro k hk
    unfold USECS_PER_SEC at hk
    rw [hwhole (k - zone) (by rw [Int.sub_mul, ← hk, Int.add_sub_cancel])]
    push_cast
    rw [sub_add_cancel]
    exact round_double_int (abs_lt.mpr ⟨by omega, by omega⟩)

/-- A time of day of whole seconds. -/
theorem fixed_make_time_eq {hour min sec : Int} (h : Clock hour min sec) :
    fixed_make_time hour min (.fin sec) = .ok ((hour * 3600 + min * 60 + sec) * USECS_PER_SEC) := by
  obtain ⟨hhour, hmin, hsec, hday⟩ := h
  have hmicro : rint (round_double ((sec : ℚ) * 1000000)) = sec * USECS_PER_SEC := by
    have hint : (sec : ℚ) * 1000000 = ((sec * USECS_PER_SEC : ℤ) : ℚ) := by
      unfold USECS_PER_SEC
      push_cast
      ring
    rw [hint, round_double_int, rint_int]
    unfold USECS_PER_SEC
    exact abs_lt.mpr ⟨by omega, by omega⟩
  have hlow : (0 : ℚ) ≤ sec := by exact_mod_cast hsec.1
  have hhigh : (sec : ℚ) ≤ 60 := by exact_mod_cast hsec.2
  have htotal : (hour * 3600 + min * 60) * USECS_PER_SEC + sec * USECS_PER_SEC =
      (hour * 3600 + min * 60 + sec) * USECS_PER_SEC := by ring
  unfold fixed_make_time
  dsimp only
  rw [hmicro, htotal, if_pos]
  refine ⟨hhour, hmin.1, hmin.2, hlow, hhigh, ?_⟩
  unfold USECS_PER_SEC USECS_PER_DAY
  omega

theorem fixed_tzset_offset_eq {g : Int} (h : OffsetInRange g) :
    fixed_tzset_offset (-g) = some ⟨g, h⟩ := by
  unfold fixed_tzset_offset
  simp only [Int.neg_neg, dif_pos h]

theorem fixed_zones_documented : Documented fixed_zones := by
  have hpl (t time : Int) : (IS_VALID_TIMESTAMP (t + time) →
        fixed_pl_interval t ⟨0, 0, time⟩ = .ok (t + time)) ∧
      (¬ IS_VALID_TIMESTAMP (t + time) → ∃ e, fixed_pl_interval t ⟨0, 0, time⟩ = .error e) := by
    rw [fixed_pl_interval_eq]
    exact ⟨fun h => if_pos h, fun h => ⟨_, if_neg h⟩⟩
  have htm (t g : Int) (ht : IS_VALID_TIMESTAMP t) (hg : OffsetInRange g) :
      Shows fixed_zones (local_tm (t + g * USECS_PER_SEC) g)
        ((t + g * USECS_PER_SEC) % USECS_PER_SEC) (t + g * USECS_PER_SEC) := by
    refine local_tm_shows g ?_
    unfold IS_VALID_TIMESTAMP at ht
    unfold OffsetInRange at hg
    unfold USECS_PER_SEC
    omega
  exact
    { j2date := fun jd h => by
        unfold IS_VALID_DATE POSTGRES_EPOCH_JDATE at h
        exact ⟨j2date_julian (by omega) (by omega), (j2date_range jd).1, (j2date_range jd).2,
          date2j_j2date jd⟩
      timestamp2tm := fun t ht => by
        have hsame : t + greenwich.gmtoff * USECS_PER_SEC = t := by
          have hzero : greenwich.gmtoff = 0 := rfl
          rw [hzero, Int.zero_mul, Int.add_zero]
        have hshows := htm t greenwich.gmtoff ht greenwich.in_range
        refine ⟨_, _, rfl, ?_⟩
        rw [hsame] at hshows
        rw [Option.getD_none, hsame]
        exact hshows
      timestamptz2tm := fun t z ht =>
        ⟨_, _, rfl, z.in_range, htm t z.gmtoff ht z.in_range⟩
      tm2timestamp := fun tm fsec tzo h _ _ _ _ => fixed_tm2timestamp_eq fsec tzo h
      pg_tzset_offset := fun g h => ⟨⟨g, h⟩, fixed_tzset_offset_eq h, fun _ => ⟨rfl, rfl⟩⟩
      make_interval := fun years months weeks days hours mins secs =>
        fun _ h => if_pos h
      make_time := fun hour min sec h => fixed_make_time_eq h
      timetz_in := fun _ _ _ _ _ _ _ _ _ _ _ _ => rfl
      timestamp_pl_interval := fun t time _ _ => hpl t time
      timestamptz_pl_interval := fun t time _ _ => hpl t time
      time_pl_interval := fun _ _ _ _ _ => rfl
      timetz_pl_interval := fun _ _ _ _ _ _ => rfl
      interval2itm := fun _ _ => rfl
      time_part_epoch := fun t ht =>
        ⟨(time_seconds ht).1.trans (by norm_num), (time_seconds ht).2⟩
      timetz_part_epoch := fun t zone ht hzone => timetz_seconds ht hzone
      timetz_part_timezone := fun _ _ => rfl }

end pllua.datetime
