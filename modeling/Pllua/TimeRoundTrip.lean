-- The round trip of times: a finite value comes back from its table, but for an
-- interval with an hour part that is no `int`.
import Pllua.FixedZones

open pllua.floats pllua.rounding
open pllua.constructors (c_int)
open pllua.numeric (Float8 c_int_eq_iff)
open pllua.time

namespace pllua.datetime

/-! ## Tables of integers -/

/-- A field with an integer, if there is one. -/
def field : Option Int → LuaVal
  | none => .nil
  | some k => pushinteger k

/-- The integers of a table. -/
structure Ints where
  year : Option Int := none
  month : Option Int := none
  day : Option Int := none
  hour : Option Int := none
  min : Option Int := none
  sec : Option Int := none
  usec : Option Int := none

def Ints.table (i : Ints) (isdst timezone : LuaVal) : Table :=
  { year := field i.year
    month := field i.month
    day := field i.day
    hour := field i.hour
    min := field i.min
    sec := field i.sec
    usec := field i.usec
    isdst := isdst
    timezone := timezone }

/-- An integer of 64 bits, if there is one. -/
def Fits64 (k : Option Int) : Prop := -2 ^ 63 ≤ k.getD 0 ∧ k.getD 0 < 2 ^ 63

structure Ints.Fit (i : Ints) : Prop where
  year : Fits64 i.year
  month : Fits64 i.month
  day : Fits64 i.day
  hour : Fits64 i.hour
  min : Fits64 i.min
  sec : Fits64 i.sec
  usec : Fits64 i.usec

/-- The value of `isdst`. -/
def isdst_of (v : LuaVal) : Int := if v.is_nil then -1 else if v.toboolean then 1 else 0

/-- The fields that are read of integers. -/
def Ints.fields (i : Ints) (isdst : LuaVal) : Fields :=
  { tm := ⟨c_int (i.sec.getD 0), c_int (i.min.getD 0), c_int (i.hour.getD 0), c_int (i.day.getD 0),
      c_int (i.month.getD 0), c_int (i.year.getD 0), isdst_of isdst, 0⟩
    tmpflt := 0
    microsecs := i.usec.getD 0
    epoch_microsecs := 0
    inf_sign := 0 }

theorem c_int_zero : c_int 0 = 0 := (c_int_eq_iff 0).mpr (by omega)

theorem c_int64_eq {k : Int} (h : -2 ^ 63 ≤ k ∧ k < 2 ^ 63) : c_int64 k = k := by
  unfold c_int64
  exact Int.bmod_eq_of_le (by omega) (by omega)

@[simp] theorem field_is_nil (k : Option Int) : (field k).is_nil = k.isNone := by
  cases k <;> rfl

theorem getnumber_pushinteger {k : Int} (h : -2 ^ 63 ≤ k ∧ k < 2 ^ 63) (fval : Bool)
    (inf_sign : Option Int) (name : String) :
    getnumber (pushinteger k) fval inf_sign name = .ok (.int k) := by
  simp only [getnumber, pushinteger, LuaVal.tonumber, Int64.toInt_ofInt_of_le h.1 h.2]

theorem TMGET_field {k : Option Int} (h : Fits64 k) (name : String) (inf_sign : Int) :
    TMGET name (field k) inf_sign = .ok (c_int (k.getD 0), inf_sign) := by
  unfold TMGET
  cases k with
  | none =>
    simp only [field, LuaVal.is_nil, if_true, Option.getD_none, c_int_zero]
  | some k =>
    have hnum := getnumber_pushinteger (k := k) h false (some inf_sign) name
    simp only [field, pushinteger, LuaVal.is_nil, Bool.false_eq_true, if_false] at hnum ⊢
    rw [hnum]
    rfl

/-- A field that may be a float, with an integer. -/
theorem read_float_field {k : Option Int} (h : Fits64 k) (name : String) (f : Fields)
    (int : Int → Fields) (float : Fields → Fields) :
    read_float name (field k) f int float =
      .ok (k.elim f int) := by
  unfold read_float
  cases k with
  | none => rfl
  | some k =>
    have hnum := getnumber_pushinteger (k := k) h true (some f.inf_sign) name
    simp only [field, pushinteger, LuaVal.is_nil, Bool.false_eq_true, if_false] at hnum ⊢
    rw [hnum]
    rfl

theorem read_calendar_ints {i : Ints} (h : i.Fit) (isdst timezone : LuaVal) :
    read_calendar (i.table isdst timezone) =
      .ok { i.fields isdst with tm := { (i.fields isdst).tm with tm_sec := 0 }, microsecs := 0 } := by
  unfold read_calendar Ints.table
  simp only [TMGET_field h.year, TMGET_field h.month, TMGET_field h.day, TMGET_field h.hour,
    TMGET_field h.min, bind, Except.bind]
  rfl

/-- All fields of a table of integers. -/
theorem read_table_ints {Z : Type} (pg : Pg Z) {i : Ints} (h : i.Fit) (isdst timezone : LuaVal)
    {z : Zone} (hz : read_timezone pg timezone = .ok z) :
    read_table pg (i.table isdst timezone) = .ok (i.fields isdst, z) := by
  have hsec : read_sec (i.table isdst timezone)
      { i.fields isdst with tm := { (i.fields isdst).tm with tm_sec := 0 }, microsecs := 0 } =
        .ok { i.fields isdst with microsecs := 0 } := by
    unfold read_sec
    have hfield : (i.table isdst timezone).sec = field i.sec := rfl
    rw [hfield, read_float_field h.sec]
    cases hs : i.sec with
    | none => simp only [Ints.fields, hs, Option.getD_none, c_int_zero, Option.elim_none]
    | some k => simp only [Ints.fields, hs, Option.getD_some, Option.elim_some]
  have husec : read_usec (i.table isdst timezone) { i.fields isdst with microsecs := 0 } =
      .ok (i.fields isdst) := by
    unfold read_usec
    have hfield : (i.table isdst timezone).usec = field i.usec := rfl
    rw [hfield, read_float_field h.usec]
    cases hs : i.usec with
    | none => simp only [Ints.fields, hs, Option.getD_none, Option.elim_none]
    | some k =>
      have hk : Fits64 (some k) := by
        rw [← hs]
        exact h.usec
      simp only [Ints.fields, hs, Option.getD_some, Option.elim_some, Int.zero_add]
      rw [c_int64_eq (k := k) hk]
  have hmsec : read_msec (i.table isdst timezone) { i.fields isdst with microsecs := 0 } =
      .ok { i.fields isdst with microsecs := 0 } := rfl
  have hzone : read_timezone pg (i.table isdst timezone).timezone = .ok z := hz
  unfold read_table
  rw [read_calendar_ints h]
  simp only [bind, Except.bind, hsec, hmsec, husec, hzone]
  rfl

/-! ## Fields of a clock -/

/-- The fields of a time of day. -/
def OnClock (tm : pg_tm) : Prop :=
  ((0 ≤ tm.tm_hour ∧ tm.tm_hour ≤ 23) ∧ (0 ≤ tm.tm_min ∧ tm.tm_min ≤ 59) ∧
    (0 ≤ tm.tm_sec ∧ tm.tm_sec ≤ 59)) ∨ tm.Midnight

/-- Nothing is carried from a time of day. -/
theorem normalize_int_clock {tm : pg_tm} (hclock : OnClock tm)
    (hday : c_int tm.tm_mday = tm.tm_mday) (hmon : c_int tm.tm_mon = tm.tm_mon)
    (hyear : c_int tm.tm_year = tm.tm_year) : normalize_int tm = carry_mon_int tm := by
  unfold normalize_int
  rcases hclock with ⟨hhour, hmin, hsec⟩ | hmid
  · have hints : c_ints tm = tm := by
      unfold c_ints
      rw [(c_int_eq_iff tm.tm_sec).mpr (by omega), (c_int_eq_iff tm.tm_min).mpr (by omega),
        (c_int_eq_iff tm.tm_hour).mpr (by omega), hmon, hday, hyear]
    have hs : carry_sec tm = tm := by
      unfold carry_sec
      rw [if_neg (by omega)]
    have hm : carry_min tm = tm := by
      unfold carry_min
      rw [if_neg (by omega)]
    have hh : carry_hour tm = tm := by
      unfold carry_hour
      rw [if_neg (by omega)]
    rw [hs, hints, hm, hints, hh, hints, ite_self]
  · obtain ⟨hhour, hmin, hsec⟩ := hmid
    rw [if_neg (by omega)]

/-- Fields of a clock and a calendar stay as they are. -/
theorem normalize_int_normal {tm : pg_tm} (hmon : 1 ≤ tm.tm_mon ∧ tm.tm_mon ≤ 12)
    (hclock : OnClock tm) (hday : c_int tm.tm_mday = tm.tm_mday)
    (hyear : c_int tm.tm_year = tm.tm_year) : normalize_int tm = tm := by
  rw [normalize_int_clock hclock hday ((c_int_eq_iff _).mpr (by omega)) hyear]
  unfold carry_mon_int
  rw [if_neg (by omega)]

/-- Without a date, the months are carried from the year 0. -/
theorem normalize_int_time {hour min sec isdst : Int}
    (hclock : OnClock ⟨sec, min, hour, 0, 0, 0, isdst, 0⟩) :
    normalize_int ⟨sec, min, hour, 0, 0, 0, isdst, 0⟩ =
      ⟨sec, min, hour, 0, 12, -1, isdst, 0⟩ := by
  rw [normalize_int_clock hclock c_int_zero c_int_zero c_int_zero]
  have hrange : (0 ≤ hour ∧ hour ≤ 24) ∧ (0 ≤ min ∧ min ≤ 59) ∧ (0 ≤ sec ∧ sec ≤ 59) := by
    rcases hclock with ⟨hhour, hmin, hsec⟩ | ⟨hhour, hmin, hsec⟩ <;> dsimp only at * <;> omega
  have hcarry : calc_overflow (c_int (0 - 1)) 12 0 = (11, -1) := by decide
  unfold carry_mon_int c_ints
  dsimp only
  rw [if_pos (Or.inl (by decide)), hcarry, (c_int_eq_iff sec).mpr (by omega),
    (c_int_eq_iff min).mpr (by omega), (c_int_eq_iff hour).mpr (by omega), c_int_zero]
  rfl

/-- The julian years are small. -/
theorem c_int_year {y m : Int} (h : IS_VALID_JULIAN y m) : c_int y = y := by
  unfold IS_VALID_JULIAN at h
  exact (c_int_eq_iff y).mpr (by omega)

/-! ## Microseconds through floats -/

theorem to_float_small {q : ℚ} (h : |round_double q| < 2 ^ (64 : ℤ)) :
    to_float q = .fin (round_double q) := by
  have hlt : |round_double q| < 2 ^ 1024 := by
    refine h.trans ?_
    rw [← zpow_natCast]
    exact zpow_lt_zpow_right₀ (by norm_num) (by norm_num)
  unfold to_float
  rw [if_pos hlt]

/-- The float of a fraction of a second is near it. -/
theorem float_seconds_near {k : Int} (h : |k| ≤ 1000000) :
    ∃ v, float_seconds k = .fin v ∧ |(k : ℚ) / 1000000 - v| ≤ 2 ^ (-53 : ℤ) ∧ |v| ≤ 2 := by
  have hint : round_double k = k := round_double_int (h.trans_lt (by norm_num))
  have hk : |(k : ℚ)| ≤ 1000000 := by exact_mod_cast h
  have hq : |(k : ℚ) / 1000000| ≤ 1 := by
    rw [abs_div, abs_of_pos (by norm_num : (0 : ℚ) < 1000000)]
    exact div_le_one_of_le₀ hk (by norm_num)
  have hnear := round_double_near (q := (k : ℚ) / 1000000) (e := 1)
    (hq.trans_lt (by norm_num)) (by norm_num)
  have hsize : |round_double ((k : ℚ) / 1000000)| ≤ 2 := by
    have htri := abs_sub_abs_le_abs_sub (round_double ((k : ℚ) / 1000000)) ((k : ℚ) / 1000000)
    rw [abs_sub_comm] at htri
    have hsmall : (2 : ℚ) ^ (1 - 54 : ℤ) ≤ 1 := by norm_num
    linarith
  refine ⟨round_double ((k : ℚ) / 1000000), ?_, ?_, hsize⟩
  · unfold float_seconds
    rw [hint]
    exact to_float_small (hsize.trans_lt (by norm_num))
  · exact hnear

/-- A number of seconds near to a number of microseconds gives that number. -/
theorem rint_seconds {v : ℚ} {k : Int} (hk : |(k : ℚ)| ≤ 2 ^ (30 : ℤ))
    (h : |(k : ℚ) / 1000000 - v| ≤ 2 ^ (-30 : ℤ)) :
    rint (round_double (v * 1000000)) = k ∧ |round_double (v * 1000000)| < 2 ^ (64 : ℤ) := by
  have hscale : |(k : ℚ) - v * 1000000| ≤ 1 / 8 := by
    have heq : (k : ℚ) - v * 1000000 = (k / 1000000 - v) * 1000000 := by ring
    rw [heq, abs_mul, abs_of_pos (by norm_num : (0 : ℚ) < 1000000)]
    calc |(k : ℚ) / 1000000 - v| * 1000000 ≤ 2 ^ (-30 : ℤ) * 1000000 :=
          mul_le_mul_of_nonneg_right h (by norm_num)
      _ ≤ 1 / 8 := by norm_num
  have hsize : |v * 1000000| < 2 ^ (31 : ℤ) := by
    have htri := abs_sub_abs_le_abs_sub (v * 1000000) (k : ℚ)
    rw [abs_sub_comm] at htri
    have hsum : (1 : ℚ) / 8 + 2 ^ (30 : ℤ) < 2 ^ (31 : ℤ) := by norm_num
    linarith
  have hround := (round_double_near hsize (by norm_num)).trans
    (by norm_num : (2 : ℚ) ^ (31 - 54 : ℤ) ≤ 1 / 8)
  have hnear : |round_double (v * 1000000) - k| ≤ 1 / 4 := by
    have htri := abs_sub_le (round_double (v * 1000000)) (v * 1000000) (k : ℚ)
    rw [abs_sub_comm (round_double (v * 1000000)) (v * 1000000),
      abs_sub_comm (v * 1000000) (k : ℚ)] at htri
    linarith
  refine ⟨rint_eq (hnear.trans_lt (by norm_num)), ?_⟩
  have htri := abs_sub_abs_le_abs_sub (round_double (v * 1000000)) (k : ℚ)
  have hsum : (1 : ℚ) / 4 + 2 ^ (30 : ℤ) < 2 ^ (64 : ℤ) := by norm_num
  linarith

/-- A time of day as a float, near to it and exact in whole seconds, gives the seconds and the
microseconds of it. -/
theorem modf_seconds {w : ℚ} {t : Int} (ht : 0 ≤ t)
    (hnear : |w - t / 1000000| ≤ 2 ^ (-31 : ℤ)) (hwhole : ∀ k : ℤ, t = k * 1000000 → w = k) :
    (modf w).1 = t / 1000000 ∧
      |((t % 1000000 : ℤ) : ℚ) / 1000000 - (modf w).2| ≤ 2 ^ (-30 : ℤ) := by
  have hdiv := Int.mul_ediv_add_emod t 1000000
  have hmod := Int.emod_nonneg t (by decide : (1000000 : Int) ≠ 0)
  have hlt := Int.emod_lt_of_pos t (by decide : (0 : Int) < 1000000)
  have hnn : 0 ≤ t / 1000000 := Int.ediv_nonneg ht (by decide)
  generalize t / 1000000 = k at hdiv hnn ⊢
  generalize t % 1000000 = r at hdiv hmod hlt ⊢
  have hfrac : ((t : ℚ)) / 1000000 = k + r / 1000000 := by
    rw [← hdiv]
    push_cast
    field_simp
  have htrunc : truncate w = k := by
    rcases eq_or_lt_of_le hmod with h0 | hpos
    · rw [hwhole k (by omega)]
      exact truncate_int k
    · have hr : (1 : ℚ) ≤ r := by exact_mod_cast hpos
      have hr' : (r : ℚ) ≤ 999999 := by exact_mod_cast (by omega : r ≤ 999999)
      have hsmall : (2 : ℚ) ^ (-31 : ℤ) < 1 / 1000000 := by norm_num
      have hbound := abs_le.mp hnear
      have hk : (0 : ℚ) ≤ k := by exact_mod_cast hnn
      rw [hfrac] at hbound
      have hlow : (k : ℚ) ≤ w := by linarith [hbound.1]
      have hhigh : w < k + 1 := by linarith [hbound.2]
      unfold truncate
      rw [if_pos (hk.trans hlow), Int.floor_eq_iff]
      exact ⟨hlow, hhigh⟩
  unfold modf
  dsimp only
  rw [htrunc]
  refine ⟨rfl, ?_⟩
  have heq : (r : ℚ) / 1000000 - (w - k) = -(w - t / 1000000) := by
    rw [hfrac]
    ring
  rw [heq, abs_neg]
  exact hnear.trans (by norm_num)

section
variable {Z : Type} {pg : Pg Z}

theorem timestamp_int64 {t : Int} (h : IS_VALID_TIMESTAMP t) : -2 ^ 63 ≤ t ∧ t < 2 ^ 63 := by
  unfold IS_VALID_TIMESTAMP at h
  omega

/-- The interval of some microseconds. -/
theorem usec_interval_small (hpg : Documented pg) {k : Int} (h : |k| ≤ 1000000) :
    usec_interval pg k = .ok ⟨0, 0, k⟩ := by
  obtain ⟨v, hv, hnear, -⟩ := float_seconds_near h
  have hk : |(k : ℚ)| ≤ 1000000 := by exact_mod_cast h
  have hrint : rint (round_double (v * 1000000)) = k :=
    (rint_seconds (hk.trans (by norm_num)) (hnear.trans (by norm_num))).1
  have hbound := abs_le.mp h
  have hinterval := hpg.make_interval 0 0 0 0 0 0 v
  simp only [hrint, Int.zero_mul, Int.zero_add] at hinterval
  unfold usec_interval
  rw [hv]
  refine hinterval (by omega) ⟨?_, ?_, ?_⟩ <;>
  · dsimp only
    omega

/-- Microseconds are added to a value. -/
theorem add_usec_eq (hpg : Documented pg) {α : Type} {k : Int} (hk : |k| ≤ 1000000) (t t' : α)
    (pl : α → Interval → Except String α) (value : α → TimeValue)
    (hpl : k ≠ 0 → pl t ⟨0, 0, k⟩ = .ok t') (hzero : k = 0 → t' = t) :
    from_fields.add_usec pg k t pl value = .ok (value t') := by
  unfold from_fields.add_usec
  by_cases h0 : k ≠ 0
  · rw [if_pos h0, usec_interval_small hpg hk]
    simp only [bind, Except.bind, hpl h0]
  · rw [if_neg h0, hzero (not_not.mp h0)]

/-- The constructor on a table of integers. -/
theorem tosql_ints (oid : TimeType) {i : Ints} (hi : i.Fit) (isdst : LuaVal)
    {timezone : LuaVal} {z : Zone} (hz : read_timezone pg timezone = .ok z)
    (hform : check_form oid (i.table isdst timezone) z = .ok ()) {tz : Option Z}
    (htz : choose_timezone pg z = .ok tz) :
    pllua_time_tosql pg oid (i.table isdst timezone) =
      from_fields pg oid (i.fields isdst) z tz := by
  have hepoch : (i.table isdst timezone).found_epoch = 0 := rfl
  have hcheck : check_table oid (i.table isdst timezone) (i.fields isdst) z = .ok () := by
    unfold check_table
    rw [hform]
    rfl
  unfold pllua_time_tosql
  simp only [read_table_ints pg hi isdst timezone hz, bind, Except.bind, hcheck, htz, hepoch,
    Nat.zero_ne_one, if_false]

theorem fits64_none : Fits64 none := by
  unfold Fits64
  rw [Option.getD_none]
  omega

/-- What fits an `int` fits 64 bits. -/
theorem fits64_some {k : Int} (h : -2147483648 ≤ k ∧ k ≤ 2147483647) : Fits64 (some k) := by
  unfold Fits64
  rw [Option.getD_some]
  omega

/-! ## Dates -/

/-- A date is an `int`. -/
theorem valid_date_int {d : Int} (hd : IS_VALID_DATE d) : c_int d = d := by
  unfold IS_VALID_DATE at hd
  exact (c_int_eq_iff d).mpr (by omega)

theorem date_round_trip (hpg : Documented pg) {d : Int} (hd : IS_VALID_DATE d) :
    ∃ t, pllua_time_as_table pg .nil (.date d) = .ok t ∧
      pllua_time_tosql pg .DATEOID t = .ok (.date d) := by
  have hjd : d + POSTGRES_EPOCH_JDATE - POSTGRES_EPOCH_JDATE = d := by omega
  obtain ⟨hjulian, hmon, hmday, hback⟩ :=
    hpg.j2date (d + POSTGRES_EPOCH_JDATE) (by rw [hjd]; exact hd)
  refine ⟨_, rfl, ?_⟩
  generalize pg.j2date (d + POSTGRES_EPOCH_JDATE) = ymd at *
  have hyear := c_int_year hjulian
  have hyear' := (c_int_eq_iff ymd.1).mp hyear
  have hi : Ints.Fit { year := some ymd.1, month := some ymd.2.1, day := some ymd.2.2 } :=
    ⟨fits64_some hyear', fits64_some (by omega), fits64_some (by omega), fits64_none, fits64_none,
      fits64_none, fits64_none⟩
  have htm : (Ints.fields { year := some ymd.1, month := some ymd.2.1, day := some ymd.2.2 }
      .nil).tm = ⟨0, 0, 0, ymd.2.2, ymd.2.1, ymd.1, -1, 0⟩ := by
    simp only [Ints.fields, Option.getD_none, Option.getD_some, c_int_zero, hyear,
      (c_int_eq_iff ymd.2.1).mpr (by omega), (c_int_eq_iff ymd.2.2).mpr (by omega)]
    rfl
  have hzone : read_timezone pg .nil = .ok no_zone := rfl
  refine (tosql_ints .DATEOID hi .nil hzone rfl rfl).trans ?_
  unfold from_fields
  dsimp only
  have hhour : (0 : Int) ≤ 0 ∧ (0 : Int) ≤ 23 := by decide
  have hmin : (0 : Int) ≤ 0 ∧ (0 : Int) ≤ 59 := by decide
  rw [htm, normalize_int_normal hmon (Or.inl ⟨hhour, hmin, hmin⟩)
    ((c_int_eq_iff _).mpr (by dsimp only; omega)) hyear]
  dsimp only
  rw [hback, hjd, valid_date_int hd]

/-! ## Timestamps -/

/-- The integers of a date and a clock. -/
def all_ints (tm : pg_tm) (fsec : Int) : Ints :=
  { year := some tm.tm_year
    month := some tm.tm_mon
    day := some tm.tm_mday
    hour := some tm.tm_hour
    min := some tm.tm_min
    sec := some tm.tm_sec
    usec := some fsec }

section
variable {tm : pg_tm} {fsec t : Int}

theorem all_ints_fit (h : Shows pg tm fsec t) : (all_ints tm fsec).Fit := by
  obtain ⟨hjulian, hmon, hmday, hhour, hmin, hsec, hfsec, -⟩ := h
  have hyear := (c_int_eq_iff tm.tm_year).mp (c_int_year hjulian)
  exact ⟨fits64_some hyear, fits64_some (by omega), fits64_some (by omega),
    fits64_some (by omega), fits64_some (by omega), fits64_some (by omega),
    fits64_some (by omega)⟩

/-- The fields that are read are those that were written. -/
theorem all_ints_fields (h : Shows pg tm fsec t) (isdst : LuaVal) :
    (all_ints tm fsec).fields isdst =
      { tm := { tm with tm_isdst := isdst_of isdst, tm_gmtoff := 0 }
        tmpflt := 0
        microsecs := fsec
        epoch_microsecs := 0
        inf_sign := 0 } := by
  obtain ⟨hjulian, hmon, hmday, hhour, hmin, hsec, -, -⟩ := h
  simp only [Ints.fields, all_ints, Option.getD_some, c_int_year hjulian,
    (c_int_eq_iff tm.tm_mon).mpr (by omega), (c_int_eq_iff tm.tm_mday).mpr (by omega),
    (c_int_eq_iff tm.tm_hour).mpr (by omega), (c_int_eq_iff tm.tm_min).mpr (by omega),
    (c_int_eq_iff tm.tm_sec).mpr (by omega)]

theorem all_ints_normal (h : Shows pg tm fsec t) (isdst gmtoff : Int) :
    normalize_int { tm with tm_isdst := isdst, tm_gmtoff := gmtoff } =
      { tm with tm_isdst := isdst, tm_gmtoff := gmtoff } := by
  obtain ⟨hjulian, hmon, hmday, hhour, hmin, hsec, -, -⟩ := h
  refine normalize_int_normal hmon (Or.inl ⟨hhour, hmin, hsec⟩) ((c_int_eq_iff _).mpr ?_)
    (c_int_year hjulian)
  dsimp only
  omega

/-- The whole seconds of the time that is shown. -/
theorem tm2timestamp_shown (hpg : Documented pg) (h : Shows pg tm fsec t) (isdst : Int)
    (tzo : Option Int) (htzo : OffsetInRange (tzo.getD 0))
    (hvalid : IS_VALID_TIMESTAMP (t + tzo.getD 0 * USECS_PER_SEC)) :
    pg.tm2timestamp { tm with tm_isdst := isdst, tm_gmtoff := 0 } 0 tzo =
        some (t + tzo.getD 0 * USECS_PER_SEC - fsec) ∧
      IS_VALID_TIMESTAMP (t + tzo.getD 0 * USECS_PER_SEC - fsec) := by
  obtain ⟨hjulian, hmon, hmday, hhour, hmin, hsec, hfsec, htotal⟩ := h
  have hstamp : stamp pg { tm with tm_isdst := isdst, tm_gmtoff := 0 } 0 +
      tzo.getD 0 * USECS_PER_SEC = t + tzo.getD 0 * USECS_PER_SEC - fsec := by
    rw [← htotal]
    unfold stamp clock_seconds
    dsimp only
    omega
  have hbefore : IS_VALID_TIMESTAMP (t + tzo.getD 0 * USECS_PER_SEC - fsec) := by
    unfold IS_VALID_TIMESTAMP stamp USECS_PER_DAY USECS_PER_SEC at *
    omega
  have hclock : Clock tm.tm_hour tm.tm_min tm.tm_sec := ⟨hhour.1, hmin, by omega, by omega⟩
  have hresult := hpg.tm2timestamp { tm with tm_isdst := isdst, tm_gmtoff := 0 } 0 tzo hjulian hmon
    hclock (by omega) htzo
  rw [hstamp, if_pos hbefore] at hresult
  exact ⟨hresult, hbefore⟩

end

theorem timestamp_not_infinite {t : Int} (h : IS_VALID_TIMESTAMP t) :
    t ≠ infinite_timestamp (-1) ∧ t ≠ infinite_timestamp 1 := by
  unfold IS_VALID_TIMESTAMP at h
  unfold infinite_timestamp
  constructor
  · rw [if_neg (by decide)]
    omega
  · rw [if_pos (by decide)]
    omega

theorem timestamp_round_trip (hpg : Documented pg) {t : Int} (ht : IS_VALID_TIMESTAMP t) :
    ∃ table, pllua_time_as_table pg .nil (.timestamp t) = .ok table ∧
      pllua_time_tosql pg .TIMESTAMPOID table = .ok (.timestamp t) := by
  obtain ⟨hbegin, hend⟩ := timestamp_not_infinite ht
  obtain ⟨tm, fsec, htm, hshows⟩ := hpg.timestamp2tm t ht
  have htable : pllua_time_as_table pg .nil (.timestamp t) =
      .ok ((all_ints tm fsec).table .nil .nil) := by
    unfold pllua_time_as_table without_zone timestamp_fields
    simp only [LuaVal.is_nil, if_true, if_neg hbegin, if_neg hend, htm]
    rfl
  refine ⟨_, htable, ?_⟩
  have hzone : read_timezone pg .nil = .ok no_zone := rfl
  have hchoose : choose_timezone pg no_zone = .ok none := rfl
  rw [tosql_ints .TIMESTAMPOID (all_ints_fit hshows) .nil hzone rfl hchoose,
    all_ints_fields hshows]
  unfold from_fields
  dsimp only
  rw [all_ints_normal hshows]
  have hzero : t + (none : Option Int).getD 0 * USECS_PER_SEC = t := by
    rw [Option.getD_none]
    omega
  have hvalid : IS_VALID_TIMESTAMP (t + (none : Option Int).getD 0 * USECS_PER_SEC) := by
    rw [hzero]
    exact ht
  obtain ⟨hstamp, hbefore⟩ := tm2timestamp_shown hpg hshows (isdst_of .nil) none
    (by unfold OffsetInRange; rw [Option.getD_none]; omega) hvalid
  rw [hzero] at hstamp hbefore
  rw [hstamp]
  have hadd := (hpg.timestamp_pl_interval (t - fsec) fsec hbefore
    (by rw [Int.sub_add_cancel]; exact timestamp_int64 ht)).1 (by rw [Int.sub_add_cancel]; exact ht)
  rw [Int.sub_add_cancel] at hadd
  have hfsec := hshows.fsec_range
  exact add_usec_eq hpg (abs_le.mpr ⟨by omega, by omega⟩) _ _ _ _ (fun _ => hadd) (by omega)

/-- The zone of a table that gives its offset. -/
theorem offset_zone (hpg : Documented pg) {gmtoff : Int} (h : OffsetInRange gmtoff) :
    read_timezone pg (pushinteger gmtoff) = .ok ⟨false, true, none, gmtoff⟩ ∧
      ∃ tz, choose_timezone pg ⟨false, true, none, gmtoff⟩ = .ok (some tz) ∧
        ∀ tm : pg_tm, IS_VALID_JULIAN tm.tm_year tm.tm_mon →
          (determine_timezone_offset pg tm tz).1 = -gmtoff := by
  have hnum := getnumber_pushinteger (k := gmtoff) (by unfold OffsetInRange at h; omega) false none
    "timezone"
  obtain ⟨tz, htz, hfixed⟩ := hpg.pg_tzset_offset gmtoff h
  refine ⟨?_, tz, ?_, ?_⟩
  · unfold read_timezone zone_by_offset
    rw [pushinteger] at hnum ⊢
    dsimp only
    rw [hnum]
  · unfold choose_timezone
    simp only [Bool.or_true, if_true, htz]
  · intro tm hjulian
    unfold determine_timezone_offset
    obtain ⟨hres, hgmtoff⟩ := hfixed ((pg.date2j tm.tm_year tm.tm_mon tm.tm_mday -
      UNIX_EPOCH_JDATE) * 86400 + (tm.tm_sec + (tm.tm_min + tm.tm_hour * 60) * 60) - 86400)
    rw [if_neg (not_not.mpr hjulian)]
    dsimp only
    rw [if_neg (by omega), if_pos hres, hgmtoff]

/-- A timestamp that is shown in any zone comes back. -/
theorem timestamptz_back (hpg : Documented pg) {t : Int} (ht : IS_VALID_TIMESTAMP t) {z : Zone}
    {tz : Option Z} (hz : choose_timezone pg z = .ok tz) :
    ∃ table, timestamptz_fields pg t z = .ok table ∧
      pllua_time_tosql pg .TIMESTAMPTZOID table = .ok (.timestamptz t) := by
  obtain ⟨hbegin, hend⟩ := timestamp_not_infinite ht
  obtain ⟨tm, fsec, htm, hoffset, hshows⟩ := hpg.timestamptz2tm t (tz.getD pg.session_timezone) ht
  have htable : timestamptz_fields pg t z = .ok ((all_ints tm fsec).table
      (if tm.tm_isdst ≥ 0 then .boolean (tm.tm_isdst ≠ 0) else .nil)
      (pushinteger tm.tm_gmtoff)) := by
    unfold timestamptz_fields
    simp only [if_neg hbegin, if_neg hend, hz, bind, Except.bind, htm]
    rfl
  refine ⟨_, htable, ?_⟩
  generalize (if tm.tm_isdst ≥ 0 then LuaVal.boolean (tm.tm_isdst ≠ 0) else .nil) = isdst
  obtain ⟨hread, fixed, hchoose, hdetermine⟩ := offset_zone hpg hoffset
  rw [tosql_ints .TIMESTAMPTZOID (all_ints_fit hshows) isdst hread rfl hchoose,
    all_ints_fields hshows]
  unfold from_fields
  dsimp only
  rw [all_ints_normal hshows, Option.getD_some]
  have htzo := hdetermine { tm with tm_isdst := isdst_of isdst, tm_gmtoff := 0 } hshows.julian
  generalize determine_timezone_offset pg
    { tm with tm_isdst := isdst_of isdst, tm_gmtoff := 0 } fixed = tzo at *
  have hback : t + tm.tm_gmtoff * USECS_PER_SEC +
      (some tzo.1 : Option Int).getD 0 * USECS_PER_SEC = t := by
    rw [Option.getD_some, htzo]
    unfold USECS_PER_SEC
    omega
  obtain ⟨hstamp, hbefore⟩ := tm2timestamp_shown hpg hshows tzo.2 (some tzo.1)
    (by rw [Option.getD_some, htzo]; unfold OffsetInRange at *; omega) (by rw [hback]; exact ht)
  rw [hback] at hstamp hbefore
  dsimp only
  rw [hstamp]
  have hadd := (hpg.timestamptz_pl_interval (t - fsec) fsec hbefore
    (by rw [Int.sub_add_cancel]; exact timestamp_int64 ht)).1 (by rw [Int.sub_add_cancel]; exact ht)
  rw [Int.sub_add_cancel] at hadd
  have hfsec := hshows.fsec_range
  exact add_usec_eq hpg (abs_le.mpr ⟨by omega, by omega⟩) _ _ _ _ (fun _ => hadd) (by omega)

/-! ## Times of a day -/

/-- The integers of a clock. -/
def clock_ints (t : Int) : Ints :=
  { hour := some (t / 1000000 / 3600)
    min := some (t / 1000000 / 60 % 60)
    sec := some (t / 1000000 % 60)
    usec := some (t % 1000000) }

/-- The fields that the code takes from a float of seconds are those of the time. -/
theorem clock_fields_eq {epoch : ℚ} {t gmtoff : Int} (ht : 0 ≤ t ∧ t ≤ USECS_PER_DAY)
    (hepoch : Seconds epoch (t - gmtoff * USECS_PER_SEC)) :
    clock_fields epoch gmtoff = (clock_ints t).table .nil .nil := by
  obtain ⟨hnear, hwhole⟩ := hepoch
  unfold USECS_PER_DAY at ht
  unfold USECS_PER_SEC at hnear hwhole
  have hsum : |epoch + gmtoff - t / 1000000| ≤ 2 ^ (-32 : ℤ) := by
    have heq : epoch + gmtoff - (t : ℚ) / 1000000 =
        epoch - ((t - gmtoff * 1000000 : ℤ) : ℚ) / 1000000 := by
      push_cast
      ring
    rw [heq]
    exact hnear
  have hday : (0 : ℚ) ≤ t / 1000000 ∧ (t : ℚ) / 1000000 ≤ 86400 := by
    have hlow : (0 : ℚ) ≤ t := by exact_mod_cast ht.1
    have hhigh : (t : ℚ) ≤ 86400000000 := by exact_mod_cast ht.2
    constructor <;> linarith
  have hsize : |epoch + gmtoff| < 2 ^ (17 : ℤ) := by
    have hbound := abs_le.mp (hsum.trans (by norm_num : (2 : ℚ) ^ (-32 : ℤ) ≤ 1))
    have hpower : (2 : ℚ) ^ (17 : ℤ) = 131072 := by norm_num
    rw [hpower]
    exact abs_lt.mpr ⟨by linarith, by linarith⟩
  have hround := round_double_near hsize (by norm_num)
  have hfloat : |round_double (epoch + gmtoff) - t / 1000000| ≤ 2 ^ (-31 : ℤ) := by
    have htri := abs_sub_le (round_double (epoch + gmtoff)) (epoch + gmtoff) ((t : ℚ) / 1000000)
    rw [abs_sub_comm (round_double (epoch + gmtoff)) (epoch + gmtoff)] at htri
    exact htri.trans ((add_le_add hround hsum).trans (by norm_num))
  have hexact : ∀ k : ℤ, t = k * 1000000 → round_double (epoch + gmtoff) = k := by
    intro k hk
    have hint : epoch + gmtoff = k := by
      rw [hwhole (k - gmtoff) (by rw [hk]; ring)]
      push_cast
      ring
    rw [hint]
    exact round_double_int (abs_lt.mpr ⟨by omega, by omega⟩)
  obtain ⟨hint, hfrac⟩ := modf_seconds ht.1 hfloat hexact
  have husec := Int.emod_nonneg t (by decide : (1000000 : Int) ≠ 0)
  have husec' := Int.emod_lt_of_pos t (by decide : (0 : Int) < 1000000)
  obtain ⟨hrint, hrsize⟩ := rint_seconds (k := t % 1000000)
    (by
      rw [abs_of_nonneg (by exact_mod_cast husec)]
      have hlt : ((t % 1000000 : ℤ) : ℚ) ≤ 1000000 := by exact_mod_cast husec'.le
      exact hlt.trans (by norm_num)) hfrac
  have hmicro : llrint (to_float (1000000 * (modf (round_double (epoch + gmtoff))).2)) =
      t % 1000000 := by
    rw [mul_comm, to_float_small hrsize]
    unfold llrint
    dsimp only
    rw [hrint, if_pos (by omega)]
  have hsec : float_to_int (modf (round_double (epoch + gmtoff))).1 = t / 1000000 := by
    unfold float_to_int
    rw [hint, if_pos (by omega)]
  have hnn : 0 ≤ t / 1000000 := by omega
  unfold clock_fields
  dsimp only
  rw [hmicro, hsec, Int.tdiv_eq_ediv_of_nonneg hnn, Int.tdiv_eq_ediv_of_nonneg hnn,
    Int.tmod_eq_emod_of_nonneg hnn, Int.tmod_eq_emod_of_nonneg (by omega)]
  rfl

theorem clock_ints_fit {t : Int} (ht : 0 ≤ t ∧ t ≤ USECS_PER_DAY) : (clock_ints t).Fit := by
  unfold USECS_PER_DAY at ht
  exact ⟨fits64_none, fits64_none, fits64_none, fits64_some (by omega), fits64_some (by omega),
    fits64_some (by omega), fits64_some (by omega)⟩

/-- The clock that is read, and its whole seconds. -/
theorem clock_ints_normal {t : Int} (ht : 0 ≤ t ∧ t ≤ USECS_PER_DAY) :
    normalize_int ((clock_ints t).fields .nil).tm =
        ⟨t / 1000000 % 60, t / 1000000 / 60 % 60, t / 1000000 / 3600, 0, 12, -1, -1, 0⟩ ∧
      Clock (t / 1000000 / 3600) (t / 1000000 / 60 % 60) (t / 1000000 % 60) := by
  unfold USECS_PER_DAY at ht
  have htm : ((clock_ints t).fields .nil).tm =
      ⟨t / 1000000 % 60, t / 1000000 / 60 % 60, t / 1000000 / 3600, 0, 0, 0, -1, 0⟩ := by
    simp only [Ints.fields, clock_ints, Option.getD_none, Option.getD_some, c_int_zero,
      (c_int_eq_iff (t / 1000000 % 60)).mpr (by omega),
      (c_int_eq_iff (t / 1000000 / 60 % 60)).mpr (by omega),
      (c_int_eq_iff (t / 1000000 / 3600)).mpr (by omega)]
    rfl
  refine ⟨?_, by omega, by omega, by omega, by omega⟩
  rw [htm, normalize_int_time]
  unfold OnClock pg_tm.Midnight
  dsimp only
  omega

/-- The microseconds of a time are added to its whole seconds. -/
theorem whole_seconds {t : Int} (ht : 0 ≤ t ∧ t ≤ USECS_PER_DAY) :
    (0 ≤ t / 1000000 * USECS_PER_SEC ∧ t / 1000000 * USECS_PER_SEC ≤ USECS_PER_DAY) ∧
      (t % 1000000 ≠ 0 → (t / 1000000 * USECS_PER_SEC + t % 1000000) % USECS_PER_DAY = t) ∧
      (t % 1000000 = 0 → t = t / 1000000 * USECS_PER_SEC) := by
  unfold USECS_PER_DAY USECS_PER_SEC at *
  omega

/-- The interval of the microseconds of a second. -/
theorem usec_fits (t : Int) : Interval.Fits ⟨0, 0, t % 1000000⟩ := by
  refine ⟨?_, ?_, ?_⟩ <;>
  · dsimp only
    omega

theorem usec_bound (t : Int) : |((clock_ints t).fields .nil).microsecs| ≤ 1000000 := by
  show |t % 1000000| ≤ 1000000
  exact abs_le.mpr ⟨by omega, by omega⟩

/-- The sum of the whole seconds and the microseconds is in range. -/
theorem usec_sum {t : Int} (ht : 0 ≤ t ∧ t ≤ USECS_PER_DAY) :
    -2 ^ 63 ≤ t / 1000000 * USECS_PER_SEC + t % 1000000 ∧
      t / 1000000 * USECS_PER_SEC + t % 1000000 < 2 ^ 63 := by
  unfold USECS_PER_DAY USECS_PER_SEC at *
  omega

theorem time_round_trip (hpg : Documented pg) {t : Int} (ht : 0 ≤ t ∧ t ≤ USECS_PER_DAY) :
    ∃ table, pllua_time_as_table pg .nil (.time t) = .ok table ∧
      pllua_time_tosql pg .TIMEOID table = .ok (.time t) := by
  have hepoch : Seconds (pg.time_part_epoch t) (t - 0 * USECS_PER_SEC) := by
    rw [Int.zero_mul, Int.sub_zero]
    exact hpg.time_part_epoch t ht
  have htable : pllua_time_as_table pg .nil (.time t) = .ok ((clock_ints t).table .nil .nil) := by
    rw [← clock_fields_eq ht hepoch]
    rfl
  refine ⟨_, htable, ?_⟩
  have hzone : read_timezone pg .nil = .ok no_zone := rfl
  have hchoose : choose_timezone pg no_zone = .ok none := rfl
  obtain ⟨hnormal, hclock⟩ := clock_ints_normal ht
  obtain ⟨hwhole, hadd, hnone⟩ := whole_seconds ht
  rw [tosql_ints .TIMEOID (clock_ints_fit ht) .nil hzone rfl hchoose]
  unfold from_fields
  dsimp only
  rw [hnormal]
  dsimp only
  have htime := hpg.make_time _ _ _ hclock
  have hseconds : t / 1000000 / 3600 * 3600 + t / 1000000 / 60 % 60 * 60 + t / 1000000 % 60 =
      t / 1000000 := by omega
  rw [hseconds] at htime
  simp only [htime, bind, Except.bind]
  have hpl := hpg.time_pl_interval _ _ hwhole (usec_fits t) (usec_sum ht)
  refine add_usec_eq hpg (usec_bound t) _ _ _ _ (fun h0 => ?_) hnone
  rw [hadd h0] at hpl
  exact hpl

/-- The parts of an offset give it back. -/
theorem timetz_of_offset (hpg : Documented pg) {hour min sec zone : Int}
    (hclock : Clock hour min sec) (hzone : -57600 < zone ∧ zone < 57600) :
    timetz_of pg hour min sec (-zone) =
      .ok ((hour * 3600 + min * 60 + sec) * USECS_PER_SEC, zone) := by
  have hparts : ∀ a : Int, 0 ≤ a → a < 57600 →
      c_int (a.tdiv 3600) = a / 3600 ∧ c_int ((a.tdiv 60).tmod 60) = a / 60 % 60 ∧
        c_int (a.tmod 60) = a % 60 := by
    intro a hnn hlt
    rw [Int.tdiv_eq_ediv_of_nonneg hnn, Int.tdiv_eq_ediv_of_nonneg hnn,
      Int.tmod_eq_emod_of_nonneg hnn, Int.tmod_eq_emod_of_nonneg (by omega)]
    exact ⟨(c_int_eq_iff _).mpr (by omega), (c_int_eq_iff _).mpr (by omega),
      (c_int_eq_iff _).mpr (by omega)⟩
  unfold timetz_of offset_parts
  dsimp only
  by_cases hneg : -zone < 0
  · rw [if_pos hneg, c_int64_eq (by omega), Int.neg_neg]
    obtain ⟨h3600, h60, h1⟩ := hparts zone (by omega) hzone.2
    rw [h3600, h60, h1, hpg.timetz_in _ _ _ _ _ _ _ hclock (by omega) (by omega) (by omega)
      (by omega), decide_eq_true hneg, if_pos rfl]
    have htotal : zone / 3600 * 3600 + zone / 60 % 60 * 60 + zone % 60 = zone := by omega
    rw [htotal]
  · rw [if_neg hneg]
    obtain ⟨h3600, h60, h1⟩ := hparts (-zone) (by omega) (by omega)
    rw [h3600, h60, h1, hpg.timetz_in _ _ _ _ _ _ _ hclock (by omega) (by omega) (by omega)
      (by omega), decide_eq_false hneg, if_neg Bool.false_ne_true]
    have htotal : -(-zone / 3600 * 3600 + -zone / 60 % 60 * 60 + -zone % 60) = zone := by omega
    rw [htotal]

theorem timetz_round_trip (hpg : Documented pg) {t zone : Int} (ht : 0 ≤ t ∧ t ≤ USECS_PER_DAY)
    (hzone : -57600 < zone ∧ zone < 57600) :
    ∃ table, pllua_time_as_table pg .nil (.timetz t zone) = .ok table ∧
      pllua_time_tosql pg .TIMETZOID table = .ok (.timetz t zone) := by
  have hgmtoff : float_to_int (truncate (pg.timetz_part_timezone (t, zone))) = -zone := by
    rw [hpg.timetz_part_timezone, truncate_int]
    unfold float_to_int
    rw [if_pos (by omega)]
  have hepoch : Seconds (pg.timetz_part_epoch (t, zone)) (t - -zone * USECS_PER_SEC) := by
    rw [Int.neg_mul, Int.sub_neg]
    exact hpg.timetz_part_epoch t zone ht hzone
  have htable : pllua_time_as_table pg .nil (.timetz t zone) =
      .ok ((clock_ints t).table .nil (pushinteger (-zone))) := by
    unfold pllua_time_as_table
    dsimp only
    rw [hgmtoff, clock_fields_eq ht hepoch]
    rfl
  refine ⟨_, htable, ?_⟩
  have hoffset : OffsetInRange (-zone) := by
    unfold OffsetInRange
    omega
  obtain ⟨hread, tz, hchoose, -⟩ := offset_zone hpg hoffset
  obtain ⟨hnormal, hclock⟩ := clock_ints_normal ht
  obtain ⟨hwhole, hadd, hnone⟩ := whole_seconds ht
  rw [tosql_ints .TIMETZOID (clock_ints_fit ht) .nil hread rfl hchoose]
  unfold from_fields
  dsimp only
  rw [hnormal]
  dsimp only
  have hseconds : t / 1000000 / 3600 * 3600 + t / 1000000 / 60 % 60 * 60 + t / 1000000 % 60 =
      t / 1000000 := by omega
  have htimetz := timetz_of_offset hpg hclock hzone
  rw [hseconds] at htimetz
  simp only [htimetz, bind, Except.bind]
  have hpl := hpg.timetz_pl_interval _ zone _ hwhole (usec_fits t) (usec_sum ht)
  refine add_usec_eq hpg (usec_bound t) _ (t, zone) _ (fun t => .timetz t.1 t.2) (fun h0 => ?_)
    fun h0 => ?_
  · rw [hadd h0] at hpl
    exact hpl
  · rw [← hnone h0]

/-! ## Intervals -/

/-- The division of C: the rest has the sign of the dividend. -/
theorem tdiv_tmod (a : Int) {d : Int} (hd : 0 < d) :
    d * a.tdiv d + a.tmod d = a ∧ (0 ≤ a → 0 ≤ a.tmod d ∧ a.tmod d < d) ∧
      (a ≤ 0 → -d < a.tmod d ∧ a.tmod d ≤ 0) := by
  refine ⟨Int.mul_tdiv_add_tmod a d, fun h => ?_, fun h => ?_⟩
  · rw [Int.tmod_eq_emod_of_nonneg h]
    exact ⟨Int.emod_nonneg a hd.ne', Int.emod_lt_of_pos a hd⟩
  · have hneg := Int.neg_tmod (-a) d
    rw [Int.neg_neg, Int.tmod_eq_emod_of_nonneg (by omega : 0 ≤ -a)] at hneg
    have hnn := Int.emod_nonneg (-a) hd.ne'
    have hlt := Int.emod_lt_of_pos (-a) hd
    omega

/-- A unit of time in the next one: the parts have the sign of the time. -/
theorem part_of_unit (time : Int) {n d : Int} (hd : 0 < d) (hn : 0 < n) :
    (-n < (time.tmod (d * n)).tdiv d ∧ (time.tmod (d * n)).tdiv d < n) ∧
      (time.tmod (d * n)).tdiv d * d + time.tmod d = time.tmod (d * n) := by
  have hpart := Int.mul_tdiv_add_tmod (time.tmod (d * n)) d
  rw [Int.tmod_tmod_of_dvd time (Int.dvd_mul_right d n), Int.mul_comm] at hpart
  obtain ⟨-, hunit, hunit'⟩ := tdiv_tmod time (Int.mul_pos hd hn)
  obtain ⟨-, hrest, hrest'⟩ := tdiv_tmod time hd
  have hle : d ≤ d * n := le_mul_of_one_le_right hd.le hn
  refine ⟨⟨?_, ?_⟩, hpart⟩
  · refine lt_of_mul_lt_mul_right ?_ hd.le
    rw [Int.neg_mul, Int.mul_comm n]
    rcases Int.le_total 0 time with hsign | hsign <;> omega
  · refine lt_of_mul_lt_mul_right ?_ hd.le
    rw [Int.mul_comm n]
    rcases Int.le_total 0 time with hsign | hsign <;> omega

/-- The parts of the time of an interval. -/
theorem interval_parts (time : Int) :
    (-60 < (time.tmod USECS_PER_MINUTE).tdiv USECS_PER_SEC ∧
      (time.tmod USECS_PER_MINUTE).tdiv USECS_PER_SEC < 60) ∧
    (-60 < (time.tmod USECS_PER_HOUR).tdiv USECS_PER_MINUTE ∧
      (time.tmod USECS_PER_HOUR).tdiv USECS_PER_MINUTE < 60) ∧
    (-1000000 < time.tmod USECS_PER_SEC ∧ time.tmod USECS_PER_SEC < 1000000) ∧
    (time.tmod USECS_PER_HOUR).tdiv USECS_PER_MINUTE * USECS_PER_MINUTE +
      ((time.tmod USECS_PER_MINUTE).tdiv USECS_PER_SEC * USECS_PER_SEC +
        time.tmod USECS_PER_SEC) = time.tmod USECS_PER_HOUR ∧
    time.tdiv USECS_PER_HOUR * USECS_PER_HOUR + time.tmod USECS_PER_HOUR = time := by
  obtain ⟨hmin, hmin'⟩ := part_of_unit time (by decide : 0 < USECS_PER_MINUTE)
    (by decide : (0 : Int) < 60)
  obtain ⟨hsec, hsec'⟩ := part_of_unit time (by decide : 0 < USECS_PER_SEC)
    (by decide : (0 : Int) < 60)
  have hminute : USECS_PER_SEC * 60 = USECS_PER_MINUTE := rfl
  have hhour : USECS_PER_MINUTE * 60 = USECS_PER_HOUR := rfl
  rw [hminute] at hsec hsec'
  rw [hhour] at hmin hmin'
  obtain ⟨-, hpos, hneg⟩ := tdiv_tmod time (by decide : 0 < USECS_PER_SEC)
  have htotal := Int.mul_tdiv_add_tmod time USECS_PER_HOUR
  rw [Int.mul_comm] at htotal
  have hmicro : USECS_PER_SEC = 1000000 := rfl
  rw [hmicro] at hpos hneg
  refine ⟨hsec, hmin, ?_, ?_, htotal⟩
  · rw [hmicro]
    rcases Int.le_total 0 time with hsign | hsign <;> omega
  · rw [hsec', hmin']

/-- The hours, the years and the months of an interval. -/
theorem interval_ranges {i : Interval} (hi : i.Fits) :
    Fits64 (some (i.time.tdiv USECS_PER_HOUR)) ∧
      (-12 < i.month.tmod 12 ∧ i.month.tmod 12 < 12) ∧
      (-2 ^ 31 ≤ i.month.tdiv 12 ∧ i.month.tdiv 12 < 2 ^ 31) := by
  obtain ⟨himonth, -, hitime⟩ := hi
  obtain ⟨hmonth, hpos, hneg⟩ := tdiv_tmod i.month (by decide : (0 : Int) < 12)
  obtain ⟨htime, hpos', hneg'⟩ := tdiv_tmod i.time (by decide : 0 < USECS_PER_HOUR)
  unfold Fits64
  rw [Option.getD_some]
  unfold USECS_PER_HOUR at *
  generalize i.time.tdiv 3600000000 = hour at *
  generalize i.time.tmod 3600000000 = rest at *
  generalize i.month.tdiv 12 = year at *
  generalize i.month.tmod 12 = mon at *
  refine ⟨?_, ?_, ?_⟩
  · rcases Int.le_total 0 i.time with hsign | hsign <;> omega
  · rcases Int.le_total 0 i.month with hsign | hsign <;> omega
  · rcases Int.le_total 0 i.month with hsign | hsign <;> omega

/-- The float of the seconds of an interval gives its microseconds. -/
theorem interval_sec_eq {sec usec : Int} (hsec : -60 < sec ∧ sec < 60)
    (husec : -1000000 < usec ∧ usec < 1000000) :
    ∃ v, from_fields.interval_sec sec usec = .fin v ∧
      rint (round_double (v * 1000000)) = sec * USECS_PER_SEC + usec := by
  obtain ⟨w, hw, hnear, hsize⟩ := float_seconds_near (k := usec) (abs_le.mpr ⟨by omega, by omega⟩)
  have hlow : (-60 : ℚ) < sec := by exact_mod_cast hsec.1
  have hhigh : (sec : ℚ) < 60 := by exact_mod_cast hsec.2
  have hbound := abs_le.mp hsize
  have hsum : |(sec : ℚ) + w| < 2 ^ (6 : ℤ) := by
    have hpower : (2 : ℚ) ^ (6 : ℤ) = 64 := by norm_num
    rw [hpower]
    exact abs_lt.mpr ⟨by linarith, by linarith⟩
  have hround := round_double_near hsum (by norm_num)
  have hsmall : |round_double ((sec : ℚ) + w)| < 2 ^ (64 : ℤ) := by
    have htri := abs_sub_abs_le_abs_sub (round_double ((sec : ℚ) + w)) ((sec : ℚ) + w)
    rw [abs_sub_comm] at htri
    have hone := hround.trans (by norm_num : (2 : ℚ) ^ (6 - 54 : ℤ) ≤ 1)
    have hpower : (2 : ℚ) ^ (6 : ℤ) = 64 := by norm_num
    have hpower' : (65 : ℚ) < 2 ^ (64 : ℤ) := by norm_num
    rw [hpower] at hsum
    linarith
  refine ⟨round_double ((sec : ℚ) + w), ?_, ?_⟩
  · unfold from_fields.interval_sec
    rw [hw]
    exact to_float_small hsmall
  · refine (rint_seconds ?_ ?_).1
    · have hlow' : (-1000000 : ℚ) < usec := by exact_mod_cast husec.1
      have hhigh' : (usec : ℚ) < 1000000 := by exact_mod_cast husec.2
      have hpower : (2 : ℚ) ^ (30 : ℤ) = 1073741824 := by norm_num
      rw [hpower]
      unfold USECS_PER_SEC
      push_cast
      exact abs_le.mpr ⟨by linarith, by linarith⟩
    · have heq : ((sec * USECS_PER_SEC + usec : ℤ) : ℚ) / 1000000 = sec + usec / 1000000 := by
        unfold USECS_PER_SEC
        push_cast
        ring
      have htri := abs_sub_le ((sec : ℚ) + usec / 1000000) (sec + w) (round_double (sec + w))
      rw [add_sub_add_left_eq_sub] at htri
      rw [heq]
      exact htri.trans ((add_le_add hnear hround).trans (by norm_num))

/-- The hours of an interval are an `int`. -/
def Interval.HourFits (i : Interval) : Prop :=
  -2 ^ 31 ≤ i.time.tdiv USECS_PER_HOUR ∧ i.time.tdiv USECS_PER_HOUR < 2 ^ 31

instance (i : Interval) : Decidable i.HourFits := by
  unfold Interval.HourFits
  infer_instance

variable (pg) in
/-- The constructor on the parts of an interval: the hour is cut to an `int`. -/
theorem interval_tosql {sec min hour mday mon year usec : Int} (hsec : -60 < sec ∧ sec < 60)
    (hmin : -60 < min ∧ min < 60) (hhour : Fits64 (some hour))
    (hmday : -2 ^ 31 ≤ mday ∧ mday < 2 ^ 31) (hmon : -12 < mon ∧ mon < 12)
    (hyear : -2 ^ 31 ≤ year ∧ year < 2 ^ 31) (husec : -1000000 < usec ∧ usec < 1000000) (isdst : Int) :
    ∃ v, rint (round_double (v * 1000000)) = sec * USECS_PER_SEC + usec ∧
      pllua_time_tosql pg .INTERVALOID
          ((all_ints ⟨sec, min, hour, mday, mon, year, isdst, 0⟩ usec).table .nil .nil) =
        (pg.make_interval year mon 0 mday (c_int hour) min (.fin v)).map .interval := by
  have hfit : (all_ints ⟨sec, min, hour, mday, mon, year, isdst, 0⟩ usec).Fit := by
    exact ⟨fits64_some (k := year) (by omega), fits64_some (k := mon) (by omega),
      fits64_some (k := mday) (by omega), hhour, fits64_some (k := min) (by omega),
      fits64_some (k := sec) (by omega), fits64_some (by omega)⟩
  have hzone : read_timezone pg .nil = .ok no_zone := rfl
  have hchoose : choose_timezone pg no_zone = .ok none := rfl
  have hfields : (all_ints ⟨sec, min, hour, mday, mon, year, isdst, 0⟩ usec).fields .nil =
      ⟨⟨sec, min, c_int hour, mday, mon, year, -1, 0⟩, 0, usec, 0, 0⟩ := by
    simp only [Ints.fields, all_ints, Option.getD_some, (c_int_eq_iff sec).mpr (by omega),
      (c_int_eq_iff min).mpr (by omega), (c_int_eq_iff mday).mpr (by omega),
      (c_int_eq_iff mon).mpr (by omega), (c_int_eq_iff year).mpr (by omega)]
    rfl
  obtain ⟨v, hv, hrint⟩ := interval_sec_eq hsec husec
  refine ⟨v, hrint, ?_⟩
  rw [tosql_ints .INTERVALOID hfit .nil hzone rfl hchoose, hfields]
  unfold from_fields
  dsimp only
  rw [hv]
  rfl

/-- The time of hours that are an `int` fits. -/
theorem cut_time_fits (time : Int) :
    -2 ^ 63 ≤ c_int (time.tdiv USECS_PER_HOUR) * USECS_PER_HOUR + time.tmod USECS_PER_HOUR ∧
      c_int (time.tdiv USECS_PER_HOUR) * USECS_PER_HOUR + time.tmod USECS_PER_HOUR < 2 ^ 63 := by
  have hlow := Int.le_bmod (x := time.tdiv USECS_PER_HOUR) (m := 2 ^ 32) (by decide)
  have hhigh := Int.bmod_lt (x := time.tdiv USECS_PER_HOUR) (m := 2 ^ 32) (by decide)
  have hrest := Int.lt_tmod_of_pos time (by decide : 0 < USECS_PER_HOUR)
  have hrest' := Int.tmod_lt_of_pos time (by decide : 0 < USECS_PER_HOUR)
  unfold c_int
  unfold USECS_PER_HOUR at *
  omega

/-- An interval comes back if and only if its hours are an `int`. -/
theorem interval_back (hpg : Documented pg) {i : Interval} (hi : i.Fits) :
    ∃ table, pllua_time_as_table pg .nil (.interval i) = .ok table ∧
      (pllua_time_tosql pg .INTERVALOID table = .ok (.interval i) ↔ i.HourFits) := by
  have hitm := hpg.interval2itm i hi
  obtain ⟨hsec, hmin, husec, hrest, htotal⟩ := interval_parts i.time
  obtain ⟨hhour, hmon, hyear⟩ := interval_ranges hi
  have htable : pllua_time_as_table pg .nil (.interval i) =
      .ok ((all_ints (pg.interval2itm i).1 (pg.interval2itm i).2).table .nil .nil) := rfl
  refine ⟨_, htable, ?_⟩
  obtain ⟨v, hrint, htosql⟩ := interval_tosql pg hsec hmin hhour hi.day hmon hyear husec
    (-1)
  rw [hitm]
  dsimp only
  rw [htosql]
  have hmake := hpg.make_interval (i.month.tdiv 12) (i.month.tmod 12) 0 i.day
    (c_int (i.time.tdiv USECS_PER_HOUR)) ((i.time.tmod USECS_PER_HOUR).tdiv USECS_PER_MINUTE) v
  have hmonths := Int.mul_tdiv_add_tmod i.month 12
  rw [Int.mul_comm] at hmonths
  have hdays : 0 * 7 + i.day = i.day := by omega
  rw [hrint, hmonths, hdays] at hmake
  dsimp only at hmake
  rw [Int.add_assoc, hrest] at hmake
  have hcut : i.HourFits ↔ c_int (i.time.tdiv USECS_PER_HOUR) = i.time.tdiv USECS_PER_HOUR := by
    unfold Interval.HourFits
    rw [c_int_eq_iff]
    omega
  rw [hcut]
  rw [hmake ?_ ?_]
  · constructor
    · intro hresult
      have hinterval : Interval.mk i.month i.day (c_int (i.time.tdiv USECS_PER_HOUR) *
          USECS_PER_HOUR + i.time.tmod USECS_PER_HOUR) = i :=
        TimeValue.interval.inj (Except.ok.inj hresult)
      have htime : c_int (i.time.tdiv USECS_PER_HOUR) * USECS_PER_HOUR +
          i.time.tmod USECS_PER_HOUR = i.time := congrArg Interval.time hinterval
      unfold USECS_PER_HOUR at htime htotal ⊢
      omega
    · intro hsame
      rw [hsame, htotal]
      rfl
  · generalize (i.time.tmod USECS_PER_MINUTE).tdiv USECS_PER_SEC = sec at hsec ⊢
    generalize i.time.tmod USECS_PER_SEC = usec at husec ⊢
    unfold USECS_PER_SEC
    omega
  · exact ⟨hi.month, hi.day, cut_time_fits i.time⟩

/-! ## All types -/

/-- The value is no interval, or one of not too many hours. -/
def TimeValue.HourFits : TimeValue → Prop
  | .interval i => i.HourFits
  | _ => True

/-- A zone is taken for `timestamptz` alone. -/
theorem as_table_nil {zone : LuaVal} {v : TimeValue} {table : Table}
    (hoid : v.oid ≠ .TIMESTAMPTZOID) (h : pllua_time_as_table pg zone v = .ok table) :
    pllua_time_as_table pg .nil v = .ok table := by
  have hnil {t : Except String Table} (h : without_zone zone t = .ok table) :
      without_zone .nil t = .ok table := by
    unfold without_zone at h
    split at h
    · exact h
    · cases h
  cases v with
  | timestamptz t => exact absurd rfl hoid
  | date d => exact hnil h
  | timestamp t => exact hnil h
  | time t => exact hnil h
  | timetz t zone => exact hnil h
  | interval i => exact hnil h

/-- The table of a timestamp in a zone. -/
theorem timestamptz_table {zone : LuaVal} {t : Int} {table : Table}
    (h : pllua_time_as_table pg zone (.timestamptz t) = .ok table) (ht : IS_VALID_TIMESTAMP t) :
    ∃ z tz, timestamptz_fields pg t z = .ok table ∧ choose_timezone pg z = .ok tz := by
  obtain ⟨hbegin, hend⟩ := timestamp_not_infinite ht
  unfold pllua_time_as_table at h
  simp only [bind, Except.bind] at h
  cases hz : shown_zone pg zone with
  | error e =>
    rw [hz] at h
    cases h
  | ok z =>
    rw [hz] at h
    cases htz : choose_timezone pg z with
    | error e =>
      unfold timestamptz_fields at h
      simp only [if_neg hbegin, if_neg hend, htz, bind, Except.bind] at h
      cases h
    | ok tz => exact ⟨z, tz, h, htz⟩

/-- A round trip of the table that is made without a zone is one of all tables. -/
theorem all_tables {v : TimeValue} {P : Prop} (hoid : v.oid ≠ .TIMESTAMPTZOID)
    (h : ∃ table, pllua_time_as_table pg .nil v = .ok table ∧
      (pllua_time_tosql pg v.oid table = .ok v ↔ P)) :
    (∃ table, pllua_time_as_table pg .nil v = .ok table) ∧
      ∀ zone table, pllua_time_as_table pg zone v = .ok table →
        (pllua_time_tosql pg v.oid table = .ok v ↔ P) := by
  obtain ⟨table, htable, hback⟩ := h
  refine ⟨⟨table, htable⟩, fun zone table' htable' => ?_⟩
  have hsame := as_table_nil hoid htable'
  rw [htable] at hsame
  cases hsame
  exact hback

theorem timestamptz_round_trip (hpg : Documented pg) {t : Int} (ht : IS_VALID_TIMESTAMP t) :
    (∃ table, pllua_time_as_table pg .nil (.timestamptz t) = .ok table) ∧
      ∀ zone table, pllua_time_as_table pg zone (.timestamptz t) = .ok table →
        pllua_time_tosql pg .TIMESTAMPTZOID table = .ok (.timestamptz t) := by
  constructor
  · have hchoose : choose_timezone pg no_zone = .ok none := rfl
    obtain ⟨table, htable, -⟩ := timestamptz_back hpg ht hchoose
    exact ⟨table, htable⟩
  · intro zone table h
    obtain ⟨z, tz, htable, htz⟩ := timestamptz_table h ht
    obtain ⟨table', htable', hback⟩ := timestamptz_back hpg ht htz
    rw [htable] at htable'
    cases htable'
    exact hback

/-- A finite value has a table. The constructor of its type makes an equal value of every table
of it, in whichever zone it is shown, if and only if the hours of the value are an `int`. -/
theorem table_round_trip (hpg : Documented pg) {v : TimeValue} (hv : v.Valid) :
    (∃ table, pllua_time_as_table pg .nil v = .ok table) ∧
      ∀ zone table, pllua_time_as_table pg zone v = .ok table →
        (pllua_time_tosql pg v.oid table = .ok v ↔ v.HourFits) := by
  cases v with
  | date d =>
    obtain ⟨table, htable, hback⟩ := date_round_trip hpg hv
    exact all_tables TimeType.noConfusion ⟨table, htable, iff_of_true hback trivial⟩
  | timestamp t =>
    obtain ⟨table, htable, hback⟩ := timestamp_round_trip hpg hv
    exact all_tables TimeType.noConfusion ⟨table, htable, iff_of_true hback trivial⟩
  | timestamptz t =>
    obtain ⟨htable, hback⟩ := timestamptz_round_trip hpg hv
    exact ⟨htable, fun zone table h => iff_of_true (hback zone table h) trivial⟩
  | time t =>
    obtain ⟨table, htable, hback⟩ := time_round_trip hpg hv
    exact all_tables TimeType.noConfusion ⟨table, htable, iff_of_true hback trivial⟩
  | timetz t zone =>
    obtain ⟨table, htable, hback⟩ := timetz_round_trip hpg hv.1 hv.2
    exact all_tables TimeType.noConfusion ⟨table, htable, iff_of_true hback trivial⟩
  | interval i => exact all_tables TimeType.noConfusion (interval_back hpg hv)

end

/-- An interval of 2^31 hours comes back with the sign changed. -/
theorem long_interval_changes :
    Documented fixed_zones ∧ (TimeValue.interval ⟨0, 0, 7730941132800000000⟩).Valid ∧
      ∃ table, pllua_time_as_table fixed_zones .nil (.interval ⟨0, 0, 7730941132800000000⟩) =
          .ok table ∧
        table.hour = pushinteger 2147483648 ∧
        pllua_time_tosql fixed_zones .INTERVALOID table =
          .ok (.interval ⟨0, 0, -7730941132800000000⟩) := by
  have hfits : (⟨0, 0, 7730941132800000000⟩ : Interval).Fits := by decide
  refine ⟨fixed_zones_documented, hfits, _, rfl, rfl, ?_⟩
  have hzero : -60 < (0 : Int) ∧ (0 : Int) < 60 := by decide
  have hmonths : -2 ^ 31 ≤ (0 : Int) ∧ (0 : Int) < 2 ^ 31 := by decide
  have hhour : Fits64 (some 2147483648) := by
    unfold Fits64
    decide
  obtain ⟨v, hrint, htosql⟩ := interval_tosql fixed_zones hzero hzero hhour hmonths
    (by decide : -12 < (0 : Int) ∧ (0 : Int) < 12) hmonths
    (by decide : -1000000 < (0 : Int) ∧ (0 : Int) < 1000000) (-1)
  have hcut : c_int 2147483648 = -2147483648 := by decide
  rw [hcut] at htosql
  refine htosql.trans ?_
  show (fixed_make_interval 0 0 0 0 (-2147483648) 0 (.fin v)).map _ = _
  unfold fixed_make_interval
  dsimp only
  rw [hrint]
  rfl

/-- An interval with a part of each sign. -/
theorem mixed_interval_back :
    ∃ table, pllua_time_as_table fixed_zones .nil (.interval ⟨-14, 3, -5400000001⟩) = .ok table ∧
      pllua_time_tosql fixed_zones .INTERVALOID table = .ok (.interval ⟨-14, 3, -5400000001⟩) := by
  have hfits : (⟨-14, 3, -5400000001⟩ : Interval).Fits := by decide
  obtain ⟨⟨table, htable⟩, hback⟩ :=
    table_round_trip fixed_zones_documented (v := .interval ⟨-14, 3, -5400000001⟩) hfits
  have hhours : (⟨-14, 3, -5400000001⟩ : Interval).HourFits := by decide
  exact ⟨table, htable, (hback .nil table htable).mpr hhours⟩

end pllua.datetime
