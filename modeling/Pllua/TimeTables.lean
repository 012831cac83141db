-- Times as Lua tables (time.c). `as_table` makes a table of the fields of a time, and
-- the constructor of the type reads one, in which any field may be missing, and may be
-- an integer, a float or infinite.
import Mathlib.Data.Rat.Floor
import Pllua.Constructors
import Pllua.Floats
import Pllua.NumericIntegers
import Pllua.TimeFields

open pllua.floats pllua.rounding
open pllua.constructors (c_int)
open pllua.numeric (Float8)
open pllua.time

namespace pllua.datetime

/-! ## Lua values -/

inductive Num
  | integer (i : Int64)
  | float (f : Float8)
deriving DecidableEq

/-- A field of a table. A string may convert to a number. -/
inductive LuaVal
  | nil
  | boolean (b : Bool)
  | number (n : Num)
  | string (s : String) (n : Option Num)
  | other
deriving DecidableEq

def LuaVal.is_nil : LuaVal → Bool
  | .nil => true
  | _ => false

def LuaVal.toboolean : LuaVal → Bool
  | .nil => false
  | .boolean b => b
  | _ => true

/-- What the value is as a number for Lua. -/
def LuaVal.tonumber : LuaVal → Option Num
  | .number n => some n
  | .string _ n => n
  | _ => none

/-- An integer as Lua gets it. -/
def pushinteger (k : Int) : LuaVal := .number (.integer (Int64.ofInt k))

/-- The fields that are looked up in a table. -/
structure Table where
  year : LuaVal := .nil
  month : LuaVal := .nil
  day : LuaVal := .nil
  hour : LuaVal := .nil
  min : LuaVal := .nil
  sec : LuaVal := .nil
  msec : LuaVal := .nil
  usec : LuaVal := .nil
  epoch : LuaVal := .nil
  epoch_msec : LuaVal := .nil
  epoch_usec : LuaVal := .nil
  isdst : LuaVal := .nil
  timezone : LuaVal := .nil
deriving DecidableEq

/-! ## Machine numbers -/

/-- An `int64`. -/
def c_int64 (k : Int) : Int := Int.bmod k (2 ^ 64)

/-- The result of an operation on floats. -/
def to_float (q : ℚ) : Float8 :=
  if |round_double q| < 2 ^ 1024 then .fin (round_double q) else .inf (q < 0)

/-- `llrint`, with the number that processors give for what does not fit. -/
def llrint (f : Float8) : Int :=
  match f with
  | .fin v => if -2 ^ 63 ≤ rint v ∧ rint v < 2 ^ 63 then rint v else -2 ^ 63
  | _ => -2 ^ 63

/-- A float without a fraction to an `int`, with the number that processors give for what does
not fit. -/
def float_to_int (k : Int) : Int := if -2 ^ 31 ≤ k ∧ k < 2 ^ 31 then k else -2 ^ 31

/-- `modf` -/
def modf (q : ℚ) : ℤ × ℚ := (truncate q, q - truncate q)

/-! ## PostgreSQL -/

inductive TimeType
  | DATEOID | TIMESTAMPOID | TIMESTAMPTZOID | TIMEOID | TIMETZOID | INTERVALOID
deriving DecidableEq, Repr

open TimeType

structure Interval where
  month : Int
  day : Int
  time : Int
deriving DecidableEq, Repr

/-- A value: days and microseconds count from 2000, a zone is in seconds west of Greenwich. -/
inductive TimeValue
  | date (d : Int)
  | timestamp (t : Int)
  | timestamptz (t : Int)
  | time (t : Int)
  | timetz (t zone : Int)
  | interval (i : Interval)
deriving DecidableEq, Repr

def TimeValue.oid : TimeValue → TimeType
  | .date _ => DATEOID
  | .timestamp _ => TIMESTAMPOID
  | .timestamptz _ => TIMESTAMPTZOID
  | .time _ => TIMEOID
  | .timetz _ _ => TIMETZOID
  | .interval _ => INTERVALOID

def POSTGRES_EPOCH_JDATE : Int := 2451545
def UNIX_EPOCH_JDATE : Int := 2440588
def USECS_PER_DAY : Int := 86400000000
def USECS_PER_HOUR : Int := 3600000000
def USECS_PER_MINUTE : Int := 60000000
def USECS_PER_SEC : Int := 1000000

/-- `IS_VALID_DATE` -/
def IS_VALID_DATE (d : Int) : Prop := -2451545 ≤ d ∧ d < 2145031949

/-- `IS_VALID_TIMESTAMP` -/
def IS_VALID_TIMESTAMP (t : Int) : Prop := -211813488000000000 ≤ t ∧ t < 9223371331200000000

/-- `IS_VALID_JULIAN`: the day is not looked at. -/
def IS_VALID_JULIAN (y m : Int) : Prop :=
  (y > -4713 ∨ (y = -4713 ∧ m ≥ 11)) ∧ (y < 5874898 ∨ (y = 5874898 ∧ m < 6))

instance (d : Int) : Decidable (IS_VALID_DATE d) := by unfold IS_VALID_DATE; infer_instance

instance (t : Int) : Decidable (IS_VALID_TIMESTAMP t) := by
  unfold IS_VALID_TIMESTAMP; infer_instance

instance (y m : Int) : Decidable (IS_VALID_JULIAN y m) := by
  unfold IS_VALID_JULIAN; infer_instance

/-- What `pg_next_dst_boundary` finds, with its result. -/
structure Boundary where
  res : Int
  before_gmtoff : Int
  before_isdst : Int
  boundary : Int
  after_gmtoff : Int
  after_isdst : Int
deriving DecidableEq, Repr

/-- The functions of PostgreSQL. `Z` are its time zones. A result code other than 0 is `none`,
and an error that is raised has its message. -/
structure Pg (Z : Type) where
  session_timezone : Z
  /-- the zone of an offset, west of Greenwich -/
  pg_tzset_offset : Int → Option Z
  pg_tzset : String → Option Z
  DecodeTimezone : String → Option Int
  pg_next_dst_boundary : Z → Int → Boundary
  date2j : Int → Int → Int → Int
  j2date : Int → Int × Int × Int
  /-- the year, the month and the day of a Unix time in a zone -/
  pg_localtime : Int → Z → Option (Int × Int × Int)
  /-- the fields, the fraction of the second, and the abbreviation of the zone is left out -/
  timestamp2tm : Int → Option Z → Option (pg_tm × Int)
  tm2timestamp : pg_tm → Int → Option Int → Option Int
  make_interval : Int → Int → Int → Int → Int → Int → Float8 → Except String Interval
  make_time : Int → Int → Float8 → Except String Int
  /-- `timetz_in` on the text that `sprintf` makes of an hour, a minute, a second, the sign of the
  offset and its three parts -/
  timetz_in : Int → Int → Int → Bool → Int → Int → Int → Except String (Int × Int)
  timestamp_pl_interval : Int → Interval → Except String Int
  timestamptz_pl_interval : Int → Interval → Except String Int
  time_pl_interval : Int → Interval → Except String Int
  timetz_pl_interval : Int × Int → Interval → Except String (Int × Int)
  interval2itm : Interval → pg_tm × Int
  time_part_epoch : Int → ℚ
  timetz_part_epoch : Int × Int → ℚ
  timetz_part_timezone : Int × Int → ℚ

/-! ## Reading a table -/

/-- What `getnumber` finds. -/
inductive Got
  | int (i : Int)
  | float (q : ℚ)
  | infinite (neg : Bool)

def inf_sign_of (neg : Bool) : Int := if neg then -1 else 1

/-- `getnumber`. `fval` says whether a float is wanted, and `inf_sign` is the sign so far, where an
infinity is. An infinity leaves 0 as the integer. -/
def getnumber (v : LuaVal) (fval : Bool) (inf_sign : Option Int) (diag_field : String) :
    Except String Got :=
  have invalid := "invalid value in field '" ++ diag_field ++ "'"
  match v.tonumber with
  | none => .error invalid
  | some (.integer i) => .ok (.int i.toInt)
  | some (.float .nan) => .error invalid
  | some (.float (.inf neg)) =>
    match inf_sign with
    | none => .error invalid
    | some sign =>
      if sign ≠ 0 ∧ inf_sign_of neg ≠ sign then .error invalid else .ok (.infinite neg)
  | some (.float (.fin q)) =>
    if q = ⌊q⌋ ∧ -2 ^ 63 ≤ q ∧ q < 2 ^ 63 then .ok (.int ⌊q⌋)
    else if fval then .ok (.float q) else .error invalid

/-- What is read so far. -/
structure Fields where
  tm : pg_tm
  tmpflt : ℚ
  microsecs : Int
  epoch_microsecs : Int
  inf_sign : Int
deriving DecidableEq

/-- `TMGET`: the number in the member, and the sign of an infinity. -/
def TMGET (name : String) (v : LuaVal) (inf_sign : Int) : Except String (Int × Int) :=
  if v.is_nil then .ok (0, inf_sign)
  else
    match getnumber v false (some inf_sign) name with
    | .error e => .error e
    | .ok (.int i) => .ok (c_int i, inf_sign)
    | .ok (.float _) => .ok (0, inf_sign)
    | .ok (.infinite neg) => .ok (0, inf_sign_of neg)

/-- The calendar fields, but for the seconds. -/
def read_calendar (t : Table) : Except String Fields := do
  let (year, sign) ← TMGET "year" t.year 0
  let (mon, sign) ← TMGET "month" t.month sign
  let (mday, sign) ← TMGET "day" t.day sign
  let (hour, sign) ← TMGET "hour" t.hour sign
  let (min, sign) ← TMGET "min" t.min sign
  let isdst : Int := if t.isdst.is_nil then -1 else if t.isdst.toboolean then 1 else 0
  .ok { tm := ⟨0, min, hour, mday, mon, year, isdst, 0⟩
        tmpflt := 0
        microsecs := 0
        epoch_microsecs := 0
        inf_sign := sign }

/-- The whole seconds and the microseconds of a float. -/
def float_sec (tmpflt : ℚ) : Int × Int :=
  have m := modf |tmpflt|
  have usec := c_int (llrint (to_float (m.2 * 1000000)))
  if tmpflt < 0 then (c_int (-(float_to_int m.1 + 1)), c_int (1000000 - usec))
  else (float_to_int m.1, usec)

/-- A field that may be a float. An infinity leaves the float that was read before it. -/
def read_float (name : String) (v : LuaVal) (f : Fields) (int : Int → Fields)
    (float : Fields → Fields) : Except String Fields :=
  if v.is_nil then .ok f
  else
    match getnumber v true (some f.inf_sign) name with
    | .error e => .error e
    | .ok (.int i) => .ok (int i)
    | .ok (.float q) => .ok (float { f with tmpflt := q })
    | .ok (.infinite neg) => .ok (float { f with inf_sign := inf_sign_of neg })

def read_sec (t : Table) (f : Fields) : Except String Fields :=
  read_float "sec" t.sec f (fun i => { f with tm := { f.tm with tm_sec := c_int i } })
    fun f => { f with
      tm := { f.tm with tm_sec := (float_sec f.tmpflt).1 }
      microsecs := (float_sec f.tmpflt).2 }

def read_msec (t : Table) (f : Fields) : Except String Fields :=
  read_float "msec" t.msec f
    (fun i => { f with microsecs := c_int64 (f.microsecs + c_int64 (i * 1000)) })
    fun f => { f with
      microsecs := c_int64 (f.microsecs + llrint (to_float (f.tmpflt * 1000))) }

def read_usec (t : Table) (f : Fields) : Except String Fields :=
  read_float "usec" t.usec f (fun i => { f with microsecs := c_int64 (f.microsecs + i) })
    fun f => { f with microsecs := c_int64 (f.microsecs + llrint (.fin f.tmpflt)) }

/-- One of the epoch fields, that counts in units of so many microseconds. -/
def read_epoch (name : String) (v : LuaVal) (scale : Int) (f : Fields) : Except String Fields :=
  read_float name v f (fun i => { f with epoch_microsecs := c_int64 (i * scale) })
    fun f => { f with epoch_microsecs := llrint (to_float (f.tmpflt * scale)) }

/-- The field `timezone`. -/
structure Zone where
  found_tz : Bool
  found_gmtoff : Bool
  tzname : Option String
  gmtoff : Int
deriving DecidableEq

def no_zone : Zone := ⟨false, false, none, 0⟩

section
variable {Z : Type} (pg : Pg Z)

/-- A time zone by its name. An offset is found if it is the text of one. -/
def zone_by_name (tzname : String) : Zone :=
  match pg.DecodeTimezone tzname with
  | some tzoff => ⟨true, true, some tzname, -tzoff⟩
  | none => ⟨true, false, some tzname, 0⟩

/-- A time zone by its offset. -/
def zone_by_offset (v : LuaVal) : Except String Zone :=
  match getnumber v false none "timezone" with
  | .error e => .error e
  | .ok (.int i) => .ok ⟨false, true, none, i⟩
  | .ok _ => .ok ⟨false, true, none, 0⟩

def read_timezone (v : LuaVal) : Except String Zone :=
  match v with
  | .nil => .ok no_zone
  | .boolean b => .ok ⟨b, false, none, 0⟩
  | .string tzname _ => .ok (zone_by_name pg tzname)
  | v => zone_by_offset v

/-- The zone that is meant, if one is given. -/
def choose_timezone (z : Zone) : Except String (Option Z) :=
  if z.found_tz || z.found_gmtoff then
    have tz :=
      if z.found_gmtoff then pg.pg_tzset_offset (-z.gmtoff)
      else match z.tzname with
        | some tzname => pg.pg_tzset tzname
        | none => some pg.session_timezone
    match tz with
    | some tz => .ok (some tz)
    | none => .error "invalid timezone specified"
  else .ok none

/-- All fields, and the zone. -/
def read_table (t : Table) : Except String (Fields × Zone) := do
  let f ← read_calendar t
  let f ← read_sec t f
  let f ← read_msec t f
  let f ← read_usec t f
  let f ← read_epoch "epoch" t.epoch 1000000 f
  let f ← read_epoch "epoch_msec" t.epoch_msec 1000 f
  let f ← read_epoch "epoch_usec" t.epoch_usec 1 f
  let z ← read_timezone pg t.timezone
  .ok (f, z)

end

/-! ## The fields together -/

def Table.found_epoch (t : Table) : Nat :=
  (if t.epoch.is_nil then 0 else 1) + (if t.epoch_msec.is_nil then 0 else 1) +
    (if t.epoch_usec.is_nil then 0 else 1)

/-- An error if the condition holds. -/
def refuse (c : Bool) (message : String) : Except String Unit :=
  if c then .error message else .ok ()

/-- Which fields may stand together. -/
def check_epoch (oid : TimeType) (t : Table) (z : Zone) : Except String Unit := do
  refuse (!t.year.is_nil || !t.month.is_nil || !t.day.is_nil)
    "cannot specify both epoch and date fields"
  refuse (!t.hour.is_nil || !t.min.is_nil || !t.sec.is_nil)
    "cannot specify both epoch and time fields"
  refuse (oid = TIMESTAMPTZOID && (z.found_tz || z.found_gmtoff))
    "cannot specify timezone with epoch for timestamptz"

def check_date (oid : TimeType) (t : Table) (z : Zone) : Except String Unit := do
  refuse t.year.is_nil "missing datetime field 'year'"
  refuse t.month.is_nil "missing datetime field 'mon'"
  refuse t.day.is_nil "missing datetime field 'day'"
  refuse (oid ≠ TIMESTAMPTZOID && (z.found_tz || z.found_gmtoff))
    "cannot specify timezone for this type"

def check_time (oid : TimeType) (t : Table) (z : Zone) : Except String Unit := do
  refuse t.hour.is_nil "missing datetime field 'hour'"
  refuse (!t.sec.is_nil && t.min.is_nil) "missing datetime field 'min'"
  refuse (oid = TIMETZOID && z.found_tz && !z.found_gmtoff)
    "non-numeric timezones not supported for 'timetz'"
  refuse (oid ≠ TIMETZOID && (z.found_tz || z.found_gmtoff))
    "cannot specify timezone for this type"

def check_form (oid : TimeType) (t : Table) (z : Zone) : Except String Unit :=
  if t.found_epoch > 1 then .error "cannot specify multiple epoch fields"
  else if t.found_epoch = 1 then check_epoch oid t z
  else
    match oid with
    | DATEOID | TIMESTAMPTZOID | TIMESTAMPOID => check_date oid t z
    | TIMEOID | TIMETZOID => check_time oid t z
    | INTERVALOID => .ok ()

def check_table (oid : TimeType) (t : Table) (f : Fields) (z : Zone) : Except String Unit := do
  check_form oid t z
  refuse (f.inf_sign ≠ 0 && !(oid = TIMESTAMPOID || oid = TIMESTAMPTZOID))
    "infinite values not permitted for this type"

/-! ## Making the value -/

/-- `int` arithmetic on the fields. -/
def c_ints (tm : pg_tm) : pg_tm :=
  ⟨c_int tm.tm_sec, c_int tm.tm_min, c_int tm.tm_hour, c_int tm.tm_mday, c_int tm.tm_mon,
    c_int tm.tm_year, tm.tm_isdst, tm.tm_gmtoff⟩

/-- The carry of the months, where the month is counted from 0 first. -/
def carry_mon_int (tm : pg_tm) : pg_tm :=
  if tm.tm_mon < 1 ∨ tm.tm_mon > 12 then
    have r := calc_overflow (c_int (tm.tm_mon - 1)) 12 tm.tm_year
    c_ints { tm with tm_mon := 1 + r.1, tm_year := r.2 }
  else tm

/-- The carry steps with the `int` fields of `pg_tm`. -/
def normalize_int (tm : pg_tm) : pg_tm :=
  carry_mon_int <|
    if tm.tm_hour ≠ 24 ∨ tm.tm_min ≠ 0 ∨ tm.tm_sec ≠ 0 then
      c_ints (carry_hour (c_ints (carry_min (c_ints (carry_sec tm)))))
    else tm

/-- `TIMESTAMP_NOBEGIN` and `TIMESTAMP_NOEND` -/
def infinite_timestamp (inf_sign : Int) : Int := if inf_sign > 0 then 2 ^ 63 - 1 else -2 ^ 63

/-- `time_t_to_timestamptz(0)` -/
def unix_epoch : Int := (UNIX_EPOCH_JDATE - POSTGRES_EPOCH_JDATE) * 86400 * 1000000

section
variable {Z : Type} (pg : Pg Z)

/-- `determine_timezone_offset`: the offset and `tm_isdst`, both 0 if the date is out of
range. -/
def determine_timezone_offset (tm : pg_tm) (tzp : Z) : Int × Int :=
  if ¬ IS_VALID_JULIAN tm.tm_year tm.tm_mon then (0, 0)
  else
    have date := pg.date2j tm.tm_year tm.tm_mon tm.tm_mday - UNIX_EPOCH_JDATE
    have mytime := date * 86400 + (tm.tm_sec + (tm.tm_min + tm.tm_hour * 60) * 60)
    have b := pg.pg_next_dst_boundary tzp (mytime - 86400)
    if b.res < 0 then (0, 0)
    else if b.res = 0 then (-b.before_gmtoff, b.before_isdst)
    else
      have beforetime := mytime - b.before_gmtoff
      have aftertime := mytime - b.after_gmtoff
      if beforetime < b.boundary ∧ aftertime < b.boundary then (-b.before_gmtoff, b.before_isdst)
      else if beforetime > b.boundary ∧ aftertime ≥ b.boundary then
        (-b.after_gmtoff, b.after_isdst)
      else if tm.tm_isdst = -1 then
        if beforetime > aftertime then (-b.before_gmtoff, b.before_isdst)
        else (-b.after_gmtoff, b.after_isdst)
      else if tm.tm_isdst = b.before_isdst then (-b.before_gmtoff, tm.tm_isdst)
      else (-b.after_gmtoff, tm.tm_isdst)

/-- Microseconds in seconds, where both numbers of the division are floats. -/
def float_seconds (microsecs : Int) : Float8 := to_float (round_double microsecs / 1000000)

/-- The interval of so many microseconds, which goes through a float of seconds. -/
def usec_interval (microsecs : Int) : Except String Interval :=
  pg.make_interval 0 0 0 0 0 0 (float_seconds microsecs)

/-- The three parts of an offset, and its sign. -/
def offset_parts (gmtoff : Int) : Bool × Int × Int × Int :=
  have absoff := if gmtoff < 0 then c_int64 (-gmtoff) else gmtoff
  (decide (gmtoff < 0), c_int (absoff.tdiv 3600), c_int ((absoff.tdiv 60).tmod 60),
    c_int (absoff.tmod 60))

def timetz_of (hour min sec gmtoff : Int) : Except String (Int × Int) :=
  have p := offset_parts gmtoff
  pg.timetz_in hour min sec p.1 p.2.1 p.2.2.1 p.2.2.2

/-- The local time of a timestamp in a zone. -/
def in_zone (t : Int) (tz : Option Z) : Except String Int :=
  match pg.timestamp2tm t tz with
  | none => .error "timestamp out of range"
  | some (tm, fsec) =>
    match pg.tm2timestamp tm fsec none with
    | none => .error "could not convert to time zone"
    | some t => .ok t

/-- The zone is not that of Greenwich by its offset, and there is one. -/
def Zone.shifts (z : Zone) : Bool :=
  (!z.found_gmtoff && z.found_tz) || (z.found_gmtoff && z.gmtoff ≠ 0)

/-- A date from an epoch. -/
def epoch_date (microsecs : Int) (z : Zone) (tz : Option Z) : Except String TimeValue :=
  if !z.shifts then
    have jdate := floordiv microsecs (86400 * 1000000) + UNIX_EPOCH_JDATE - POSTGRES_EPOCH_JDATE
    if IS_VALID_DATE jdate then .ok (.date jdate) else .error "date value out of range"
  else
    match tz.bind (pg.pg_localtime (floordiv microsecs 1000000)) with
    | none => .error "date value conversion failed"
    | some (y, m, d) => .ok (.date (c_int (pg.date2j y m d - POSTGRES_EPOCH_JDATE)))

/-- The value from an epoch field. -/
def from_epoch (oid : TimeType) (f : Fields) (z : Zone) (tz : Option Z) :
    Except String TimeValue :=
  have microsecs := c_int64 (f.microsecs + f.epoch_microsecs)
  match oid with
  | DATEOID => epoch_date pg microsecs z tz
  | TIMESTAMPTZOID => do
    let iresult ← usec_interval pg microsecs
    if f.inf_sign ≠ 0 then .ok (.timestamptz (infinite_timestamp f.inf_sign))
    else do
      let t ← pg.timestamptz_pl_interval unix_epoch iresult
      .ok (.timestamptz t)
  | TIMESTAMPOID => do
    let iresult ← usec_interval pg microsecs
    if f.inf_sign ≠ 0 then .ok (.timestamp (infinite_timestamp f.inf_sign))
    else do
      let t ← pg.timestamptz_pl_interval unix_epoch iresult
      if z.shifts then do
        let t ← in_zone pg t tz
        .ok (.timestamp t)
      else .ok (.timestamp t)
  | TIMEOID => do
    let iresult ← usec_interval pg microsecs
    let midnight ← pg.make_time 0 0 (.fin 0)
    let t ← pg.time_pl_interval midnight iresult
    .ok (.time t)
  | TIMETZOID => do
    let iresult ← usec_interval pg microsecs
    let midnight ← timetz_of pg 0 0 0 z.gmtoff
    let t ← pg.timetz_pl_interval midnight iresult
    .ok (.timetz t.1 t.2)
  | INTERVALOID => do
    let iresult ← usec_interval pg microsecs
    .ok (.interval iresult)

/-- The value of the fields, and where microseconds are left to add. -/
def from_fields (oid : TimeType) (f : Fields) (z : Zone) (tz : Option Z) :
    Except String TimeValue :=
  have tm := normalize_int f.tm
  match oid with
  | DATEOID =>
    .ok (.date (c_int (pg.date2j tm.tm_year tm.tm_mon tm.tm_mday - POSTGRES_EPOCH_JDATE)))
  | TIMESTAMPTZOID =>
    have tzo := determine_timezone_offset pg tm (tz.getD pg.session_timezone)
    match pg.tm2timestamp { tm with tm_isdst := tzo.2 } 0 (some tzo.1) with
    | none => .error "could not convert to timestamp"
    | some t => add_usec f.microsecs t pg.timestamptz_pl_interval .timestamptz
  | TIMESTAMPOID =>
    match pg.tm2timestamp tm 0 none with
    | none => .error "could not convert to timestamp"
    | some t => add_usec f.microsecs t pg.timestamp_pl_interval .timestamp
  | TIMEOID => do
    let t ← pg.make_time tm.tm_hour tm.tm_min (.fin tm.tm_sec)
    add_usec f.microsecs t pg.time_pl_interval .time
  | TIMETZOID => do
    let t ← timetz_of pg tm.tm_hour tm.tm_min tm.tm_sec z.gmtoff
    add_usec f.microsecs t pg.timetz_pl_interval fun t => .timetz t.1 t.2
  | INTERVALOID => do
    let i ← pg.make_interval f.tm.tm_year f.tm.tm_mon 0 f.tm.tm_mday f.tm.tm_hour f.tm.tm_min
      (interval_sec f.tm.tm_sec f.microsecs)
    .ok (.interval i)
where
  /-- The microseconds are added if there are any. -/
  add_usec {α : Type} (microsecs : Int) (t : α) (pl : α → Interval → Except String α)
      (value : α → TimeValue) : Except String TimeValue :=
    if microsecs ≠ 0 then do
      let i ← usec_interval pg microsecs
      let t ← pl t i
      .ok (value t)
    else .ok (value t)
  /-- The seconds of an interval: a sum of floats. -/
  interval_sec (tm_sec microsecs : Int) : Float8 :=
    match float_seconds microsecs with
    | .fin v => to_float (tm_sec + v)
    | f => f

/-- `pllua_time_tosql` for a table. -/
def pllua_time_tosql (oid : TimeType) (t : Table) : Except String TimeValue := do
  let (f, z) ← read_table pg t
  check_table oid t f z
  let tz ← choose_timezone pg z
  if t.found_epoch = 1 then from_epoch pg oid f z tz else from_fields pg oid f z tz

/-! ## Making a table -/

/-- The zone for which a timestamp is shown. -/
def shown_zone (v : LuaVal) : Except String Zone :=
  match v with
  | .nil | .boolean _ => .ok no_zone
  | .string tzname _ => .ok (zone_by_name pg tzname)
  | v => zone_by_offset v

/-- The fields of a clock, from a number of seconds and the offset that is taken off it. -/
def clock_fields (epoch : ℚ) (gmtoff : Int) : Table :=
  have tmpflt := round_double (epoch + gmtoff)
  have m := modf tmpflt
  have microsecs := llrint (to_float (1000000 * m.2))
  have tmpint := float_to_int m.1
  { hour := pushinteger (tmpint.tdiv 3600)
    min := pushinteger ((tmpint.tdiv 60).tmod 60)
    sec := pushinteger (tmpint.tmod 60)
    usec := pushinteger microsecs }

/-- The fields of a date and a clock. -/
def all_fields (tm : pg_tm) (fsec : Int) : Table :=
  { year := pushinteger tm.tm_year
    month := pushinteger tm.tm_mon
    day := pushinteger tm.tm_mday
    hour := pushinteger tm.tm_hour
    min := pushinteger tm.tm_min
    sec := pushinteger tm.tm_sec
    usec := pushinteger fsec }

/-- The table of an infinite timestamp has its epoch alone. -/
def infinite_table (neg : Bool) : Table := { epoch := .number (.float (.inf neg)) }

/-- A type that takes no time zone. -/
def without_zone (zone : LuaVal) (t : Except String Table) : Except String Table :=
  if zone.is_nil then t else .error "cannot specify timezone parameter for this type"

/-- The fields of a timestamp without a time zone. -/
def timestamp_fields (t : Int) : Except String Table :=
  if t = infinite_timestamp (-1) then .ok (infinite_table true)
  else if t = infinite_timestamp 1 then .ok (infinite_table false)
  else
    match pg.timestamp2tm t none with
    | none => .error "timestamp out of range"
    | some (tm, fsec) => .ok (all_fields tm fsec)

/-- The fields of a timestamp in a time zone. -/
def timestamptz_fields (t : Int) (z : Zone) : Except String Table :=
  if t = infinite_timestamp (-1) then .ok (infinite_table true)
  else if t = infinite_timestamp 1 then .ok (infinite_table false)
  else do
    let tz ← choose_timezone pg z
    match pg.timestamp2tm t (some (tz.getD pg.session_timezone)) with
    | none => .error "timestamp out of range"
    | some (tm, fsec) =>
      .ok { all_fields tm fsec with
        isdst := if tm.tm_isdst ≥ 0 then .boolean (tm.tm_isdst ≠ 0) else .nil
        timezone := pushinteger tm.tm_gmtoff }

/-- `pllua_time_as_table`. `zone` is the second argument. -/
def pllua_time_as_table (zone : LuaVal) : TimeValue → Except String Table
  | .date d =>
    have ymd := pg.j2date (d + POSTGRES_EPOCH_JDATE)
    without_zone zone (.ok
      { year := pushinteger ymd.1, month := pushinteger ymd.2.1, day := pushinteger ymd.2.2 })
  | .timestamptz t => do
    let z ← shown_zone pg zone
    timestamptz_fields pg t z
  | .timestamp t => without_zone zone (timestamp_fields pg t)
  | .timetz t tz =>
    have gmtoff := float_to_int (truncate (pg.timetz_part_timezone (t, tz)))
    without_zone zone (.ok { clock_fields (pg.timetz_part_epoch (t, tz)) gmtoff with
      timezone := pushinteger gmtoff })
  | .time t => without_zone zone (.ok (clock_fields (pg.time_part_epoch t) 0))
  | .interval i =>
    have itm := pg.interval2itm i
    without_zone zone (.ok (all_fields itm.1 itm.2))

end

/-! ## What PostgreSQL documents -/

/-- The seconds of a clock. -/
def clock_seconds (tm : pg_tm) : Int := tm.tm_hour * 3600 + tm.tm_min * 60 + tm.tm_sec

/-- A time of a day, with second 60 of a minute and 24:00:00. -/
structure Clock (hour min sec : Int) : Prop where
  hour_range : 0 ≤ hour
  min_range : 0 ≤ min ∧ min ≤ 59
  sec_range : 0 ≤ sec ∧ sec ≤ 60
  day_range : hour * 3600 + min * 60 + sec ≤ 86400

/-- The microseconds from 2000 that the fields count. -/
def stamp {Z : Type} (pg : Pg Z) (tm : pg_tm) (fsec : Int) : Int :=
  (pg.date2j tm.tm_year tm.tm_mon tm.tm_mday - POSTGRES_EPOCH_JDATE) * USECS_PER_DAY +
    clock_seconds tm * USECS_PER_SEC + fsec

/-- The fields of the time `t`, as a clock shows it. -/
structure Shows {Z : Type} (pg : Pg Z) (tm : pg_tm) (fsec t : Int) : Prop where
  julian : IS_VALID_JULIAN tm.tm_year tm.tm_mon
  mon : 1 ≤ tm.tm_mon ∧ tm.tm_mon ≤ 12
  mday : 1 ≤ tm.tm_mday ∧ tm.tm_mday ≤ 31
  hour : 0 ≤ tm.tm_hour ∧ tm.tm_hour ≤ 23
  min : 0 ≤ tm.tm_min ∧ tm.tm_min ≤ 59
  sec : 0 ≤ tm.tm_sec ∧ tm.tm_sec ≤ 59
  fsec_range : 0 ≤ fsec ∧ fsec ≤ 999999
  total : stamp pg tm fsec = t

/-- The offsets of time zones are below a week. -/
def OffsetInRange (gmtoff : Int) : Prop := -604800 < gmtoff ∧ gmtoff < 604800

/-- The seconds of a part of a value as a float: near to them, and exact where they are whole. -/
def Seconds (v : ℚ) (usec : Int) : Prop :=
  |v - usec / 1000000| ≤ 2 ^ (-32 : ℤ) ∧ ∀ k : ℤ, usec = k * 1000000 → v = k

/-- The parts of an interval that fit. -/
structure Interval.Fits (i : Interval) : Prop where
  month : -2 ^ 31 ≤ i.month ∧ i.month < 2 ^ 31
  day : -2 ^ 31 ≤ i.day ∧ i.day < 2 ^ 31
  time : -2 ^ 63 ≤ i.time ∧ i.time < 2 ^ 63

/-- What PostgreSQL documents. Of sums that do not fit nothing is said: some versions refuse them,
and others wrap them. -/
structure Documented {Z : Type} (pg : Pg Z) : Prop where
  j2date : ∀ jd, IS_VALID_DATE (jd - POSTGRES_EPOCH_JDATE) →
    IS_VALID_JULIAN (pg.j2date jd).1 (pg.j2date jd).2.1 ∧
    (1 ≤ (pg.j2date jd).2.1 ∧ (pg.j2date jd).2.1 ≤ 12) ∧
    (1 ≤ (pg.j2date jd).2.2 ∧ (pg.j2date jd).2.2 ≤ 31) ∧
    pg.date2j (pg.j2date jd).1 (pg.j2date jd).2.1 (pg.j2date jd).2.2 = jd
  timestamp2tm : ∀ t, IS_VALID_TIMESTAMP t →
    ∃ tm fsec, pg.timestamp2tm t none = some (tm, fsec) ∧ Shows pg tm fsec t
  timestamptz2tm : ∀ t z, IS_VALID_TIMESTAMP t →
    ∃ tm fsec, pg.timestamp2tm t (some z) = some (tm, fsec) ∧ OffsetInRange tm.tm_gmtoff ∧
      Shows pg tm fsec (t + tm.tm_gmtoff * USECS_PER_SEC)
  tm2timestamp : ∀ tm fsec tzo, IS_VALID_JULIAN tm.tm_year tm.tm_mon →
    (1 ≤ tm.tm_mon ∧ tm.tm_mon ≤ 12) → Clock tm.tm_hour tm.tm_min tm.tm_sec →
    (0 ≤ fsec ∧ fsec ≤ 999999) → OffsetInRange (tzo.getD 0) →
    pg.tm2timestamp tm fsec tzo =
      if IS_VALID_TIMESTAMP (stamp pg tm fsec + tzo.getD 0 * USECS_PER_SEC)
      then some (stamp pg tm fsec + tzo.getD 0 * USECS_PER_SEC) else none
  /-- a fixed offset has no boundary -/
  pg_tzset_offset : ∀ g, OffsetInRange g → ∃ z, pg.pg_tzset_offset (-g) = some z ∧
    ∀ time, (pg.pg_next_dst_boundary z time).res = 0 ∧
      (pg.pg_next_dst_boundary z time).before_gmtoff = g
  make_interval : ∀ years months weeks days hours mins (secs : ℚ),
    have usecs := rint (round_double (secs * 1000000))
    have i : Interval := ⟨years * 12 + months, weeks * 7 + days,
      hours * USECS_PER_HOUR + mins * USECS_PER_MINUTE + usecs⟩
    (-2 ^ 63 ≤ usecs ∧ usecs < 2 ^ 63) → i.Fits →
      pg.make_interval years months weeks days hours mins (.fin secs) = .ok i
  make_time : ∀ hour min (sec : Int), Clock hour min sec →
    pg.make_time hour min (.fin sec) = .ok ((hour * 3600 + min * 60 + sec) * USECS_PER_SEC)
  timetz_in : ∀ hour min sec neg zhour zmin zsec, Clock hour min sec → 0 ≤ zhour →
    (0 ≤ zmin ∧ zmin ≤ 59) → (0 ≤ zsec ∧ zsec ≤ 59) → zhour * 3600 + zmin * 60 + zsec < 57600 →
    pg.timetz_in hour min sec neg zhour zmin zsec =
      .ok ((hour * 3600 + min * 60 + sec) * USECS_PER_SEC,
        if neg then zhour * 3600 + zmin * 60 + zsec else -(zhour * 3600 + zmin * 60 + zsec))
  timestamp_pl_interval : ∀ t time, IS_VALID_TIMESTAMP t →
    (-2 ^ 63 ≤ t + time ∧ t + time < 2 ^ 63) →
    (IS_VALID_TIMESTAMP (t + time) → pg.timestamp_pl_interval t ⟨0, 0, time⟩ = .ok (t + time)) ∧
    (¬ IS_VALID_TIMESTAMP (t + time) → ∃ e, pg.timestamp_pl_interval t ⟨0, 0, time⟩ = .error e)
  timestamptz_pl_interval : ∀ t time, IS_VALID_TIMESTAMP t →
    (-2 ^ 63 ≤ t + time ∧ t + time < 2 ^ 63) →
    (IS_VALID_TIMESTAMP (t + time) →
      pg.timestamptz_pl_interval t ⟨0, 0, time⟩ = .ok (t + time)) ∧
    (¬ IS_VALID_TIMESTAMP (t + time) →
      ∃ e, pg.timestamptz_pl_interval t ⟨0, 0, time⟩ = .error e)
  time_pl_interval : ∀ t (i : Interval), (0 ≤ t ∧ t ≤ USECS_PER_DAY) → i.Fits →
    (-2 ^ 63 ≤ t + i.time ∧ t + i.time < 2 ^ 63) →
    pg.time_pl_interval t i = .ok ((t + i.time) % USECS_PER_DAY)
  timetz_pl_interval : ∀ t zone (i : Interval), (0 ≤ t ∧ t ≤ USECS_PER_DAY) → i.Fits →
    (-2 ^ 63 ≤ t + i.time ∧ t + i.time < 2 ^ 63) →
    pg.timetz_pl_interval (t, zone) i = .ok ((t + i.time) % USECS_PER_DAY, zone)
  interval2itm : ∀ i : Interval, i.Fits → pg.interval2itm i =
    ({ tm_sec := (i.time.tmod USECS_PER_MINUTE).tdiv USECS_PER_SEC
       tm_min := (i.time.tmod USECS_PER_HOUR).tdiv USECS_PER_MINUTE
       tm_hour := i.time.tdiv USECS_PER_HOUR
       tm_mday := i.day
       tm_mon := i.month.tmod 12
       tm_year := i.month.tdiv 12
       tm_isdst := -1
       tm_gmtoff := 0 }, i.time.tmod USECS_PER_SEC)
  time_part_epoch : ∀ t, (0 ≤ t ∧ t ≤ USECS_PER_DAY) → Seconds (pg.time_part_epoch t) t
  timetz_part_epoch : ∀ t zone, (0 ≤ t ∧ t ≤ USECS_PER_DAY) → (-57600 < zone ∧ zone < 57600) →
    Seconds (pg.timetz_part_epoch (t, zone)) (t + zone * USECS_PER_SEC)
  timetz_part_timezone : ∀ t zone, pg.timetz_part_timezone (t, zone) = (-zone : Int)

/-- A finite value that is in the range of its type. -/
def TimeValue.Valid : TimeValue → Prop
  | .date d => IS_VALID_DATE d
  | .timestamp t => IS_VALID_TIMESTAMP t
  | .timestamptz t => IS_VALID_TIMESTAMP t
  | .time t => 0 ≤ t ∧ t ≤ USECS_PER_DAY
  | .timetz t zone => (0 ≤ t ∧ t ≤ USECS_PER_DAY) ∧ -57600 < zone ∧ zone < 57600
  | .interval i => i.Fits

end pllua.datetime
