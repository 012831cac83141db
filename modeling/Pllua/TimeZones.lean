-- The offset of a local time (time.c): `determine_timezone_offset` in a zone with transitions,
-- which has a local time once, twice or never.
import Mathlib.Order.Bounds.Basic
import Mathlib.Order.Lattice.Nat
import Mathlib.Data.Int.LeastGreatest
import Pllua.FixedZones
import Pllua.TimeAmounts

open pllua.datetime
open pllua.time
open pllua.constructors (c_int)

namespace pllua.timezone

/-! ## Zones -/

/-- What holds on one side of a transition: the seconds east of Greenwich. -/
structure Side where
  gmtoff : Int
  isdst : Bool
deriving DecidableEq

/-- A zone says what holds at each instant. It changes at instants that are far from each other,
and each time from summer time or to it. -/
structure Zone where
  side : Int → Side
  near : ∀ t, -86400 < (side t).gmtoff ∧ (side t).gmtoff < 86400
  flips : ∀ t, side t ≠ side (t - 1) → (side t).isdst ≠ (side (t - 1)).isdst
  apart : ∀ b c, side b ≠ side (b - 1) → side c ≠ side (c - 1) → b < c → b + 172800 ≤ c

namespace Zone
variable (z : Zone)

/-- The first instant of another side. -/
def Transition (b : Int) : Prop := z.side b ≠ z.side (b - 1)

/-- What the clocks of the zone show. -/
def local_time (t : Int) : Int := t + (z.side t).gmtoff

/-- Clocks show the time at one instant. -/
def Unique (s : Int) : Prop := ∃ t, z.local_time t = s ∧ ∀ t', z.local_time t' = s → t' = t

variable {z}

/-- Without a transition nothing changes. -/
theorem side_eq {t t' : Int} (hle : t ≤ t') (h : ∀ b, z.Transition b → b ≤ t ∨ t' < b) :
    z.side t' = z.side t := by
  induction t', hle using Int.leInduction with
  | base => rfl
  | succ u hu ih =>
    have same : z.side (u + 1) = z.side u := by
      by_contra change
      have step : z.Transition (u + 1) := by
        unfold Transition
        rwa [Int.add_sub_cancel]
      have := h (u + 1) step
      omega
    rw [same]
    apply ih
    intro b hb
    have := h b hb
    omega

/-- The first transition after an instant. -/
def Next (z : Zone) (t b : Int) : Prop :=
  z.Transition b ∧ t < b ∧ ∀ c, z.Transition c → t < c → b ≤ c

theorem next_or_none (z : Zone) (t : Int) :
    (∃ b, z.Next t b) ∨ ∀ b, z.Transition b → b ≤ t := by
  by_cases h : ∃ b, z.Transition b ∧ t < b
  · obtain ⟨b, ⟨hb, hlt⟩, least⟩ := Int.exists_least_of_bdd (P := fun b => z.Transition b ∧ t < b)
      ⟨t, fun b hb => by omega⟩ h
    exact Or.inl ⟨b, hb, hlt, fun c hc ht => least c ⟨hc, ht⟩⟩
  · push Not at h
    exact Or.inr h

/-- From an instant up to the next transition. -/
theorem Next.before {p b t : Int} (h : z.Next p b) (hp : p ≤ t) (ht : t < b) :
    z.side t = z.side (b - 1) := by
  symm
  apply side_eq (by omega)
  intro c hc
  have := h.2.2 c hc
  omega

/-- From a transition on, until another can come. -/
theorem Next.after {p b t : Int} (h : z.Next p b) (hb : b ≤ t) (ht : t < b + 172800) :
    z.side t = z.side b := by
  apply side_eq hb
  intro c hc
  have := z.apart b c h.1 hc
  omega

theorem side_last {p t : Int} (h : ∀ b, z.Transition b → b ≤ p) (ht : p ≤ t) :
    z.side t = z.side p := by
  apply side_eq ht
  intro c hc
  exact Or.inl (h c hc)

end Zone

/-! ## The function -/

/-- An `int` for `isdst`. -/
def flag (isdst : Bool) : Int := if isdst then 1 else 0

theorem flag_range (isdst : Bool) : 0 ≤ flag isdst ∧ flag isdst ≤ 1 := by
  cases isdst <;> decide

theorem flag_inj {a b : Bool} (h : flag a = flag b) : a = b := by
  revert h
  cases a <;> cases b <;> decide

section
variable {Z : Type} (pg : Pg Z)

/-- The end of `determine_timezone_offset`, once the time is a number and the boundary is
known. -/
def choose_offset (tm : pg_tm) (mytime : Int) (b : Boundary) : Int × Int :=
  if b.res < 0 then (0, 0)
  else if b.res = 0 then (-b.before_gmtoff, b.before_isdst)
  else
    have beforetime := c_int64 (mytime - b.before_gmtoff)
    have aftertime := c_int64 (mytime - b.after_gmtoff)
    if (b.before_gmtoff > 0 ∧ mytime < 0 ∧ beforetime > 0) ∨
        (b.before_gmtoff ≤ 0 ∧ mytime > 0 ∧ beforetime < 0) then (0, 0)
    else if (b.after_gmtoff > 0 ∧ mytime < 0 ∧ aftertime > 0) ∨
        (b.after_gmtoff ≤ 0 ∧ mytime > 0 ∧ aftertime < 0) then (0, 0)
    else if beforetime < b.boundary ∧ aftertime < b.boundary then
      (-b.before_gmtoff, b.before_isdst)
    else if beforetime > b.boundary ∧ aftertime ≥ b.boundary then
      (-b.after_gmtoff, b.after_isdst)
    else if tm.tm_isdst = -1 then
      if beforetime > aftertime then (-b.before_gmtoff, b.before_isdst)
      else (-b.after_gmtoff, b.after_isdst)
    else if tm.tm_isdst = b.before_isdst then (-b.before_gmtoff, tm.tm_isdst)
    else (-b.after_gmtoff, tm.tm_isdst)

/-- `determine_timezone_offset` with its checks for an overflow: the offset, west of Greenwich, and
`tm_isdst`. -/
def determine_timezone_offset (tm : pg_tm) (tzp : Z) : Int × Int :=
  if ¬ IS_VALID_JULIAN tm.tm_year tm.tm_mon then (0, 0)
  else
    have date := c_int (pg.date2j tm.tm_year tm.tm_mon tm.tm_mday - UNIX_EPOCH_JDATE)
    have day := c_int64 (date * 86400)
    if day.tdiv 86400 ≠ date then (0, 0)
    else
      have sec := c_int (tm.tm_sec + (tm.tm_min + tm.tm_hour * 60) * 60)
      have mytime := c_int64 (day + sec)
      if mytime < 0 ∧ day > 0 then (0, 0)
      else
        have prevtime := c_int64 (mytime - 86400)
        if mytime < 0 ∧ prevtime > 0 then (0, 0)
        else choose_offset tm mytime (pg.pg_next_dst_boundary tzp prevtime)

/-- The fields read as this number of seconds from 1970. -/
structure Reads (tm : pg_tm) (s : Int) : Prop where
  julian : IS_VALID_JULIAN tm.tm_year tm.tm_mon
  date : -2 ^ 31 ≤ pg.date2j tm.tm_year tm.tm_mon tm.tm_mday - UNIX_EPOCH_JDATE ∧
    pg.date2j tm.tm_year tm.tm_mon tm.tm_mday - UNIX_EPOCH_JDATE < 2 ^ 31
  clock : Clock tm.tm_hour tm.tm_min tm.tm_sec
  seconds : (pg.date2j tm.tm_year tm.tm_mon tm.tm_mday - UNIX_EPOCH_JDATE) * 86400 +
    clock_seconds tm = s

theorem c_int64_small {k : Int} (h : -2 ^ 63 ≤ k ∧ k < 2 ^ 63) : c_int64 k = k := by
  unfold c_int64
  rw [Int.bmod_eq_of_le] <;> omega

/-- Nothing overflows for the fields of a date and a time. -/
theorem determine_reads {tm : pg_tm} {s : Int} (h : Reads pg tm s) (tzp : Z) :
    determine_timezone_offset pg tm tzp =
      choose_offset tm s (pg.pg_next_dst_boundary tzp (s - 86400)) := by
  have clock := h.clock
  obtain ⟨hour, min, sec, day⟩ := clock
  have date := h.date
  have total := h.seconds
  unfold clock_seconds at total
  unfold determine_timezone_offset
  rw [if_neg (not_not.mpr h.julian)]
  generalize pg.date2j tm.tm_year tm.tm_mon tm.tm_mday - UNIX_EPOCH_JDATE = d at *
  dsimp only
  rw [c_int_eq (show Fits32 d by unfold Fits32; omega),
    c_int_eq (show Fits32 (tm.tm_sec + (tm.tm_min + tm.tm_hour * 60) * 60) by unfold Fits32; omega),
    c_int64_small (k := d * 86400) (by omega),
    show d * 86400 + (tm.tm_sec + (tm.tm_min + tm.tm_hour * 60) * 60) = s by omega,
    c_int64_small (k := s) (by omega),
    c_int64_small (k := s - 86400) (by omega),
    Int.mul_tdiv_cancel _ (by decide), if_neg (not_not.mpr rfl), if_neg (by omega),
    if_neg (by omega)]

theorem Reads.bounds {pg : Pg Z} {tm : pg_tm} {s : Int} (h : Reads pg tm s) : -2 ^ 62 < s ∧ s < 2 ^ 62 := by
  obtain ⟨hour, min, sec, day⟩ := h.clock
  have date := h.date
  have total := h.seconds
  unfold clock_seconds at total
  omega

/-- So the function is the one without these checks. -/
theorem determine_eq {tm : pg_tm} {s : Int} (h : Reads pg tm s) (tzp : Z)
    (hbefore : OffsetInRange (pg.pg_next_dst_boundary tzp (s - 86400)).before_gmtoff)
    (hafter : OffsetInRange (pg.pg_next_dst_boundary tzp (s - 86400)).after_gmtoff) :
    determine_timezone_offset pg tm tzp = datetime.determine_timezone_offset pg tm tzp := by
  have bounds := h.bounds
  have total := h.seconds
  unfold clock_seconds at total
  rw [determine_reads pg h]
  unfold datetime.determine_timezone_offset
  rw [if_neg (not_not.mpr h.julian)]
  dsimp only
  rw [show (pg.date2j tm.tm_year tm.tm_mon tm.tm_mday - UNIX_EPOCH_JDATE) * 86400 +
    (tm.tm_sec + (tm.tm_min + tm.tm_hour * 60) * 60) = s by omega]
  generalize pg.pg_next_dst_boundary tzp (s - 86400) = b at *
  unfold OffsetInRange at hbefore hafter
  unfold choose_offset
  dsimp only
  rw [c_int64_small (k := s - b.before_gmtoff) (by omega),
    c_int64_small (k := s - b.after_gmtoff) (by omega)]
  repeat' split
  all_goals first | rfl | omega

/-- What `pg_next_dst_boundary` is documented to find in a zone. -/
structure Reports (tzp : Z) (z : Zone) : Prop where
  next : ∀ t b, z.Next t b → pg.pg_next_dst_boundary tzp t =
    ⟨1, (z.side (b - 1)).gmtoff, flag (z.side (b - 1)).isdst, b, (z.side b).gmtoff,
      flag (z.side b).isdst⟩
  last : ∀ t, (∀ b, z.Transition b → b ≤ t) →
    (pg.pg_next_dst_boundary tzp t).res = 0 ∧
    (pg.pg_next_dst_boundary tzp t).before_gmtoff = (z.side t).gmtoff ∧
    (pg.pg_next_dst_boundary tzp t).before_isdst = flag (z.side t).isdst

end

/-! ## The cases of the function -/

/-- The choice between two sides: the two instants of a local time `s`, of which the first is to be
before the transition, and the second after it. -/
def choice (isdst s b : Int) (before after : Side) : Int :=
  if s - before.gmtoff < b ∧ s - after.gmtoff < b then before.gmtoff
  else if s - before.gmtoff > b ∧ s - after.gmtoff ≥ b then after.gmtoff
  else if isdst = -1 then
    if s - before.gmtoff > s - after.gmtoff then before.gmtoff else after.gmtoff
  else if isdst = flag before.isdst then before.gmtoff
  else after.gmtoff

theorem choose_next {tm : pg_tm} {s t b : Int} (hs : -2 ^ 62 < s ∧ s < 2 ^ 62) {z : Zone} :
    (choose_offset tm s ⟨1, (z.side t).gmtoff, flag (z.side t).isdst, b, (z.side b).gmtoff,
      flag (z.side b).isdst⟩).1 = -choice tm.tm_isdst s b (z.side t) (z.side b) := by
  have hbefore := z.near t
  have hafter := z.near b
  unfold choose_offset
  dsimp only
  rw [c_int64_small (k := s - (z.side t).gmtoff) (by omega),
    c_int64_small (k := s - (z.side b).gmtoff) (by omega), if_neg (by decide), if_neg (by decide),
    if_neg (by omega), if_neg (by omega)]
  unfold choice
  repeat' split
  all_goals rfl

section
variable {Z : Type} {pg : Pg Z} {tzp : Z} {z : Zone} {tm : pg_tm} {s : Int}

/-- The function in a zone: the choice at the next transition, if there is one. -/
theorem determine_next (hpg : Reports pg tzp z) (h : Reads pg tm s) {b : Int}
    (hb : z.Next (s - 86400) b) :
    (determine_timezone_offset pg tm tzp).1 =
      -choice tm.tm_isdst s b (z.side (b - 1)) (z.side b) := by
  rw [determine_reads pg h, hpg.next _ _ hb, choose_next h.bounds]

theorem determine_last (hpg : Reports pg tzp z) (h : Reads pg tm s)
    (hlast : ∀ b, z.Transition b → b ≤ s - 86400) :
    (determine_timezone_offset pg tm tzp).1 = -(z.side (s - 86400)).gmtoff := by
  obtain ⟨res, gmtoff, -⟩ := hpg.last _ hlast
  rw [determine_reads pg h, choose_offset, if_neg (by omega), if_pos res, gmtoff]

/-! ## Instants -/

/-- The offset of an instant comes back from its local time and its flag. -/
theorem own_offset (hpg : Reports pg tzp z) (t : Int) (h : Reads pg tm (z.local_time t))
    (hdst : tm.tm_isdst = flag (z.side t).isdst) :
    (determine_timezone_offset pg tm tzp).1 = -(z.side t).gmtoff := by
  have hnear := z.near t
  have hs : z.local_time t = t + (z.side t).gmtoff := rfl
  rcases z.next_or_none (z.local_time t - 86400) with ⟨b, hb⟩ | hlast
  · rw [determine_next hpg h hb]
    have hflag := flag_range (z.side t).isdst
    have hflips := z.flips b hb.1
    have hlt := hb.2.1
    unfold choice
    rcases lt_or_ge t b with ht | ht
    · -- before the transition, where the second test can only fail
      have side := hb.before (t := t) (by omega) ht
      rw [← side]
      rw [← side] at hflips
      repeat' split
      all_goals omega
    · -- at the transition or after it
      have side := hb.after (t := t) ht (by omega)
      rw [← side]
      rw [← side] at hflips
      have hne : flag (z.side t).isdst ≠ flag (z.side (b - 1)).isdst := fun e => hflips (flag_inj e)
      repeat' split
      all_goals omega
  · rw [determine_last hpg h hlast, Zone.side_last hlast (t := t) (by omega)]

/-! ## Local times -/

/-- The local time `s` is repeated or skipped by the transition `b`. -/
def Zone.Disturbs (z : Zone) (b s : Int) : Prop :=
  z.Transition b ∧
    (b + (z.side b).gmtoff ≤ s ∧ s < b + (z.side (b - 1)).gmtoff ∨
      b + (z.side (b - 1)).gmtoff ≤ s ∧ s < b + (z.side b).gmtoff)

/-- `isdst` only disambiguates: a local time at one instant has the offset of that instant, and any
other one has the offset of the side with this flag. -/
structure Disambiguates (z : Zone) (s isdst gmtoff : Int) : Prop where
  unique : ∀ t, z.local_time t = s → (∀ t', z.local_time t' = s → t' = t) →
    gmtoff = (z.side t).gmtoff
  other : ¬ z.Unique s → ∃ b, z.Disturbs b s ∧
    (isdst = flag (z.side (b - 1)).isdst → gmtoff = (z.side (b - 1)).gmtoff) ∧
    (isdst = flag (z.side b).isdst → gmtoff = (z.side b).gmtoff)

/-- The local time is the first one after a repeated interval, and `isdst` is the flag of the side
before the transition. -/
def JustRepeated (z : Zone) (s isdst : Int) : Prop :=
  ∃ b, z.Transition b ∧ (z.side b).gmtoff < (z.side (b - 1)).gmtoff ∧
    s = b + (z.side (b - 1)).gmtoff ∧ isdst = flag (z.side (b - 1)).isdst

/-- The instants of a local time are near it. -/
theorem Zone.local_time_near {z : Zone} {t : Int} (h : z.local_time t = s) :
    s - 86400 < t ∧ t < s + 86400 ∧ t = s - (z.side t).gmtoff := by
  have hnear := z.near t
  unfold Zone.local_time at h
  omega

/-- A local time has the instant of the side before the transition if that is before it. -/
theorem instant_before {b : Int} (hb : z.Next (s - 86400) b)
    (h : s - (z.side (b - 1)).gmtoff < b) : z.local_time (s - (z.side (b - 1)).gmtoff) = s := by
  have hnear := z.near (b - 1)
  unfold Zone.local_time
  rw [hb.before (by omega) h]
  omega

/-- And it has the instant of the side after the transition if that is not before it. -/
theorem instant_after {b : Int} (hb : z.Next (s - 86400) b)
    (h : b ≤ s - (z.side b).gmtoff) : z.local_time (s - (z.side b).gmtoff) = s := by
  have hnear := z.near b
  have hlt := hb.2.1
  unfold Zone.local_time
  rw [hb.after h (by omega)]
  omega

/-- There are no others. -/
theorem instant_cases {b t : Int} (hb : z.Next (s - 86400) b) (h : z.local_time t = s) :
    t < b ∧ t = s - (z.side (b - 1)).gmtoff ∨ b ≤ t ∧ t = s - (z.side b).gmtoff := by
  obtain ⟨low, high, value⟩ := Zone.local_time_near h
  have hlt := hb.2.1
  rcases lt_or_ge t b with ht | ht
  · rw [hb.before (by omega) ht] at value
    exact Or.inl ⟨ht, value⟩
  · rw [hb.after ht (by omega)] at value
    exact Or.inr ⟨ht, value⟩

/-- A transition at which a local time is late is the next one of the function. -/
theorem next_of_near {b : Int} (hb : z.Transition b) (hlow : s - 86400 < b)
    (hhigh : b < s + 86400) : z.Next (s - 86400) b := by
  refine ⟨hb, hlow, fun c hc ht => ?_⟩
  by_contra hlt
  have := z.apart c b hc hb (by omega)
  omega

theorem choice_unique {b t isdst : Int} (hb : z.Next (s - 86400) b) (h : z.local_time t = s)
    (hunique : ∀ t', z.local_time t' = s → t' = t) (hnot : ¬ JustRepeated z s isdst) :
    choice isdst s b (z.side (b - 1)) (z.side b) = (z.side t).gmtoff := by
  have hlt := hb.2.1
  obtain ⟨-, -, value⟩ := Zone.local_time_near h
  rcases instant_cases hb h with ⟨ht, heq⟩ | ⟨ht, heq⟩
  · -- the other instant is not one, so both are before the transition
    have hafter : s - (z.side b).gmtoff < b := by
      by_contra hge
      have := hunique _ (instant_after hb (by omega))
      omega
    unfold choice
    rw [if_pos ⟨by omega, hafter⟩]
    omega
  · have hbefore : b ≤ s - (z.side (b - 1)).gmtoff := by
      by_contra hlt'
      have := hunique _ (instant_before hb (by omega))
      omega
    have hside : (z.side b).gmtoff = (z.side t).gmtoff := by omega
    unfold choice
    rw [if_neg (by omega)]
    by_cases hstrict : s - (z.side (b - 1)).gmtoff > b
    · rw [if_pos ⟨hstrict, by omega⟩, hside]
    · -- the first local time after a repeated interval
      rw [if_neg (fun both => hstrict both.1)]
      have hflag : isdst = flag (z.side (b - 1)).isdst →
          (z.side (b - 1)).gmtoff = (z.side b).gmtoff := by
        intro hdst
        by_contra hne
        exact hnot ⟨b, hb.1, by omega, by omega, hdst⟩
      repeat' split
      all_goals omega

/-- Where both instants of a local time count or none does, the flag chooses. -/
theorem choice_other {b isdst : Int} (hb : z.Next (s - 86400) b) (hnot : ¬ z.Unique s) :
    z.Disturbs b s ∧
      (isdst = flag (z.side (b - 1)).isdst →
        choice isdst s b (z.side (b - 1)) (z.side b) = (z.side (b - 1)).gmtoff) ∧
      (isdst = flag (z.side b).isdst →
        choice isdst s b (z.side (b - 1)) (z.side b) = (z.side b).gmtoff) := by
  have hlt := hb.2.1
  have hflips := z.flips b hb.1
  have hne : flag (z.side b).isdst ≠ flag (z.side (b - 1)).isdst := fun e => hflips (flag_inj e)
  have both : s - (z.side (b - 1)).gmtoff < b ∧ b ≤ s - (z.side b).gmtoff ∨
      b ≤ s - (z.side (b - 1)).gmtoff ∧ s - (z.side b).gmtoff < b := by
    by_contra hone
    rcases lt_or_ge (s - (z.side (b - 1)).gmtoff) b with hbefore | hbefore
    · refine hnot ⟨_, instant_before hb hbefore, fun t' ht' => ?_⟩
      rcases instant_cases hb ht' with h | h <;> omega
    · refine hnot ⟨_, instant_after hb (by omega), fun t' ht' => ?_⟩
      rcases instant_cases hb ht' with h | h <;> omega
  refine ⟨⟨hb.1, by omega⟩, fun h => ?_, fun h => ?_⟩
  · have hflag := flag_range (z.side (b - 1)).isdst
    unfold choice
    rw [if_neg (by omega), if_neg (by omega), if_neg (by omega), if_pos h]
  · have hflag := flag_range (z.side b).isdst
    unfold choice
    rw [if_neg (by omega), if_neg (by omega), if_neg (by omega), if_neg (h ▸ hne)]

/-- Just after a repeated interval the flag of the side before is taken, which no clock shows at this
time. -/
theorem choice_just_repeated {b isdst : Int} (heq : s = b + (z.side (b - 1)).gmtoff)
    (hdst : isdst = flag (z.side (b - 1)).isdst) :
    choice isdst s b (z.side (b - 1)) (z.side b) = (z.side (b - 1)).gmtoff := by
  have hflag := flag_range (z.side (b - 1)).isdst
  unfold choice
  rw [if_neg (by omega), if_neg (by omega), if_neg (by omega), if_pos hdst]

/-- The flag only disambiguates, but for the time just after a repeated interval with the flag of the
side before. -/
theorem isdst_disambiguates_iff (hpg : Reports pg tzp z) (h : Reads pg tm s) :
    Disambiguates z s tm.tm_isdst (-(determine_timezone_offset pg tm tzp).1) ↔
      ¬ JustRepeated z s tm.tm_isdst := by
  constructor
  · rintro hgood ⟨b, htrans, hlt, heq, hdst⟩
    have hnear := z.near (b - 1)
    have hb : z.Next (s - 86400) b := next_of_near htrans (by omega) (by omega)
    have hinstant := instant_after hb (by omega)
    have hvalue := hgood.unique _ hinstant fun t' ht' => by
      rcases instant_cases hb ht' with h | h <;> omega
    obtain ⟨-, -, hside⟩ := Zone.local_time_near hinstant
    rw [determine_next hpg h hb, choice_just_repeated heq hdst] at hvalue
    omega
  · intro hnot
    rcases z.next_or_none (s - 86400) with ⟨b, hb⟩ | hlast
    · rw [determine_next hpg h hb, Int.neg_neg]
      exact ⟨fun t ht hunique => choice_unique hb ht hunique hnot,
        fun hother => ⟨b, choice_other hb hother⟩⟩
    · -- without a transition ahead every local time has its instant
      rw [determine_last hpg h hlast, Int.neg_neg]
      have hsteady (t : Int) (ht : s - 86400 ≤ t) : z.side t = z.side (s - 86400) :=
        Zone.side_last hlast ht
      have hnear := z.near (s - 86400)
      constructor
      · intro t ht _
        rw [hsteady t (by have := Zone.local_time_near ht; omega)]
      · refine fun hnone => absurd ⟨s - (z.side (s - 86400)).gmtoff, ?_, fun t' ht' => ?_⟩ hnone
        · unfold Zone.local_time
          rw [hsteady (s - (z.side (s - 86400)).gmtoff) (by omega)]
          omega
        · obtain ⟨low, -, value⟩ := Zone.local_time_near ht'
          rw [hsteady t' (by omega)] at value
          exact value

end

/-! ## The end of a summer -/

/-- London, from the summer of 2019 on: the clocks go from 02:00 to 01:00 on October 27. -/
def london_side (t : Int) : Side := if t < 1572138000 then ⟨3600, true⟩ else ⟨0, false⟩

theorem london_transition {t : Int} (h : london_side t ≠ london_side (t - 1)) :
    t = 1572138000 := by
  unfold london_side at h
  split at h <;> split at h <;> first | omega | exact absurd rfl h

def london : Zone where
  side := london_side
  near := fun t => (by unfold london_side; split <;> decide)
  flips := fun t h => (by rw [london_transition h]; decide)
  apart := fun b c hb hc hlt => (by rw [london_transition hb, london_transition hc] at hlt; omega)

def london_boundary (t : Int) : Boundary :=
  if t < 1572138000 then ⟨1, 3600, 1, 1572138000, 0, 0⟩ else ⟨0, 0, 0, 0, 0, 0⟩

def london_zones : Pg FixedZone :=
  { fixed_zones with pg_next_dst_boundary := fun _ t => london_boundary t }

theorem london_reports : Reports london_zones greenwich london where
  next := fun t b h => (by
    have hlt := h.2.1
    obtain rfl := london_transition h.1
    show london_boundary t = _
    rw [london_boundary, if_pos hlt]
    decide)
  last := fun t h => (by
    have ht : ¬ t < 1572138000 := by
      have := h 1572138000 (by unfold Zone.Transition; decide)
      omega
    have hside : london.side t = ⟨0, false⟩ := if_neg ht
    have hfound : london_zones.pg_next_dst_boundary greenwich t = ⟨0, 0, 0, 0, 0, 0⟩ := if_neg ht
    rw [hside, hfound]
    decide)

/-- An hour of October 27, 2019. -/
def october (hour isdst : Int) : pg_tm := ⟨0, 0, hour, 27, 10, 2019, isdst, 0⟩

theorem first_october_reads : Reads london_zones (october 1 0) 1572138000 :=
  ⟨by decide, by decide, ⟨by decide, by decide, by decide, by decide⟩, by decide⟩

theorem october_reads {isdst : Int} (h : isdst = 0 ∨ isdst = 1) :
    Reads london_zones (october 2 isdst) 1572141600 := by
  rcases h with rfl | rfl <;>
    exact ⟨by decide, by decide, ⟨by decide, by decide, by decide, by decide⟩, by decide⟩

/-- At the transition itself, which shows the first repeated time for the second time. -/
theorem london_own_offset :
    (determine_timezone_offset london_zones (october 1 0) greenwich).1 =
      -(london.side 1572138000).gmtoff :=
  own_offset london_reports 1572138000 first_october_reads rfl

theorem london_winter_disambiguates :
    Disambiguates london 1572141600 0
      (-(determine_timezone_offset london_zones (october 2 0) greenwich).1) := by
  refine (isdst_disambiguates_iff london_reports (october_reads (Or.inl rfl))).mpr ?_
  rintro ⟨b, hb, -, -, hdst⟩
  obtain rfl := london_transition hb
  exact absurd hdst (by decide)

/-- 02:00 of October 27 is there once, after the transition, and with `isdst` it gets the offset of
the summer. -/
theorem london_summer_flag :
    ¬ ∀ (pg : Pg FixedZone) (tzp : FixedZone) (z : Zone) (tm : pg_tm) (s : Int),
      Reports pg tzp z → Reads pg tm s →
      Disambiguates z s tm.tm_isdst (-(determine_timezone_offset pg tm tzp).1) := by
  intro holds
  have hreads := october_reads (Or.inr rfl)
  have h := holds london_zones greenwich london (october 2 1) 1572141600 london_reports hreads
  have hvalue := h.unique 1572141600 (by decide) fun t ht => by
    rcases lt_or_ge t 1572138000 with hlt | hge
    · have hside : london.side t = ⟨3600, true⟩ := if_pos hlt
      rw [Zone.local_time, hside] at ht
      dsimp only at ht
      omega
    · have hside : london.side t = ⟨0, false⟩ := if_neg (by omega)
      rw [Zone.local_time, hside] at ht
      dsimp only at ht
      omega
  revert hvalue
  decide

end pllua.timezone
