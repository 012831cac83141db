-- The Gregorian calendar over all days: the date of a day, counted as Julian
-- days, and the day of a date, where both run over years that begin in March.

namespace pllua.calendar

/-- The year, the month and the day of the month. -/
def j2date (jd : Int) : Int × Int × Int :=
  have julian := jd + 32044
  have quad := julian / 146097
  have extra := (julian - quad * 146097) * 4 + 3
  have julian := julian + 60 + quad * 3 + extra / 146097
  have quad := julian / 1461
  have julian := julian - quad * 1461
  have y := julian * 4 / 1461
  have julian := (if y ≠ 0 then (julian + 305) % 365 else (julian + 306) % 366) + 123
  have year := y + quad * 4 - 4800
  have quad := julian * 2141 / 65536
  (year, (quad + 10) % 12 + 1, julian - 7834 * quad / 256)

/-- The day of a date. -/
def date2j (year month day : Int) : Int :=
  have m := if month > 2 then month + 1 else month + 13
  have y := if month > 2 then year + 4800 else year + 4799
  have century := y / 100
  y * 365 - 32167 + y / 4 - century + century / 4 + 7834 * m / 256 + day

/-! ## The date of a day is of that day -/

/-- The days up to the day `k` of the year, in four years, where each year has its leap day. -/
theorem year_days (J quad j y A k : Int) (hquad : quad = J / 1461) (hj : j = J - quad * 1461)
    (hy : y = j * 4 / 1461)
    (hk : k = (if y ≠ 0 then (j + 305) % 365 else (j + 306) % 366) + 123)
    (hA : A = if k ≤ 428 then y + quad * 4 else y + quad * 4 - 1) :
    A * 365 + A / 4 + k = J + 63 ∧ 123 ≤ k ∧ k ≤ 488 := by
  have hyear : y = 0 ∨ y = 1 ∨ y = 2 ∨ y = 3 := by omega
  rcases hyear with h | h | h | h <;> subst h <;> simp at hk <;> split at hA <;> omega

/-- The leap days that are left out in four hundred years. -/
theorem century_days (n q r c A k : Int) (hq : q = n / 146097) (hr : r = n - q * 146097)
    (hc : c = (r * 4 + 3) / 146097) (hk : 123 ≤ k ∧ k ≤ 488)
    (hA : A * 365 + A / 4 + k = n + 60 + q * 3 + c + 63) :
    A / 100 - A / 100 / 4 = 3 * q + c := by
  have hera : 0 ≤ r ∧ r < 146097 := by omega
  have hcentury : c = 0 ∨ c = 1 ∨ c = 2 ∨ c = 3 := by omega
  have hcount : A / 100 = 4 * q + c := by
    rcases hcentury with h | h | h | h <;> subst h <;> omega
  omega

/-- The month of the day `k` of the year, from March as month 4. -/
theorem month_days (k m : Int) (hk : 123 ≤ k ∧ k ≤ 488) (hm : m = k * 2141 / 65536) :
    (4 ≤ m ∧ m ≤ 15) ∧ (m ≤ 13 ↔ k ≤ 428) := by
  omega

theorem date2j_j2date (jd : Int) :
    date2j (j2date jd).1 (j2date jd).2.1 (j2date jd).2.2 = jd := by
  unfold j2date
  dsimp only
  generalize hq : (jd + 32044) / 146097 = q
  generalize hc : ((jd + 32044 - q * 146097) * 4 + 3) / 146097 = c
  generalize hJ : jd + 32044 + 60 + q * 3 + c = J
  generalize hquad : J / 1461 = quad
  generalize hj : J - quad * 1461 = j
  generalize hy : j * 4 / 1461 = y
  generalize hk : (if y ≠ 0 then (j + 305) % 365 else (j + 306) % 366) + 123 = k
  generalize hm : k * 2141 / 65536 = m
  generalize hA : (if k ≤ 428 then y + quad * 4 else y + quad * 4 - 1) = A
  obtain ⟨hyear, hday⟩ := year_days J quad j y A k hquad.symm hj.symm hy.symm hk.symm hA.symm
  have hcentury := century_days (jd + 32044) q _ c A k hq.symm rfl hc.symm hday (by omega)
  obtain ⟨hrange, hmarch⟩ := month_days k m hday hm.symm
  unfold date2j
  dsimp only
  have hmonth : (if (m + 10) % 12 + 1 > 2 then (m + 10) % 12 + 1 + 1
      else (m + 10) % 12 + 1 + 13) = m := by
    split <;> omega
  have hyear' : (if (m + 10) % 12 + 1 > 2 then y + quad * 4 - 4800 + 4800
      else y + quad * 4 - 4800 + 4799) = A := by
    rw [← hA]
    split <;> split <;> omega
  rw [hmonth, hyear']
  omega

/-- The fields of a date. -/
theorem j2date_range (jd : Int) :
    (1 ≤ (j2date jd).2.1 ∧ (j2date jd).2.1 ≤ 12) ∧
      (1 ≤ (j2date jd).2.2 ∧ (j2date jd).2.2 ≤ 31) := by
  unfold j2date
  dsimp only
  generalize hq : (jd + 32044) / 146097 = q
  generalize hc : ((jd + 32044 - q * 146097) * 4 + 3) / 146097 = c
  generalize hJ : jd + 32044 + 60 + q * 3 + c = J
  generalize hquad : J / 1461 = quad
  generalize hj : J - quad * 1461 = j
  generalize hy : j * 4 / 1461 = y
  generalize hk : (if y ≠ 0 then (j + 305) % 365 else (j + 306) % 366) + 123 = k
  have hday := (year_days J quad j y _ k hquad.symm hj.symm hy.symm hk.symm rfl).2
  omega

end pllua.calendar
