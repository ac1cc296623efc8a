import DocQuery.Time.Calendar
import Mathlib.Data.Int.SuccPred
import Mathlib.Order.SuccPred.Archimedean
import Mathlib.Tactic.IntervalCases
import Mathlib.Tactic.Linarith

namespace DocQuery

namespace Date

/-! # Days and dates

Every day has a date that exists, and the date is that of the one day. Four hundred years, an era,
have the same number of days always, so only the day within an era matters. Its year is found by a
division that is no exact inverse of the days in front of a year; but the division is monotone, and
right on the first and the last day of each year.

* `toDayNumber_ofDayNumber`: the date of a day is that of no other day.
-/

/-- Days of the era in front of a year of it. -/
def yearStart (year : Int) : Int := 365 * year + year / 4 - year / 100 + year / 400

/-- The year of a day of the era. -/
def yearOfEra (day : Int) : Int := (day - day / 1460 + day / 36524 - day / 146096) / 365

theorem yearOfEra_mono {day later : Int} (h : day ≤ later) : yearOfEra day ≤ yearOfEra later := by
  have hmono : Monotone yearOfEra := by
    refine monotone_int_of_le_succ fun day => ?_
    refine Int.ediv_le_ediv (by decide) ?_
    omega
  exact hmono h

/-- The day of its year that a day of the era is. -/
def dayInYear (day : Int) : Int :=
  day - (365 * yearOfEra day + yearOfEra day / 4 - yearOfEra day / 100)

/-- The year is right on its first and on its last day. -/
theorem yearOfEra_yearStart : ∀ year : Nat, year < 400 →
    yearOfEra (yearStart year) = year ∧ yearOfEra (yearStart (year + 1) - 1) = year := by
  decide +kernel

theorem yearOfEra_lt {day : Int} (h : 0 ≤ day ∧ day < eraDays) :
    0 ≤ yearOfEra day ∧ yearOfEra day < 400 := by
  unfold yearOfEra eraDays at *
  omega

/-- A day of the era lies within its year. -/
theorem within_year {day : Int} (h : 0 ≤ day ∧ day < eraDays) :
    yearStart (yearOfEra day) ≤ day ∧ day < yearStart (yearOfEra day + 1) := by
  obtain ⟨hnonneg, hlt⟩ := yearOfEra_lt h
  obtain ⟨year, hyear⟩ := Int.eq_ofNat_of_zero_le hnonneg
  rw [hyear] at hlt ⊢
  have hlt : year < 400 := Int.ofNat_lt.1 hlt
  constructor
  · by_contra! hbefore
    -- a day in front of the year lies in the one before, at the latest on its last day
    cases year with
    | zero => exact absurd h.1 (by simpa [yearStart] using hbefore)
    | succ last =>
      have hlast := (yearOfEra_yearStart last (by omega)).2
      have hmono : yearOfEra day ≤ yearOfEra (yearStart (last + 1) - 1) :=
        yearOfEra_mono (Int.le_sub_one_of_lt (by simpa using hbefore))
      omega
  · by_contra! hbehind
    by_cases hend : year + 1 < 400
    · have hnext := (yearOfEra_yearStart (year + 1) hend).1
      have hmono : yearOfEra (yearStart (year + 1)) ≤ yearOfEra day := yearOfEra_mono hbehind
      push_cast at hnext
      omega
    · -- the last year ends with the era
      obtain rfl : year = 399 := by omega
      unfold yearStart at hbehind
      unfold eraDays at h
      omega

/-! ## Months -/

/-- The date of a day of the year, both counted from March. -/
def ofDayOfYear (year dayOfYear : Int) : Date :=
  let monthFromMarch := (5 * dayOfYear + 2) / 153
  let month := if monthFromMarch < 10 then monthFromMarch + 3 else monthFromMarch - 9
  ⟨if month ≤ 2 then year + 1 else year, month.toNat,
    (dayOfYear - (153 * monthFromMarch + 2) / 5 + 1).toNat⟩

/-- A date is that of its day in the year of its era. -/
theorem ofDayNumber_eq (n : Int) : ofDayNumber n =
    ofDayOfYear (yearOfEra ((n + epochShift) % eraDays) + (n + epochShift) / eraDays * 400)
      (dayInYear ((n + epochShift) % eraDays)) := rfl

variable {year dayOfYear : Int}

/-- The months from March on are those that the days of the year run through. -/
theorem monthFromMarch_le (h : 0 ≤ dayOfYear ∧ dayOfYear ≤ 365) :
    0 ≤ (5 * dayOfYear + 2) / 153 ∧ (5 * dayOfYear + 2) / 153 ≤ 11 := by
  omega

/-- The months from March to January are as long as it is from one to the next. -/
theorem daysInMonth_fromMarch {m : Int} (h : 0 ≤ m ∧ m < 11) (year : Int) :
    (daysInMonth year (if m < 10 then m + 3 else m - 9).toNat : Int) =
      (153 * (m + 1) + 2) / 5 - (153 * m + 2) / 5 := by
  obtain ⟨hlow, hhigh⟩ := h
  interval_cases m <;> rfl

/-- The day and the month of a day of the year exist. -/
theorem isValid_ofDayOfYear (h : 0 ≤ dayOfYear ∧ dayOfYear ≤ 365)
    (hleap : dayOfYear = 365 → isLeapYear (year + 1) = true) :
    (ofDayOfYear year dayOfYear).isValid = true := by
  obtain ⟨hlow, hhigh⟩ := monthFromMarch_le h
  generalize hm : (5 * dayOfYear + 2) / 153 = m at hlow hhigh
  simp only [isValid, ofDayOfYear, hm, Bool.and_eq_true, decide_eq_true_eq]
  refine ⟨by omega, ?_⟩
  by_cases hlast : m = 11
  · subst hlast
    -- the last month is February, where only a leap year has a day that is the 366th
    have hlength : daysInMonth (year + 1) 2 = if isLeapYear (year + 1) then 29 else 28 := rfl
    change _ ≤ daysInMonth (year + 1) 2
    rw [hlength]
    split_ifs with hyear
    · omega
    · have hshort : dayOfYear ≠ 365 := fun hday => hyear (hleap hday)
      omega
  · have hlength := daysInMonth_fromMarch ⟨hlow, by omega⟩
      (if (if m < 10 then m + 3 else m - 9) ≤ 2 then year + 1 else year)
    omega

/-- The day of the year can be found again from month and day. -/
theorem dayOfYear_ofDayOfYear (h : 0 ≤ dayOfYear ∧ dayOfYear ≤ 365) :
    ((153 * (((ofDayOfYear year dayOfYear).month + 9) % 12) + 2) / 5
      + (ofDayOfYear year dayOfYear).day : Nat) - (1 : Int) = dayOfYear := by
  obtain ⟨hlow, hhigh⟩ := monthFromMarch_le h
  generalize hm : (5 * dayOfYear + 2) / 153 = m at hlow hhigh
  simp only [ofDayOfYear, hm]
  have hfromMarch : ((if m < 10 then m + 3 else m - 9).toNat + 9) % 12 = m.toNat := by
    split_ifs <;> omega
  rw [hfromMarch]
  omega

/-- The year from March can be found again from year and month. -/
theorem year_ofDayOfYear (h : 0 ≤ dayOfYear ∧ dayOfYear ≤ 365) :
    (if (ofDayOfYear year dayOfYear).month ≤ 2 then (ofDayOfYear year dayOfYear).year - 1
      else (ofDayOfYear year dayOfYear).year) = year := by
  obtain ⟨hlow, hhigh⟩ := monthFromMarch_le h
  generalize hm : (5 * dayOfYear + 2) / 153 = m at hlow hhigh
  simp only [ofDayOfYear, hm]
  split_ifs <;> omega

/-! ## Days -/

/-- A year has 365 days, and one more if the January that belongs to it begins a leap year. -/
theorem dayInYear_mem {day : Int} (h : 0 ≤ day ∧ day < eraDays) (era : Int) :
    (0 ≤ dayInYear day ∧ dayInYear day ≤ 365) ∧
      (dayInYear day = 365 → isLeapYear (yearOfEra day + era * 400 + 1) = true) := by
  obtain ⟨hnonneg, hlt⟩ := yearOfEra_lt h
  obtain ⟨hstart, hend⟩ := within_year h
  simp only [yearStart] at hstart hend
  simp only [dayInYear, isLeapYear, Bool.and_eq_true, Bool.or_eq_true, decide_eq_true_eq]
  generalize yearOfEra day = year at *
  refine ⟨by omega, fun hlast => by omega⟩

theorem eraDay_mem (n : Int) : 0 ≤ (n + epochShift) % eraDays ∧ (n + epochShift) % eraDays < eraDays :=
  ⟨Int.emod_nonneg _ (by decide), Int.emod_lt_of_pos _ (by decide)⟩

/-- The date of a day exists. -/
theorem isValid_ofDayNumber (n : Int) : (ofDayNumber n).isValid = true := by
  obtain ⟨hday, hleap⟩ := dayInYear_mem (eraDay_mem n) ((n + epochShift) / eraDays)
  rw [ofDayNumber_eq]
  exact isValid_ofDayOfYear hday hleap

/-- The date of a day is the date of that day only. -/
theorem toDayNumber_ofDayNumber (n : Int) : (ofDayNumber n).toDayNumber = n := by
  obtain ⟨hday, -⟩ := dayInYear_mem (eraDay_mem n) ((n + epochShift) / eraDays)
  obtain ⟨hnonneg, hlt⟩ := yearOfEra_lt (eraDay_mem n)
  have hera := Int.mul_ediv_add_emod (n + epochShift) eraDays
  rw [ofDayNumber_eq, toDayNumber]
  simp only [year_ofDayOfYear hday, dayOfYear_ofDayOfYear hday]
  rw [dayInYear]
  clear hday
  generalize yearOfEra ((n + epochShift) % eraDays) = y at *
  -- within an era the year is less than 400
  have hdiv : (y + (n + epochShift) / eraDays * 400) / 400 = (n + epochShift) / eraDays := by omega
  have hmod : (y + (n + epochShift) / eraDays * 400) % 400 = y := by omega
  rw [hdiv, hmod]
  linarith only [hera]

/-- Days in years of four digits are far from both ends of the range, and so are the days next to
them. -/
theorem inRange_of_year {n near : Int} (hyear : 0 ≤ (ofDayNumber n).year ∧ (ofDayNumber n).year ≤ 9999)
    (hnear : n - 1 ≤ near ∧ near ≤ n + 1) : inRange near = true := by
  have hfirst : firstDay ≤ -1000000 := by decide
  have hlast : 3000000 ≤ lastDay := by decide
  obtain ⟨hnonneg, hlt⟩ := yearOfEra_lt (eraDay_mem n)
  obtain ⟨hday, hday'⟩ := eraDay_mem n
  have hera := Int.mul_ediv_add_emod (n + epochShift) eraDays
  rw [ofDayNumber_eq, ofDayOfYear] at hyear
  generalize yearOfEra ((n + epochShift) % eraDays) = year at *
  generalize (n + epochShift) / eraDays = era at *
  generalize (n + epochShift) % eraDays = day at *
  rw [inRange, Bool.and_eq_true, decide_eq_true_eq, decide_eq_true_eq]
  -- a year of four digits is in one of few eras
  have hbounds : -1 ≤ era ∧ era ≤ 24 := by
    simp only at hyear
    split_ifs at hyear <;> omega
  unfold epochShift eraDays at *
  omega

/-- Months and days of a date that exists have two digits. -/
theorem month_day_le {d : Date} (h : d.isValid = true) : d.month ≤ 12 ∧ d.day ≤ 31 := by
  rw [isValid, Bool.and_eq_true, decide_eq_true_eq, decide_eq_true_eq] at h
  obtain ⟨hday, hlength⟩ := h
  unfold daysInMonth at hlength
  split at hlength <;> (try split at hlength) <;> omega

end Date

end DocQuery
