import DocQuery.Proofs.Time.Calendar
import DocQuery.Proofs.Time.Layout

namespace DocQuery

/-! # Spellings of a timestamp

An instant can be spelled with a clock of any place, or without an offset; with seconds, without
them or as a day only. The spellings are put together from numbers with a fixed count of digits.

* `shifted_back`: shifting a clock by an offset and back gives the instant.
* `exists_localText`: what a clock shows is one of the texts that are put together here.
-/

namespace Timestamp

open LayoutItem (Digits digits_padded)

/-! ## Spellings -/

/-- The instant is no leap second. -/
structure IsRegular (t : Timestamp) : Prop where
  second_lt : t.second < secondsPerDay
  nano_lt : t.nano < nanosPerSecond

/-- What calendar and clock show at the instant, so many minutes ahead of universal time. -/
def shifted (t : Timestamp) (minutes : Int) : Timestamp :=
  let second : Int := t.second + 60 * minutes
  ⟨t.day + second / secondsPerDay, (second % secondsPerDay).toNat, t.nano⟩

/-- The year has four digits at most, and no sign. -/
def HasShortYear (t : Timestamp) : Prop :=
  0 ≤ (Date.ofDayNumber t.day).year ∧ (Date.ofDayNumber t.day).year ≤ 9999

instance (t : Timestamp) : Decidable t.HasShortYear :=
  inferInstanceAs (Decidable (_ ∧ _))

/-- Year, month and day. -/
def dateText (t : Timestamp) : String :=
  let date := Date.ofDayNumber t.day
  yearText date.year ++ "-" ++ padded 2 date.month ++ "-" ++ padded 2 date.day

/-- Hour and minute. -/
def minuteText (t : Timestamp) : String :=
  padded 2 (t.second / 3600) ++ ":" ++ padded 2 (t.second / 60 % 60)

/-- So many digits are enough for the nanoseconds. -/
def FitsIn (width nano : Nat) : Prop := width ≤ 9 ∧ 10 ^ (9 - width) ∣ nano

instance (width nano : Nat) : Decidable (FitsIn width nano) :=
  inferInstanceAs (Decidable (_ ∧ _))

/-- The fraction of a second in so many digits. -/
def fractionIn (width nano : Nat) : String :=
  if width = 0 then "" else "." ++ padded width (nano / 10 ^ (9 - width))

/-- Hour, minute and second, with so many digits of the fraction. -/
def secondText (width : Nat) (t : Timestamp) : String :=
  t.minuteText ++ ":" ++ padded 2 (t.second % 60) ++ fractionIn width t.nano

/-- Sign, hours and minutes of an offset. -/
def offsetText (separator : String) (minutes : Int) : String :=
  (if minutes < 0 then "-" else "+") ++ padded 2 (minutes.natAbs / 60) ++ separator
    ++ padded 2 (minutes.natAbs % 60)

/-- The text spells the instant, with a clock so many minutes ahead of universal time. -/
inductive Spelling (t : Timestamp) : Int → String → Prop where
  /-- As it is printed into statements. -/
  | literal : Spelling t 0 t.rfc3339
  /-- As it is printed into JSON. -/
  | zulu : Spelling t 0 t.zulu
  /-- As the internet writes it, with any number of digits that is enough. -/
  | internet {width : Nat} {offset : Int} (hwidth : FitsIn width t.nano) :
      Spelling t offset ((t.shifted offset).dateText ++ "T" ++ (t.shifted offset).secondText width
        ++ offsetText ":" offset)
  /-- With blanks between date, clock and offset. -/
  | spaced {width : Nat} {offset : Int} (hwidth : FitsIn width t.nano) :
      Spelling t offset ((t.shifted offset).dateText ++ " " ++ (t.shifted offset).secondText width
        ++ " " ++ offsetText "" offset)
  /-- Without an offset. -/
  | universal {width : Nat} {mark : String} (hmark : mark = "T" ∨ mark = " ")
      (hwidth : FitsIn width t.nano) : Spelling t 0 (t.dateText ++ mark ++ t.secondText width)
  /-- Without seconds. -/
  | minutes {mark : String} (hmark : mark = "T" ∨ mark = " ") (hsecond : t.second % 60 = 0)
      (hnano : t.nano = 0) : Spelling t 0 (t.dateText ++ mark ++ t.minuteText)
  /-- Midnight, as the day alone. -/
  | date (hsecond : t.second = 0) (hnano : t.nano = 0) : Spelling t 0 t.dateText

variable {t l : Timestamp} {width : Nat}

/-- A clock without an offset shows the instant itself. -/
theorem shifted_zero (h : t.IsRegular) : t.shifted 0 = t := by
  have hsecond := h.second_lt
  unfold secondsPerDay at hsecond
  cases t with
  | mk day second nano =>
    simp only [shifted, secondsPerDay, mk.injEq, and_true] at hsecond ⊢
    omega

/-- A clock elsewhere shows a regular time. -/
theorem IsRegular.shifted (h : t.IsRegular) (minutes : Int) : (t.shifted minutes).IsRegular := by
  refine ⟨?_, h.nano_lt⟩
  simp only [Timestamp.shifted, secondsPerDay]
  omega

/-- Without the offset, the clock of a place is that of universal time. -/
theorem shifted_back (h : t.IsRegular) (offset : Int) :
    (t.shifted offset).day + ((t.shifted offset).second - 60 * offset) / secondsPerDay = t.day ∧
      (((t.shifted offset).second - 60 * offset) % secondsPerDay).toNat = t.second := by
  have hsecond := h.second_lt
  have hclock : ((t.shifted offset).second : Int) = (t.second + 60 * offset) % secondsPerDay :=
    Int.toNat_of_nonneg (Int.emod_nonneg _ (by decide))
  have hday : (t.shifted offset).day = t.day + (t.second + 60 * offset) / secondsPerDay := rfl
  rw [hday, hclock]
  unfold secondsPerDay at *
  omega

/-- Nowhere is it more than a day later or earlier. -/
theorem shifted_near (h : t.IsRegular) {offset : Int} (hoffset : offset.natAbs < 1440) :
    (t.shifted offset).day - 1 ≤ t.day ∧ t.day ≤ (t.shifted offset).day + 1 := by
  have hsecond := h.second_lt
  have hday : (t.shifted offset).day = t.day + (t.second + 60 * offset) / secondsPerDay := rfl
  rw [hday]
  unfold secondsPerDay at *
  omega

/-! ## Pieces of the spellings -/

/-- A short year has four digits. -/
theorem digits_year (h : l.HasShortYear) :
    Digits 4 (Date.ofDayNumber l.day).year.natAbs (yearText (Date.ofDayNumber l.day).year).toList := by
  obtain ⟨hlow, hhigh⟩ := h
  rw [yearText, if_pos ⟨hlow, hhigh⟩]
  exact digits_padded (by decide) (by omega)

theorem digits_two {n : Nat} (h : n < 100) : Digits 2 n (padded 2 n).toList :=
  digits_padded Nat.two_pos h

/-- Month and day have two digits each. -/
theorem digits_month_day (l : Timestamp) :
    Digits 2 (Date.ofDayNumber l.day).month (padded 2 (Date.ofDayNumber l.day).month).toList ∧
      Digits 2 (Date.ofDayNumber l.day).day (padded 2 (Date.ofDayNumber l.day).day).toList := by
  obtain ⟨hmonth, hday⟩ := Date.month_day_le (Date.isValid_ofDayNumber l.day)
  exact ⟨digits_two (by omega), digits_two (by omega)⟩

/-- The hour has two digits, as a day has no more than 24. -/
theorem digits_hour (h : l.IsRegular) :
    Digits 2 (l.second / 3600) (padded 2 (l.second / 3600)).toList := by
  have hsecond := h.second_lt
  unfold secondsPerDay at hsecond
  exact digits_two (by omega)

/-- A fraction that is written has as many digits as it says. -/
theorem digits_fraction (h : l.IsRegular) (hwidth : FitsIn width l.nano) (hpos : width ≠ 0) :
    Digits width (l.nano / 10 ^ (9 - width)) (padded width (l.nano / 10 ^ (9 - width))).toList := by
  refine digits_padded (Nat.pos_of_ne_zero hpos) (Nat.div_lt_of_lt_mul ?_)
  rw [← Nat.pow_add, Nat.sub_add_cancel hwidth.1]
  exact h.nano_lt

/-- A date is its year, month and day with hyphens between. -/
theorem toList_dateText (l : Timestamp) : l.dateText.toList =
    (yearText (Date.ofDayNumber l.day).year).toList ++ ('-' ::
      ((padded 2 (Date.ofDayNumber l.day).month).toList ++
        ('-' :: (padded 2 (Date.ofDayNumber l.day).day).toList))) := by
  simp [dateText]

/-- A clock without seconds is its hour and minute with a colon between. -/
theorem toList_minuteText (l : Timestamp) : l.minuteText.toList =
    (padded 2 (l.second / 3600)).toList ++ (':' :: (padded 2 (l.second / 60 % 60)).toList) := by
  simp [minuteText]

/-- A clock with seconds has a colon, the second and the fraction behind it. -/
theorem toList_secondText (width : Nat) (l : Timestamp) : (l.secondText width).toList =
    l.minuteText.toList ++ (':' ::
      ((padded 2 (l.second % 60)).toList ++ (fractionIn width l.nano).toList)) := by
  simp [secondText]

theorem fractionIn_zero (nano : Nat) : fractionIn 0 nano = "" := if_pos rfl

/-- A fraction is a point and its digits. -/
theorem toList_fractionIn (h : width ≠ 0) (nano : Nat) :
    (fractionIn width nano).toList = '.' :: (padded width (nano / 10 ^ (9 - width))).toList := by
  simp [fractionIn, h]

/-- The sign of an offset. -/
def signOf (offset : Int) : Char := if offset < 0 then '-' else '+'

/-- An offset is its sign, its hours, the separator and its minutes. -/
theorem toList_offsetText (separator : String) (offset : Int) : (offsetText separator offset).toList =
    signOf offset :: ((padded 2 (offset.natAbs / 60)).toList ++
      (separator.toList ++ (padded 2 (offset.natAbs % 60)).toList)) := by
  unfold offsetText signOf
  split <;> simp

theorem isBlank_signOf (offset : Int) : isBlank (signOf offset) = false := by
  unfold signOf
  split <;> decide

/-! ## What is printed -/

/-- The printed fraction has as few digits as are enough, of those that are a multiple of three. -/
theorem exists_fractionIn (nano : Nat) :
    ∃ width, FitsIn width nano ∧ fractionText nano = fractionIn width nano := by
  unfold fractionText
  split_ifs with hzero hmillis hmicros
  · subst hzero
    exact ⟨0, ⟨by decide, dvd_zero _⟩, rfl⟩
  · exact ⟨3, ⟨by decide, Nat.dvd_of_mod_eq_zero hmillis⟩, rfl⟩
  · exact ⟨6, ⟨by decide, Nat.dvd_of_mod_eq_zero hmicros⟩, rfl⟩
  · exact ⟨9, ⟨by decide, one_dvd _⟩, by simp [fractionIn]⟩

/-- What is printed is a date and a clock. -/
theorem exists_localText (h : t.IsRegular) :
    ∃ width, FitsIn width t.nano ∧ t.localText = t.dateText ++ "T" ++ t.secondText width := by
  obtain ⟨width, hwidth, hfraction⟩ := exists_fractionIn t.nano
  refine ⟨width, hwidth, ?_⟩
  have hleap : ¬nanosPerSecond ≤ t.nano := Nat.not_le.2 h.nano_lt
  simp [localText, dateText, secondText, minuteText, hleap, hfraction, String.append_assoc]

/-! ## No blanks at the ends -/

/-- A date begins and ends without blanks. -/
theorem tight_dateText (h : l.HasShortYear) : Tight l.dateText.toList := by
  obtain ⟨hmonth, hday⟩ := digits_month_day l
  rw [toList_dateText]
  exact ((digits_year h).tight (by decide)).append_cons
    ((hmonth.tight (by decide)).append_cons (hday.tight (by decide)) '-') '-'

theorem tight_minuteText (h : l.IsRegular) : Tight l.minuteText.toList := by
  have hminute : Digits 2 (l.second / 60 % 60) (padded 2 (l.second / 60 % 60)).toList :=
    digits_two (by omega)
  rw [toList_minuteText]
  exact ((digits_hour h).tight (by decide)).append_cons (hminute.tight (by decide)) ':'

/-- So does a clock with seconds. -/
theorem tight_secondText (h : l.IsRegular) (hwidth : FitsIn width l.nano) :
    Tight (l.secondText width).toList := by
  have hdigits : Digits 2 (l.second % 60) (padded 2 (l.second % 60)).toList := digits_two (by omega)
  have hsecond := hdigits.tight (by decide)
  rw [toList_secondText]
  refine (tight_minuteText h).append_cons ?_ ':'
  by_cases hzero : width = 0
  · rw [hzero, fractionIn_zero, String.toList_empty, List.append_nil]
    exact hsecond
  · rw [toList_fractionIn hzero]
    exact hsecond.append_cons ((digits_fraction h hwidth hzero).tight (Nat.pos_of_ne_zero hzero)) '.'

/-- So does an offset. -/
theorem tight_offsetText (separator : String) (offset : Int) :
    Tight (offsetText separator offset).toList := by
  have hsign : Tight [signOf offset] :=
    .of_blankFree (by simp [BlankFree, isBlank_signOf]) (List.cons_ne_nil _ _)
  have hminutes : Digits 2 (offset.natAbs % 60) (padded 2 (offset.natAbs % 60)).toList :=
    digits_two (by omega)
  have htight := hsign.append (hminutes.tight (by decide))
    ((padded 2 (offset.natAbs / 60)).toList ++ separator.toList)
  rwa [List.singleton_append, List.append_assoc, ← toList_offsetText] at htight

end Timestamp

end DocQuery
