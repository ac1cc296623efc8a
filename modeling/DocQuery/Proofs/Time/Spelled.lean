import DocQuery.Proofs.Time.Spelling

namespace DocQuery

/-! # Timestamps are read back

Every spelling of an instant is read as the instant. All layouts begin with a date that is read
alike, so what counts is the clock behind it: the layouts that are tried before the right one fail
at the mark between date and clock, at the seconds, or at the offset.

* `toTimestamp?_shifted`: the reading of a shifted clock, with its offset, is the instant.
* `Denotes.parse_eq`: a text that one layout reads to the end, and no earlier one, is read as its
  instant.
* `parse_spelling`: every spelling of an instant is read as the instant, with blanks around it or
  not.
-/

namespace Timestamp

open LayoutItem (Digits takes_digits takes_number takes_year)

variable {t l : Timestamp} {offset : Int} {width : Nat} {text : String} {r : ClockReading}
  {cs rest : List Char}

/-! ## The layouts' items -/

/-- The numbers of the date. -/
def dateReading (l : Timestamp) : ClockReading :=
  let date := Date.ofDayNumber l.day
  { year := date.year, month := date.month, day := date.day }

/-- Those of hour and minute too. -/
def minuteReading (l : Timestamp) : ClockReading :=
  { l.dateReading with hour := l.second / 3600, minute := l.second / 60 % 60 }

/-- Those of the second too. -/
def secondReading (l : Timestamp) : ClockReading :=
  { l.minuteReading with second := l.second % 60, nano := l.nano }

section Items

variable {years months days hours minutes seconds : LayoutItem}

/-- A date is read, with items of either kind. -/
theorem readLayout_dateText (hyears : years.Takes .year 4) (hmonths : months.Takes .month 2)
    (hdays : days.Takes .day 2) (h : l.HasShortYear) (items : List LayoutItem) (rest : List Char) :
    readLayout {} (years :: .oneOf ['-'] :: months :: .oneOf ['-'] :: days :: items)
      (l.dateText.toList ++ rest) = readLayout l.dateReading items rest := by
  have hdash : '-' ∈ ['-'] := List.mem_singleton_self _
  simp only [toList_dateText, List.append_assoc, List.cons_append]
  rw [readLayout_takes hyears (digits_year h), readLayout_oneOf hdash,
    readLayout_takes hmonths (digits_month_day l).1, readLayout_oneOf hdash,
    readLayout_takes hdays (digits_month_day l).2]
  simp [ClockReading.set, dateReading, Int.natAbs_of_nonneg h.1]

variable (hhours : hours.Takes .hour 2) (hminutes : minutes.Takes .minute 2)
  (hseconds : seconds.Takes .second 2)

include hhours hminutes

/-- Hour and minute are read, with items of either kind. -/
theorem readLayout_minuteText (h : l.IsRegular) (items : List LayoutItem) (rest : List Char) :
    readLayout l.dateReading (hours :: .oneOf [':'] :: minutes :: items) (l.minuteText.toList ++ rest) =
      readLayout l.minuteReading items rest := by
  have hcolon : ':' ∈ [':'] := List.mem_singleton_self _
  have hminute : l.second / 60 % 60 < 100 := by omega
  rw [toList_minuteText, List.append_assoc, List.cons_append]
  rw [readLayout_takes hhours (digits_hour h), readLayout_oneOf hcolon,
    readLayout_takes hminutes (digits_two hminute)]
  rfl

/-- Seconds are missed where there are none. -/
theorem readLayout_minuteText_eq_none (h : l.IsRegular) (items : List LayoutItem) :
    readLayout l.dateReading (hours :: .oneOf [':'] :: minutes :: .oneOf [':'] :: items)
      l.minuteText.toList = none := by
  rw [← List.append_nil l.minuteText.toList, readLayout_minuteText hhours hminutes h]
  exact readLayout_cons_eq_none rfl items

include hseconds

/-- Seconds and their fraction are read, with items of either kind. -/
theorem readLayout_secondText (h : l.IsRegular) (hwidth : FitsIn width l.nano)
    (hrest : LayoutItem.EndsFraction rest) (items : List LayoutItem) :
    readLayout l.dateReading
      (hours :: .oneOf [':'] :: minutes :: .oneOf [':'] :: seconds :: .fraction :: items)
      ((l.secondText width).toList ++ rest) = readLayout l.secondReading items rest := by
  rw [toList_secondText, List.append_assoc, List.cons_append, List.append_assoc,
    readLayout_minuteText hhours hminutes h, readLayout_oneOf (List.mem_singleton_self _),
    readLayout_takes hseconds (digits_two (by omega))]
  obtain ⟨hle, hdvd⟩ := hwidth
  by_cases hzero : width = 0
  · -- nothing is written, and nothing is to be read
    have hnano : l.nano = 0 := by
      rw [hzero] at hdvd
      exact Nat.eq_zero_of_dvd_of_lt hdvd h.nano_lt
    rw [hzero, fractionIn_zero, String.toList_empty, List.nil_append,
      readLayout_cons (LayoutItem.read_fraction_of_none hrest)]
    simp [ClockReading.set, secondReading, hnano, minuteReading, dateReading]
  · rw [toList_fractionIn hzero, List.cons_append, readLayout_cons ((digits_fraction h ⟨hle, hdvd⟩
      hzero).read_fraction ⟨Nat.pos_of_ne_zero hzero, hle⟩ hrest), Nat.div_mul_cancel hdvd]
    rfl

end Items

/-! ## Offsets -/

/-- The sign that is written is the sign that is read. -/
theorem offsetSign_signOf (offset : Int) :
    LayoutItem.offsetSign (signOf offset) = some (decide (offset < 0)) := by
  unfold signOf
  by_cases h : offset < 0
  · rw [if_pos h, decide_eq_true h]
    rfl
  · rw [if_neg h, decide_eq_false h]
    rfl

/-- The hours and minutes of an offset make up its seconds. -/
theorem offsetSeconds_eq (offset : Int) :
    LayoutItem.offsetSeconds (decide (offset < 0)) (offset.natAbs / 60) (offset.natAbs % 60) =
      60 * offset := by
  unfold LayoutItem.offsetSeconds
  by_cases h : offset < 0
  · simp only [h, decide_true, if_true]
    omega
  · simp only [h, decide_false, Bool.false_eq_true, if_false]
    omega

/-- Hours and minutes of an offset have two digits each. -/
theorem digits_offset (h : offset.natAbs < 1440) :
    Digits 2 (offset.natAbs / 60) (padded 2 (offset.natAbs / 60)).toList ∧
      Digits 2 (offset.natAbs % 60) (padded 2 (offset.natAbs % 60)).toList :=
  ⟨digits_two (by omega), digits_two (by omega)⟩

/-- An offset with a colon is read as a zone. -/
theorem readLayout_zone (h : offset.natAbs < 1440) :
    readLayout r [.zone] (offsetText ":" offset).toList = some { r with offset := 60 * offset } := by
  obtain ⟨hhours, hminutes⟩ := digits_offset h
  have hread := LayoutItem.read_zone (r := r) (offsetSign_signOf offset) hhours hminutes (by omega) []
  rw [offsetSeconds_eq, List.append_nil] at hread
  rw [toList_offsetText]
  exact readLayout_cons hread []

/-- An offset without a colon is read behind a blank. -/
theorem readLayout_offset (h : offset.natAbs < 1440) :
    readLayout r [.blanks, .offset] (' ' :: (offsetText "" offset).toList) =
      some { r with offset := 60 * offset } := by
  obtain ⟨hhours, hminutes⟩ := digits_offset h
  have hread := LayoutItem.read_offset (r := r) (offsetSign_signOf offset) (isBlank_signOf offset) hhours
    hminutes (by omega) []
  rw [offsetSeconds_eq, List.append_nil] at hread
  rw [readLayout_cons (LayoutItem.read_blanks (by decide) (tight_offsetText "" offset).dropWhile_eq),
    toList_offsetText]
  exact readLayout_cons hread []

/-- An offset ends the fraction in front of it. -/
theorem endsFraction_offsetText (separator : String) (offset : Int) :
    LayoutItem.EndsFraction (offsetText separator offset).toList := by
  rw [toList_offsetText, signOf]
  split <;> exact LayoutItem.endsFraction_cons (by decide) (by decide) _

/-! ## The clock behind the date -/

/-- Hour, minute, second, fraction and offset of the strict layout. -/
def strictClock : List LayoutItem :=
  [.digits .hour 2, .oneOf [':'], .digits .minute 2, .oneOf [':'], .digits .second 2, .fraction, .zone]

/-- What the layouts have behind the date. -/
def clockLayouts : List (List LayoutItem) :=
  [.oneOf ['T', 't', ' '] :: strictClock,
   .blanks :: (secondLayout ++ [.blanks, .offset]),
   .oneOf ['T'] :: secondLayout,
   .blanks :: secondLayout,
   .oneOf ['T'] :: minuteLayout,
   .blanks :: minuteLayout,
   []]

/-- The instant that the text behind the date denotes in one layout. -/
def ofClock? (l : Timestamp) (cs : List Char) (layout : List LayoutItem) : Option Timestamp :=
  (readLayout l.dateReading layout cs).bind ClockReading.toTimestamp?

/-- The instant that a text without blanks around it denotes. -/
def ofChars? (cs : List Char) : Option Timestamp :=
  layouts.findSome? fun layout => ofLayout? layout cs

/-- The date is read alike in all layouts. -/
theorem ofChars?_date (h : l.HasShortYear) (cs : List Char) :
    ofChars? (l.dateText.toList ++ cs) = clockLayouts.findSome? (l.ofClock? cs) := by
  have hstrict := fun items => readLayout_dateText takes_digits takes_digits takes_digits h items cs
  have hlenient := fun items => readLayout_dateText takes_year takes_number takes_number h items cs
  simp only [ofChars?, layouts, clockLayouts, List.findSome?_cons, List.findSome?_nil, ofLayout?,
    ofClock?, strictLayout, strictClock, dateLayout, List.cons_append, List.nil_append,
    hstrict, hlenient]

/-- A letter behind the date leaves the layouts that have it. -/
theorem findSome?_letter (l : Timestamp) (cs : List Char) :
    clockLayouts.findSome? (l.ofClock? ('T' :: cs)) =
      [strictClock, secondLayout, minuteLayout].findSome? (l.ofClock? cs) := by
  have hletter : ∀ allowed items, 'T' ∈ allowed →
      l.ofClock? ('T' :: cs) (.oneOf allowed :: items) = l.ofClock? cs items :=
    fun allowed items hmem => by rw [ofClock?, readLayout_oneOf hmem, ofClock?]
  have hblanks : ∀ items, l.ofClock? ('T' :: cs) (.blanks :: .number .hour :: items) = none := by
    intro items
    have hnumber : (LayoutItem.number .hour).read l.dateReading ('T' :: cs) = none :=
      LayoutItem.read_number_eq_none (by simp; decide) (by simp)
    have hblanks : LayoutItem.blanks.read l.dateReading ('T' :: cs) =
        some (l.dateReading, 'T' :: cs) := rfl
    rw [ofClock?, readLayout_cons hblanks, readLayout_cons_eq_none hnumber, Option.bind_none]
  have hend : l.ofClock? ('T' :: cs) [] = none := rfl
  simp only [clockLayouts, List.findSome?_cons, List.findSome?_nil, hend,
    hletter ['T', 't', ' '] _ (by decide), hletter ['T'] _ (by decide)]
  simp only [secondLayout, minuteLayout, List.cons_append, List.nil_append, hblanks]

/-- A blank behind the date leaves the layouts with blanks, and the strict one. -/
theorem findSome?_blank (l : Timestamp) (hcs : cs.dropWhile isBlank = cs) :
    clockLayouts.findSome? (l.ofClock? (' ' :: cs)) =
      [strictClock, secondLayout ++ [.blanks, .offset], secondLayout, minuteLayout].findSome?
        (l.ofClock? cs) := by
  have hstrict : l.ofClock? (' ' :: cs) (.oneOf ['T', 't', ' '] :: strictClock) =
      l.ofClock? cs strictClock := by
    rw [ofClock?, readLayout_oneOf (by decide), ofClock?]
  have hblanks : ∀ items, l.ofClock? (' ' :: cs) (.blanks :: items) = l.ofClock? cs items := by
    intro items
    rw [ofClock?, readLayout_cons (LayoutItem.read_blanks (by decide) hcs), ofClock?]
  have hletter : ∀ items, l.ofClock? (' ' :: cs) (.oneOf ['T'] :: items) = none :=
    fun items => rfl
  have hend : l.ofClock? (' ' :: cs) [] = none := rfl
  simp only [clockLayouts, List.findSome?_cons, List.findSome?_nil, hstrict, hblanks, hletter, hend]

/-! ## The instant -/

/-- What calendar and clock of a place show denotes the instant, with the offset of the place. -/
theorem toTimestamp?_shifted (h : t.IsRegular) (hoffset : offset.natAbs < 1440)
    (hyear : (t.shifted offset).HasShortYear) :
    ClockReading.toTimestamp? { (t.shifted offset).secondReading with offset := 60 * offset } =
      some t := by
  obtain ⟨hback, hrest⟩ := shifted_back h offset
  have hhere : Date.inRange t.day = true := Date.inRange_of_year hyear (shifted_near h hoffset)
  have hlocal := (h.shifted offset).second_lt
  have hnano : (t.shifted offset).nano = t.nano := rfl
  generalize t.shifted offset = l at *
  -- the date that is shown is a date, and its number is the day
  have hvalid : Date.isValid ⟨(Date.ofDayNumber l.day).year, (Date.ofDayNumber l.day).month,
      (Date.ofDayNumber l.day).day⟩ = true := Date.isValid_ofDayNumber l.day
  have hnumber : Date.toDayNumber ⟨(Date.ofDayNumber l.day).year, (Date.ofDayNumber l.day).month,
      (Date.ofDayNumber l.day).day⟩ = l.day := Date.toDayNumber_ofDayNumber l.day
  have hthere : Date.inRange l.day = true := Date.inRange_of_year hyear (by omega)
  unfold secondsPerDay at *
  push_cast at hback hrest
  -- the parts of the clock are in range and add up to the second of the day
  have hhour : l.second / 3600 < 24 := by omega
  have hminute : l.second / 60 % 60 < 60 := Nat.mod_lt _ (by decide)
  have hsecond : l.second % 60 < 60 := Nat.mod_lt _ (by decide)
  have hshort : (60 * offset).natAbs < 86400 := by omega
  have hsum : l.second / 3600 * 3600 + l.second / 60 % 60 * 60 + l.second % 60 = l.second := by omega
  simp [ClockReading.toTimestamp?, secondReading, minuteReading, dateReading, secondsPerDay, hvalid,
    hnumber, hthere, hhere, hhour, hminute, hsecond.le, hsecond.ne, hshort, hsum, hback, hrest, hnano]

/-- A reading without an offset gives the instant that it shows. -/
theorem toTimestamp?_secondReading (h : t.IsRegular) (hyear : t.HasShortYear) :
    t.secondReading.toTimestamp? = some t := by
  have hzero : (t.shifted 0).HasShortYear := by rwa [shifted_zero h]
  have hread := toTimestamp?_shifted h (by decide) hzero
  rwa [shifted_zero h] at hread

/-! ## The spellings -/

/-- The strict layout reads a clock up to its zone. -/
theorem readLayout_strictClock (h : l.IsRegular) (hwidth : FitsIn width l.nano)
    (hrest : LayoutItem.EndsFraction rest) :
    readLayout l.dateReading strictClock ((l.secondText width).toList ++ rest) =
      readLayout l.secondReading [.zone] rest :=
  readLayout_secondText takes_digits takes_digits takes_digits h hwidth hrest _

/-- The layout with seconds reads a clock and goes on with what is behind it. -/
theorem readLayout_secondLayout (h : l.IsRegular) (hwidth : FitsIn width l.nano)
    (hrest : LayoutItem.EndsFraction rest) (items : List LayoutItem) :
    readLayout l.dateReading (secondLayout ++ items) ((l.secondText width).toList ++ rest) =
      readLayout l.secondReading items rest :=
  readLayout_secondText takes_number takes_number takes_number h hwidth hrest items

/-- A clock without an offset is left to the layouts without one, be it behind a letter or a blank. -/
theorem findSome?_marked {mark : String} (hmark : mark = "T" ∨ mark = " ")
    (hcs : cs.dropWhile isBlank = cs) (hstrict : l.ofClock? cs strictClock = none)
    (hoffset : l.ofClock? cs (secondLayout ++ [.blanks, .offset]) = none) :
    clockLayouts.findSome? (l.ofClock? (mark.toList ++ cs)) =
      [secondLayout, minuteLayout].findSome? (l.ofClock? cs) := by
  rcases hmark with rfl | rfl
  · refine (findSome?_letter l cs).trans ?_
    rw [List.findSome?_cons, hstrict]
  · refine (findSome?_blank l hcs).trans ?_
    rw [List.findSome?_cons, hstrict, List.findSome?_cons, hoffset]

/-! ## The spellings are read -/

/-- The text has no blanks at its ends, and the first layout that reads it gives the instant. -/
structure Denotes (text : String) (t : Timestamp) : Prop where
  tight : Tight text.toList
  read : ofChars? text.toList = some t

/-- What denotes an instant is read as it. -/
theorem Denotes.parse_eq (h : Denotes text t) : parse text = some t := by
  rw [parse, h.tight.trimBlanks_eq]
  exact h.read

/-- Blanks around a text change nothing. -/
theorem parse_append {before after : String} (hbefore : Blanks before.toList)
    (hafter : Blanks after.toList) (text : String) : parse (before ++ text ++ after) = parse text := by
  rw [parse, parse, String.toList_append, String.toList_append, List.append_assoc,
    trimBlanks_append hbefore hafter]

/-- A clock without an offset denotes the instant, behind either mark. -/
theorem denotes_universal (h : t.IsRegular) (hyear : t.HasShortYear) (hwidth : FitsIn width t.nano)
    {mark : String} (hmark : mark = "T" ∨ mark = " ") :
    Denotes (t.dateText ++ mark ++ t.secondText width) t := by
  have htext : (t.dateText ++ mark ++ t.secondText width).toList =
      t.dateText.toList ++ (mark.toList ++ (t.secondText width).toList) := by
    simp
  have hstrict := readLayout_strictClock h hwidth LayoutItem.endsFraction_nil
  have hsecond := readLayout_secondLayout h hwidth LayoutItem.endsFraction_nil
  have htight := tight_secondText h hwidth
  rw [List.append_nil] at hstrict hsecond
  have hread : t.ofClock? (t.secondText width).toList secondLayout = some t := by
    have hend := hsecond []
    rw [List.append_nil] at hend
    rw [ofClock?, hend]
    exact toTimestamp?_secondReading h hyear
  constructor <;> rw [htext]
  · exact (tight_dateText hyear).append htight _
  · -- the strict layout misses its zone, so the one with seconds is the first that reads to the end
    rw [ofChars?_date hyear, findSome?_marked hmark htight.dropWhile_eq, List.findSome?_cons, hread]
    · rw [ofClock?, hstrict]
      rfl
    · rw [ofClock?, hsecond]
      rfl

/-- A clock without seconds denotes an instant of a full minute. -/
theorem denotes_minutes (h : t.IsRegular) (hyear : t.HasShortYear) (hsecond : t.second % 60 = 0)
    (hnano : t.nano = 0) {mark : String} (hmark : mark = "T" ∨ mark = " ") :
    Denotes (t.dateText ++ mark ++ t.minuteText) t := by
  have htext : (t.dateText ++ mark ++ t.minuteText).toList =
      t.dateText.toList ++ (mark.toList ++ t.minuteText.toList) := by
    simp
  have hminute := readLayout_minuteText takes_number takes_number h [] []
  rw [List.append_nil] at hminute
  have hread : t.ofClock? t.minuteText.toList minuteLayout = some t := by
    have hreading : t.minuteReading = t.secondReading := by
      rw [secondReading, hsecond, hnano]
      rfl
    rw [ofClock?, minuteLayout, hminute, hreading]
    exact toTimestamp?_secondReading h hyear
  -- every layout with seconds misses the colon in front of them
  have hmissed := readLayout_minuteText_eq_none takes_number takes_number h
  have hseconds : t.ofClock? t.minuteText.toList secondLayout = none :=
    congrArg (Option.bind · _) (hmissed _)
  have hoffset : t.ofClock? t.minuteText.toList (secondLayout ++ [.blanks, .offset]) = none :=
    congrArg (Option.bind · _) (hmissed _)
  have hstrict : t.ofClock? t.minuteText.toList strictClock = none :=
    congrArg (Option.bind · _) (readLayout_minuteText_eq_none takes_digits takes_digits h _)
  constructor <;> rw [htext]
  · exact (tight_dateText hyear).append (tight_minuteText h) _
  · rw [ofChars?_date hyear, findSome?_marked hmark (tight_minuteText h).dropWhile_eq hstrict hoffset,
      List.findSome?_cons, hseconds, List.findSome?_cons, hread]

/-- A date alone denotes its midnight. -/
theorem denotes_date (h : t.IsRegular) (hyear : t.HasShortYear) (hsecond : t.second = 0)
    (hnano : t.nano = 0) : Denotes t.dateText t := by
  have hreading : t.dateReading = t.secondReading := by
    rw [secondReading, minuteReading, hsecond, hnano]
    rfl
  have hread : t.ofClock? [] [] = some t := by
    rw [ofClock?, hreading]
    exact toTimestamp?_secondReading h hyear
  have hmark : ∀ allowed items, t.ofClock? [] (.oneOf allowed :: items) = none := fun _ _ => rfl
  have hblanks : ∀ items, t.ofClock? [] (.blanks :: .number .hour :: items) = none := fun _ => rfl
  refine ⟨tight_dateText hyear, ?_⟩
  rw [← List.append_nil t.dateText.toList, ofChars?_date hyear]
  simp only [clockLayouts, secondLayout, minuteLayout, List.cons_append, List.nil_append,
    List.findSome?_cons, hmark, hblanks, hread]

/-- A clock with its zone denotes the instant. -/
theorem denotes_internet (h : t.IsRegular) (hoffset : offset.natAbs < 1440)
    (hyear : (t.shifted offset).HasShortYear) (hwidth : FitsIn width t.nano) :
    Denotes ((t.shifted offset).dateText ++ "T" ++ (t.shifted offset).secondText width
      ++ offsetText ":" offset) t := by
  have htext : ((t.shifted offset).dateText ++ "T" ++ (t.shifted offset).secondText width
      ++ offsetText ":" offset).toList = (t.shifted offset).dateText.toList ++
        ('T' :: ((t.shifted offset).secondText width).toList ++ (offsetText ":" offset).toList) := by
    simp
  have hread := readLayout_strictClock (h.shifted offset) hwidth (endsFraction_offsetText ":" offset)
  constructor <;> rw [htext]
  · exact (tight_dateText hyear).append (tight_offsetText ":" offset) _
  · rw [ofChars?_date hyear, List.cons_append, findSome?_letter, List.findSome?_cons, ofClock?, hread,
      readLayout_zone hoffset, Option.bind_some, toTimestamp?_shifted h hoffset hyear]

/-- A clock with its offset behind a blank denotes the instant. -/
theorem denotes_spaced (h : t.IsRegular) (hoffset : offset.natAbs < 1440)
    (hyear : (t.shifted offset).HasShortYear) (hwidth : FitsIn width t.nano) :
    Denotes ((t.shifted offset).dateText ++ " " ++ (t.shifted offset).secondText width ++ " "
      ++ offsetText "" offset) t := by
  have htext : ((t.shifted offset).dateText ++ " " ++ (t.shifted offset).secondText width ++ " "
      ++ offsetText "" offset).toList = (t.shifted offset).dateText.toList ++
        (' ' :: (((t.shifted offset).secondText width).toList ++ [' ']) ++
          (offsetText "" offset).toList) := by
    simp
  have hrest : LayoutItem.EndsFraction (' ' :: (offsetText "" offset).toList) :=
    LayoutItem.endsFraction_cons (by decide) (by decide) _
  -- the strict layout wants a zone where a blank is
  have hnone : (LayoutItem.zone).read (t.shifted offset).secondReading
      (' ' :: (offsetText "" offset).toList) = none := by
    refine LayoutItem.read_zone_eq_none ?_
    rintro c ⟨⟩
    decide
  have hstrict := readLayout_strictClock (h.shifted offset) hwidth hrest
  have hread := readLayout_secondLayout (h.shifted offset) hwidth hrest [.blanks, .offset]
  have hdrop := (tight_secondText (h.shifted offset) hwidth).dropWhile_append
    (' ' :: (offsetText "" offset).toList)
  constructor <;> rw [htext]
  · exact (tight_dateText hyear).append (tight_offsetText "" offset) _
  · rw [ofChars?_date hyear, List.cons_append, List.append_assoc, List.singleton_append,
      findSome?_blank _ hdrop, List.findSome?_cons, ofClock?, hstrict, readLayout_cons_eq_none hnone,
      Option.bind_none, List.findSome?_cons, ofClock?, hread, readLayout_offset hoffset,
      Option.bind_some, toTimestamp?_shifted h hoffset hyear]

/-- What is printed into statements is written as on the internet. -/
theorem denotes_rfc3339 (h : t.IsRegular) (hyear : t.HasShortYear) : Denotes t.rfc3339 t := by
  obtain ⟨width, hwidth, htext⟩ := exists_localText h
  have hzero : (t.shifted 0).HasShortYear := by rwa [shifted_zero h]
  have hdenotes := denotes_internet h (by decide) hzero hwidth
  rw [shifted_zero h, ← htext] at hdenotes
  exact hdenotes

/-- The text that instants are written as denotes the instant. -/
theorem denotes_zulu (h : t.IsRegular) (hyear : t.HasShortYear) : Denotes t.zulu t := by
  obtain ⟨width, hwidth, hlocal⟩ := exists_localText h
  have htext : t.zulu.toList = t.dateText.toList ++ ('T' :: (t.secondText width).toList ++ ['Z']) := by
    simp [zulu, hlocal]
  have hrest : LayoutItem.EndsFraction ['Z'] :=
    LayoutItem.endsFraction_cons (by decide) (by decide) []
  have hread := readLayout_strictClock h hwidth hrest
  have hend : readLayout t.secondReading [.zone] ['Z'] = some t.secondReading := rfl
  constructor <;> rw [htext]
  · exact (tight_dateText hyear).append (.of_blankFree (by decide) (by decide)) _
  · rw [ofChars?_date hyear, List.cons_append, findSome?_letter, List.findSome?_cons, ofClock?,
      hread, hend, Option.bind_some, toTimestamp?_secondReading h hyear]

/-- Every spelling of an instant is read as the instant. The offset may be that of any place, as
long as the year that the calendar shows there has four digits. Blanks around a text never change
what it is read as. -/
theorem parse_spelling (h : t.IsRegular) (hoffset : offset.natAbs < 1440)
    (hyear : (t.shifted offset).HasShortYear) (hspelling : Spelling t offset text) :
    parse text = some t ∧ ∀ other before after : String, Blanks before.toList → Blanks after.toList →
      parse (before ++ other ++ after) = parse other := by
  refine ⟨Denotes.parse_eq ?_, fun other before after hbefore hafter =>
    parse_append hbefore hafter other⟩
  cases hspelling with
  | internet hwidth => exact denotes_internet h hoffset hyear hwidth
  | spaced hwidth => exact denotes_spaced h hoffset hyear hwidth
  | literal =>
    rw [shifted_zero h] at hyear
    exact denotes_rfc3339 h hyear
  | zulu =>
    rw [shifted_zero h] at hyear
    exact denotes_zulu h hyear
  | universal hmark hwidth =>
    rw [shifted_zero h] at hyear
    exact denotes_universal h hyear hwidth hmark
  | minutes hmark hsecond hnano =>
    rw [shifted_zero h] at hyear
    exact denotes_minutes h hyear hsecond hnano hmark
  | date hsecond hnano =>
    rw [shifted_zero h] at hyear
    exact denotes_date h hyear hsecond hnano

/-- Late on a leap day March has begun farther east, and the clock there is read as the same
instant. -/
theorem parse_leapNight :
    let t : Timestamp := ⟨15399, 81000, 500000000⟩
    t.IsRegular ∧ (t.shifted 0).HasShortYear ∧ (t.shifted 90).HasShortYear ∧
      Spelling t 0 "2012-02-29T22:30:00.500Z" ∧ Spelling t 90 "2012-03-01T00:00:00.50+01:30" ∧
      Spelling t 90 "2012-03-01 00:00:00.5 +0130" ∧
      parse "2012-02-29T22:30:00.500Z" = some t ∧ parse "2012-03-01T00:00:00.50+01:30" = some t ∧
      parse ("\t" ++ "2012-03-01 00:00:00.5 +0130" ++ " \n") = some t := by
  intro t
  have hregular : t.IsRegular := ⟨by decide, by decide⟩
  have hhere : (t.shifted 0).HasShortYear := by decide +kernel
  have hthere : (t.shifted 90).HasShortYear := by decide +kernel
  -- each spelling is put together by the general definition, so only texts are compared
  have hzulu : Spelling t 0 "2012-02-29T22:30:00.500Z" := by
    have htext : t.zulu = "2012-02-29T22:30:00.500Z" := by decide +kernel
    exact htext ▸ .zulu
  have hinternet : Spelling t 90 "2012-03-01T00:00:00.50+01:30" := by
    have htext : (t.shifted 90).dateText ++ "T" ++ (t.shifted 90).secondText 2 ++ offsetText ":" 90 =
        "2012-03-01T00:00:00.50+01:30" := by
      decide +kernel
    exact htext ▸ .internet (by decide +kernel)
  have hspaced : Spelling t 90 "2012-03-01 00:00:00.5 +0130" := by
    have htext :
        (t.shifted 90).dateText ++ " " ++ (t.shifted 90).secondText 1 ++ " " ++ offsetText "" 90 =
          "2012-03-01 00:00:00.5 +0130" := by
      decide +kernel
    exact htext ▸ .spaced (by decide +kernel)
  obtain ⟨hread, hblanks⟩ := parse_spelling hregular (by decide) hthere hspaced
  exact ⟨hregular, hhere, hthere, hzulu, hinternet, hspaced,
    (parse_spelling hregular (by decide) hhere hzulu).1,
    (parse_spelling hregular (by decide) hthere hinternet).1,
    (hblanks _ "\t" " \n" (by decide) (by decide)).trans hread⟩

end Timestamp

end DocQuery
