import DocQuery.Proofs.Text.Words
import DocQuery.Time.Layout
import Mathlib.Data.Nat.Digits.Defs

namespace DocQuery

/-! # What layouts read

Each item of a layout reads back what is written for it and leaves what follows. A number is written
with as many digits as an item takes at most, so that what follows does not matter, be it another
digit; only behind a fraction no digit may come.

* `Digits.takeDigits_eq`: a number with as many digits as its item takes is read in full and no
  further.
* `readLayout_takes`: so a layout goes on behind it, whatever follows.
-/

namespace LayoutItem

/-! ## Digits -/

/-- The text is a number with zeros in front. -/
structure Digits (width n : Nat) (cs : List Char) : Prop where
  length_eq : cs.length = width
  digits : ∀ c ∈ cs, c.isDigit = true
  value : Nat.ofDigitChars 10 cs 0 = n

/-- A number that has room is written with its digits and zeros in front. -/
theorem digits_padded {width n : Nat} (hwidth : 0 < width) (h : n < 10 ^ width) :
    Digits width n (Timestamp.padded width n).toList := by
  have hlength : (Nat.toDigits 10 n).length ≤ width := Nat.toDigits_length 10 n width hwidth h
  have htext : (Timestamp.padded width n).toList =
      List.replicate (width - (Nat.toDigits 10 n).length) '0' ++ Nat.toDigits 10 n := by
    simp [Timestamp.padded, ← String.length_toList]
  rw [htext]
  refine ⟨?_, fun c hc => ?_, ?_⟩
  · rw [List.length_append, List.length_replicate]
    omega
  · rcases List.mem_append.1 hc with hc | hc
    · rw [List.eq_of_mem_replicate hc]
      rfl
    · exact Nat.isDigit_of_mem_toDigits (by decide) (by decide) hc
  · rw [Nat.ofDigitChars_append, Nat.ofDigitChars_replicate_zero, Nat.mul_zero,
      Nat.ofDigitChars_ten_toDigits]

variable {width n : Nat} {cs rest : List Char} {c : Char} {r : ClockReading}

/-- A digit is no blank. -/
theorem isBlank_of_isDigit (h : c.isDigit = true) : isBlank c = false := by
  simp only [Char.isDigit, Bool.and_eq_true, decide_eq_true_eq, ge_iff_le, UInt32.le_iff_toNat_le]
    at h
  change 48 ≤ c.toNat ∧ c.toNat ≤ 57 at h
  simp only [isBlank, Blank.ranges, List.any_cons, List.any_nil, Bool.or_eq_false_iff,
    Bool.and_eq_false_iff, decide_eq_false_iff_not, not_le, and_true]
  omega

/-- Digits start with one of them. -/
theorem Digits.exists_cons (h : Digits width n cs) (hwidth : 0 < width) :
    ∃ c cs', cs = c :: cs' ∧ c.isDigit = true := by
  cases cs with
  | nil =>
    have hlength := h.length_eq
    rw [List.length_nil] at hlength
    omega
  | cons c cs => exact ⟨c, cs, rfl, h.digits c List.mem_cons_self⟩

/-- Digits begin and end without blanks. -/
theorem Digits.tight (h : Digits width n cs) (hwidth : 0 < width) : Tight cs := by
  obtain ⟨c, cs', hcs, -⟩ := h.exists_cons hwidth
  exact .of_blankFree (fun c hc => isBlank_of_isDigit (h.digits c hc)) (hcs ▸ List.cons_ne_nil c cs')

/-- Exactly the digits of a number are taken, whatever follows. -/
theorem Digits.takeDigits_eq (h : Digits width n cs) (rest : List Char) :
    takeDigits width (cs ++ rest) = (cs, rest) := by
  have htaken : ((cs ++ rest).takeWhile Char.isDigit).take width = cs := by
    rw [List.takeWhile_append_of_pos h.digits, List.take_append_of_le_length h.length_eq.ge,
      List.take_of_length_le h.length_eq.le]
  simp [takeDigits, htaken]

/-! ## Numbers -/

/-- The item reads a number that is written with so many digits. -/
def Takes (item : LayoutItem) (field : ClockReading.Field) (width : Nat) : Prop :=
  ∀ {r n cs}, Digits width n cs → ∀ rest, item.read r (cs ++ rest) = some (r.set field n, rest)

variable {field : ClockReading.Field}

theorem takes_digits : (digits field width).Takes field width := by
  intro r n cs h rest
  simp only [read, h.takeDigits_eq, h.length_eq, h.value, if_true]

/-- A number of two digits fills its item. -/
theorem takes_number : (number field).Takes field 2 := by
  intro r n cs h rest
  obtain ⟨c, cs', hcs, -⟩ := h.exists_cons Nat.two_pos
  have hsome : cs.isEmpty = false := by rw [hcs, List.isEmpty_cons]
  simp only [read, (h.tight Nat.two_pos).dropWhile_append, h.takeDigits_eq, h.value, hsome]
  rfl

/-- A year of four digits fills its item. -/
theorem takes_year : year.Takes .year 4 := by
  intro r n cs h rest
  have hdigits := h.takeDigits_eq rest
  have hblanks := (h.tight (by decide)).dropWhile_append rest
  obtain ⟨c, cs, rfl, hdigit⟩ := h.exists_cons (by decide)
  have hplus : c ≠ '+' := by
    rintro rfl
    cases hdigit
  have hminus : c ≠ '-' := by
    rintro rfl
    cases hdigit
  rw [List.cons_append] at hdigits hblanks ⊢
  simp [read, hblanks, hdigits, h.value, hplus, hminus, ClockReading.set]

/-- A number does not start with another character. -/
theorem read_number_eq_none (hblank : ∀ c ∈ cs.head?, isBlank c = false)
    (hdigit : ∀ c ∈ cs.head?, c.isDigit = false) : read r (number field) cs = none := by
  cases cs with
  | nil => rfl
  | cons c cs =>
    have hblank : isBlank c = false := hblank c rfl
    have hdigit : c.isDigit = false := hdigit c rfl
    simp [read, takeDigits, hblank, hdigit]

/-- One blank or more are skipped as one. -/
theorem read_blanks (hblank : isBlank c = true) (h : cs.dropWhile isBlank = cs) :
    read r blanks (c :: cs) = some (r, cs) := by
  rw [read, List.dropWhile_cons_of_pos hblank, h]

/-! ## Fractions -/

/-- The digits of a fraction cannot go on with the text, nor can a fraction begin. -/
def EndsFraction (rest : List Char) : Prop := ∀ c ∈ rest.head?, c.isDigit = false ∧ c ≠ '.'

/-- Nothing ends a fraction. -/
theorem endsFraction_nil : EndsFraction [] := by
  rintro c ⟨⟩

/-- What is neither a digit nor a point ends a fraction. -/
theorem endsFraction_cons (hdigit : c.isDigit = false) (hpoint : c ≠ '.') (rest : List Char) :
    EndsFraction (c :: rest) := by
  rintro c ⟨⟩
  exact ⟨hdigit, hpoint⟩

/-- No fraction is read where none is written. -/
theorem read_fraction_of_none (h : EndsFraction rest) : read r fraction rest = some (r, rest) := by
  cases rest with
  | nil => rfl
  | cons c rest =>
    have hpoint : c ≠ '.' := (h c rfl).2
    simp [read, hpoint]

/-- Behind the point stand the digits of the nanoseconds, up to the last that are zeros. -/
theorem Digits.read_fraction (h : Digits width n cs) (hwidth : 0 < width ∧ width ≤ 9)
    (hrest : EndsFraction rest) :
    read r fraction ('.' :: (cs ++ rest)) =
      some ({ r with nano := n * 10 ^ (9 - width) }, rest) := by
  -- the digits end where the number does
  have hfound : (cs ++ rest).takeWhile Char.isDigit = cs := by
    rw [List.takeWhile_append_of_pos h.digits]
    cases rest with
    | nil => simp
    | cons c rest => rw [List.takeWhile_cons_of_neg (by simp [(hrest c rfl).1]), List.append_nil]
  have hleft : (cs ++ rest).dropWhile Char.isDigit = rest := by
    rw [List.dropWhile_append_of_pos h.digits]
    cases rest with
    | nil => rfl
    | cons c rest => rw [List.dropWhile_cons_of_neg (by simp [(hrest c rfl).1])]
  -- no more than nine digits, so all of them count
  have hnanos : nanosOf cs = n * 10 ^ (9 - width) := by
    have hkept : cs.take 9 = cs := List.take_of_length_le (h.length_eq ▸ hwidth.2)
    simp [nanosOf, hkept, h.value, h.length_eq]
  obtain ⟨c, cs', hcs, -⟩ := h.exists_cons hwidth.1
  have hsome : cs.isEmpty = false := by rw [hcs, List.isEmpty_cons]
  simp [read, hfound, hleft, hnanos, hsome]

/-! ## Offsets -/

/-- Two digits are read as their number. -/
theorem Digits.twoDigits_eq (h : Digits 2 n cs) (rest : List Char) :
    twoDigits (cs ++ rest) = some (n, rest) := by
  obtain ⟨a, b, rfl⟩ := List.length_eq_two.1 h.length_eq
  have ha : a.isDigit = true := h.digits a (by simp)
  have hb : b.isDigit = true := h.digits b (by simp)
  simp [twoDigits, ha, hb, h.value]

/-- Seconds of an offset. -/
def offsetSeconds (negative : Bool) (hours minutes : Nat) : Int :=
  let seconds : Int := (hours * 3600 + minutes * 60 : Nat)
  if negative then -seconds else seconds

variable {hours minutes : Nat} {hourText between minuteText : List Char} {sign : Char} {negative : Bool}

/-- An offset is read from its sign, its hours, what separates them and its minutes. -/
theorem readOffset_eq {separate : List Char → Option (List Char)}
    (hsign : offsetSign sign = some negative) (hhours : Digits 2 hours hourText)
    (hminutes : Digits 2 minutes minuteText) (hlt : minutes < 60)
    (hseparate : separate (between ++ (minuteText ++ rest)) = some (minuteText ++ rest)) :
    readOffset separate (sign :: (hourText ++ (between ++ (minuteText ++ rest)))) =
      some (offsetSeconds negative hours minutes, rest) := by
  simp only [readOffset, hsign, hhours.twoDigits_eq, hseparate, hminutes.twoDigits_eq, hlt, if_true,
    Option.bind_eq_bind, Option.bind_some]
  rfl

/-- An offset with a colon ends the strict layout. -/
theorem read_zone (hsign : offsetSign sign = some negative) (hhours : Digits 2 hours hourText)
    (hminutes : Digits 2 minutes minuteText) (hlt : minutes < 60) (rest : List Char) :
    read r zone (sign :: (hourText ++ ([':'] ++ (minuteText ++ rest)))) =
      some ({ r with offset := offsetSeconds negative hours minutes }, rest) := by
  have hupper : sign ≠ 'Z' := by
    rintro rfl
    cases hsign
  have hlower : sign ≠ 'z' := by
    rintro rfl
    cases hsign
  simp only [read]
  split
  case h_1 heq => exact absurd (List.cons.inj heq).1 hupper
  case h_2 heq => exact absurd (List.cons.inj heq).1 hlower
  case h_3 =>
    rw [readOffset_eq hsign hhours hminutes hlt rfl]
    rfl

/-- No zone is read behind a blank. -/
theorem read_zone_eq_none (h : ∀ c ∈ cs.head?, isBlank c = true) : read r zone cs = none := by
  cases cs with
  | nil => rfl
  | cons c cs =>
    have hblank : isBlank c = true := h c rfl
    have hne : ∀ c' : Char, isBlank c' = false → c ≠ c' := by
      rintro c' hc' rfl
      rw [hblank] at hc'
      cases hc'
    have hsign : offsetSign c = none := by
      unfold offsetSign
      split
      case h_4 => rfl
      all_goals exact absurd hblank (by decide)
    simp [read, readOffset, hsign, hne 'Z' (by decide), hne 'z' (by decide)]

/-- An offset without a colon stands behind a blank. -/
theorem read_offset (hsign : offsetSign sign = some negative) (hblank : isBlank sign = false)
    (hhours : Digits 2 hours hourText) (hminutes : Digits 2 minutes minuteText) (hlt : minutes < 60)
    (rest : List Char) :
    read r offset (sign :: (hourText ++ ([] ++ (minuteText ++ rest)))) =
      some ({ r with offset := offsetSeconds negative hours minutes }, rest) := by
  have hseparate : (minuteText ++ rest).dropWhile (fun c => c == ':' || isBlank c) =
      minuteText ++ rest := by
    obtain ⟨c, cs, rfl, hc⟩ := hminutes.exists_cons Nat.two_pos
    have hcolon : c ≠ ':' := by
      rintro rfl
      cases hc
    rw [List.cons_append,
      List.dropWhile_cons_of_neg (by simp [hcolon, isBlank_of_isDigit hc])]
  simp only [read, List.dropWhile_cons, hblank, Bool.false_eq_true, if_false]
  rw [readOffset_eq hsign hhours hminutes hlt]
  · rfl
  · exact congrArg some hseparate

end LayoutItem

/-! ## Items one after the other -/

namespace Timestamp

variable {r r' : ClockReading} {item : LayoutItem} {cs rest : List Char}

/-- A layout goes on behind its first item. -/
theorem readLayout_cons (h : item.read r cs = some (r', rest)) (items : List LayoutItem) :
    readLayout r (item :: items) cs = readLayout r' items rest := by
  simp only [readLayout, h]

/-- A layout fails with its first item. -/
theorem readLayout_cons_eq_none (h : item.read r cs = none) (items : List LayoutItem) :
    readLayout r (item :: items) cs = none := by
  simp only [readLayout, h]

/-- A mark is read as one of those allowed. -/
theorem readLayout_oneOf {c : Char} {allowed : List Char} (h : c ∈ allowed) (items : List LayoutItem)
    (rest : List Char) :
    readLayout r (.oneOf allowed :: items) (c :: rest) = readLayout r items rest :=
  readLayout_cons (LayoutItem.read_oneOf h r rest) items

/-- A full number is read by its item, and the layout goes on. -/
theorem readLayout_takes {field : ClockReading.Field} {width n : Nat} (htakes : item.Takes field width)
    (hdigits : LayoutItem.Digits width n cs) (items : List LayoutItem) (rest : List Char) :
    readLayout r (item :: items) (cs ++ rest) = readLayout (r.set field n) items rest :=
  readLayout_cons (htakes hdigits rest) items

end Timestamp

end DocQuery
