import DocQuery.Text.Blank
import DocQuery.Time.Timestamp

/-!
# Reading timestamps

A timestamp is accepted in several layouts, which are data: a layout is a list of items, each of
which reads a piece of the text. `Timestamp.parse` tries the layouts in order and takes the first
that reads the whole text as an existing date and time. A text without an offset is universal time.
-/

namespace DocQuery

/-- The numbers of a date and time, as they stand in a text. -/
structure ClockReading where
  year : Int := 0
  month : Nat := 0
  day : Nat := 0
  hour : Nat := 0
  minute : Nat := 0
  second : Nat := 0
  nano : Nat := 0
  /-- Seconds by which the written time is ahead of universal time. -/
  offset : Int := 0
deriving DecidableEq, Repr, Inhabited

namespace ClockReading

/-- The part that a group of digits sets. -/
inductive Field where
  | year
  | month
  | day
  | hour
  | minute
  | second
deriving DecidableEq, Repr

def set (r : ClockReading) (field : Field) (n : Nat) : ClockReading :=
  match field with
  | .year => { r with year := n }
  | .month => { r with month := n }
  | .day => { r with day := n }
  | .hour => { r with hour := n }
  | .minute => { r with minute := n }
  | .second => { r with second := n }

/-- The instant, if date, time and offset exist and the instant is in range. Second 60 is a leap
second in any minute. -/
def toTimestamp? (r : ClockReading) : Option Timestamp :=
  let date : Date := ⟨r.year, r.month, r.day⟩
  let localDay := date.toDayNumber
  if date.isValid && Date.inRange localDay && r.hour < 24 && r.minute < 60 && r.second ≤ 60
      && r.offset.natAbs < Timestamp.secondsPerDay then
    let second := if r.second = 60 then 59 else r.second
    let nano := if r.second = 60 then r.nano + Timestamp.nanosPerSecond else r.nano
    let seconds : Int := (r.hour * 3600 + r.minute * 60 + second : Nat) - r.offset
    let day := localDay + seconds / Timestamp.secondsPerDay
    if Date.inRange day then
      some ⟨day, (seconds % Timestamp.secondsPerDay).toNat, nano⟩
    else none
  else none

end ClockReading

/-- A piece of a timestamp's layout. -/
inductive LayoutItem where
  /-- Exactly so many digits. -/
  | digits (field : ClockReading.Field) (count : Nat)
  /-- Blanks, then one or two digits. -/
  | number (field : ClockReading.Field)
  /-- Blanks, then up to four digits, or a sign and any number of digits. -/
  | year
  /-- Nothing, or a point and digits, of which nine count. -/
  | fraction
  /-- Blanks, a sign and four digits, colons and blanks allowed in the middle. -/
  | offset
  /-- The letter Z, or a sign, two digits, a colon and two digits. -/
  | zone
  /-- Any number of blanks. -/
  | blanks
  /-- One of the characters. -/
  | oneOf (allowed : List Char)
deriving DecidableEq, Repr

namespace LayoutItem

/-- Up to `most` digits at the start of the text, and what follows them. -/
def takeDigits (most : Nat) (cs : List Char) : List Char × List Char :=
  let digits := (cs.takeWhile Char.isDigit).take most
  (digits, cs.drop digits.length)

/-- Two digits and what follows them. -/
def twoDigits : List Char → Option (Nat × List Char)
  | a :: b :: rest =>
    if a.isDigit && b.isDigit then some (Nat.ofDigitChars 10 [a, b] 0, rest) else none
  | _ => none

/-- Whether the sign of an offset, the mathematical minus included, is negative. -/
def offsetSign : Char → Option Bool
  | '+' => some false
  | '-' => some true
  | '−' => some true
  | _ => none

/-- A signed offset of hours and minutes, in seconds; `separate` removes what may stand between
them. -/
def readOffset (separate : List Char → Option (List Char)) :
    List Char → Option (Int × List Char)
  | [] => none
  | sign :: rest => do
    let negative ← offsetSign sign
    let (hours, rest) ← twoDigits rest
    let rest ← separate rest
    let (minutes, rest) ← twoDigits rest
    if minutes < 60 then
      let seconds : Int := (hours * 3600 + minutes * 60 : Nat)
      some (if negative then -seconds else seconds, rest)
    else none

/-- Nanoseconds of a fraction's digits, those beyond the ninth dropped. -/
def nanosOf (digits : List Char) : Nat :=
  let kept := digits.take 9
  Nat.ofDigitChars 10 kept 0 * Nat.pow 10 (9 - kept.length)

/-- Reads one item into `r`. -/
def read (r : ClockReading) (item : LayoutItem) (cs : List Char) :
    Option (ClockReading × List Char) :=
  match item with
  | digits field count =>
    let (found, rest) := takeDigits count cs
    if found.length = count then some (r.set field (Nat.ofDigitChars 10 found 0), rest) else none
  | number field =>
    let (found, rest) := takeDigits 2 (cs.dropWhile isBlank)
    if found.isEmpty then none else some (r.set field (Nat.ofDigitChars 10 found 0), rest)
  | year =>
    let cs := cs.dropWhile isBlank
    let (sign, most, cs) : Int × Nat × List Char := match cs with
      | '+' :: rest => (1, rest.length, rest)
      | '-' :: rest => (-1, rest.length, rest)
      | _ => (1, 4, cs)
    let (found, rest) := takeDigits most cs
    if found.isEmpty then none
    else some ({ r with year := sign * Nat.ofDigitChars 10 found 0 }, rest)
  | fraction =>
    match cs with
    | '.' :: rest =>
      let found := rest.takeWhile Char.isDigit
      if found.isEmpty then none
      else some ({ r with nano := nanosOf found }, rest.dropWhile Char.isDigit)
    | _ => some (r, cs)
  | offset => do
    let (seconds, rest) ←
      readOffset (fun cs => some (cs.dropWhile fun c => c == ':' || isBlank c))
        (cs.dropWhile isBlank)
    some ({ r with offset := seconds }, rest)
  | zone =>
    match cs with
    | 'Z' :: rest => some (r, rest)
    | 'z' :: rest => some (r, rest)
    | _ => do
      let (seconds, rest) ←
        readOffset (fun | ':' :: rest => some rest | _ => none) cs
      some ({ r with offset := seconds }, rest)
  | blanks => some (r, cs.dropWhile isBlank)
  | oneOf allowed =>
    match cs with
    | c :: rest => if c ∈ allowed then some (r, rest) else none
    | [] => none

theorem read_oneOf {c : Char} {allowed : List Char} (h : c ∈ allowed) (r : ClockReading)
    (rest : List Char) : (oneOf allowed).read r (c :: rest) = some (r, rest) := by
  simp [read, h]

end LayoutItem

namespace Timestamp

/-- The strict internet date and time. -/
def strictLayout : List LayoutItem :=
  [.digits .year 4, .oneOf ['-'], .digits .month 2, .oneOf ['-'], .digits .day 2,
   .oneOf ['T', 't', ' '], .digits .hour 2, .oneOf [':'], .digits .minute 2, .oneOf [':'],
   .digits .second 2, .fraction, .zone]

/-- Year, month and day. -/
def dateLayout : List LayoutItem :=
  [.year, .oneOf ['-'], .number .month, .oneOf ['-'], .number .day]

/-- Hour and minute. -/
def minuteLayout : List LayoutItem :=
  [.number .hour, .oneOf [':'], .number .minute]

/-- Hour, minute, second and fraction. -/
def secondLayout : List LayoutItem :=
  minuteLayout ++ [.oneOf [':'], .number .second, .fraction]

/-- The accepted layouts, in the order in which they are tried. -/
def layouts : List (List LayoutItem) :=
  [strictLayout,
   dateLayout ++ [.blanks] ++ secondLayout ++ [.blanks, .offset],
   dateLayout ++ [.oneOf ['T']] ++ secondLayout,
   dateLayout ++ [.blanks] ++ secondLayout,
   dateLayout ++ [.oneOf ['T']] ++ minuteLayout,
   dateLayout ++ [.blanks] ++ minuteLayout,
   dateLayout]

/-- Reads the items one after the other; nothing may remain. -/
def readLayout (r : ClockReading) : List LayoutItem → List Char → Option ClockReading
  | [], cs => if cs.isEmpty then some r else none
  | item :: items, cs =>
    match item.read r cs with
    | some (r, rest) => readLayout r items rest
    | none => none

/-- The instant that a text denotes in one layout. -/
def ofLayout? (layout : List LayoutItem) (cs : List Char) : Option Timestamp :=
  (readLayout {} layout cs).bind ClockReading.toTimestamp?

/-- The instant that a text denotes, blanks around it ignored. -/
def parse (text : String) : Option Timestamp :=
  let cs := trimBlanks text.toList
  layouts.findSome? fun layout => ofLayout? layout cs

end Timestamp

end DocQuery
