import DocQuery.Time.Calendar

/-!
# Timestamps

An instant of universal time with nanoseconds. A leap second is kept: it is the second before it
with a billion nanoseconds or more, and is written as second 60.
-/

namespace DocQuery

/-- An instant: the day, the second of the day, and nanoseconds, which go beyond a second only
inside a leap second. -/
structure Timestamp where
  day : Int
  second : Nat
  nano : Nat
deriving DecidableEq, Repr, Inhabited

namespace Timestamp

/-- Nanoseconds in a second. -/
def nanosPerSecond : Nat := 1000000000

/-- Seconds in a day. -/
def secondsPerDay : Nat := 86400

/-- A number with zeros in front up to `width` digits. -/
def padded (width n : Nat) : String :=
  let digits := toString n
  String.ofList (List.replicate (width - digits.length) '0') ++ digits

/-- Years of four digits stand bare, the others take a sign. -/
def yearText (year : Int) : String :=
  if 0 ≤ year ∧ year ≤ 9999 then padded 4 year.natAbs
  else (if year < 0 then "-" else "+") ++ padded 4 year.natAbs

/-- The fraction of a second in three, six or nine digits, whichever are the least that are exact,
and nothing for a whole second. -/
def fractionText (nano : Nat) : String :=
  if nano = 0 then ""
  else if nano % 1000000 = 0 then "." ++ padded 3 (nano / 1000000)
  else if nano % 1000 = 0 then "." ++ padded 6 (nano / 1000)
  else "." ++ padded 9 nano

/-- Date and time without an offset. -/
def localText (t : Timestamp) : String :=
  let date := Date.ofDayNumber t.day
  let isLeap := nanosPerSecond ≤ t.nano
  let second := t.second % 60 + (if isLeap then 1 else 0)
  let nano := if isLeap then t.nano - nanosPerSecond else t.nano
  yearText date.year ++ "-" ++ padded 2 date.month ++ "-" ++ padded 2 date.day ++ "T"
    ++ padded 2 (t.second / 3600) ++ ":" ++ padded 2 (t.second / 60 % 60) ++ ":"
    ++ padded 2 second ++ fractionText nano

/-- The text with a numeric offset, as literals have it. -/
def rfc3339 (t : Timestamp) : String := t.localText ++ "+00:00"

/-- The text with the letter Z, as JSON has it. -/
def zulu (t : Timestamp) : String := t.localText ++ "Z"

/-- The instant `milliseconds` later, when it is in range. A leap second that is not left stays one;
a step forward out of it first takes it away, and a step of a second or more back counts it as the
start of the next second. -/
def addMilliseconds? (t : Timestamp) (milliseconds : Int) : Option Timestamp :=
  let seconds := milliseconds.tdiv 1000
  let nanos := milliseconds.tmod 1000 * 1000000
  let second : Int := t.second
  let nano : Int := t.nano
  let limit : Int := nanosPerSecond
  let isLeap := limit ≤ nano
  if isLeap ∧ ¬ (0 < seconds ∨ (0 < nanos ∧ 2 * limit - nanos ≤ nano)) ∧ ¬ seconds < 0 then
    some { t with nano := (nano + nanos).toNat }
  else
    let leavesForward := 0 < seconds ∨ (0 < nanos ∧ 2 * limit - nanos ≤ nano)
    let second := second + (if isLeap ∧ ¬ leavesForward then 1 else 0) + seconds
    let nano := (if isLeap then nano - limit else nano) + nanos
    let second := second + nano / limit
    let day := t.day + second / secondsPerDay
    if Date.inRange day then
      some ⟨day, (second % secondsPerDay).toNat, (nano % limit).toNat⟩
    else none

end Timestamp

end DocQuery
