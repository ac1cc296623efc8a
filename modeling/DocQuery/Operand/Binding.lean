import DocQuery.Error
import DocQuery.Operand.Basic
import DocQuery.Time.Layout

/-!
# Binding values

How a JSON value becomes the operand of a column: texts for chronological columns are read as
timestamps, and a time span is a start with an end or a number of seconds.
-/

namespace DocQuery

namespace Operand

/-- The operand that `value` denotes for the columns called `label`. -/
def bind (label : String) (value : Json) (chronological : Bool) : Except Error Operand :=
  match chronological, value with
  | true, .string s =>
    match Timestamp.parse s with
    | some t => .ok (instant t)
    | none => .error (.invalidValue label (.notTimestamp s))
  | _, _ =>
    match ofJson? value with
    | some operand => .ok operand
    | none => .error (.invalidValue label (.notBindable value))

end Operand

/-- A start and an end in time. -/
structure TimeSpan where
  start : Timestamp
  stop : Timestamp
deriving DecidableEq, Repr

namespace TimeSpan

/-- Reads a timestamp for the columns called `label`. -/
def readInstant (label text : String) : Except Error Timestamp :=
  match Timestamp.parse text with
  | some t => .ok t
  | none => .error (.invalidValue label (.notTimestamp text))

/-- The instant that lies a number of seconds, rounded to milliseconds, after `start`. -/
def after (start : Timestamp) (seconds : JsonNumber) : Option Timestamp := do
  let seconds ← seconds.toBinary64
  let milliseconds ← seconds.scale 1000
  start.addMilliseconds? milliseconds.roundHalfAway

/-- Reads `[start, end or seconds]`; further items are ignored. -/
def read (label : String) (items : List Json) : Except Error TimeSpan := do
  let start ← match (items[0]? : Option Json) with
    | some (.string s) => readInstant label s
    | other => .error (.invalidValue label (.spanStart other))
  let stop ← match (items[1]? : Option Json) with
    | some (.string s) => readInstant label s
    | some (.number n) =>
      match after start n with
      | some t => .ok t
      | none => .error (.invalidValue label .durationOutOfRange)
    | other => .error (.invalidValue label (.spanEnd other))
  return ⟨start, stop⟩

end TimeSpan

end DocQuery
