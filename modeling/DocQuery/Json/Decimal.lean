import DocQuery.Json.Basic

/-!
# Decimals in JSON text

How the digits of a number become a JSON number. A whole number that fits 64 bits is kept. Every
other number is a double, computed from the leading digits that fit a word of 64 bits and a power of
ten. The digits behind those count only for the power, and the arithmetic rounds at each step.
-/

namespace DocQuery

namespace Json

/-- The value of a decimal digit. -/
def digitValue (c : Char) : Nat := c.toNat - '0'.toNat

/-- The number that a run of digits denotes. -/
abbrev digitsValue (digits : List Char) : Nat := Nat.ofDigitChars 10 digits 0

/-- The words of 64 bits lie below this. -/
def wordLimit : Nat := 0x10000000000000000

/-- Appends digits to a number up to the first that would not leave a word. Gives the number and the
digits that remain. -/
def appendDigits : Nat → List Char → Nat × List Char
  | n, [] => (n, [])
  | n, c :: digits =>
    if n * 10 + digitValue c < wordLimit then appendDigits (n * 10 + digitValue c) digits
    else (n, c :: digits)

theorem appendDigits_lt {n : Nat} (digits : List Char) (h : n < wordLimit) :
    (appendDigits n digits).1 < wordLimit := by
  induction digits generalizing n with
  | nil => simpa [appendDigits] using h
  | cons c digits ih =>
    rw [appendDigits]
    split
    · next fits => exact ih fits
    · exact h

/-- The digits in front of the point and behind it as a word times a power of ten. Digits that do
not fit the word are dropped; those in front of the point still count for the power. -/
def decimalParts (whole fraction : List Char) : Nat × Int :=
  let (n, dropped) := appendDigits 0 whole
  let (n, remaining) := appendDigits n fraction
  (n, (dropped.length : Int) + remaining.length - fraction.length)

/-- The double of a decimal; `none` when it lies beyond the largest finite double. -/
def decimalDouble (negative : Bool) (whole fraction : List Char) (exponent : Int) :
    Option Binary64 := do
  let (n, places) := decimalParts whole fraction
  let x ← Binary64.ofRatio negative n 1
  x.scaleTen (places + exponent)

/-- The number that a sign, the digits in front of the point, those behind it and an exponent
denote. Only without the last two can it be a whole number, and the negative zero is none. -/
def decimalNumber (negative : Bool) (whole fraction : List Char) (exponent : Option Int) :
    Option JsonNumber :=
  let (n, dropped) := appendDigits 0 whole
  let value : Int := if negative then -(n : Int) else n
  if fraction.isEmpty ∧ exponent.isNone ∧ dropped.isEmpty ∧ JsonNumber.minInt ≤ value
      ∧ ¬ (negative ∧ n = 0) then
    some (.int value)
  else (decimalDouble negative whole fraction (exponent.getD 0)).map JsonNumber.float

end Json

end DocQuery
