/-!
# Finite binary floating-point numbers

A double is kept as its exact value, a sign, a whole mantissa and a power of two, so that rounding
and printing are arithmetic on natural numbers. `ofRatio` rounds a fraction to the nearest double;
everything that makes a double goes through it.
-/

namespace DocQuery

/-- The number `± mantissa · 2 ^ exponent`. Rounding makes the mantissa as long as the 53 bits and
the least exponent allow, so equal numbers of one sign are equal records. -/
structure Binary64 where
  negative : Bool
  mantissa : Nat
  exponent : Int
deriving DecidableEq, Repr, Inhabited

namespace Binary64

/-- The quotient rounded to the nearest whole number, a half going to the even neighbour. -/
def divNearestEven (num den : Nat) : Nat :=
  let q := num / den
  let r := num % den
  if 2 * r < den then q
  else if den < 2 * r then q + 1
  else q + q % 2

/-- How many decimal digits the number is written with. -/
def decimalLength (n : Nat) : Nat :=
  (Nat.toDigits 10 n).length

/-- Exponent of the finest grid of doubles. -/
def minExponent : Int := -1074

/-- Exponent of the coarsest grid of finite doubles. -/
def maxExponent : Int := 971

/-- The fraction `num / den` divided by `2 ^ e`, as numerator and denominator. -/
def scaled (num den : Nat) (e : Int) : Nat × Nat :=
  if 0 ≤ e then (num, den * Nat.pow 2 e.toNat) else (num * Nat.pow 2 (-e).toNat, den)

/-- Exponent of the grid on which `num / den` has 53 bits before the point, or of the finest grid
when the fraction is too small for that. -/
def gridExponent (num den : Nat) : Int :=
  let low : Int := (num.log2 : Int) - den.log2 - 53
  let (n, d) := scaled num den low
  max minExponent (if n / d < Nat.pow 2 53 then low else low + 1)

/-- The double nearest to `num / den`, a tie going to the even mantissa; `none` when it lies beyond
the largest finite double. -/
def ofRatio (negative : Bool) (num den : Nat) : Option Binary64 :=
  if num = 0 then some ⟨negative, 0, minExponent⟩
  else
    let e := gridExponent num den
    let (n, d) := scaled num den e
    let m := divNearestEven n d
    let (m, e) := if m = Nat.pow 2 53 then (Nat.pow 2 52, e + 1) else (m, e)
    if maxExponent < e then none else some ⟨negative, m, e⟩

/-- The double nearest to `± digits · 10 ^ exponent`. Exponents far outside the range of doubles are
answered without computing the power. -/
def ofDecimal (negative : Bool) (digits : Nat) (exponent : Int) : Option Binary64 :=
  if digits = 0 then ofRatio negative 0 1
  else
    let magnitude : Int := decimalLength digits + exponent
    if 310 < magnitude then none
    else if magnitude < -330 then ofRatio negative 0 1
    else if 0 ≤ exponent then ofRatio negative (digits * Nat.pow 10 exponent.toNat) 1
    else ofRatio negative digits (Nat.pow 10 (-exponent).toNat)

/-- The double nearest to a whole number. -/
def ofInt (i : Int) : Option Binary64 :=
  ofRatio (i < 0) i.natAbs 1

/-- Numerator and denominator of the magnitude. -/
def ratio (x : Binary64) : Nat × Nat :=
  if 0 ≤ x.exponent then (x.mantissa * Nat.pow 2 x.exponent.toNat, 1)
  else (x.mantissa, Nat.pow 2 (-x.exponent).toNat)

/-- The nearest double to `x` times `k`. -/
def scale (k : Nat) (x : Binary64) : Option Binary64 :=
  let (n, d) := x.ratio
  ofRatio x.negative (n * k) d

/-- The double nearest to the product; `none` when it lies beyond the largest finite double. -/
def mul (x y : Binary64) : Option Binary64 :=
  let (a, b) := x.ratio
  let (c, d) := y.ratio
  ofRatio (x.negative != y.negative) (a * c) (b * d)

/-- The double nearest to the quotient; `none` when there is no finite one. -/
def div (x y : Binary64) : Option Binary64 :=
  if y.mantissa = 0 then none
  else
    let (a, b) := x.ratio
    let (c, d) := y.ratio
    ofRatio (x.negative != y.negative) (a * d) (b * c)

/-! ## Powers of ten

Scaling by a power of ten in the arithmetic of doubles. Every product and every quotient is rounded,
and so is the power, so the result need not be the double nearest to the scaled number.
-/

/-- The greatest power of ten that is a finite double is `10 ^ 308`. -/
def maxTenPower : Nat := 308

/-- The double nearest to `10 ^ k`, for `k` up to `maxTenPower`. -/
def tenPower (k : Nat) : Option Binary64 :=
  if k ≤ maxTenPower then ofRatio false (Nat.pow 10 k) 1 else none

/-- The number divided by the greatest power of ten, `times` over or until it is zero. -/
def divMaxTenPower : Nat → Binary64 → Option Binary64
  | 0, x => some x
  | times + 1, x =>
    if x.mantissa = 0 then some x
    else (tenPower maxTenPower).bind fun power => (x.div power).bind (divMaxTenPower times)

/-- The number divided by `10 ^ places`, by the greatest power of ten as long as more places remain
than that has. -/
def divTenPower (x : Binary64) (places : Nat) : Option Binary64 :=
  let times := (places - 1) / maxTenPower
  (divMaxTenPower times x).bind fun y => (tenPower (places - times * maxTenPower)).bind y.div

/-- The number times `10 ^ exponent`; zero stays as it is. -/
def scaleTen (x : Binary64) (exponent : Int) : Option Binary64 :=
  if exponent < 0 then x.divTenPower (-exponent).toNat
  else if x.mantissa = 0 then some x
  else (tenPower exponent.toNat).bind x.mul

/-- The nearest whole number, a half going away from zero. -/
def roundHalfAway (x : Binary64) : Int :=
  let (n, d) := x.ratio
  let magnitude : Int := ((2 * n + d) / (2 * d) : Nat)
  if x.negative then -magnitude else magnitude

end Binary64

end DocQuery
