import DocQuery.Number.Binary64

/-!
# Shortest decimal digits

`Binary64.shortest` finds the fewest decimal digits that read back as the same double, and of those
the digits nearest to it. How the digits are laid out is a record, `NumberLayout`, because the two
texts this library writes, JSON numbers and literals, differ only there.
-/

namespace DocQuery

/-- Which neighbour is taken when a double lies halfway between two shortest decimals. -/
inductive Tie where
  | up
  | toEven
deriving DecidableEq, Repr

namespace Binary64

/-- The exponent `k` with `10 ^ k ≤ num / den < 10 ^ (k + 1)`, for a positive fraction. -/
def decimalExponent (num den : Nat) : Int :=
  if den ≤ num then (decimalLength (num / den) : Int) - 1
  else
    let places := decimalLength (den / num)
    if num * Nat.pow 10 (places - 1) = den then 1 - (places : Int) else -(places : Int)

/-- Whether `digits · 10 ^ k` reads back as the double with mantissa `m` and exponent `e`: it lies
within half a step of the grid, the ends included when the mantissa is even. Below the least
mantissa of a binade the grid is twice as fine. -/
def readsBack (m : Nat) (e : Int) (digits : Nat) (k : Int) : Bool :=
  -- everything is compared in quarters of the grid step
  let below : Nat := if m = Nat.pow 2 52 ∧ minExponent < e then 1 else 2
  let (num, den) :=
    if 0 ≤ k then (digits * Nat.pow 10 k.toNat, 1) else (digits, Nat.pow 10 (-k).toNat)
  let (n, d) := scaled (4 * num) den e
  if m % 2 = 0 then (4 * m - below) * d ≤ n && n ≤ (4 * m + 2) * d
  else (4 * m - below) * d < n && n < (4 * m + 2) * d

/-- The better of the two neighbours of `num / den` among the multiples of `10 ^ k` that read
back. -/
def nearestOnGrid (tie : Tie) (m : Nat) (e : Int) (num den : Nat) (k : Int) : Option Nat :=
  let (n, d) :=
    if 0 ≤ k then (num, den * Nat.pow 10 k.toNat) else (num * Nat.pow 10 (-k).toNat, den)
  let low := n / d
  let twice := 2 * (n % d)
  match readsBack m e low k, readsBack m e (low + 1) k with
  | true, true =>
    if twice < d then some low
    else if d < twice then some (low + 1)
    else match tie with
      | .up => some (low + 1)
      | .toEven => some (low + low % 2)
  | true, false => some low
  | false, true => some (low + 1)
  | false, false => none

/-- Removes trailing zeros of the digits into the exponent. -/
def stripZeros (digits : Nat) (k : Int) : Nat → Nat × Int
  | 0 => (digits, k)
  | fuel + 1 =>
    if digits ≠ 0 ∧ digits % 10 = 0 then stripZeros (digits / 10) (k + 1) fuel else (digits, k)

/-- Digits and decimal exponent of the shortest decimal that reads back as the magnitude of `x`.
Seventeen digits always suffice. -/
def shortest (tie : Tie) (x : Binary64) : Nat × Int :=
  if x.mantissa = 0 then (0, 0)
  else
    let (num, den) := x.ratio
    let top := decimalExponent num den
    let found := (List.range 17).findSome? fun (i : Nat) =>
      let k := top - i
      (nearestOnGrid tie x.mantissa x.exponent num den k).map fun digits => (digits, k)
    let (digits, k) := found.getD (0, 0)
    stripZeros digits k 17

end Binary64

/-- How the digits of a number become text. -/
structure NumberLayout where
  /-- Which way an exact tie between two shortest decimals goes. -/
  tie : Tie
  /-- Whether a whole number is followed by `.0`. -/
  pointZero : Bool
  /-- Least and greatest decimal exponent written without an exponent mark, if there are such. -/
  positional : Option (Int × Int)
deriving DecidableEq, Repr

namespace NumberLayout

/-- Digits with a point after the place `point`, padded with zeros where needed. -/
def positionalText (layout : NumberLayout) (digits : String) (point : Int) : String :=
  let n : Int := digits.length
  if n ≤ point then
    digits ++ String.ofList (List.replicate (point - n).toNat '0')
      ++ (if layout.pointZero then ".0" else "")
  else if 0 < point then
    let cs := digits.toList
    String.ofList (cs.take point.toNat) ++ "." ++ String.ofList (cs.drop point.toNat)
  else
    "0." ++ String.ofList (List.replicate (-point).toNat '0') ++ digits

/-- One digit before the point, the rest behind it, and a signed exponent. -/
def exponentText (digits : String) (exponent : Int) : String :=
  let cs := digits.toList
  let mantissa := match cs with
    | [] => ""
    | c :: [] => String.ofList [c]
    | c :: rest => String.ofList (c :: '.' :: rest)
  mantissa ++ (if exponent < 0 then "e-" else "e+") ++ toString exponent.natAbs

/-- The text of a double. -/
def text (layout : NumberLayout) (x : Binary64) : String :=
  let (digits, k) := x.shortest layout.tie
  let shown := toString digits
  let point : Int := shown.length + k
  let positional := match layout.positional with
    | none => true
    | some (low, high) => digits = 0 ∨ (low ≤ point - 1 ∧ point - 1 ≤ high)
  (if x.negative then "-" else "")
    ++ (if positional then layout.positionalText shown point else exponentText shown (point - 1))

/-- Numbers in JSON text keep a point, and turn to an exponent below `10⁻⁵` and from `10¹⁶` on. -/
def json : NumberLayout := ⟨.toEven, true, some (-5, 15)⟩

/-- Numbers in literals are written out in full. -/
def plain : NumberLayout := ⟨.up, false, none⟩

end NumberLayout

end DocQuery
