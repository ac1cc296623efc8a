import DocQuery.Number.Binary64
import Mathlib.Algebra.Order.Ring.Abs
import Mathlib.Data.Nat.Log
import Mathlib.Data.Rat.Cast.Order
import Mathlib.Tactic.Linarith
import Mathlib.Tactic.Ring

namespace DocQuery

/-! # Whole numbers as doubles

A whole number of more than 53 bits lies on a grid that is coarser than one, and becomes the nearest
point of it. So it is kept exactly if it is on the grid, and else moves by at most half a step.

* `exists_ofInt_word`: an integer beyond the signed words becomes a nearest double.
* `NearestStep.toRat_eq_iff`: and is held exactly if it is a multiple of 2048.
-/

namespace Binary64

/-- The number that the double stands for. -/
def toRat (x : Binary64) : ℚ :=
  (if x.negative then -1 else 1) * (x.mantissa * 2 ^ x.exponent)

/-- The rounded quotient is off by at most one half. -/
theorem divNearestEven_near (num : Nat) {den : Nat} (hden : 0 < den) :
    2 * (den * divNearestEven num den) ≤ 2 * num + den ∧
      2 * num ≤ 2 * (den * divNearestEven num den) + den := by
  have hsplit : den * (num / den) + num % den = num := Nat.div_add_mod num den
  have hrest : num % den < den := Nat.mod_lt num hden
  unfold divNearestEven
  simp only
  split
  · omega
  · split
    · rw [Nat.mul_add]
      omega
    · -- a half: the quotient is kept or increased, whichever is even
      rcases Nat.mod_two_eq_zero_or_one (num / den) with hparity | hparity
      · rw [hparity, Nat.add_zero]
        omega
      · rw [hparity, Nat.mul_add]
        omega

/-- A number without a fraction and with more than 53 bits has 53 bits on its grid. -/
theorem gridExponent_whole {n : Nat} (hlong : 53 ≤ n.log2) :
    gridExponent n 1 = ((n.log2 - 52 : Nat) : Int) := by
  have hne : n ≠ 0 := by
    rintro rfl
    simp at hlong
  have hlow : ((n.log2 : Int) - (Nat.log2 1 : Nat) - 53) = ((n.log2 - 53 : Nat) : Int) := by
    have hone : Nat.log2 1 = 0 := by decide
    omega
  have hpow : 2 ^ (n.log2 - 53) * 2 ^ 53 ≤ n := by
    rw [← Nat.pow_add, Nat.sub_add_cancel hlong]
    exact Nat.log2_self_le hne
  have hquotient : ¬n / 2 ^ (n.log2 - 53) < 2 ^ 53 := by
    rw [Nat.not_lt, Nat.le_div_iff_mul_le (by positivity), Nat.mul_comm]
    exact hpow
  unfold gridExponent
  simp only [hlow, scaled, Int.natCast_nonneg, if_true, Int.toNat_natCast, Nat.pow_eq, Nat.one_mul,
    if_neg hquotient, minExponent]
  omega

/-- A number without a fraction becomes the nearest point of its grid. -/
theorem exists_ofRatio_whole {n : Nat} (negative : Bool) (hlong : 53 ≤ n.log2)
    (hfinite : n.log2 ≤ 1022) :
    ∃ x, ofRatio negative n 1 = some x ∧ x.negative = negative ∧
      (x.mantissa : ℚ) * 2 ^ x.exponent =
        2 ^ (n.log2 - 52) * divNearestEven n (2 ^ (n.log2 - 52)) := by
  have hne : n ≠ 0 := by
    rintro rfl
    simp at hlong
  generalize hstep : n.log2 - 52 = k
  have hgrid : gridExponent n 1 = (k : Int) := by
    rw [gridExponent_whole hlong, hstep]
  unfold ofRatio
  simp only [if_neg hne, hgrid, scaled, Int.natCast_nonneg, if_true, Int.toNat_natCast, Nat.pow_eq,
    Nat.one_mul, maxExponent]
  split
  · -- the mantissa got one bit longer, and the grid one step coarser
    rename_i hcarry
    rw [if_neg (by omega), hcarry]
    refine ⟨_, rfl, rfl, ?_⟩
    rw [zpow_add_one₀ (by norm_num), zpow_natCast]
    push_cast
    ring
  · rw [if_neg (by omega)]
    refine ⟨_, rfl, rfl, ?_⟩
    rw [zpow_natCast, mul_comm]

/-- The double stands for a multiple of 2048 that is nearest to the number. -/
def NearestStep (x : Binary64) (i : Int) : Prop :=
  ∃ k : Int, x.toRat = (2048 * k : Int) ∧ |2048 * k - i| ≤ 1024

/-- A number is kept where it is rounded to a multiple of 2048 exactly if it is one. -/
theorem NearestStep.toRat_eq_iff {x : Binary64} {i : Int} (h : x.NearestStep i) :
    x.toRat = i ↔ 2048 ∣ i := by
  rcases h with ⟨k, hvalue, hnear⟩
  rw [hvalue, Int.cast_inj]
  rw [abs_le] at hnear
  constructor
  · rintro rfl
    exact Int.dvd_mul_right 2048 k
  · rintro ⟨j, rfl⟩
    omega

/-- A word beyond the signed ones is rounded to a nearest multiple of 2048. -/
theorem exists_ofInt_word {i : Int} (hlow : 0x7FFFFFFFFFFFFFFF < i) (hhigh : i ≤ 0xFFFFFFFFFFFFFFFF) :
    ∃ x, ofInt i = some x ∧ x.NearestStep i := by
  obtain ⟨n, rfl⟩ := Int.eq_ofNat_of_zero_le (by omega : 0 ≤ i)
  have hlog : n.log2 = 63 := (Nat.log2_eq_iff (by omega)).2 ⟨by omega, by omega⟩
  rcases exists_ofRatio_whole false (by omega : 53 ≤ n.log2) (by omega) with ⟨x, hx, hsign, hvalue⟩
  have hnear := divNearestEven_near n (by norm_num : 0 < 2048)
  have hsigned : decide ((n : Int) < 0) = false := decide_eq_false (by omega)
  refine ⟨x, by rw [ofInt, hsigned, Int.natAbs_natCast, hx], (divNearestEven n 2048 : Nat), ?_, ?_⟩
  · rw [toRat, hsign, hvalue, hlog]
    norm_num
  · rw [abs_le]
    omega

end Binary64

end DocQuery
