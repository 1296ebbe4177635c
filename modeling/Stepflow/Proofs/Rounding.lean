import Mathlib.Algebra.Order.Field.Rat
import Mathlib.Tactic.Linarith
import Mathlib.Tactic.Positivity
import Mathlib.Tactic.Ring
import Stepflow.Retry

/-!
# Rounding

Fractions are rounded in two ways: to whole numbers (`roundHalfEven`), and to floating-point numbers
(`Binary.nearest`). Of the first it matters that it keeps the order and is off by a half at most, of the
second only that it is off by little on the fractions that delays are made of.
-/

namespace Stepflow.Decimal

variable {num num' den k n : Nat}

/-! ## Whole numbers -/

theorem div_le_roundDiv : num / den ≤ roundDiv num den := by
  unfold roundDiv
  grind

theorem roundDiv_le_div_succ : roundDiv num den ≤ num / den + 1 := by
  unfold roundDiv
  grind

/-- **A rounded quotient is off by a half at most.** -/
theorem roundDiv_near (hden : 0 < den) : |(roundDiv num den : Rat) - num / den| ≤ 1 / 2 := by
  have hbounds : 2 * (roundDiv num den * den) ≤ 2 * num + den ∧
      2 * num ≤ 2 * (roundDiv num den * den) + den := by
    have hdiv := Nat.div_add_mod' num den
    have hlt := Nat.mod_lt num hden
    have hsucc : (num / den + 1) * den = num / den * den + den := Nat.succ_mul _ _
    unfold roundDiv
    dsimp only
    split_ifs <;> omega
  have hle : (2 : Rat) * (roundDiv num den * den) ≤ 2 * num + den := by exact_mod_cast hbounds.1
  have hge : (2 : Rat) * num ≤ 2 * (roundDiv num den * den) + den := by exact_mod_cast hbounds.2
  have hpos : (0 : Rat) < den := Nat.cast_pos.2 hden
  rw [abs_le, le_sub_iff_add_le, sub_le_iff_le_add, ← sub_eq_neg_add, sub_le_iff_le_add,
    div_le_iff₀ hpos, ← sub_le_iff_le_add', le_div_iff₀ hpos]
  constructor <;> linarith

/-- Rounding keeps the order. -/
theorem roundDiv_mono (h : num ≤ num') : roundDiv num den ≤ roundDiv num' den := by
  obtain hlt | heq := (Nat.div_le_div_right h : num / den ≤ num' / den).lt_or_eq
  · exact roundDiv_le_div_succ.trans (hlt.trans_le div_le_roundDiv)
  · have hdiv := Nat.div_add_mod' num den
    have hdiv' := Nat.div_add_mod' num' den
    have hmod : num % den ≤ num' % den := by rw [heq] at hdiv; omega
    unfold roundDiv
    rw [heq]
    dsimp only
    split_ifs <;> omega

/-- A common factor does not matter. -/
theorem roundDiv_mul_right (hk : 0 < k) : roundDiv (num * k) (den * k) = roundDiv num den := by
  unfold roundDiv
  dsimp only
  rw [Nat.mul_div_mul_right _ _ hk, Nat.mul_mod_mul_right, ← Nat.mul_assoc]
  simp only [Nat.mul_lt_mul_right hk]

end Stepflow.Decimal

namespace Stepflow.Retry

open Decimal

variable {x y : Rat} {n : Nat}

/-- A fraction that is not negative is the quotient that its rounding starts from. -/
theorem eq_toNat_div (hx : 0 ≤ x) : x = (x.num.toNat : Rat) / (x.den : Rat) := by
  have hnum : ((x.num.toNat : Int) : Rat) = (x.num : Rat) := by
    rw [Int.toNat_of_nonneg (Rat.num_nonneg.2 hx)]
  rw [← Int.cast_natCast x.num.toNat, hnum]
  exact (Rat.num_div_den x).symm

theorem roundHalfEven_near (hx : 0 ≤ x) : |(roundHalfEven x : Rat) - x| ≤ 1 / 2 := by
  have hnear : |(roundHalfEven x : Rat) - (x.num.toNat : Rat) / x.den| ≤ 1 / 2 := roundDiv_near x.den_pos
  rwa [← eq_toNat_div hx] at hnear

/-- **Rounding keeps the order.** -/
theorem roundHalfEven_mono (hx : 0 ≤ x) (h : x ≤ y) : roundHalfEven x ≤ roundHalfEven y := by
  have hy := hx.trans h
  have hcross : x.num.toNat * y.den ≤ y.num.toNat * x.den := by
    rw [eq_toNat_div hx, eq_toNat_div hy, div_le_div_iff₀ (Nat.cast_pos.2 x.den_pos)
      (Nat.cast_pos.2 y.den_pos)] at h
    exact_mod_cast h
  calc roundHalfEven x
    _ = roundDiv (x.num.toNat * y.den) (x.den * y.den) := (roundDiv_mul_right y.den_pos).symm
    _ ≤ roundDiv (y.num.toNat * x.den) (x.den * y.den) := roundDiv_mono hcross
    _ = roundDiv (y.num.toNat * x.den) (y.den * x.den) := by rw [Nat.mul_comm x.den]
    _ = roundHalfEven y := roundDiv_mul_right x.den_pos

/-- A number that is less than a half away is what a fraction is rounded to. -/
theorem roundHalfEven_eq (hx : 0 ≤ x) (h : |x - n| < 1 / 2) : roundHalfEven x = n := by
  have hnear := abs_le.1 (roundHalfEven_near hx)
  have h := abs_lt.1 h
  have hlt : (roundHalfEven x : Rat) < (n + 1 : Nat) := by push_cast; linarith
  have hgt : ((n : Nat) : Rat) < (roundHalfEven x + 1 : Nat) := by push_cast; linarith
  have hlt := Nat.cast_lt.1 hlt
  have hgt := Nat.cast_lt.1 hgt
  omega

/-- A number is kept from below if a fraction is less than a half below it. -/
theorem le_roundHalfEven (hx : 0 ≤ x) (h : (n : Rat) - 1 / 2 < x) : n ≤ roundHalfEven x := by
  have hnear := abs_le.1 (roundHalfEven_near hx)
  have hlt : ((n : Nat) : Rat) < (roundHalfEven x + 1 : Nat) := by push_cast; linarith
  exact Nat.lt_succ_iff.1 (Nat.cast_lt.1 hlt)

end Stepflow.Retry

/-! ## Floating-point numbers -/

namespace Stepflow.Decimal

open Retry

variable {x : Rat} {num den : Nat}

/-- A quotient of 128 at most has at most seven binary digits more than its denominator. -/
theorem bitLength_le (hden : 0 < den) (h : num ≤ 128 * den) : bitLength num ≤ bitLength den + 7 := by
  unfold bitLength
  split_ifs with hnum hzero hzero
  · exact Nat.zero_le _
  · exact Nat.zero_le _
  · omega
  · have hlog : num.log2 < den.log2 + 8 := (Nat.log2_lt hnum).2 <| calc num
      _ ≤ 128 * den := h
      _ < 128 * 2 ^ (den.log2 + 1) := Nat.mul_lt_mul_of_pos_left Nat.lt_log2_self (by decide)
      _ = 2 ^ (den.log2 + 8) := by ring
    omega

namespace Binary

/-- Such a quotient keeps 45 places behind the point at least. -/
theorem lastPlace_le (hden : 0 < den) (h : num ≤ 128 * den) : lastPlace num den ≤ -45 := by
  have hbits := bitLength_le hden h
  unfold lastPlace
  dsimp only
  split_ifs <;> omega

/-- The value of a number with places behind the point. -/
theorem toRat_of_places {m k : Nat} (hk : 0 < k) : toRat ⟨false, m, -(k : Int)⟩ = (m : Rat) / 2 ^ k := by
  have hneg : ¬(0 : Int) ≤ -(k : Int) := by omega
  unfold toRat
  dsimp only
  rw [if_neg hneg, if_neg Bool.false_ne_true, neg_neg, Int.toNat_natCast]
  exact congrArg _ (Nat.cast_pow 2 k)

/-- **A fraction of 128 at most is off by little** when it is rounded, and does not change its sign. -/
theorem nearest_near (hx : 0 ≤ x) (hle : x ≤ 128) : 0 ≤ nearest x ∧ |nearest x - x| ≤ 1 / 2 ^ 46 := by
  have habs : x.num.natAbs = x.num.toNat := by
    have := Rat.num_nonneg.2 hx
    omega
  have hsign : decide (x.num < 0) = false := decide_eq_false (Int.not_lt.2 (Rat.num_nonneg.2 hx))
  have hden : (0 : Rat) < x.den := Nat.cast_pos.2 x.den_pos
  have hplace : lastPlace x.num.toNat x.den ≤ -45 := by
    refine lastPlace_le x.den_pos ?_
    have hnum : (x.num.toNat : Rat) ≤ 128 * x.den := by
      rw [eq_toNat_div hx] at hle
      exact (div_le_iff₀ hden).1 hle
    exact_mod_cast hnum
  rw [nearest, nearestMagnitude, habs, hsign]
  by_cases hzero : x.num.toNat = 0
  · have hx0 : x = 0 := by rw [eq_toNat_div hx, hzero]; simp
    rw [if_pos hzero, hx0]
    simp [toRat]
  · rw [if_neg hzero]
    dsimp only
    rw [if_neg (by omega)]
    obtain ⟨k, hk, hplace⟩ : ∃ k : Nat, 45 ≤ k ∧ lastPlace x.num.toNat x.den = -(k : Int) :=
      ⟨(-lastPlace x.num.toNat x.den).toNat, by omega, by omega⟩
    have hunit : (0 : Rat) < 2 ^ k := by positivity
    -- the rounded number of units in the last place is off by half a unit
    have hnear : |(roundDiv (x.num.toNat * 2 ^ k) x.den : Rat) - 2 ^ k * x| ≤ 1 / 2 := by
      have hquotient : 2 ^ k * x = ((x.num.toNat * 2 ^ k : Nat) : Rat) / x.den := by
        push_cast
        rw [mul_div_right_comm, ← eq_toNat_div hx, mul_comm]
      rw [hquotient]
      exact roundDiv_near x.den_pos
    have hfine : (2 : Rat) ^ 46 ≤ 2 * 2 ^ k := by
      rw [← pow_succ']
      exact pow_le_pow_right₀ one_le_two (by omega)
    rw [hplace, neg_neg, Int.toNat_natCast, toRat_of_places (by omega)]
    refine ⟨by positivity, ?_⟩
    rw [div_sub' hunit.ne', abs_div, abs_of_pos hunit]
    calc |(roundDiv (x.num.toNat * 2 ^ k) x.den : Rat) - 2 ^ k * x| / 2 ^ k
      _ ≤ 1 / 2 / 2 ^ k := by gcongr
      _ = 1 / (2 * 2 ^ k) := by rw [div_div]
      _ ≤ 1 / 2 ^ 46 := by gcongr

end Binary

end Stepflow.Decimal
