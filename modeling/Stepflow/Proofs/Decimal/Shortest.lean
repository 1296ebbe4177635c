import Mathlib.Algebra.Order.Field.Power
import Mathlib.Tactic.FieldSimp
import Mathlib.Tactic.NormNum
import Stepflow.Decimal.Shortest
import Stepflow.Proofs.Rounding
import Stepflow.Value

/-!
# The shortest decimal tells numbers apart

The decimals that read back as a floating-point number lie in an interval around it, and the intervals of
different magnitudes have no point in common: where two of them meet, one of the two magnitudes is odd and
its interval is open (`eq_of_contains`).

The decimal that is found for a number lies in its interval (`shortest_contains`). A grid of seventeen
digits is fine enough: its nearest point is closer to the number than the ends of the interval are. So
different numbers have different decimals (`eq_of_shortest_value_eq`).
-/

namespace Stepflow.Decimal

variable {x y : Float} {a b : Binary} {r : Rat}

/-- The value of a decimal. -/
def Digits.value (d : Digits) : Rat := d.digits * 10 ^ d.exp

/-! ## Floating-point numbers -/

attribute [ext] Binary

namespace Binary

/-- **A magnitude as floating-point numbers have them**: it has 53 binary digits at most, and has fewer only
where the numbers are as dense as they get. -/
structure Canonical (b : Binary) : Prop where
  /-- The whole part has at most 53 binary digits. -/
  mant_lt : b.mant < 2 ^ 53
  /-- The exponent has a least value. -/
  le_exp : -1074 ≤ b.exp
  /-- Above it, the whole part has all its digits. -/
  full : 2 ^ 52 ≤ b.mant ∨ b.exp = -1074

theorem ofFloat_canonical (x : Float) : (ofFloat x).Canonical := by
  unfold ofFloat
  constructor <;> simp only [Nat.pow_eq, Int.ofNat_eq_natCast] <;> split_ifs <;> omega

/-- The sign, the magnitude and the scale determine the number. -/
theorem ofFloat_injective : Function.Injective ofFloat := by
  intro x y h
  have hx := x.toBits.toNat_lt
  have hy := y.toBits.toNat_lt
  have hnegative := congrArg negative h
  have hmant := congrArg mant h
  have hexp := congrArg exp h
  simp only [ofFloat, Nat.pow_eq] at hnegative hmant hexp
  refine Float.eq_of_toBits_eq (UInt64.toNat_inj.1 ?_)
  generalize x.toBits.toNat = m at *
  generalize y.toBits.toNat = n at *
  rw [decide_eq_decide] at hnegative
  split_ifs at hmant hexp <;> simp only [Int.ofNat_eq_natCast] at hexp <;> omega

end Binary

/-! ## Intervals -/

namespace Interval

/-- **A number lies in an interval**, at an end only if the interval is closed. -/
structure Contains (i : Interval) (r : Rat) : Prop where
  /-- It is not below. -/
  low_le : i.low * 2 ^ i.unit ≤ r
  /-- It is not above. -/
  le_high : r ≤ i.high * 2 ^ i.unit
  /-- It is at no end that does not belong to the interval. -/
  inside : i.closed = false → i.low * 2 ^ i.unit < r ∧ r < i.high * 2 ^ i.unit

/-- Intervals are apart if the one ends before the other begins; and if they meet, one of them is open. -/
theorem apart {i j : Interval} (hle : (i.high : Rat) * 2 ^ i.unit ≤ j.low * 2 ^ j.unit)
    (hmeet : (i.high : Rat) * 2 ^ i.unit = j.low * 2 ^ j.unit → i.closed = false ∨ j.closed = false)
    (hi : i.Contains r) : ¬ j.Contains r := by
  intro hj
  have heq : (i.high : Rat) * 2 ^ i.unit = j.low * 2 ^ j.unit :=
    le_antisymm hle (hj.low_le.trans hi.le_high)
  obtain hopen | hopen := hmeet heq
  · exact absurd (hi.inside hopen).2 (not_lt.2 (heq ▸ hj.low_le))
  · exact absurd (hj.inside hopen).1 (not_lt.2 (heq ▸ hi.le_high))

end Interval

/-- The intervals of different magnitudes with the same exponent are apart. -/
theorem not_contains_of_mant_lt (h : a.exp = b.exp) (hlt : a.mant < b.mant)
    (hr : (Interval.ofBinary a).Contains r) : ¬ (Interval.ofBinary b).Contains r := by
  have hunit : (0 : Rat) < 2 ^ (b.exp - 2) := by positivity
  have hhigh : (Interval.ofBinary a).high ≤ (Interval.ofBinary b).low := by
    simp only [Interval.ofBinary]
    split_ifs <;> omega
  refine Interval.apart ?_ (fun hmeet => ?_) hr
  · simp only [Interval.ofBinary, h] at hhigh ⊢
    gcongr
  · have hends : (Interval.ofBinary a).high = (Interval.ofBinary b).low := by
      have hunits : (Interval.ofBinary a).unit = (Interval.ofBinary b).unit := congrArg (· - 2) h
      rw [hunits] at hmeet
      exact_mod_cast mul_right_cancel₀ hunit.ne' hmeet
    -- the magnitudes follow each other, so one of them is odd
    simp only [Interval.ofBinary] at hends ⊢
    simp only [decide_eq_false_iff_not]
    split_ifs at hends <;> omega

/-- The intervals of magnitudes with different exponents are apart. -/
theorem not_contains_of_exp_lt (ha : a.Canonical) (hb : b.Canonical) (hlt : a.exp < b.exp)
    (hr : (Interval.ofBinary a).Contains r) : ¬ (Interval.ofBinary b).Contains r := by
  obtain ⟨k, hk⟩ : ∃ k : Nat, b.exp = a.exp + 1 + k := ⟨(b.exp - a.exp - 1).toNat, by omega⟩
  have hexp : -1074 < b.exp := by
    have := ha.le_exp
    omega
  have hfull : 2 ^ 52 ≤ b.mant := hb.full.resolve_right hexp.ne'
  have hmant := ha.mant_lt
  have hunit : (0 : Rat) < 2 ^ (a.exp - 2) := by positivity
  have hhigh : (Interval.ofBinary a).high ≤ 2 ^ 55 - 2 := by
    simp only [Interval.ofBinary]
    omega
  have hlow : 2 ^ 54 - 1 ≤ (Interval.ofBinary b).low := by
    simp only [Interval.ofBinary, Nat.pow_eq]
    split_ifs <;> omega
  -- the lower end of the interval of the greater number, in units of the smaller one
  have hscaled : ((Interval.ofBinary b).low : Rat) * 2 ^ (Interval.ofBinary b).unit =
      ((Interval.ofBinary b).low * (2 * 2 ^ k) : Nat) * 2 ^ (a.exp - 2) := by
    have hunits : (Interval.ofBinary b).unit = (a.exp - 2) + 1 + k := by
      simp only [Interval.ofBinary, hk]
      omega
    rw [hunits, zpow_add₀ two_ne_zero, zpow_add₀ two_ne_zero, zpow_one, zpow_natCast]
    push_cast
    ring
  have hends : (Interval.ofBinary a).high ≤ (Interval.ofBinary b).low * (2 * 2 ^ k) := by
    calc (Interval.ofBinary a).high
      _ ≤ (2 ^ 54 - 1) * (2 * 1) := hhigh
      _ ≤ (Interval.ofBinary b).low * (2 * 2 ^ k) :=
        Nat.mul_le_mul hlow (Nat.mul_le_mul_left 2 Nat.one_le_two_pow)
  refine Interval.apart ?_ (fun hmeet => .inl ?_) hr
  · rw [hscaled]
    have hcast := Nat.cast_le (α := Rat).2 hends
    exact mul_le_mul_of_nonneg_right hcast hunit.le
  · -- if they meet, the smaller number is the last one before a power of two
    rw [hscaled] at hmeet
    have hmeet : (Interval.ofBinary a).high = (Interval.ofBinary b).low * (2 * 2 ^ k) := by
      exact_mod_cast mul_right_cancel₀ hunit.ne' hmeet
    have hle : (2 ^ 54 - 1) * (2 * 1) ≤ (Interval.ofBinary a).high := by
      rw [hmeet]
      exact Nat.mul_le_mul hlow (Nat.mul_le_mul_left 2 Nat.one_le_two_pow)
    simp only [Interval.ofBinary] at hle ⊢
    rw [decide_eq_false_iff_not]
    omega

/-- **The intervals of different magnitudes** have no point in common. -/
theorem eq_of_contains (ha : a.Canonical) (hb : b.Canonical) (hra : (Interval.ofBinary a).Contains r)
    (hrb : (Interval.ofBinary b).Contains r) : a.mant = b.mant ∧ a.exp = b.exp := by
  obtain hlt | heq | hlt := lt_trichotomy a.exp b.exp
  · exact absurd hrb (not_contains_of_exp_lt ha hb hlt hra)
  · obtain hlt | hmant | hlt := lt_trichotomy a.mant b.mant
    · exact absurd hrb (not_contains_of_mant_lt heq hlt hra)
    · exact ⟨hmant, heq⟩
    · exact absurd hra (not_contains_of_mant_lt heq.symm hlt hrb)
  · exact absurd hra (not_contains_of_exp_lt hb ha hlt hrb)

/-! ## Grids -/

section Grids

variable {low mid high den d s n : Nat} {closed : Bool} {exp : Int}

/-- A number, in the units in which it is compared with the points of a grid. -/
def onGrid (exp : Int) (n : Nat) : Nat := if 0 ≤ exp then n else n * Nat.pow 10 (-exp).toNat

/-- How far apart the points of a grid are, in the same units. -/
def gridStep (exp : Int) (den : Nat) : Nat := if 0 ≤ exp then den * Nat.pow 10 exp.toNat else den

theorem gridStep_pos (hden : 0 < den) : 0 < gridStep exp den := by
  unfold gridStep
  split
  · exact Nat.mul_pos hden (Nat.pow_pos (by decide))
  · exact hden

/-- A number is so many points away from zero. -/
theorem onGrid_div (hden : 0 < den) :
    (onGrid exp n : Rat) / gridStep exp den = (n : Rat) / den / 10 ^ exp := by
  have hden : (den : Rat) ≠ 0 := Nat.cast_ne_zero.2 hden.ne'
  unfold onGrid gridStep
  split
  · next h =>
    obtain ⟨k, rfl⟩ := Int.eq_ofNat_of_zero_le h
    rw [Int.toNat_natCast, zpow_natCast, Nat.pow_eq]
    push_cast
    rw [div_div]
  · next h =>
    obtain ⟨k, rfl⟩ : ∃ k : Nat, exp = -(k : Int) := ⟨(-exp).toNat, by omega⟩
    rw [neg_neg, Int.toNat_natCast, zpow_neg, zpow_natCast, Nat.pow_eq]
    push_cast
    field_simp

theorem onGrid_le_iff (hden : 0 < den) :
    onGrid exp n ≤ d * gridStep exp den ↔ (n : Rat) / den ≤ d * 10 ^ exp := by
  have hstep : (0 : Rat) < gridStep exp den := Nat.cast_pos.2 (gridStep_pos hden)
  rw [← div_le_iff₀ (by positivity), ← onGrid_div hden, div_le_iff₀ hstep]
  exact_mod_cast Iff.rfl

theorem le_onGrid_iff (hden : 0 < den) :
    d * gridStep exp den ≤ onGrid exp n ↔ d * 10 ^ exp ≤ (n : Rat) / den := by
  have hstep : (0 : Rat) < gridStep exp den := Nat.cast_pos.2 (gridStep_pos hden)
  rw [← le_div_iff₀ (by positivity), ← onGrid_div hden, le_div_iff₀ hstep]
  exact_mod_cast Iff.rfl

/-- Whether a point of a grid lies between two ends. -/
def liesInside (low high den : Nat) (closed : Bool) (exp : Int) (d : Nat) : Bool :=
  if closed then onGrid exp low ≤ d * gridStep exp den && d * gridStep exp den ≤ onGrid exp high
  else onGrid exp low < d * gridStep exp den && d * gridStep exp den < onGrid exp high

theorem nearestOnGrid?_eq : nearestOnGrid? low mid high den closed exp =
    if liesInside low high den closed exp (roundDiv (onGrid exp mid) (gridStep exp den)) then
      some (roundDiv (onGrid exp mid) (gridStep exp den))
    else if liesInside low high den closed exp (onGrid exp mid / gridStep exp den) then
      some (onGrid exp mid / gridStep exp den)
    else if liesInside low high den closed exp (onGrid exp mid / gridStep exp den + 1) then
      some (onGrid exp mid / gridStep exp den + 1)
    else none := rfl

variable {i : Interval}

/-- With the unit multiplied out, an interval is the same. -/
theorem Interval.scaled_eq (i : Interval) : ∃ s den : Nat, 0 < den ∧ (s : Rat) / den = 2 ^ i.unit ∧
    i.scaled = (i.low * s, i.mid * s, i.high * s, den) := by
  unfold scaled
  split
  · next h =>
    obtain ⟨k, hk⟩ := Int.eq_ofNat_of_zero_le h
    refine ⟨Nat.pow 2 k, 1, Nat.one_pos, ?_, by rw [hk, Int.toNat_natCast]⟩
    rw [hk, zpow_natCast, Nat.pow_eq]
    push_cast
    rw [div_one]
  · next h =>
    obtain ⟨k, hk⟩ : ∃ k : Nat, i.unit = -(k : Int) := ⟨(-i.unit).toNat, by omega⟩
    refine ⟨1, Nat.pow 2 k, Nat.pow_pos (by decide), ?_, by rw [hk, neg_neg, Int.toNat_natCast]; simp⟩
    rw [hk, zpow_neg, zpow_natCast, Nat.pow_eq]
    push_cast
    rw [one_div]

/-- Between the ends of an interval are the points that lie in it. -/
theorem liesInside_iff (hden : 0 < den) (hunit : (s : Rat) / den = 2 ^ i.unit) :
    liesInside (i.low * s) (i.high * s) den i.closed exp d = true ↔ i.Contains (d * 10 ^ exp) := by
  have hscaled (n : Nat) : ((n * s : Nat) : Rat) / den = n * 2 ^ i.unit := by
    rw [← hunit, Nat.cast_mul, mul_div_assoc]
  unfold liesInside
  cases hclosed : i.closed with
  | true =>
    rw [if_pos rfl, Bool.and_eq_true, decide_eq_true_eq, decide_eq_true_eq, onGrid_le_iff hden,
      le_onGrid_iff hden, hscaled, hscaled]
    exact ⟨fun h => ⟨h.1, h.2, by simp [hclosed]⟩, fun h => ⟨h.low_le, h.le_high⟩⟩
  | false =>
    rw [if_neg Bool.false_ne_true, Bool.and_eq_true, decide_eq_true_eq, decide_eq_true_eq, ← not_le,
      le_onGrid_iff hden, ← not_le, onGrid_le_iff hden, hscaled, hscaled, not_le, not_le]
    exact ⟨fun h => ⟨h.1.le, h.2.le, fun _ => h⟩, fun h => h.inside hclosed⟩

/-- **What is found on a grid** lies in the interval. -/
theorem contains_of_nearestOnGrid? (hden : 0 < den) (hunit : (s : Rat) / den = 2 ^ i.unit)
    (h : nearestOnGrid? (i.low * s) (i.mid * s) (i.high * s) den i.closed exp = some d) :
    i.Contains (d * 10 ^ exp) := by
  rw [nearestOnGrid?_eq] at h
  split_ifs at h with h₁ h₂ h₃ <;> obtain rfl := Option.some.inj h
  · exact (liesInside_iff hden hunit).1 h₁
  · exact (liesInside_iff hden hunit).1 h₂
  · exact (liesInside_iff hden hunit).1 h₃

/-- **A grid of seventeen digits is fine enough**: its nearest point lies in the interval. -/
theorem exists_nearestOnGrid? (hb : b.Canonical) (hmant : 0 < b.mant) (hden : 0 < den)
    (hunit : (s : Rat) / den = 2 ^ (Interval.ofBinary b).unit)
    (hfine : (10 : Rat) ^ exp * 10 ^ 16 ≤ (Interval.ofBinary b).mid * 2 ^ (Interval.ofBinary b).unit) :
    ∃ d, nearestOnGrid? ((Interval.ofBinary b).low * s) ((Interval.ofBinary b).mid * s)
      ((Interval.ofBinary b).high * s) den (Interval.ofBinary b).closed exp = some d := by
  rw [nearestOnGrid?_eq]
  set N := roundDiv (onGrid exp ((Interval.ofBinary b).mid * s)) (gridStep exp den)
  suffices hN : (Interval.ofBinary b).Contains (N * 10 ^ exp) by
    exact ⟨N, if_pos ((liesInside_iff hden hunit).2 hN)⟩
  have hT : (0 : Rat) < 10 ^ exp := by positivity
  have hU : (0 : Rat) < 2 ^ (Interval.ofBinary b).unit := by positivity
  have hnear : |(N : Rat) * 10 ^ exp - (Interval.ofBinary b).mid * 2 ^ (Interval.ofBinary b).unit| ≤
      10 ^ exp / 2 := by
    have hround : |(N : Rat) - (onGrid exp ((Interval.ofBinary b).mid * s) : Nat) / (gridStep exp den : Nat)| ≤
        1 / 2 := roundDiv_near (gridStep_pos hden)
    rw [onGrid_div hden, Nat.cast_mul, mul_div_assoc, hunit] at hround
    rw [← div_mul_cancel₀ ((Interval.ofBinary b).mid * 2 ^ (Interval.ofBinary b).unit : Rat) hT.ne',
      ← sub_mul, abs_mul, abs_of_pos hT]
    calc _ ≤ 1 / 2 * 10 ^ exp := mul_le_mul_of_nonneg_right hround hT.le
      _ = 10 ^ exp / 2 := by ring
  obtain ⟨hbelow, habove⟩ := abs_le.1 hnear
  have hmant_lt : (b.mant : Rat) * 2 ^ (Interval.ofBinary b).unit ≤
      (2 ^ 53 - 1) * 2 ^ (Interval.ofBinary b).unit := by
    refine mul_le_mul_of_nonneg_right ?_ hU.le
    have hlt : b.mant + 1 ≤ 2 ^ 53 := hb.mant_lt
    have hcast : ((b.mant + 1 : Nat) : Rat) ≤ (2 ^ 53 : Nat) := Nat.cast_le.2 hlt
    push_cast at hcast
    linarith
  have hmid : ((Interval.ofBinary b).mid : Rat) = 4 * b.mant := by simp [Interval.ofBinary]
  have hhigh : ((Interval.ofBinary b).high : Rat) = 4 * b.mant + 2 := by simp [Interval.ofBinary]
  rw [hmid, mul_assoc] at hbelow habove hfine
  have hlow_lt : ((Interval.ofBinary b).low : Rat) * 2 ^ (Interval.ofBinary b).unit < N * 10 ^ exp := by
    by_cases hdense : b.mant = 2 ^ 52 ∧ -1074 < b.exp
    · -- below a power of two the interval is half as wide, but the number has few digits
      have hlow : ((Interval.ofBinary b).low : Rat) = 4 * b.mant - 1 := by
        have hlow : (Interval.ofBinary b).low = 4 * b.mant - 1 := if_pos hdense
        rw [hlow, Nat.cast_sub (by omega)]
        norm_num
      have hmant_eq : (b.mant : Rat) = 2 ^ 52 := by rw [hdense.1]; norm_num
      rw [hlow, hmant_eq]
      rw [hmant_eq] at hbelow hfine
      linarith
    · have hlow : ((Interval.ofBinary b).low : Rat) = 4 * b.mant - 2 := by
        have hlow : (Interval.ofBinary b).low = 4 * b.mant - 2 := if_neg hdense
        rw [hlow, Nat.cast_sub (by omega)]
        norm_num
      rw [hlow]
      linarith
  have hlt_high : (N : Rat) * 10 ^ exp < (Interval.ofBinary b).high * 2 ^ (Interval.ofBinary b).unit := by
    rw [hhigh]
    linarith
  exact ⟨hlow_lt.le, hlt_high.le, fun _ => ⟨hlow_lt, hlt_high⟩⟩

/-! ## The search -/

/-- A number that is not zero has a least number of digits. -/
theorem pow_digitCount_le (hn : 0 < n) : 10 ^ (digitCount n - 1) ≤ n := by
  unfold digitCount
  by_contra hlt
  by_cases hone : (Nat.toDigits 10 n).length - 1 = 0
  · rw [hone] at hlt
    omega
  · have hle := (Nat.length_toDigits_le_iff (by decide) (by omega)).2 (not_le.1 hlt)
    omega

theorem lt_pow_digitCount (n : Nat) : n < 10 ^ digitCount n :=
  (Nat.length_toDigits_le_iff (by decide) Nat.length_toDigits_pos).1 le_rfl

/-- **The place of the point** is not too far to the left. -/
theorem pow_pointPlace_le {num : Nat} (hnum : 0 < num) (hden : 0 < den) :
    (10 : Rat) ^ (pointPlace num den - 1) ≤ num / den := by
  have hden' : (0 : Rat) < den := Nat.cast_pos.2 hden
  have hguess : (10 : Rat) ^ ((digitCount num : Int) - digitCount den - 1) ≤ num / den := by
    have hone : 1 ≤ digitCount num := Nat.length_toDigits_pos
    have hnumber := Nat.cast_le (α := Rat).2 (pow_digitCount_le hnum)
    have hsize := Nat.cast_le (α := Rat).2 (lt_pow_digitCount den).le
    push_cast at hnumber hsize
    rw [show (digitCount num : Int) - digitCount den - 1 = ((digitCount num - 1 : Nat) : Int) -
      digitCount den by omega, zpow_sub₀ (by norm_num), zpow_natCast, zpow_natCast]
    exact div_le_div₀ (by positivity) hnumber hden' hsize
  unfold pointPlace
  dsimp only
  generalize (digitCount num : Int) - digitCount den = guess at hguess ⊢
  by_cases h : 0 ≤ guess
  · obtain ⟨k, rfl⟩ := Int.eq_ofNat_of_zero_le h
    rw [if_pos h, Int.toNat_natCast]
    split
    · exact hguess
    · next hbelow =>
      rw [decide_eq_true_eq, not_lt, Nat.pow_eq] at hbelow
      have hcast := Nat.cast_le (α := Rat).2 hbelow
      push_cast at hcast
      rw [add_sub_cancel_right, zpow_natCast, le_div_iff₀ hden', mul_comm]
      exact hcast
  · obtain ⟨k, rfl⟩ : ∃ k : Nat, guess = -(k : Int) := ⟨(-guess).toNat, by omega⟩
    rw [if_neg h, neg_neg, Int.toNat_natCast]
    split
    · exact hguess
    · next hbelow =>
      rw [decide_eq_true_eq, not_lt, Nat.pow_eq] at hbelow
      have hcast := Nat.cast_le (α := Rat).2 hbelow
      push_cast at hcast
      rw [add_sub_cancel_right, zpow_neg, zpow_natCast, le_div_iff₀ hden',
        inv_mul_le_iff₀ (by positivity), mul_comm]
      exact hcast

/-- What the search ends with lies in the interval, if something is found on the last grid. -/
theorem contains_searchGrids {place : Int} {left : Nat} (hden : 0 < den)
    (hunit : (s : Rat) / den = 2 ^ i.unit) (hleft : 0 < left)
    (hlast : ∃ d, nearestOnGrid? (i.low * s) (i.mid * s) (i.high * s) den i.closed (place - 17) = some d) :
    i.Contains (searchGrids (i.low * s) (i.mid * s) (i.high * s) den i.closed place left).value := by
  induction left with
  | zero => contradiction
  | succ left ih =>
    rw [searchGrids]
    split
    · next d h => exact contains_of_nearestOnGrid? hden hunit h
    · next h =>
      cases left with
      | zero =>
        obtain ⟨d, hd⟩ := hlast
        rw [Nat.cast_zero, sub_zero, hd] at h
        contradiction
      | succ left => exact ih (Nat.succ_pos _)

/-- Zeros at the end do not change the value. -/
theorem Digits.strip_value (d : Digits) : d.strip.value = d.value := by
  have hgo (fuel n : Nat) (e : Int) : (strip.go fuel n e).value = n * 10 ^ e := by
    induction fuel generalizing n e with
    | zero => rfl
    | succ fuel ih =>
      rw [strip.go]
      split
      · next h =>
        rw [ih, zpow_add₀ (by norm_num), zpow_one, mul_comm _ (10 : Rat), ← mul_assoc]
        have hten : n / 10 * 10 = n := Nat.div_mul_cancel (Nat.dvd_of_mod_eq_zero h.2)
        have hcast : ((n / 10 : Nat) : Rat) * 10 = n := by exact_mod_cast hten
        rw [hcast]
      · rfl
  exact hgo _ _ _

/-- **The decimal that is found for a number** lies in its interval. -/
theorem shortest_contains (hb : b.Canonical) (hmant : 0 < b.mant) :
    (Interval.ofBinary b).Contains (shortest b).value := by
  obtain ⟨s, den, hden, hunit, hscaled⟩ := (Interval.ofBinary b).scaled_eq
  have hs : 0 < s := by
    rw [Nat.pos_iff_ne_zero]
    rintro rfl
    have hpos : (0 : Rat) < 2 ^ (Interval.ofBinary b).unit := by positivity
    rw [← hunit] at hpos
    simp at hpos
  rw [shortest, if_neg hmant.ne']
  dsimp only
  rw [hscaled]
  dsimp only
  rw [Digits.strip_value]
  refine contains_searchGrids hden hunit (by decide) (exists_nearestOnGrid? hb hmant hden hunit ?_)
  have hmid : 0 < (Interval.ofBinary b).mid * s := Nat.mul_pos (by simp [Interval.ofBinary, hmant]) hs
  have hplace := pow_pointPlace_le hmid hden
  rw [Nat.cast_mul, mul_div_assoc, hunit] at hplace
  rw [← zpow_natCast (10 : Rat) 16, ← zpow_add₀ (by norm_num)]
  convert hplace using 2
  push_cast
  ring

end Grids

/-! ## Different numbers -/

theorem shortest_of_zero (h : b.mant = 0) : (shortest b).value = 0 := by
  rw [shortest, if_pos h]
  simp [Digits.value]

theorem shortest_pos (hb : b.Canonical) (h : 0 < b.mant) : 0 < (shortest b).value := by
  have hlow : 0 < (Interval.ofBinary b).low := by
    simp only [Interval.ofBinary]
    split_ifs <;> omega
  have hpos : (0 : Rat) < (Interval.ofBinary b).low * 2 ^ (Interval.ofBinary b).unit := by positivity
  exact hpos.trans_le (shortest_contains hb h).low_le

/-- **Different magnitudes have different decimals.** -/
theorem eq_of_shortest_value_eq (ha : a.Canonical) (hb : b.Canonical)
    (h : (shortest a).value = (shortest b).value) : a.mant = b.mant ∧ a.exp = b.exp := by
  have hzero {c : Binary} (hc : c.Canonical) (h : c.mant = 0) : c.exp = -1074 :=
    hc.full.resolve_left (by omega)
  obtain ha0 | ha0 := Nat.eq_zero_or_pos a.mant <;> obtain hb0 | hb0 := Nat.eq_zero_or_pos b.mant
  · exact ⟨ha0.trans hb0.symm, (hzero ha ha0).trans (hzero hb hb0).symm⟩
  · exact absurd (h.symm.trans (shortest_of_zero ha0)) (shortest_pos hb hb0).ne'
  · exact absurd (h.trans (shortest_of_zero hb0)) (shortest_pos ha ha0).ne'
  · exact eq_of_contains ha hb (shortest_contains ha ha0) (h ▸ shortest_contains hb hb0)

end Stepflow.Decimal
