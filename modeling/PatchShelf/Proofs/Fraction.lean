/-
Module: PatchShelf.Proofs.Fraction
Purpose: Rounding to 53 binary digits keeps the order of fractions.
Main exports:
  Fraction.value, Fraction.RoundsTo, Fraction.roundsTo_round, Fraction.round_le_round,
  Fraction.two_zpow_order_le, Fraction.abs_value_nearest_sub_le, Fraction.value_nearest_le,
  Fraction.wholePart_le
-/
import Mathlib.Algebra.Order.Field.Power
import Mathlib.Algebra.Order.Floor.Semifield
import Mathlib.Data.Rat.Cast.Order
import Mathlib.Data.Rat.Floor
import Mathlib.Tactic.FieldSimp
import Mathlib.Tactic.Linarith
import PatchShelf.Fraction

/-!
The value of a fraction is a rational number.  A fraction is rounded to the natural number next
to it, and of two that are as near to the even one; this alone makes rounding monotone.  The 53
digits are the integer part of the fraction times a power of two.  Where two fractions are scaled
by the same power, their digits are compared; where they are not, a power of two lies between
them, and powers of two need no rounding.
-/

namespace PatchShelf

namespace Fraction

/-- The rational number that a fraction stands for. -/
def value (fraction : Fraction) : ℚ :=
  fraction.numerator / fraction.denominator

variable {one two fraction : Fraction}

theorem denominator_pos (fraction : Fraction) : (0 : ℚ) < fraction.denominator :=
  Nat.cast_pos.2 fraction.positive

theorem value_nonneg (fraction : Fraction) : 0 ≤ fraction.value :=
  div_nonneg (Nat.cast_nonneg _) fraction.denominator_pos.le

theorem one_le_value_iff : 1 ≤ fraction.value ↔ fraction.denominator ≤ fraction.numerator := by
  rw [value, one_le_div fraction.denominator_pos, Nat.cast_le]

@[simp] theorem value_ofQuotient (numerator denominator : Nat) (positive : 0 < denominator) :
    (ofQuotient numerator denominator positive).value = numerator / denominator := rfl

/-- To divide divides the value. -/
theorem value_divide (fraction : Fraction) (divisor : Nat) (positive : 0 < divisor) :
    (fraction.divide divisor positive).value = fraction.value / divisor := by
  simp only [value, divide, Nat.cast_mul, div_div]

/-- The value of a sum is the sum of the values. -/
theorem value_plus (one two : Fraction) : (one.plus two).value = one.value + two.value := by
  have first := one.denominator_pos.ne'
  have second := two.denominator_pos.ne'
  simp only [value, plus, Nat.cast_add, Nat.cast_mul]
  field_simp

/-- The value of a difference that is not below zero is the difference of the values. -/
theorem value_minus (ordered : two.value ≤ one.value) :
    (one.minus two).value = one.value - two.value := by
  have crossed : two.numerator * one.denominator ≤ one.numerator * two.denominator := by
    exact_mod_cast (div_le_div_iff₀ two.denominator_pos one.denominator_pos).1 ordered
  have first := one.denominator_pos.ne'
  have second := two.denominator_pos.ne'
  simp only [value, minus, Nat.cast_sub crossed, Nat.cast_mul]
  field_simp

/-- A factor multiplies it. -/
theorem value_times (fraction : Fraction) (factor : Nat) :
    (fraction.times factor).value = fraction.value * factor := by
  simp only [value, times, Nat.cast_mul, div_mul_eq_mul_div]

/-- A shift multiplies it by a power of two. -/
theorem value_shift (fraction : Fraction) (exponent : Int) :
    (fraction.shift exponent).value = fraction.value * 2 ^ exponent := by
  have power : ((2 ^ exponent.toNat : Nat) : ℚ) = 2 ^ exponent * (2 ^ (-exponent).toNat : Nat) := by
    have split : exponent = (exponent.toNat : Int) - ((-exponent).toNat : Int) := by omega
    push_cast
    conv_rhs => rw [split]
    rw [zpow_sub₀ two_ne_zero, zpow_natCast, zpow_natCast, ← split,
      div_mul_cancel₀ _ (pow_ne_zero _ two_ne_zero)]
  have positive : ((2 ^ (-exponent).toNat : Nat) : ℚ) ≠ 0 := by positivity
  have denominator := fraction.denominator_pos.ne'
  simp only [value, shift, Nat.pow_eq, Nat.cast_mul, power]
  field_simp

/-! ### Rounding to natural numbers -/

/-- The number is next to the fraction, and even if another one is as near. -/
structure RoundsTo (fraction : Fraction) (number : Nat) : Prop where
  above : fraction.value ≤ number + 1 / 2
  below : number ≤ fraction.value + 1 / 2
  even_above : fraction.value = number + 1 / 2 → Even number
  even_below : number = fraction.value + 1 / 2 → Even number

/-- What is rounded is next to the value, and even in the middle of two. -/
theorem roundsTo_round (fraction : Fraction) : RoundsTo fraction fraction.round := by
  rw [round]
  generalize wholeIs : fraction.numerator / fraction.denominator = whole
  generalize restIs : fraction.numerator % fraction.denominator = rest
  have positive := fraction.denominator_pos
  obtain ⟨part, partIs⟩ : ∃ part : ℚ, part = rest / fraction.denominator := ⟨_, rfl⟩
  have value : fraction.value = whole + part := by
    have parts : (fraction.numerator : ℚ) = fraction.denominator * whole + rest := by
      rw [← wholeIs, ← restIs]
      exact_mod_cast (Nat.div_add_mod fraction.numerator fraction.denominator).symm
    rw [Fraction.value, partIs, parts, add_div, mul_div_cancel_left₀ _ positive.ne']
  have small : part < 1 := by
    rw [partIs, div_lt_one positive, ← restIs]
    exact_mod_cast Nat.mod_lt _ fraction.positive
  have nonneg : 0 ≤ part := partIs ▸ by positivity
  have less : 2 * rest < fraction.denominator ↔ part < 1 / 2 := by
    rw [partIs, div_lt_div_iff₀ positive two_pos]
    exact_mod_cast by omega
  have more : fraction.denominator < 2 * rest ↔ 1 / 2 < part := by
    rw [partIs, div_lt_div_iff₀ two_pos positive]
    exact_mod_cast by omega
  simp only [less, more]
  split
  · constructor <;> rw [value] <;> intros <;> linarith
  · split
    · constructor <;> rw [value] <;> push_cast <;> intros <;> linarith
    · -- halfway, an odd whole part goes up by one
      have even : Even (whole + whole % 2) := by
        rw [Nat.even_iff]
        omega
      have step : ((whole % 2 : Nat) : ℚ) ≤ 1 := by
        exact_mod_cast Nat.lt_succ_iff.1 (Nat.mod_lt _ two_pos)
      have least : (0 : ℚ) ≤ (whole % 2 : Nat) := Nat.cast_nonneg _
      refine ⟨?_, ?_, fun _ => even, fun _ => even⟩
      · rw [value, Nat.cast_add]
        linarith
      · rw [value, Nat.cast_add]
        linarith

/-- What is next to the greater of two fractions is not below what is next to the other. -/
theorem RoundsTo.le {less more : Nat} (first : RoundsTo one less) (second : RoundsTo two more)
    (ordered : one.value ≤ two.value) : less ≤ more := by
  refine Decidable.byContradiction fun behind => ?_
  have next : (more : ℚ) + 1 ≤ less := by exact_mod_cast Nat.lt_of_not_le behind
  have below := first.below
  have above := second.above
  -- both lie halfway between the same two numbers, so both went to the even one
  have same : (less : ℚ) = more + 1 := by linarith
  have odd := first.even_below (by linarith)
  have even := second.even_above (by linarith)
  have successor : less = more + 1 := by exact_mod_cast same
  rw [Nat.even_iff] at odd even
  omega

/-- Rounding keeps the order. -/
theorem round_le_round (ordered : one.value ≤ two.value) : one.round ≤ two.round :=
  one.roundsTo_round.le two.roundsTo_round ordered

/-- Only one number is next to a fraction, and even where two are as near. -/
theorem RoundsTo.round_eq {number : Nat} (next : RoundsTo fraction number) :
    fraction.round = number := by
  have same := le_refl fraction.value
  exact le_antisymm (fraction.roundsTo_round.le next same) (next.le fraction.roundsTo_round same)

/-- A number that is nearer than a half is what the value rounds to. -/
theorem round_eq_of_abs_lt {number : Nat} (near : |fraction.value - number| < 1 / 2) :
    fraction.round = number := by
  obtain ⟨below, above⟩ := abs_lt.1 near
  apply RoundsTo.round_eq
  constructor <;> intros <;> linarith

/-- A whole value rounds to itself. -/
theorem round_eq_of_value {number : Nat} (whole : fraction.value = number) :
    fraction.round = number := by
  apply round_eq_of_abs_lt
  rw [whole, sub_self, abs_zero]
  exact one_half_pos

/-- A value up to a number rounds to that at most. -/
theorem round_le_of_value_le {number : Nat} (ordered : fraction.value ≤ number) :
    fraction.round ≤ number := by
  have whole : (ofQuotient number 1 Nat.one_pos).round = number := round_eq_of_value (by simp)
  exact whole ▸ round_le_round (by simpa using ordered)

/-- A value from a number on rounds to that at least. -/
theorem le_round_of_le_value {number : Nat} (ordered : number ≤ fraction.value) :
    number ≤ fraction.round := by
  have whole : (ofQuotient number 1 Nat.one_pos).round = number := round_eq_of_value (by simp)
  exact whole ▸ round_le_round (by simpa using ordered)

/-! ### Binary digits -/

/-- The exponents of the parts of a fraction tell its own but for one. -/
theorem two_zpow_log2_le (nonzero : fraction.numerator ≠ 0) :
    let guess : Int := Nat.log2 fraction.numerator - Nat.log2 fraction.denominator
    (2 : ℚ) ^ (guess - 1) ≤ fraction.value ∧ fraction.value < 2 ^ (guess + 1) := by
  intro guess
  have positive := fraction.denominator_pos
  have power (number : Nat) (filled : number ≠ 0) :
      (2 : ℚ) ^ number.log2 ≤ number ∧ (number : ℚ) < 2 ^ (number.log2 + 1) := by
    exact_mod_cast And.intro (Nat.log2_self_le filled) Nat.lt_log2_self
  obtain ⟨numeratorLow, numeratorHigh⟩ := power _ nonzero
  obtain ⟨denominatorLow, denominatorHigh⟩ := power _ fraction.positive.ne'
  have lower : (2 : ℚ) ^ (guess - 1) =
      2 ^ fraction.numerator.log2 / 2 ^ (fraction.denominator.log2 + 1) := by
    rw [← zpow_natCast, ← zpow_natCast, ← zpow_sub₀ two_ne_zero]
    congr 1
    push_cast
    omega
  have upper : (2 : ℚ) ^ (guess + 1) =
      2 ^ (fraction.numerator.log2 + 1) / 2 ^ fraction.denominator.log2 := by
    rw [← zpow_natCast, ← zpow_natCast, ← zpow_sub₀ two_ne_zero]
    congr 1
    push_cast
    omega
  rw [lower, upper, value]
  exact ⟨div_le_div₀ (Nat.cast_nonneg _) numeratorLow positive denominatorHigh.le,
    div_lt_div₀ numeratorHigh denominatorLow (by positivity) (by positivity)⟩

/-- The order of a fraction other than zero is the exponent of the greatest power of two that is
not above it. -/
theorem two_zpow_order_le (nonzero : fraction.numerator ≠ 0) :
    (2 : ℚ) ^ fraction.order ≤ fraction.value ∧ fraction.value < 2 ^ (fraction.order + 1) := by
  obtain ⟨low, high⟩ := two_zpow_log2_le nonzero
  rw [order]
  generalize (Nat.log2 fraction.numerator - Nat.log2 fraction.denominator : Int) = guess at low high
  have reached : (fraction.shift (-guess)).denominator ≤ (fraction.shift (-guess)).numerator ↔
      (2 : ℚ) ^ guess ≤ fraction.value := by
    rw [← one_le_value_iff, value_shift, zpow_neg, ← div_eq_mul_inv, one_le_div (by positivity)]
  simp only [reached]
  split
  · rename_i above
    exact ⟨above, high⟩
  · rename_i below
    rw [sub_add_cancel]
    exact ⟨low, not_le.1 below⟩

/-- Below a power of two, the order is below its exponent. -/
theorem order_lt {exponent : Int} (nonzero : fraction.numerator ≠ 0)
    (small : fraction.value < 2 ^ exponent) : fraction.order < exponent :=
  (zpow_lt_zpow_iff_right₀ one_lt_two).1 ((two_zpow_order_le nonzero).1.trans_lt small)

/-- Fractions are ordered like their orders. -/
theorem order_le_order (nonzero : one.numerator ≠ 0) (ordered : one.value ≤ two.value)
    (filled : two.numerator ≠ 0) : one.order ≤ two.order :=
  Int.lt_add_one_iff.1 (order_lt nonzero (ordered.trans_lt (two_zpow_order_le filled).2))

/-- The nearest double has as many digits as the precision allows, rounded at the last one. -/
theorem value_nearest (fraction : Fraction) :
    fraction.nearest.value =
      (fraction.shift (precision - 1 - fraction.order)).round *
        2 ^ (-(precision - 1 - fraction.order)) := by
  rw [nearest, value_shift, value_ofQuotient, Nat.cast_one, div_one]

/-- At most half a unit of the last digit is lost. -/
theorem abs_value_nearest_sub_le (fraction : Fraction) :
    |fraction.nearest.value - fraction.value| ≤ 2 ^ (fraction.order - precision) := by
  have next := roundsTo_round (fraction.shift (precision - 1 - fraction.order))
  have above := next.above
  have below := next.below
  rw [value_shift] at above below
  rw [value_nearest, zpow_neg, ← div_eq_mul_inv]
  generalize (fraction.shift (precision - 1 - fraction.order)).round = digits at above below
  have scale : (0 : ℚ) < 2 ^ (precision - 1 - fraction.order) := by positivity
  have unit : (2 : ℚ) ^ (fraction.order - precision) =
      1 / 2 / 2 ^ (precision - 1 - fraction.order) := by
    have exponents : fraction.order - precision = -1 - (precision - 1 - fraction.order) := by omega
    rw [exponents, zpow_sub₀ two_ne_zero, zpow_neg_one, one_div]
  rw [unit]
  generalize (2 : ℚ) ^ (precision - 1 - fraction.order) = power at above below scale
  have gap : digits / power - fraction.value = (digits - fraction.value * power) / power := by
    rw [sub_div, mul_div_cancel_right₀ _ scale.ne']
  rw [gap, abs_div, abs_of_pos scale]
  apply div_le_div_of_nonneg_right _ scale.le
  exact abs_le.2 ⟨by linarith, by linarith⟩

theorem value_of_zero (zero : fraction.numerator = 0) : fraction.value = 0 := by
  simp [value, zero]

/-- Nothing is kept as it is. -/
theorem value_nearest_of_zero (zero : fraction.numerator = 0) : fraction.nearest.value = 0 := by
  have none : (fraction.shift (precision - 1 - fraction.order)).round = 0 :=
    round_eq_of_value (by rw [value_shift, value_of_zero zero, zero_mul, Nat.cast_zero])
  rw [value_nearest, none, Nat.cast_zero, zero_mul]

/-- Below a power of two, at most half a unit of its last digit is lost. -/
theorem abs_value_nearest_sub_le_of_lt {exponent : Int} (small : fraction.value < 2 ^ exponent) :
    |fraction.nearest.value - fraction.value| ≤ 2 ^ (exponent - 1 - precision) := by
  by_cases zero : fraction.numerator = 0
  · rw [value_nearest_of_zero zero, value_of_zero zero, sub_self, abs_zero]
    positivity
  · have order := order_lt zero small
    exact fraction.abs_value_nearest_sub_le.trans (zpow_le_zpow_right₀ one_le_two (by omega))

/-- A natural number of at most 53 binary digits is kept as it is. -/
theorem value_nearest_of_whole {number : Nat} (whole : fraction.value = number)
    (short : number < 2 ^ 53) : fraction.nearest.value = number := by
  by_cases zero : fraction.numerator = 0
  · rw [value_nearest_of_zero zero, ← whole, value_of_zero zero]
  have small : fraction.value < 2 ^ (53 : Int) := by
    rw [whole]
    exact_mod_cast short
  have order := order_lt zero small
  -- The digits are the number itself, with zeros behind it.
  have scale : ((2 ^ (precision - 1 - fraction.order).toNat : Nat) : ℚ) =
      2 ^ (precision - 1 - fraction.order) := by
    have filled : 0 ≤ precision - 1 - fraction.order := by
      rw [precision]
      omega
    rw [Nat.cast_pow, Nat.cast_ofNat, ← zpow_natCast, Int.toNat_of_nonneg filled]
  have digits : (fraction.shift (precision - 1 - fraction.order)).round =
      number * 2 ^ (precision - 1 - fraction.order).toNat :=
    round_eq_of_value (by rw [value_shift, whole, Nat.cast_mul, scale])
  rw [value_nearest, digits, Nat.cast_mul, scale, mul_assoc, ← zpow_add₀ two_ne_zero,
    add_neg_cancel, zpow_zero, mul_one]

/-- A fraction and the nearest one lie between the same powers of two. -/
theorem two_zpow_order_le_nearest (nonzero : fraction.numerator ≠ 0) :
    (2 : ℚ) ^ fraction.order ≤ fraction.nearest.value ∧
      fraction.nearest.value ≤ 2 ^ (fraction.order + 1) := by
  obtain ⟨low, high⟩ := two_zpow_order_le nonzero
  have scale : (0 : ℚ) < 2 ^ (precision - 1 - fraction.order) := by positivity
  have least : (2 ^ 52 : Nat) =
      (2 : ℚ) ^ fraction.order * 2 ^ (precision - 1 - fraction.order) := by
    rw [← zpow_add₀ two_ne_zero, precision, add_sub_cancel]
    norm_num
  have most : (2 ^ 53 : Nat) =
      (2 : ℚ) ^ (fraction.order + 1) * 2 ^ (precision - 1 - fraction.order) := by
    have exponents : fraction.order + 1 + (precision - 1 - fraction.order) = 53 := by
      rw [precision]
      omega
    rw [← zpow_add₀ two_ne_zero, exponents]
    norm_num
  have digits := value_shift fraction (precision - 1 - fraction.order)
  rw [value_nearest, zpow_neg, ← div_eq_mul_inv, le_div_iff₀ scale, div_le_iff₀ scale, ← least,
    ← most, Nat.cast_le, Nat.cast_le]
  constructor
  · refine le_round_of_le_value ?_
    rw [digits, least]
    exact mul_le_mul_of_nonneg_right low scale.le
  · refine round_le_of_value_le ?_
    rw [digits, most]
    exact mul_le_mul_of_nonneg_right high.le scale.le

/-- Rounding to 53 binary digits keeps the order of fractions. -/
theorem value_nearest_le (ordered : one.value ≤ two.value) :
    one.nearest.value ≤ two.nearest.value := by
  by_cases zero : one.numerator = 0
  · rw [value_nearest_of_zero zero]
    exact value_nonneg _
  have filled : two.numerator ≠ 0 := by
    intro none
    have positive : 0 < one.value :=
      div_pos (Nat.cast_pos.2 (Nat.pos_of_ne_zero zero)) one.denominator_pos
    exact absurd positive (not_lt.2 (value_of_zero none ▸ ordered))
  rcases (order_le_order zero ordered filled).eq_or_lt with same | less
  · rw [value_nearest, value_nearest, same]
    have scaled : (one.shift (precision - 1 - two.order)).round ≤
        (two.shift (precision - 1 - two.order)).round := by
      refine round_le_round ?_
      rw [value_shift, value_shift]
      exact mul_le_mul_of_nonneg_right ordered (by positivity)
    exact mul_le_mul_of_nonneg_right (Nat.cast_le.2 scaled) (by positivity)
  · calc one.nearest.value ≤ 2 ^ (one.order + 1) := (two_zpow_order_le_nearest zero).2
      _ ≤ 2 ^ two.order := zpow_le_zpow_right₀ one_le_two less
      _ ≤ two.nearest.value := (two_zpow_order_le_nearest filled).1

/-! ### The whole part -/

/-- The whole part is the value rounded down. -/
theorem wholePart_eq_floor (fraction : Fraction) : fraction.wholePart = ⌊fraction.value⌋₊ :=
  (Nat.floor_div_eq_div fraction.numerator fraction.denominator).symm

/-- Both parts make the value. -/
theorem wholePart_add_afterPoint (fraction : Fraction) :
    fraction.wholePart + fraction.afterPoint.value = fraction.value := by
  have denominator := fraction.denominator_pos.ne'
  have parts : ((fraction.denominator * (fraction.numerator / fraction.denominator) +
      fraction.numerator % fraction.denominator : Nat) : ℚ) = fraction.numerator :=
    congrArg Nat.cast (Nat.div_add_mod _ _)
  push_cast at parts
  simp only [wholePart, afterPoint, value]
  field_simp
  linarith

/-- What is after the point is less than one. -/
theorem value_afterPoint_lt_one (fraction : Fraction) : fraction.afterPoint.value < 1 :=
  (div_lt_one fraction.denominator_pos).2 (Nat.cast_lt.2 (Nat.mod_lt _ fraction.positive))

/-- The whole part keeps the order. -/
theorem wholePart_le (ordered : one.value ≤ two.value) : one.wholePart ≤ two.wholePart := by
  rw [wholePart_eq_floor, wholePart_eq_floor]
  exact Nat.floor_mono ordered

end Fraction

end PatchShelf
