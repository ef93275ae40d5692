/-
Module: PatchShelf.Proofs.FileTime
Purpose: How much of the time of a file is lost when it is read.
Main exports:
  FileTime.Near, FileTime.abs_measured_sub_le, FileTime.abs_micros_sub_lt,
  FileTime.micros_of_read, FileTime.eq_of_read_ofInstant
-/
import Mathlib.Tactic.NormNum
import PatchShelf.FileTime
import PatchShelf.Proofs.Effect
import PatchShelf.Proofs.Fraction

/-!
Each operation on the way from nanoseconds to a number of seconds loses at most half a unit of
the last digit of its result.  Below 2 ^ 33 seconds the last of them counts most, and it loses at
most 2 ^ -21 seconds, a bit less than half a microsecond.  As much is lost again when the seconds
are rounded to the microsecond.  So a time from 1697 to 2242 is read as one that is less than a
microsecond away, and as itself if it is a whole number of microseconds.
-/

namespace PatchShelf

namespace FileTime

open Fraction (precision)

/-- The seconds before and after the start of 1970 in which times are read to the microsecond. -/
def exactSeconds : Nat := 2 ^ 33

/-- The time is that near to the start of 1970. -/
def Near (time : FileTime) : Prop :=
  time.sinceEpoch.natAbs < exactSeconds * nanosPerSecond

instance (time : FileTime) : Decidable time.Near :=
  inferInstanceAs (Decidable (_ < _))

variable {time : FileTime}

theorem sinceEpoch_ofInstant (moment : Instant) :
    (ofInstant moment).sinceEpoch = moment.micros * nanosPerMicro := by
  simp only [sinceEpoch, ofInstant, nanosPerSecond, nanosPerMicro, microsPerSecond]
  omega

/-! ### From nanoseconds to a number of seconds -/

/-- A billionth is no binary fraction, so a bit of it is lost. -/
theorem abs_billionth_sub_le : |billionth.value - 1 / nanosPerSecond| ≤ 2 ^ (-83 : Int) := by
  have small : (Fraction.ofQuotient 1 nanosPerSecond (by decide)).value < 2 ^ (-29 : Int) := by
    norm_num [nanosPerSecond]
  have lost := Fraction.abs_value_nearest_sub_le_of_lt small
  rw [Fraction.value_ofQuotient, Nat.cast_one, precision] at lost
  exact lost

/-- The part of a second loses as much by the billionth as by the rounding of the product. -/
theorem abs_partOfSecond_sub_le (time : FileTime) :
    |time.partOfSecond.value - time.nanos / nanosPerSecond| ≤ 2 ^ (-52 : Int) := by
  have count : (time.nanos : ℚ) ≤ nanosPerSecond := Nat.cast_le.2 time.withinSecond.le
  have scaled : |(billionth.times time.nanos).value - time.nanos / nanosPerSecond| ≤
      2 ^ (-53 : Int) := by
    calc |(billionth.times time.nanos).value - time.nanos / nanosPerSecond|
        = |billionth.value - 1 / nanosPerSecond| * time.nanos := by
          rw [Fraction.value_times, ← abs_of_nonneg (Nat.cast_nonneg (α := ℚ) time.nanos),
            ← abs_mul, abs_of_nonneg (Nat.cast_nonneg (α := ℚ) time.nanos)]
          ring_nf
      _ ≤ 2 ^ (-83 : Int) * nanosPerSecond :=
          mul_le_mul abs_billionth_sub_le count (Nat.cast_nonneg _) (by positivity)
      _ ≤ 2 ^ (-53 : Int) := by norm_num [nanosPerSecond]
  have whole : (time.nanos : ℚ) / nanosPerSecond ≤ 1 := div_le_one_of_le₀ count (Nat.cast_nonneg _)
  have small : (billionth.times time.nanos).value < 2 ^ (1 : Int) := by
    have above := (abs_le.1 scaled).2
    norm_num at above ⊢
    linarith
  have rounded := Fraction.abs_value_nearest_sub_le_of_lt small
  have both := abs_add_le (time.partOfSecond.value - (billionth.times time.nanos).value)
    ((billionth.times time.nanos).value - time.nanos / nanosPerSecond)
  rw [sub_add_sub_cancel] at both
  refine (both.trans (add_le_add rounded scaled)).trans ?_
  norm_num [precision]

/-- So near to the start of 1970, the whole seconds are kept as they are. -/
theorem value_wholeSeconds (near : time.Near) :
    time.wholeSeconds.value = time.seconds.natAbs := by
  have within := time.withinSecond
  refine Fraction.value_nearest_of_whole (by simp) ?_
  simp only [Near, sinceEpoch, exactSeconds, nanosPerSecond] at near within ⊢
  omega

/-- The nanoseconds of a time, seen from its seconds. -/
theorem natAbs_sinceEpoch (time : FileTime) :
    (time.sinceEpoch.natAbs : ℚ) / nanosPerSecond =
      if 0 ≤ time.seconds then time.seconds.natAbs + (time.nanos : ℚ) / nanosPerSecond
      else time.seconds.natAbs - (time.nanos : ℚ) / nanosPerSecond := by
  have within := time.withinSecond
  have second : (nanosPerSecond : ℚ) ≠ 0 := by norm_num [nanosPerSecond]
  split
  · have sum : time.sinceEpoch.natAbs = time.seconds.natAbs * nanosPerSecond + time.nanos := by
      simp only [sinceEpoch, nanosPerSecond] at within ⊢
      omega
    rw [sum, Nat.cast_add, Nat.cast_mul, add_div, mul_div_cancel_right₀ _ second]
  · have sum : time.sinceEpoch.natAbs + time.nanos = time.seconds.natAbs * nanosPerSecond := by
      simp only [sinceEpoch, nanosPerSecond] at within ⊢
      omega
    rw [eq_sub_iff_add_eq, ← add_div, ← Nat.cast_add, sum, Nat.cast_mul,
      mul_div_cancel_right₀ _ second]

/-- The number of seconds before it is rounded for the last time. -/
theorem exists_measured_eq (near : time.Near) : ∃ sum : Fraction, time.measured = sum.nearest ∧
    |sum.value - time.sinceEpoch.natAbs / nanosPerSecond| ≤ 2 ^ (-52 : Int) := by
  have lost := abs_partOfSecond_sub_le time
  have whole := value_wholeSeconds near
  rw [measured, natAbs_sinceEpoch]
  by_cases later : 0 ≤ time.seconds
  · rw [if_pos later, if_pos later]
    refine ⟨_, rfl, ?_⟩
    rwa [Fraction.value_plus, whole, add_sub_add_left_eq_sub]
  · rw [if_neg later, if_neg later]
    refine ⟨_, rfl, ?_⟩
    have positive : (1 : ℚ) ≤ time.seconds.natAbs := by
      exact_mod_cast Nat.one_le_iff_ne_zero.2 (by omega)
    have below : time.partOfSecond.value ≤ time.wholeSeconds.value := by
      have part : ((time.nanos + 1 : Nat) : ℚ) / nanosPerSecond ≤ 1 :=
        div_le_one_of_le₀ (Nat.cast_le.2 time.withinSecond) (Nat.cast_nonneg _)
      have above := (abs_le.1 lost).2
      rw [Nat.cast_add, add_div] at part
      rw [whole]
      refine le_trans ?_ positive
      norm_num [nanosPerSecond] at part above
      linarith
    rw [Fraction.value_minus below, whole, sub_sub_sub_cancel_left, abs_sub_comm]
    exact lost

/-- Near the start of 1970, a bit less than half a microsecond is lost. -/
theorem abs_measured_sub_le (near : time.Near) :
    |time.measured.value - time.sinceEpoch.natAbs / nanosPerSecond| ≤
      2 ^ (-21 : Int) + 2 ^ (-52 : Int) := by
  obtain ⟨sum, same, lost⟩ := exists_measured_eq near
  have small : sum.value < 2 ^ (33 : Int) := by
    have whole : ((time.sinceEpoch.natAbs + 1 : Nat) : ℚ) / nanosPerSecond ≤ exactSeconds := by
      rw [div_le_iff₀ (by norm_num [nanosPerSecond])]
      exact_mod_cast near
    have above := (abs_le.1 lost).2
    rw [Nat.cast_add, add_div] at whole
    norm_num [nanosPerSecond, exactSeconds] at whole above ⊢
    linarith
  have rounded := Fraction.abs_value_nearest_sub_le_of_lt small
  have both := abs_add_le (sum.nearest.value - sum.value)
    (sum.value - time.sinceEpoch.natAbs / nanosPerSecond)
  rw [sub_add_sub_cancel] at both
  rw [same]
  refine both.trans (add_le_add (rounded.trans_eq ?_) lost)
  norm_num [precision]

/-! ### From seconds to microseconds -/

/-- A number of seconds is rounded to the microsecond, but for an error of the product. -/
theorem abs_toMicros_sub_le (seconds : Fraction) :
    |(toMicros seconds : ℚ) - seconds.value * microsPerSecond| ≤
      1 / 2 + 2 ^ (-34 : Int) := by
  have part := seconds.value_afterPoint_lt_one
  have small : (seconds.afterPoint.times microsPerSecond).value < 2 ^ (20 : Int) := by
    rw [Fraction.value_times]
    norm_num [microsPerSecond]
    linarith
  have product := Fraction.abs_value_nearest_sub_le_of_lt small
  have next := Fraction.roundsTo_round (seconds.afterPoint.times microsPerSecond).nearest
  have above := next.above
  have below := next.below
  have exponent : (20 : Int) - 1 - precision = -34 := by norm_num [precision]
  rw [Fraction.value_times, exponent, abs_le] at product
  rw [toMicros, ← seconds.wholePart_add_afterPoint, Nat.cast_add, Nat.cast_mul, add_mul,
    add_sub_add_left_eq_sub, abs_le]
  generalize (2 : ℚ) ^ (-34 : Int) = gap at product
  exact ⟨by linarith [product.1], by linarith [product.2]⟩

/-- The sizes are less than a microsecond apart, before and after the start of 1970. -/
theorem abs_toMicros_measured_sub_lt (near : time.Near) :
    |(toMicros time.measured : ℚ) * nanosPerMicro - time.sinceEpoch.natAbs| < nanosPerMicro := by
  have seconds := abs_le.1 (abs_measured_sub_le near)
  have rounded := abs_le.1 (abs_toMicros_sub_le time.measured)
  have scale : ((time.sinceEpoch.natAbs : ℚ) / nanosPerSecond) * nanosPerSecond =
      time.sinceEpoch.natAbs := div_mul_cancel₀ _ (by norm_num [nanosPerSecond])
  generalize (time.sinceEpoch.natAbs : ℚ) = exact at seconds scale
  generalize (toMicros time.measured : ℚ) = micros at rounded
  rw [abs_lt]
  norm_num [nanosPerSecond, microsPerSecond, nanosPerMicro] at seconds rounded scale ⊢
  exact ⟨by linarith, by linarith⟩

/-- Near the start of 1970, a time is read as one that is less than a microsecond away. -/
theorem abs_micros_sub_lt (near : time.Near) :
    |time.micros * nanosPerMicro - time.sinceEpoch| < nanosPerMicro := by
  have whole {count unit exact : Nat} (apart : |(count * unit - exact : ℚ)| < unit) :
      |(count * unit - exact : Int)| < unit := by exact_mod_cast apart
  have size := whole (abs_toMicros_measured_sub_lt near)
  have within := time.withinSecond
  rw [abs_lt] at size ⊢
  rw [micros]
  generalize toMicros time.measured = count at size
  simp only [sinceEpoch, nanosPerSecond, nanosPerMicro] at within size ⊢
  split <;> omega

/-- The moment as which a time is read has the microseconds as which it is. -/
theorem micros_of_read {moment : Instant} (taken : time.read = .ok moment) :
    moment.micros = time.micros := by
  rw [read, mapError_eq_ok_iff, Instant.ofMicros] at taken
  split at taken
  · exact congrArg Instant.micros (Except.ok.inj taken).symm
  · cases taken

/-- A time that is a whole number of microseconds is read as what it is. -/
theorem eq_of_read_ofInstant {moment shown : Instant} (near : (ofInstant moment).Near)
    (taken : (ofInstant moment).read = .ok shown) : shown = moment := by
  have micros := micros_of_read taken
  have lost := abs_lt.1 (abs_micros_sub_lt near)
  rw [sinceEpoch_ofInstant, ← micros] at lost
  have same : shown.micros = moment.micros := by
    simp only [nanosPerMicro] at lost
    omega
  cases shown
  cases moment
  simpa using same

end FileTime

end PatchShelf
