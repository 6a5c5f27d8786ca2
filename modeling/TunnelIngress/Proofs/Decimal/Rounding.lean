import TunnelIngress.Time.Seconds
import Mathlib.Algebra.Order.Field.Rat
import Mathlib.Tactic.FieldSimp
import Mathlib.Tactic.Linarith
import Mathlib.Tactic.Positivity

/-!
# Rounding to the nearest whole number

A fraction is rounded to the nearest whole number, a tie to the even one. The mantissa of a double is rounded
in the same way. It is shifted to the right bit by bit, and two bits remember what was shifted out.
-/

namespace TunnelIngress

variable {num den bound : Nat}

theorem roundHalfEven_le (some : 0 < den) (below : num ≤ bound * den) : roundHalfEven num den ≤ bound := by
  have split := Nat.div_add_mod num den
  have rest := Nat.mod_lt num some
  unfold roundHalfEven
  dsimp only
  have whole : num / den ≤ bound := Nat.div_le_of_le_mul (by rwa [Nat.mul_comm])
  split
  · exact whole
  · refine Nat.lt_of_le_of_ne whole fun same => ?_
    rw [same, Nat.mul_comm] at split
    omega

theorem le_roundHalfEven (some : 0 < den) (above : bound * den ≤ num) : bound ≤ roundHalfEven num den := by
  have whole : bound ≤ num / den := (Nat.le_div_iff_mul_le some).2 above
  unfold roundHalfEven
  dsimp only
  split
  · exact whole
  · exact whole.trans (Nat.le_succ _)

/-- The result is off by no more than a half. -/
theorem roundHalfEven_error (num : Nat) (some : 0 < den) :
    |(roundHalfEven num den : ℚ) - num / den| ≤ 1 / 2 := by
  have some_rat : (0 : ℚ) < den := by exact_mod_cast some
  have rest := Nat.mod_lt num some
  have exactly : (num : ℚ) / den = (num / den : Nat) + ((num % den : Nat) : ℚ) / den := by
    have split : (den : ℚ) * (num / den : Nat) + (num % den : Nat) = num := by
      exact_mod_cast Nat.div_add_mod num den
    rw [← split]
    field_simp
  rw [exactly]
  unfold roundHalfEven
  dsimp only
  split
  · rename_i down
    have half : ((num % den : Nat) : ℚ) / den ≤ 1 / 2 := by
      rw [div_le_div_iff₀ some_rat two_pos]
      exact_mod_cast (by omega : num % den * 2 ≤ 1 * den)
    have nonneg : (0 : ℚ) ≤ ((num % den : Nat) : ℚ) / den := by positivity
    rw [abs_le]
    constructor <;> linarith
  · rename_i up
    have half : 1 / 2 ≤ ((num % den : Nat) : ℚ) / den := by
      rw [div_le_div_iff₀ two_pos some_rat]
      exact_mod_cast (by omega : 1 * den ≤ num % den * 2)
    have below : ((num % den : Nat) : ℚ) / den ≤ 1 := by
      rw [div_le_one some_rat]
      exact_mod_cast rest.le
    push_cast
    rw [abs_le]
    constructor <;> linarith

namespace Decimal

open Float.Model.UnpackedFloat

/-- What two bits remember of what was shifted out: whether it is a half or more, and whether it is anything
but nothing or exactly a half. -/
structure Shifted (num shift : Nat) (extended : ExtendedMantissa) : Prop where
  mantissa : extended.mantissa = num / 2 ^ shift
  roundBit : extended.roundBit = decide (2 ^ shift ≤ 2 * (num % 2 ^ shift))
  stickyBit : extended.stickyBit = decide (2 * (num % 2 ^ shift) % 2 ^ shift ≠ 0)

variable {shift : Nat} {extended : ExtendedMantissa}

theorem Shifted.shiftRightOne (shifted : Shifted num shift extended) :
    Shifted num (shift + 1) extended.shiftRightOne := by
  obtain ⟨whole, round, sticky⟩ := shifted
  have rest := Nat.mod_lt num (Nat.two_pow_pos shift)
  have split : num % 2 ^ (shift + 1) = num % 2 ^ shift + 2 ^ shift * (num / 2 ^ shift % 2) := by
    rw [Nat.pow_succ, Nat.mod_mul]
  refine ⟨?_, ?_, ?_⟩
  · rw [ExtendedMantissa.shiftRightOne, whole, Nat.div_div_eq_div_mul, ← Nat.pow_succ]
  · rw [ExtendedMantissa.shiftRightOne, whole, split, Nat.pow_succ]
    rcases Nat.mod_two_eq_zero_or_one (num / 2 ^ shift) with even | odd
    · simp [even]
      omega
    · simp [odd]
      omega
  · have low : 2 * (num % 2 ^ (shift + 1)) % 2 ^ (shift + 1) = 2 * (num % 2 ^ shift) := by
      rw [split, Nat.pow_succ, Nat.mul_comm (2 ^ shift) 2, Nat.mul_mod_mul_left, Nat.add_mul_mod_self_left,
        Nat.mod_eq_of_lt rest]
    rw [ExtendedMantissa.shiftRightOne, round, sticky, low, Bool.eq_iff_iff]
    simp only [Bool.or_eq_true, decide_eq_true_eq]
    constructor
    · rintro (half | other) none
      · have some := Nat.two_pow_pos shift
        omega
      · simp [none] at other
    · intro some
      by_cases half : 2 ^ shift ≤ 2 * (num % 2 ^ shift)
      · exact .inl half
      · exact .inr (by rwa [Nat.mod_eq_of_lt (Nat.lt_of_not_le half)])

theorem shifted_shiftRight (num shift : Nat) :
    Shifted num shift (ExtendedMantissa.ofMantissaAndAccuracy num .exact >>> shift) := by
  induction shift with
  | zero =>
    have still : ExtendedMantissa.ofMantissaAndAccuracy num .exact >>> 0 = ⟨num, false, false⟩ := rfl
    rw [still]
    exact ⟨by simp, by simp [Nat.mod_one], by simp [Nat.mod_one]⟩
  | succ shift ih => exact ih.shiftRightOne

theorem Shifted.roundedMantissa (shifted : Shifted num shift extended) :
    extended.roundedMantissa = roundHalfEven num (2 ^ shift) := by
  obtain ⟨whole, round, sticky⟩ := shifted
  have rest := Nat.mod_lt num (Nat.two_pow_pos shift)
  obtain ⟨mantissa, roundBit, stickyBit⟩ := extended
  unfold roundHalfEven
  dsimp only at *
  rw [whole]
  cases roundBit with
  | false =>
    -- Less than a half is left out.
    have less : 2 * (num % 2 ^ shift) < 2 ^ shift := by simpa using round.symm
    rw [if_pos (.inl less)]
    cases stickyBit <;> rfl
  | true =>
    have half : 2 ^ shift ≤ 2 * (num % 2 ^ shift) := by simpa using round.symm
    have beyond : 2 * (num % 2 ^ shift) % 2 ^ shift = 2 * (num % 2 ^ shift) - 2 ^ shift := by
      rw [Nat.mod_eq_sub_mod half, Nat.mod_eq_of_lt (by omega)]
    rw [beyond] at sticky
    cases stickyBit with
    | false =>
      have tie : 2 * (num % 2 ^ shift) = 2 ^ shift := by
        have none : 2 * (num % 2 ^ shift) - 2 ^ shift = 0 := by simpa using sticky.symm
        omega
      simp only [tie, Nat.lt_irrefl, true_and, false_or]
      change num / 2 ^ shift + num / 2 ^ shift % 2 = _
      split <;> omega
    | true =>
      have more : 2 ^ shift < 2 * (num % 2 ^ shift) := by
        have some : 2 * (num % 2 ^ shift) - 2 ^ shift ≠ 0 := by simpa using sticky.symm
        omega
      rw [if_neg (by omega)]
      rfl

/-! ### A result with its exponent -/

variable {mantissa : Nat} {exponent : Int}

open Float.Model

/-- The exponent that a result is rounded at. -/
def roundingExponent (mantissa : Nat) (exponent : Int) : Int :=
  max (mantissa.log2 + 1 + exponent - 53) (-1074)

/-- The mantissa that it is rounded to, which may have one bit too many. -/
def roundedTo (mantissa : Nat) (exponent : Int) : Nat :=
  roundHalfEven mantissa (2 ^ (roundingExponent mantissa exponent - exponent).toNat)

theorem shiftToTargetExponent_eq (mantissa : Nat) (exponent : Int) :
    shiftToTargetExponent Format.binary64 mantissa exponent .exact =
      (ExtendedMantissa.ofMantissaAndAccuracy mantissa .exact >>>
          (roundingExponent mantissa exponent - exponent).toNat,
        exponent + (roundingExponent mantissa exponent - exponent).toNat) :=
  rfl

theorem roundedTo_le (mantissa : Nat) (exponent : Int) : roundedTo mantissa exponent ≤ 2 ^ 53 := by
  refine roundHalfEven_le (Nat.two_pow_pos _) ?_
  have enough : mantissa.log2 + 1 ≤ 53 + (roundingExponent mantissa exponent - exponent).toNat := by
    unfold roundingExponent
    omega
  rw [← Nat.pow_add]
  exact Nat.lt_log2_self.le.trans (Nat.pow_le_pow_right two_pos enough)

theorem le_roundedTo (some : mantissa ≠ 0) (right : exponent ≤ roundingExponent mantissa exponent)
    (normal : roundingExponent mantissa exponent ≠ -1074) : 2 ^ 52 ≤ roundedTo mantissa exponent := by
  refine le_roundHalfEven (Nat.two_pow_pos _) ?_
  have enough : 52 + (roundingExponent mantissa exponent - exponent).toNat ≤ mantissa.log2 := by
    unfold roundingExponent at *
    omega
  rw [← Nat.pow_add]
  exact (Nat.pow_le_pow_right two_pos enough).trans (Nat.log2_self_le some)

/-- A mantissa of 53 bits at the most is not shifted any more. -/
theorem shift_rounded (small : mantissa < 2 ^ 53) (least : -1074 ≤ exponent) :
    shiftToTargetExponent Format.binary64 mantissa exponent .exact = (⟨mantissa, false, false⟩, exponent) := by
  have bits : mantissa.log2 ≤ 52 := by
    by_cases none : mantissa = 0
    · simp [none]
    · exact Nat.le_of_lt_succ ((Nat.log2_lt none).2 small)
  have still : (roundingExponent mantissa exponent - exponent).toNat = 0 := by
    unfold roundingExponent
    omega
  rw [shiftToTargetExponent_eq, still]
  simp only [Int.ofNat_zero, Int.add_zero]
  rfl

/-- One that was rounded up to one bit more is shifted once, and loses nothing. -/
theorem shift_carried (least : -1074 ≤ exponent) :
    shiftToTargetExponent Format.binary64 (2 ^ 53) exponent .exact =
      (⟨2 ^ 52, false, false⟩, exponent + 1) := by
  have once : (roundingExponent (2 ^ 53) exponent - exponent).toNat = 1 := by
    unfold roundingExponent
    rw [Nat.log2_two_pow]
    omega
  rw [shiftToTargetExponent_eq, once]
  rfl

theorem roundWithAccuracy_eq (sign : Sign) (right : exponent ≤ roundingExponent mantissa exponent) :
    roundWithAccuracy Format.binary64 sign mantissa exponent .exact =
      if none : roundedTo mantissa exponent = 0 then .zero sign
      else if roundedTo mantissa exponent < 2 ^ 53 then
        .finite sign (roundedTo mantissa exponent) (roundingExponent mantissa exponent)
          (Nat.pos_of_ne_zero none)
      else .finite sign (2 ^ 52) (roundingExponent mantissa exponent + 1) (Nat.two_pow_pos 52) := by
  have least : -1074 ≤ roundingExponent mantissa exponent := Int.le_max_right ..
  have rounded : (ExtendedMantissa.ofMantissaAndAccuracy mantissa .exact >>>
      (roundingExponent mantissa exponent - exponent).toNat).roundedMantissa = roundedTo mantissa exponent :=
    (shifted_shiftRight ..).roundedMantissa
  have at_it : exponent + ((roundingExponent mantissa exponent - exponent).toNat : Int) =
      roundingExponent mantissa exponent := by omega
  have again : shiftToTargetExponent Format.binary64
        (ExtendedMantissa.ofMantissaAndAccuracy mantissa .exact >>>
          (roundingExponent mantissa exponent - exponent).toNat).roundedMantissa
        (exponent + ((roundingExponent mantissa exponent - exponent).toNat : Int)) .exact =
      shiftToTargetExponent Format.binary64 (roundedTo mantissa exponent)
        (roundingExponent mantissa exponent) .exact := by
    rw [rounded, at_it]
  unfold roundWithAccuracy
  rw [shiftToTargetExponent_eq mantissa exponent]
  dsimp only
  rw [again]
  by_cases small : roundedTo mantissa exponent < 2 ^ 53
  · rw [shift_rounded small least]
    exact dite_congr rfl (fun _ => rfl) fun _ => (if_pos small).symm
  · have carried : roundedTo mantissa exponent = 2 ^ 53 :=
      Nat.le_antisymm (roundedTo_le mantissa exponent) (Nat.le_of_not_lt small)
    have shifted : shiftToTargetExponent Format.binary64 (roundedTo mantissa exponent)
        (roundingExponent mantissa exponent) .exact =
          (⟨2 ^ 52, false, false⟩, roundingExponent mantissa exponent + 1) := by
      rw [carried]
      exact shift_carried least
    have some : roundedTo mantissa exponent ≠ 0 := by omega
    rw [shifted, dif_neg some, if_neg small]
    rfl

end Decimal

end TunnelIngress
