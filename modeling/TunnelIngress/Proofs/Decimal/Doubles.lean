import TunnelIngress.Proofs.Decimal.Packing
import Mathlib.Algebra.Order.Field.Power
import Mathlib.Tactic.Ring

/-!
# Doubles as numbers

What is computed with doubles is the exact result, rounded. It differs from that by a part of 2 ^ 53 at
the most, except next to zero, where doubles are no finer than their least one. Only numbers that are not
negative are considered.
-/

namespace TunnelIngress.Decimal

open Float.Model Float.Model.UnpackedFloat

variable {mantissa : Nat} {exponent : Int}

/-- A number after rounding, were there no greatest exponent. Rounding does not lead past a number that a
double of any exponent can be. -/
structure Rounded (exact rounded : ℚ) : Prop where
  error : |rounded - exact| ≤ exact / 2 ^ 53 + 1 / 2 ^ 1075
  le : ∀ (mantissa : Nat) (exponent : Int), mantissa < 2 ^ 53 → -1074 ≤ exponent →
    exact ≤ mantissa * 2 ^ exponent → rounded ≤ mantissa * 2 ^ exponent
  ge : ∀ (mantissa : Nat) (exponent : Int), mantissa < 2 ^ 53 → -1074 ≤ exponent →
    mantissa * 2 ^ exponent ≤ exact → mantissa * 2 ^ exponent ≤ rounded

theorem zpow_mul_pow {fine coarse : Int} (right : fine ≤ coarse) :
    (2 : ℚ) ^ fine * ((2 ^ (coarse - fine).toNat : Nat) : ℚ) = 2 ^ coarse := by
  rw [Nat.cast_pow, Nat.cast_ofNat, ← zpow_natCast, ← zpow_add₀ two_ne_zero]
  congr 1
  omega

/-- Half of the last place is little against the number, or else nothing is as small. -/
theorem half_unit_le (some : mantissa ≠ 0) (exponent : Int) :
    (2 : ℚ) ^ roundingExponent mantissa exponent / 2 ≤ mantissa * 2 ^ exponent / 2 ^ 53 + 1 / 2 ^ 1075 := by
  unfold roundingExponent
  rcases Int.le_total (mantissa.log2 + 1 + exponent - 53) (-1074) with subnormal | normal
  · have least : (2 : ℚ) ^ (-1074 : Int) / 2 = 1 / 2 ^ 1075 := by
      rw [zpow_neg, zpow_ofNat, inv_eq_one_div, div_div, ← pow_succ]
    rw [max_eq_right subnormal, least]
    exact le_add_of_nonneg_left (by positivity)
  · rw [max_eq_left normal]
    have digits : (2 : ℚ) ^ mantissa.log2 ≤ mantissa := by exact_mod_cast Nat.log2_self_le some
    have unit : (2 : ℚ) ^ ((mantissa.log2 : Int) + 1 + exponent - 53) / 2 =
        2 ^ mantissa.log2 * 2 ^ exponent / 2 ^ 53 := by
      rw [zpow_sub₀ two_ne_zero, zpow_add₀ two_ne_zero, zpow_add₀ two_ne_zero, zpow_one, zpow_natCast,
        zpow_ofNat]
      ring
    rw [unit]
    refine le_add_of_le_of_nonneg ?_ (by positivity)
    gcongr

/-- A number with a coarser last place is a whole number of units of a finer one. -/
theorem mul_zpow_coarse {place coarse : Int} (right : place ≤ coarse) (m : Nat) :
    (m : ℚ) * 2 ^ coarse = (m * 2 ^ (coarse - place).toNat : Nat) * 2 ^ place := by
  rw [← zpow_mul_pow right]
  push_cast
  ring

theorem mul_zpow_fine {place : Int} (right : exponent ≤ place) (mantissa : Nat) :
    (mantissa : ℚ) * 2 ^ exponent = mantissa / (2 ^ (place - exponent).toNat : Nat) * 2 ^ place := by
  have unit : (0 : ℚ) < (2 ^ (place - exponent).toNat : Nat) := by positivity
  rw [← zpow_mul_pow right, mul_comm (_ ^ exponent), ← mul_assoc, div_mul_cancel₀ _ unit.ne']

/-- A number is compared with a coarser one in units of its own. -/
theorem mul_zpow_le_iff {place coarse : Int} (right : exponent ≤ place) (right' : place ≤ coarse) (m : Nat) :
    ((mantissa : ℚ) * 2 ^ exponent ≤ m * 2 ^ coarse ↔
      mantissa ≤ m * 2 ^ (coarse - place).toNat * 2 ^ (place - exponent).toNat) ∧
    ((m : ℚ) * 2 ^ coarse ≤ mantissa * 2 ^ exponent ↔
      m * 2 ^ (coarse - place).toNat * 2 ^ (place - exponent).toNat ≤ mantissa) := by
  have unit : (0 : ℚ) < 2 ^ exponent := by positivity
  rw [mul_zpow_coarse right', ← zpow_mul_pow right, mul_comm (_ ^ exponent), ← mul_assoc,
    mul_le_mul_iff_left₀ unit, mul_le_mul_iff_left₀ unit]
  norm_cast

/-- The last place of what is rounded is no coarser than that of a number above it. -/
theorem roundingExponent_le {m : Nat} {e : Int} (some : mantissa ≠ 0) (small : m < 2 ^ 53) (least : -1074 ≤ e)
    (above : (mantissa : ℚ) * 2 ^ exponent ≤ m * 2 ^ e) : roundingExponent mantissa exponent ≤ e := by
  have digits : (2 : ℚ) ^ mantissa.log2 ≤ mantissa := by exact_mod_cast Nat.log2_self_le some
  have bits : (m : ℚ) < 2 ^ 53 := by exact_mod_cast small
  have powers : (2 : ℚ) ^ ((mantissa.log2 : Int) + exponent) < 2 ^ (53 + e) := by
    rw [zpow_add₀ two_ne_zero, zpow_add₀ two_ne_zero, zpow_natCast, zpow_ofNat]
    calc (2 : ℚ) ^ mantissa.log2 * 2 ^ exponent ≤ mantissa * 2 ^ exponent := by gcongr
      _ ≤ m * 2 ^ e := above
      _ < 2 ^ 53 * 2 ^ e := by gcongr
  have exponents := (zpow_lt_zpow_iff_right₀ one_lt_two).1 powers
  unfold roundingExponent
  omega

theorem roundedTo_error (some : mantissa ≠ 0) (right : exponent ≤ roundingExponent mantissa exponent) :
    |(roundedTo mantissa exponent : ℚ) * 2 ^ roundingExponent mantissa exponent - mantissa * 2 ^ exponent| ≤
      mantissa * 2 ^ exponent / 2 ^ 53 + 1 / 2 ^ 1075 := by
  have unit : (0 : ℚ) < 2 ^ roundingExponent mantissa exponent := by positivity
  refine le_trans ?_ (half_unit_le some exponent)
  rw [mul_zpow_fine right, ← sub_mul, abs_mul, abs_of_pos unit]
  calc _ ≤ 1 / 2 * (2 : ℚ) ^ roundingExponent mantissa exponent := by
        gcongr
        exact roundHalfEven_error mantissa (Nat.two_pow_pos _)
    _ = _ := by ring

theorem rounded_roundedTo (some : mantissa ≠ 0) (right : exponent ≤ roundingExponent mantissa exponent) :
    Rounded (mantissa * 2 ^ exponent)
      (roundedTo mantissa exponent * 2 ^ roundingExponent mantissa exponent) := by
  refine ⟨roundedTo_error some right, fun m e small low above => ?_, fun m e small low below => ?_⟩
  · have coarse := roundingExponent_le some small low above
    rw [mul_zpow_coarse coarse]
    gcongr
    exact roundHalfEven_le (Nat.two_pow_pos _) ((mul_zpow_le_iff right coarse m).1.1 above)
  · rcases Int.lt_or_le e (roundingExponent mantissa exponent) with fine | coarse
    · -- All 53 bits are in use, and so anything with a finer last place is below.
      have full : (2 : ℚ) ^ 52 ≤ roundedTo mantissa exponent := by
        exact_mod_cast le_roundedTo some right (by omega)
      have bits : (m : ℚ) ≤ 2 ^ 53 := by exact_mod_cast small.le
      calc (m : ℚ) * 2 ^ e ≤ 2 ^ 53 * 2 ^ e := by gcongr
        _ = 2 ^ 52 * 2 ^ (e + 1) := by
          rw [zpow_add₀ two_ne_zero, zpow_one]
          ring
        _ ≤ roundedTo mantissa exponent * 2 ^ roundingExponent mantissa exponent := by
          gcongr
          · exact one_le_two
          · omega
    · rw [mul_zpow_coarse coarse]
      gcongr
      exact le_roundHalfEven (Nat.two_pow_pos _) ((mul_zpow_le_iff right coarse m).2.1 below)

/-! ### The number of a double -/

/-- A double that is the number. A zero may have any sign. -/
def Binary64.Is (double : Binary64) (number : ℚ) : Prop :=
  ∃ negative mantissa exponent, double = .finite negative mantissa exponent ∧
    (negative = true → mantissa = 0) ∧ number = mantissa * 2 ^ exponent

/-- A double that is the number, or is infinite because the number is too large for a double. -/
def Binary64.Holds (double : Binary64) (number : ℚ) : Prop :=
  double.Is number ∨ double = .infinite false ∧ 2 ^ 1024 ≤ number

/-- The double of a result. -/
def packed (result : UnpackedFloat) : Binary64 :=
  .ofBits (UInt64.ofBitVec (UnpackedFloat.pack Format.binary64 result))

theorem packed_holds (canonical : Canonical mantissa exponent) (some : 0 < mantissa) :
    (packed (.finite .positive mantissa exponent some)).Holds (mantissa * 2 ^ exponent) := by
  unfold packed
  rw [ofBits_pack_finite canonical]
  split
  · exact .inl ⟨_, _, _, rfl, nofun, rfl⟩
  · rename_i large
    refine .inr ⟨rfl, ?_⟩
    have full : (2 : ℚ) ^ 52 ≤ mantissa := by
      exact_mod_cast canonical.normal.resolve_right (by omega)
    have exponents : (2 : ℚ) ^ (972 : Int) ≤ 2 ^ exponent := zpow_le_zpow_right₀ one_le_two (by omega)
    have least : (2 : ℚ) ^ 1024 = 2 ^ 52 * 2 ^ (972 : Int) := by
      rw [zpow_ofNat, ← pow_add]
    rw [least]
    gcongr

/-- A result is rounded and then packed. -/
theorem packed_round (some : mantissa ≠ 0) (right : exponent ≤ roundingExponent mantissa exponent) :
    ∃ rounded, Rounded (mantissa * 2 ^ exponent) rounded ∧
      (packed (roundWithAccuracy Format.binary64 .positive mantissa exponent .exact)).Holds rounded := by
  refine ⟨_, rounded_roundedTo some right, ?_⟩
  have least : -1074 ≤ roundingExponent mantissa exponent := Int.le_max_right ..
  have normal := le_roundedTo some right
  rw [roundWithAccuracy_eq .positive right]
  by_cases none : roundedTo mantissa exponent = 0
  · rw [dif_pos none]
    exact .inl ⟨_, _, _, ofBits_pack_zero .positive, nofun, by simp [none]⟩
  · rw [dif_neg none]
    by_cases small : roundedTo mantissa exponent < 2 ^ 53
    · rw [if_pos small]
      exact packed_holds ⟨small, least, by omega⟩ _
    · rw [if_neg small]
      have carried : roundedTo mantissa exponent = 2 ^ 53 :=
        Nat.le_antisymm (roundedTo_le mantissa exponent) (Nat.le_of_not_lt small)
      have shifted : ((2 ^ 53 : Nat) : ℚ) * 2 ^ roundingExponent mantissa exponent =
          (2 ^ 52 : Nat) * 2 ^ (roundingExponent mantissa exponent + 1) := by
        rw [zpow_add₀ two_ne_zero, zpow_one]
        push_cast
        ring
      rw [carried, shifted]
      exact packed_holds ⟨by decide, by omega, .inl (Nat.le_refl _)⟩ _

/-! ### Arithmetic -/

variable {x y : Float} {p q : ℚ}

theorem rounded_zero : Rounded 0 0 :=
  ⟨by norm_num, fun _ _ _ _ le => le, fun _ _ _ _ le => le⟩

theorem unpack_ofFloat (x : Float) : x.toModel.unpack = (Binary64.ofFloat x).unpacked :=
  unpack_eq x.toBits

theorem canonical_ofFloat {negative : Bool} (read : Binary64.ofFloat x = .finite negative mantissa exponent) :
    Canonical mantissa exponent ∧ exponent ≤ 971 :=
  canonical_ofBits read

/-- The product of two mantissas has enough bits to be rounded. -/
theorem mul_right {m n : Nat} {e f : Int} (here : Canonical m e) (there : Canonical n f) (some : 0 < m)
    (some' : 0 < n) : e + f ≤ roundingExponent (m * n) (e + f) := by
  have bits (full : 2 ^ 52 ≤ m * n) : 52 ≤ (m * n).log2 := (Nat.le_log2 (by positivity)).2 full
  unfold roundingExponent
  rcases here.normal with normal | least
  · have bits := bits (normal.trans (Nat.le_mul_of_pos_right m some'))
    omega
  · rcases there.normal with normal | least'
    · have bits := bits (normal.trans (Nat.le_mul_of_pos_left n some))
      omega
    · omega

/-- A number is a zero of some sign, or is positive. -/
theorem unpack_of_is (is : (Binary64.ofFloat x).Is p) :
    (p = 0 ∧ ∃ sign, x.toModel.unpack = .zero sign) ∨
      ∃ (m : Nat) (e : Int) (some : 0 < m), p = m * 2 ^ e ∧ Canonical m e ∧ e ≤ 971 ∧
        x.toModel.unpack = .finite .positive m e some := by
  obtain ⟨negative, m, e, read, sign, rfl⟩ := is
  have unpacked : x.toModel.unpack = (Binary64.finite negative m e).unpacked := by
    rw [unpack_ofFloat, read]
  rcases Nat.eq_zero_or_pos m with rfl | some
  · exact .inl ⟨by simp, _, unpacked⟩
  · have positive : negative = false := by
      by_contra minus
      exact some.ne' (sign (by simpa using minus))
    obtain ⟨canonical, large⟩ := canonical_ofFloat read
    refine .inr ⟨m, e, some, rfl, canonical, large, unpacked.trans ?_⟩
    rw [Binary64.unpacked, dif_pos some, positive]
    rfl

theorem packed_zero (sign : Sign) : (packed (.zero sign)).Holds 0 :=
  .inl ⟨_, _, _, ofBits_pack_zero sign, fun _ => rfl, by simp⟩

theorem mul_holds (one : (Binary64.ofFloat x).Is p) (other : (Binary64.ofFloat y).Is q) :
    ∃ rounded, Rounded (p * q) rounded ∧ (Binary64.ofFloat (x * y)).Holds rounded := by
  have product : Binary64.ofFloat (x * y) =
      packed (UnpackedFloat.mul Format.binary64 x.toModel.unpack y.toModel.unpack) := rfl
  rw [product]
  rcases unpack_of_is one with ⟨rfl, sign, here⟩ | ⟨m, e, some, rfl, canonical, _, here⟩
  · refine ⟨0, by simpa using rounded_zero, ?_⟩
    rcases unpack_of_is other with ⟨rfl, sign', there⟩ | ⟨n, f, some', rfl, canonical', _, there⟩
    · rw [here, there]
      exact packed_zero _
    · rw [here, there]
      exact packed_zero _
  · rcases unpack_of_is other with ⟨rfl, sign', there⟩ | ⟨n, f, some', rfl, canonical', _, there⟩
    · rw [here, there]
      exact ⟨0, by simpa using rounded_zero, packed_zero _⟩
    · have exactly : (m : ℚ) * 2 ^ e * (n * 2 ^ f) = (m * n : Nat) * 2 ^ (e + f) := by
        rw [zpow_add₀ two_ne_zero]
        push_cast
        ring
      rw [here, there, exactly]
      exact packed_round (Nat.mul_pos some some').ne' (mul_right canonical canonical' some some')

theorem Rounded.eq_of_small {n : Nat} {rounded : ℚ} (result : Rounded n rounded) (small : n < 2 ^ 53) :
    rounded = n :=
  le_antisymm (by simpa using result.le n 0 small (by decide) (by simp))
    (by simpa using result.ge n 0 small (by decide) (by simp))

/-- Next to one, all that is lost below the least double comes to nothing. -/
theorem Rounded.near {exact rounded : ℚ} (result : Rounded exact rounded) :
    |rounded - exact| ≤ exact / 2 ^ 53 + 1 / 2 ^ 128 := by
  refine result.error.trans (add_le_add_right ?_ _)
  exact one_div_le_one_div_of_le (by positivity) (pow_le_pow_right₀ one_le_two (by decide))

theorem Rounded.near_of_pos {n : Nat} {rounded : ℚ} (result : Rounded n rounded) (some : 0 < n) :
    |rounded - n| ≤ n / 2 ^ 52 := by
  have one_le : (1 : ℚ) ≤ n := by exact_mod_cast some
  refine result.near.trans ?_
  norm_num
  linarith

theorem Binary64.Holds.is {double : Binary64} {rounded : ℚ} (holds : double.Holds rounded)
    (small : rounded < 2 ^ 1024) : double.Is rounded :=
  holds.resolve_right fun infinite => absurd infinite.2 (not_le_of_gt small)

theorem Binary64.Is.nonneg {double : Binary64} {number : ℚ} (is : double.Is number) : 0 ≤ number := by
  obtain ⟨_, m, e, _, _, rfl⟩ := is
  positivity

theorem is_one : (Binary64.ofFloat (Float.ofBits 0x3FF0000000000000)).Is 1 :=
  ⟨false, 2 ^ 52, -52, by decide +kernel, nofun, by norm_num⟩

/-- A shift to the left leaves the number as it is, and what it is rounded at. -/
theorem roundingExponent_shift {n : Nat} (some : n ≠ 0) (exponent : Int) (shift : Nat) :
    roundingExponent (n <<< shift) (exponent - shift) = roundingExponent n exponent := by
  have bits : (n <<< shift).log2 = n.log2 + shift := by
    rw [Nat.log2_eq_iff (by simpa using some), Nat.shiftLeft_eq, Nat.pow_add]
    constructor
    · exact Nat.mul_le_mul_right _ (Nat.log2_self_le some)
    · rw [Nat.add_right_comm, Nat.pow_add]
      exact Nat.mul_lt_mul_of_pos_right Nat.lt_log2_self (Nat.two_pow_pos shift)
  unfold roundingExponent
  omega

/-- A whole number that is shifted far enough to the left is rounded. -/
theorem packed_shift {n : Nat} (some : n ≠ 0) {shift : Nat} (far : -(shift : Int) ≤ roundingExponent n 0) :
    ∃ rounded, Rounded n rounded ∧ (packed
      (roundWithAccuracy Format.binary64 .positive (n <<< shift) (0 - shift) .exact)).Holds rounded := by
  have exactly : (n : ℚ) = (n <<< shift : Nat) * 2 ^ (0 - (shift : Int)) := by
    rw [Nat.shiftLeft_eq, zero_sub, zpow_neg, zpow_natCast]
    push_cast
    field_simp
  rw [exactly]
  exact packed_round (by simpa using some) (by rw [roundingExponent_shift some]; omega)

/-- A whole number is rounded as soon as it is made a double. -/
theorem packed_ofNat (n : Nat) : ∃ rounded, Rounded n rounded ∧
    (packed (UnpackedFloat.ofNat Format.binary64 n)).Holds rounded := by
  rcases Nat.eq_zero_or_pos n with rfl | some
  · exact ⟨0, by simpa using rounded_zero, packed_zero .positive⟩
  · have positive : compare (n : Int) 0 = .gt := compare_gt_iff_gt.2 (by omega)
    have scaled : UnpackedFloat.ofNat Format.binary64 n = roundWithAccuracy Format.binary64 .positive
        (n <<< (0 - roundingExponent n 0).toNat) (0 - (0 - roundingExponent n 0).toNat) .exact := by
      unfold UnpackedFloat.ofNat UnpackedFloat.ofInt UnpackedFloat.normalize
      rw [positive]
      rfl
    rw [scaled]
    exact packed_shift some.ne' (by omega)

theorem ofNat_holds (n : Nat) : ∃ rounded, Rounded n rounded ∧
    (Binary64.ofFloat (Float.ofNat n)).Holds rounded := by
  by_cases small : n < 2 ^ 53
  · obtain ⟨exact, rounded, holds⟩ := packed_ofNat n
    obtain rfl := rounded.eq_of_small small
    have fits : (n : ℚ) < 2 ^ 1024 := by
      exact_mod_cast small.trans (Nat.pow_lt_pow_right one_lt_two (by decide))
    have product : Float.ofNat n = n.toUInt64.toFloat * Float.ofBits 0x3FF0000000000000 := by
      change Float.ofScientific n false 0 = _
      rw [Float.ofScientific, dif_pos ⟨small, by decide⟩]
      rfl
    have word : n.toUInt64.toNat = n := Nat.mod_eq_of_lt (small.trans (by decide))
    have read : Binary64.ofFloat n.toUInt64.toFloat = packed (UnpackedFloat.ofNat Format.binary64 n) := by
      change packed (UnpackedFloat.ofNat Format.binary64 n.toUInt64.toNat) = _
      rw [word]
    have is := holds.is fits
    rw [← read] at is
    rw [product]
    simpa using mul_holds is is_one
  · have some : n ≠ 0 := by omega
    have read : Binary64.ofFloat (Float.ofNat n) = packed
        (roundWithAccuracy Format.binary64 .positive (n <<< 53 * 1) (-53 + 0) .exact) := by
      change Binary64.ofFloat (Float.ofScientific n false 0) = _
      rw [Float.ofScientific, dif_neg (by omega)]
      change packed (UnpackedFloat.ofScientific Format.binary64 n 0) = _
      have powers : ¬(0 : Int) < -(2048 + n.log2) := by omega
      rw [UnpackedFloat.ofScientific, dif_neg some, if_neg (by decide), if_neg (by exact powers),
        if_pos (by decide)]
      rfl
    rw [read, Nat.mul_one]
    exact packed_shift some (by unfold roundingExponent; omega)

theorem lt_of_canonical (canonical : Canonical mantissa exponent) (large : exponent ≤ 971) :
    (mantissa : ℚ) * 2 ^ exponent < 2 ^ 1024 := by
  have bits : (mantissa : ℚ) < 2 ^ 53 := by exact_mod_cast canonical.below
  have exponents : (2 : ℚ) ^ exponent ≤ 2 ^ (971 : Int) := zpow_le_zpow_right₀ one_le_two large
  have range : (2 : ℚ) ^ 1024 = 2 ^ 53 * 2 ^ (971 : Int) := by
    rw [zpow_ofNat, ← pow_add]
  rw [range]
  exact (mul_lt_mul_of_pos_right bits (by positivity)).trans_le
    (mul_le_mul_of_nonneg_left exponents (by positivity))

theorem unpack_zero : (0.0 : Float).toModel.unpack = .zero .positive := by
  have read : Binary64.ofFloat 0.0 = .finite false 0 (-1074) := by decide +kernel
  rw [unpack_ofFloat, read]
  rfl

theorem add_zero_is (is : (Binary64.ofFloat x).Is p) (zero : y.toModel.unpack = .zero .positive) :
    (Binary64.ofFloat (x + y)).Is p := by
  have sum : Binary64.ofFloat (x + y) =
      packed (UnpackedFloat.add Format.binary64 x.toModel.unpack y.toModel.unpack) := rfl
  rw [sum, zero]
  rcases unpack_of_is is with ⟨rfl, sign, here⟩ | ⟨m, e, some, rfl, canonical, large, here⟩
  · rw [here]
    have fits : (0 : ℚ) < 2 ^ 1024 := by positivity
    cases sign <;> exact (packed_zero .positive).is fits
  · rw [here]
    exact (packed_holds canonical some).is (lt_of_canonical canonical large)

/-! ### Comparisons -/

theorem lt_iff : x < y ↔ x.toModel.unpack.lt y.toModel.unpack = true :=
  decide_eq_true_iff

theorem le_iff : x ≤ y ↔ x.toModel.unpack.le y.toModel.unpack = true :=
  decide_eq_true_iff

/-- A finite double that is not below zero is a number. -/
theorem exists_is (finite : x.isFinite = true) (nonneg : ¬x < 0.0) : ∃ p, (Binary64.ofFloat x).Is p := by
  have finite : x.toModel.unpack.isFinite = true := finite
  rw [lt_iff, unpack_zero] at nonneg
  rw [unpack_ofFloat] at finite nonneg
  cases read : Binary64.ofFloat x with
  | infinite negative =>
    rw [read] at finite
    cases finite
  | nan =>
    rw [read] at finite
    cases finite
  | finite negative m e =>
    refine ⟨_, negative, m, e, rfl, fun minus => ?_, rfl⟩
    rcases Nat.eq_zero_or_pos m with none | some
    · exact none
    · rw [read, Binary64.unpacked, dif_pos some, minus] at nonneg
      exact absurd rfl nonneg

/-- A number that is not above zero is zero. -/
theorem eq_zero_of_is (is : (Binary64.ofFloat x).Is p) (least : ¬(0.0 : Float) < x) : p = 0 := by
  rw [lt_iff, unpack_zero] at least
  rcases unpack_of_is is with ⟨zero, _⟩ | ⟨m, e, some, rfl, _, _, here⟩
  · exact zero
  · rw [here] at least
    exact absurd rfl least

theorem unpack_one : (1.0 : Float).toModel.unpack =
    .finite .positive (2 ^ 52) (-52) (Nat.two_pow_pos 52) := by
  have read : Binary64.ofFloat 1.0 = .finite false (2 ^ 52) (-52) := by decide +kernel
  rw [unpack_ofFloat, read, Binary64.unpacked, dif_pos (Nat.two_pow_pos 52)]
  rfl

/-- A positive double is no more than one by its exponent, or else by its mantissa. -/
theorem exponent_of_le_one {some : 0 < mantissa}
    (high : (UnpackedFloat.finite .positive mantissa exponent some).le
      (.finite .positive (2 ^ 52) (-52) (Nat.two_pow_pos 52)) = true) :
    exponent < -52 ∨ exponent = -52 ∧ mantissa ≤ 2 ^ 52 := by
  have ordered : ((compare exponent (-52)).then (compare mantissa (2 ^ 52))).isLE = true := high
  rcases lt_trichotomy exponent (-52) with finer | rfl | coarser
  · exact .inl finer
  · exact .inr ⟨rfl, Nat.isLE_compare.1 ordered⟩
  · rw [compare_gt_iff_gt.2 coarser] at ordered
    cases ordered

theorem not_one_lt {some : 0 < mantissa} (bounded : exponent < -52 ∨ exponent = -52 ∧ mantissa ≤ 2 ^ 52) :
    ¬(UnpackedFloat.finite .positive (2 ^ 52) (-52) (Nat.two_pow_pos 52)).lt
      (.finite .positive mantissa exponent some) = true := by
  change ¬(Option.some ((compare (-52) exponent).then (compare (2 ^ 52) mantissa)) == .some .lt) = true
  rcases bounded with finer | ⟨rfl, small⟩
  · rw [compare_gt_iff_gt.2 finer]
    rintro ⟨⟩
  · intro above
    have above : compare (2 ^ 52) mantissa = .lt := by simpa using above
    exact absurd (compare_lt_iff_lt.1 above) (Nat.not_lt_of_le small)

theorem mul_zpow_le_one (few : mantissa < 2 ^ 53)
    (bounded : exponent < -52 ∨ exponent = -52 ∧ mantissa ≤ 2 ^ 52) : (mantissa : ℚ) * 2 ^ exponent ≤ 1 := by
  rcases bounded with finer | ⟨rfl, small⟩
  · have bits : (mantissa : ℚ) ≤ 2 ^ 53 := by exact_mod_cast few.le
    have exponents : (2 : ℚ) ^ exponent ≤ 2 ^ (-53 : Int) := zpow_le_zpow_right₀ one_le_two (by omega)
    calc (mantissa : ℚ) * 2 ^ exponent ≤ 2 ^ 53 * 2 ^ (-53 : Int) := by gcongr
      _ = 1 := by norm_num
  · have bits : (mantissa : ℚ) ≤ 2 ^ 52 := by exact_mod_cast small
    calc (mantissa : ℚ) * 2 ^ (-52 : Int) ≤ 2 ^ 52 * 2 ^ (-52 : Int) := by gcongr
      _ = 1 := by norm_num

/-- A double of the unit interval is a number, and is not clamped. -/
theorem is_of_unit (low : (0.0 : Float) ≤ x) (high : x ≤ 1.0) :
    ¬x < 0.0 ∧ ¬(1.0 : Float) < x ∧ ∃ p, p ≤ 1 ∧ (Binary64.ofFloat x).Is p := by
  rw [le_iff, unpack_zero, unpack_ofFloat] at low
  rw [le_iff, unpack_one, unpack_ofFloat] at high
  rw [lt_iff, lt_iff, unpack_zero, unpack_one, unpack_ofFloat]
  cases read : Binary64.ofFloat x with
  | nan =>
    rw [read] at low
    cases low
  | infinite negative =>
    rw [read] at low high
    cases negative
    · cases high
    · cases low
  | finite negative m e =>
    rw [read, Binary64.unpacked] at low high
    rw [Binary64.unpacked]
    rcases Nat.eq_zero_or_pos m with rfl | more
    · rw [dif_neg (Nat.lt_irrefl 0)]
      exact ⟨by rintro ⟨⟩, by rintro ⟨⟩, 0, zero_le_one, negative, 0, e, rfl, fun _ => rfl, by simp⟩
    · rw [dif_pos more] at low high ⊢
      cases negative with
      | true => cases low
      | false =>
        have bounded := exponent_of_le_one high
        exact ⟨by rintro ⟨⟩, not_one_lt bounded, m * 2 ^ e,
          mul_zpow_le_one (canonical_ofFloat read).1.below bounded, false, m, e, rfl, by rintro ⟨⟩, rfl⟩

end TunnelIngress.Decimal
