import TunnelIngress.Proofs.Decimal.Rounding

/-!
# The bits of a double

Arithmetic takes a double apart into a sign, a mantissa and an exponent, and puts the result together again.
Both agree with what the bits of a double mean.
-/

namespace TunnelIngress.Decimal

open Float.Model Float.Model.UnpackedFloat

def signOf (negative : Bool) : Sign :=
  if negative then .negative else .positive

namespace Binary64

/-- The same as the parts that arithmetic takes a double apart into. -/
def unpacked : Binary64 → UnpackedFloat
  | finite negative mantissa exponent =>
    if some : 0 < mantissa then .finite (signOf negative) mantissa exponent some
    else .zero (signOf negative)
  | infinite negative => .infinity (signOf negative)
  | nan => .notANumber

end Binary64

theorem finite_congr {sign : Sign} {mantissa mantissa' : Nat} {exponent exponent' : Int}
    {some : 0 < mantissa} {some' : 0 < mantissa'} (same : mantissa = mantissa')
    (same' : exponent = exponent') : UnpackedFloat.finite sign mantissa exponent some =
      .finite sign mantissa' exponent' some' := by
  subst same same'
  rfl

theorem toNat_unpackMantissa (bits : BitVec 64) :
    (@unpackMantissa Format.binary64 bits).toNat = bits.toNat % 2 ^ 52 := by
  simp [unpackMantissa]

theorem toNat_unpackExponent (bits : BitVec 64) :
    (@unpackExponent Format.binary64 bits).toNat = bits.toNat / 2 ^ 52 % 2048 := by
  simp [unpackExponent, Nat.shiftRight_eq_div_pow]

theorem toNat_unpackSign (bits : BitVec 64) :
    (@unpackSign Format.binary64 bits).toNat = bits.toNat / 2 ^ 63 := by
  have := bits.isLt
  have cut : @unpackSign Format.binary64 bits = (bits.extractLsb 63 63).cast rfl := rfl
  rw [cut]
  simp [Nat.shiftRight_eq_div_pow]
  omega

theorem toNat_packComponents (sign : Sign) (exponent : BitVec 11) (mantissa : BitVec 52) :
    (packComponents Format.binary64 sign exponent mantissa).toNat =
      (sign.toBitVec.toNat * 2048 + exponent.toNat) * 2 ^ 52 + mantissa.toNat := by
  unfold packComponents
  rw [BitVec.toNat_append, BitVec.toNat_append, ← Nat.shiftLeft_add_eq_or_of_lt mantissa.isLt,
    ← Nat.shiftLeft_add_eq_or_of_lt exponent.isLt, Nat.shiftLeft_eq, Nat.shiftLeft_eq]

theorem toNat_one_append (mantissa : BitVec 52) : (1#1 ++ mantissa).toNat = mantissa.toNat + 2 ^ 52 := by
  rw [BitVec.toNat_append, ← Nat.shiftLeft_add_eq_or_of_lt mantissa.isLt, Nat.shiftLeft_eq]
  simp [Nat.add_comm]

theorem ofBitVec_unpackSign (bits : UInt64) : Sign.ofBitVec (@unpackSign Format.binary64 bits.toBitVec) =
    signOf (decide (bits.toNat / twoPow 63 = 1)) := by
  have small := bits.toNat_lt
  have bit : bits.toNat / 2 ^ 63 = 0 ∨ bits.toNat / 2 ^ 63 = 1 := by omega
  have clear : @unpackSign Format.binary64 bits.toBitVec = 0#1 ↔ bits.toNat / twoPow 63 = 0 := by
    rw [← BitVec.toNat_inj, toNat_unpackSign]
    rfl
  simp only [Sign.ofBitVec, clear, signOf]
  rcases bit with zero | one
  · simp [show bits.toNat / twoPow 63 = 0 from zero]
  · simp [show bits.toNat / twoPow 63 = 1 from one]

theorem unpack_eq (bits : UInt64) :
    UnpackedFloat.unpack Format.binary64 bits.toBitVec = (Binary64.ofBits bits).unpacked := by
  have full : @unpackExponent Format.binary64 bits.toBitVec = -1#_ ↔
      bits.toNat / twoPow 52 % 2048 = 2047 := by
    rw [← BitVec.toNat_inj, toNat_unpackExponent]
    rfl
  have least : @unpackExponent Format.binary64 bits.toBitVec = 0#_ ↔
      bits.toNat / twoPow 52 % 2048 = 0 := by
    rw [← BitVec.toNat_inj, toNat_unpackExponent]
    rfl
  have none : @unpackMantissa Format.binary64 bits.toBitVec = 0#_ ↔
      bits.toNat % twoPow 52 = 0 := by
    rw [← BitVec.toNat_inj, toNat_unpackMantissa]
    rfl
  unfold UnpackedFloat.unpack Binary64.ofBits
  dsimp only
  rw [ofBitVec_unpackSign]
  by_cases all : bits.toNat / twoPow 52 % 2048 = 2047
  · rw [if_pos (full.2 all), if_pos all]
    simp only [none]
    split <;> rfl
  · rw [if_neg (mt full.1 all), if_neg all]
    by_cases zero : bits.toNat / twoPow 52 % 2048 = 0
    · rw [if_pos (least.2 zero), if_pos zero]
      by_cases empty : bits.toNat % twoPow 52 = 0
      · rw [dif_pos (none.2 empty), Binary64.unpacked, dif_neg (by omega)]
      · rw [dif_neg (mt none.1 empty), Binary64.unpacked, dif_pos (Nat.pos_of_ne_zero empty)]
        refine finite_congr (toNat_unpackMantissa _) ?_
        rw [toNat_unpackExponent, show bits.toBitVec.toNat / 2 ^ 52 % 2048 = 0 from zero]
        rfl
    · have some : 0 < bits.toNat % twoPow 52 + twoPow 52 := Nat.add_pos_right _ (Nat.two_pow_pos 52)
      rw [if_neg (mt least.1 zero), if_neg zero, Binary64.unpacked, dif_pos some]
      refine finite_congr ?_ ?_
      · rw [toNat_one_append, toNat_unpackMantissa]
        rfl
      · rw [toNat_unpackExponent]
        rfl

/-- A finite double has 53 bits at the most, and all of them unless it is subnormal. -/
structure Canonical (mantissa : Nat) (exponent : Int) : Prop where
  below : mantissa < 2 ^ 53
  least : -1074 ≤ exponent
  normal : 2 ^ 52 ≤ mantissa ∨ exponent = -1074

theorem canonical_ofBits {bits : UInt64} {negative : Bool} {mantissa : Nat} {exponent : Int}
    (read : Binary64.ofBits bits = .finite negative mantissa exponent) :
    Canonical mantissa exponent ∧ exponent ≤ 971 := by
  have field := Nat.mod_lt (bits.toNat / twoPow 52) (by decide : 0 < 2048)
  have fraction : bits.toNat % twoPow 52 < 2 ^ 52 := Nat.mod_lt _ (Nat.two_pow_pos 52)
  unfold Binary64.ofBits at read
  dsimp only at read
  split at read
  · split at read <;> cases read
  · split at read
    · cases read
      exact ⟨⟨by omega, Int.le_refl _, .inr rfl⟩, by decide⟩
    · cases read
      have implicit : twoPow 52 = 2 ^ 52 := rfl
      exact ⟨⟨by omega, by omega, .inl (by omega)⟩, by omega⟩

theorem ofBits_packComponents (sign : Sign) (exponent : BitVec 11) (mantissa : BitVec 52) :
    Binary64.ofBits (UInt64.ofBitVec (packComponents Format.binary64 sign exponent mantissa)) =
      if exponent.toNat = 2047 then
        if mantissa.toNat = 0 then .infinite (sign == .negative) else .nan
      else if exponent.toNat = 0 then .finite (sign == .negative) mantissa.toNat (-1074)
      else .finite (sign == .negative) (mantissa.toNat + twoPow 52) (exponent.toNat - 1075) := by
  have bits : (UInt64.ofBitVec (packComponents Format.binary64 sign exponent mantissa)).toNat =
      (sign.toBitVec.toNat * 2048 + exponent.toNat) * 2 ^ 52 + mantissa.toNat :=
    toNat_packComponents sign exponent mantissa
  have implicit : twoPow 52 = 4503599627370496 := rfl
  have top : twoPow 63 = 9223372036854775808 := rfl
  have small := mantissa.isLt
  have field := exponent.isLt
  have bit := sign.toBitVec.isLt
  have fraction : (UInt64.ofBitVec (packComponents Format.binary64 sign exponent mantissa)).toNat %
      twoPow 52 = mantissa.toNat := by
    rw [implicit]
    omega
  have exponents : (UInt64.ofBitVec (packComponents Format.binary64 sign exponent mantissa)).toNat /
      twoPow 52 % 2048 = exponent.toNat := by
    rw [implicit]
    omega
  have negative : (UInt64.ofBitVec (packComponents Format.binary64 sign exponent mantissa)).toNat /
      twoPow 63 = sign.toBitVec.toNat := by
    rw [top]
    omega
  unfold Binary64.ofBits
  simp only [fraction, exponents, negative]
  cases sign <;> rfl

theorem ofBits_pack_zero (sign : Sign) :
    Binary64.ofBits (UInt64.ofBitVec (UnpackedFloat.pack Format.binary64 (.zero sign))) =
      .finite (sign == .negative) 0 (-1074) :=
  ofBits_packComponents sign 0#11 0#52

/-- Whatever has an exponent beyond the range is packed as infinite, and all else as it is. -/
theorem ofBits_pack_finite {mantissa : Nat} {exponent : Int} (canonical : Canonical mantissa exponent)
    (some : 0 < mantissa) (sign : Sign) :
    Binary64.ofBits (UInt64.ofBitVec
        (UnpackedFloat.pack Format.binary64 (.finite sign mantissa exponent some))) =
      if exponent ≤ 971 then .finite (sign == .negative) mantissa exponent
      else .infinite (sign == .negative) := by
  obtain ⟨below, least, normal⟩ := canonical
  have biased : (exponent + Format.binary64.exponentBias + (52 : Nat)).toNat = (exponent + 1075).toNat := by
    congr 1
    have : (Format.binary64.exponentBias : Int) = 1023 := rfl
    omega
  unfold UnpackedFloat.pack
  dsimp only
  rw [biased]
  by_cases large : exponent ≤ 971
  · rw [if_pos large, if_neg (by change ¬2048 ≤ _; omega)]
    have upper : mantissa.log2 < 53 := (Nat.log2_lt some.ne').2 below
    by_cases full : 2 ^ 52 ≤ mantissa
    · have lower : 52 ≤ mantissa.log2 := (Nat.le_log2 some.ne').2 full
      rw [if_pos (by change _ = 53; omega), ofBits_packComponents, BitVec.toNat_ofNat, BitVec.toNat_ofNat]
      have field : (exponent + 1075).toNat % 2 ^ 11 = (exponent + 1075).toNat := by omega
      have fraction : mantissa % 2 ^ 52 + twoPow 52 = mantissa := by
        rw [show twoPow 52 = 2 ^ 52 from rfl]
        omega
      rw [field, fraction, if_neg (by omega), if_neg (by omega)]
      congr 1
      omega
    · have lower : mantissa.log2 < 52 := (Nat.log2_lt some.ne').2 (Nat.lt_of_not_le full)
      rw [if_neg (by change ¬_ = 53; omega), ofBits_packComponents, BitVec.toNat_ofNat, BitVec.toNat_ofNat]
      have fraction : mantissa % 2 ^ 52 = mantissa := by omega
      rw [fraction, if_neg (by decide), if_pos rfl, normal.resolve_left full]
  · rw [if_neg large, if_pos (by change 2048 ≤ _; omega)]
    exact ofBits_packComponents sign (-1#11) 0#52

end TunnelIngress.Decimal
