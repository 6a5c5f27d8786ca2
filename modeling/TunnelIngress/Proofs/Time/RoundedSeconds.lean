import TunnelIngress.Proofs.Decimal.Doubles

/-!
# Durations and doubles of seconds

A duration of whole seconds becomes a double with one rounding, and a double becomes a duration with another,
to a nanosecond. A double of 2 ^ 64 seconds or more becomes none.
-/

namespace TunnelIngress

open Decimal

namespace Duration

variable {x : Float} {p : ℚ}

theorem zpow_eq_twoPow (e : Int) : (2 : ℚ) ^ e = (twoPow e.toNat : Nat) / (twoPow (-e).toNat : Nat) := by
  have power (n : Nat) : ((twoPow n : Nat) : ℚ) = 2 ^ (n : Int) := by
    rw [zpow_natCast]
    exact Nat.cast_pow 2 n
  rw [power, power, ← zpow_sub₀ two_ne_zero, Int.toNat_sub_toNat_neg]

/-- The duration of a number of seconds is rounded to a nanosecond. There is none if it is too long. -/
theorem ofSeconds?_of_is (is : (Binary64.ofFloat x).Is p) :
    (∃ nanos : Nat, |(nanos : ℚ) - p * 1000000000| ≤ 1 / 2 ∧ ofSeconds? x = ofNanos? nanos) ∨
      2 ^ 64 ≤ p ∧ ofSeconds? x = none := by
  obtain ⟨negative, m, e, read, sign, rfl⟩ := is
  have unsigned : ¬(negative = true ∧ m ≠ 0) := fun minus => minus.2 (sign minus.1)
  have seconds : ofSeconds? x = (nearestNanos? m e).bind ofNanos? := by
    unfold ofSeconds?
    rw [read]
    exact if_neg unsigned
  rw [seconds, nearestNanos?]
  rcases Nat.eq_zero_or_pos m with rfl | more
  · rw [if_pos rfl, Option.bind_some]
    exact .inl ⟨0, by simp, rfl⟩
  · rw [if_neg more.ne']
    by_cases large : 64 ≤ e
    · rw [if_pos large]
      have whole : (1 : ℚ) ≤ m := by exact_mod_cast more
      have powers : (2 : ℚ) ^ (64 : Int) ≤ 2 ^ e := zpow_le_zpow_right₀ one_le_two large
      rw [zpow_ofNat] at powers
      exact .inr ⟨powers.trans (le_mul_of_one_le_left (by positivity) whole), rfl⟩
    · rw [if_neg large, Option.bind_some]
      have some : 0 < twoPow (-e).toNat := Nat.two_pow_pos _
      have error := roundHalfEven_error (m * nanosPerSecond * twoPow e.toNat) some
      have exactly : ((m * nanosPerSecond * twoPow e.toNat : Nat) : ℚ) / (twoPow (-e).toNat : Nat) =
          m * 2 ^ e * 1000000000 := by
        rw [zpow_eq_twoPow]
        push_cast [nanosPerSecond]
        ring
      rw [exactly] at error
      exact .inl ⟨_, error, rfl⟩

theorem ofSeconds?_of_holds (holds : (Binary64.ofFloat x).Holds p) :
    (∃ nanos : Nat, |(nanos : ℚ) - p * 1000000000| ≤ 1 / 2 ∧ ofSeconds? x = ofNanos? nanos) ∨
      2 ^ 64 ≤ p ∧ ofSeconds? x = none := by
  rcases holds with is | ⟨infinite, large⟩
  · exact ofSeconds?_of_is is
  · exact .inr ⟨(pow_le_pow_right₀ one_le_two (by decide)).trans large, by rw [ofSeconds?, infinite]⟩

/-- A whole number of seconds is rounded to a double. -/
theorem toSeconds_is (seconds : UInt64) : ∃ rounded, Rounded seconds.toNat rounded ∧
    (Binary64.ofFloat (ofSeconds seconds).toSeconds).Is rounded := by
  obtain ⟨rounded, result, holds⟩ := ofNat_holds seconds.toNat
  have whole : (ofSeconds seconds).toSeconds =
      Float.ofNat seconds.toNat + Float.ofNat 0 / 1e9 := by
    have some : 0 < nanosPerSecond := by decide
    unfold toSeconds Duration.seconds subsecond ofSeconds
    rw [Nat.mul_div_cancel _ some, Nat.mul_mod_left]
  have zero : (Float.ofNat 0 / 1e9).toModel.unpack = .zero .positive := by
    have read : Binary64.ofFloat (Float.ofNat 0 / 1e9) = .finite false 0 (-1074) := by decide +kernel
    rw [unpack_ofFloat, read]
    rfl
  have bound : rounded ≤ 2 ^ 64 := by
    have range : ((seconds.toNat : Nat) : ℚ) ≤ (1 : Nat) * 2 ^ (64 : Int) := by
      rw [zpow_ofNat, Nat.cast_one, one_mul]
      exact_mod_cast seconds.toNat_lt.le
    simpa using result.le 1 64 (by decide) (by decide) range
  have fits : rounded < 2 ^ 1024 := bound.trans_lt (pow_lt_pow_right₀ one_lt_two (by decide))
  rw [whole]
  exact ⟨rounded, result, add_zero_is (holds.is fits) zero⟩

theorem ofNanos?_eq_some_iff {nanos : Nat} {d : Duration} : ofNanos? nanos = some d ↔ nanos = d.nanos := by
  unfold ofNanos?
  constructor
  · intro made
    split at made
    · cases made
      rfl
    · cases made
  · rintro rfl
    exact dif_pos d.nanos_lt

theorem isSome_ofNanos?_iff {nanos : Nat} : (ofNanos? nanos).isSome ↔ nanos < 2 ^ 64 * 1000000000 := by
  unfold ofNanos?
  split
  · rename_i short
    exact ⟨fun _ => short, fun _ => rfl⟩
  · rename_i long
    exact ⟨nofun, fun short => absurd short long⟩

theorem ofNanos?_bind_add? (d : Duration) (nanos : Nat) :
    (ofNanos? nanos).bind d.add? = ofNanos? (d.nanos + nanos) := by
  by_cases small : nanos < UInt64.size * nanosPerSecond
  · have some : ofNanos? nanos = .some ⟨nanos, small⟩ := dif_pos small
    rw [some, Option.bind_some]
    rfl
  · have none : ofNanos? nanos = .none := dif_neg small
    have none' : ofNanos? (d.nanos + nanos) = .none := dif_neg (by omega)
    rw [none, none', Option.bind_none]

end Duration

end TunnelIngress
