import TunnelIngress.Decimal.Binary64
import TunnelIngress.Time.Duration

/-!
Durations as doubles of seconds and back. The way back rounds the exact value of the double to the
nearest nanosecond, a tie to the even one, and has no result for a negative, infinite or undefined
double or one that reaches `2 ^ 64` seconds.
-/

namespace TunnelIngress

/-- The whole number nearest to `num / den`, a tie to the even one. -/
def roundHalfEven (num den : Nat) : Nat :=
  let whole := num / den
  let rest := num % den
  if 2 * rest < den ∨ (2 * rest = den ∧ whole % 2 = 0) then whole else whole + 1

namespace Duration

def toSeconds (d : Duration) : Float :=
  Float.ofNat d.seconds + Float.ofNat d.subsecond / 1e9

/-- The nanoseconds nearest to `mantissa · 2 ^ exponent` seconds. A double of more than `2 ^ 64`
seconds is settled by its exponent alone. -/
def nearestNanos? (mantissa : Nat) (exponent : Int) : Option Nat :=
  if mantissa = 0 then
    some 0
  else if 64 ≤ exponent then
    none
  else
    some (roundHalfEven (mantissa * nanosPerSecond * Decimal.twoPow exponent.toNat)
      (Decimal.twoPow (-exponent).toNat))

def ofSeconds? (x : Float) : Option Duration :=
  match Decimal.Binary64.ofFloat x with
  | .finite negative mantissa exponent =>
    if negative ∧ mantissa ≠ 0 then
      none
    else
      (nearestNanos? mantissa exponent).bind ofNanos?
  | _ => none

/-- The duration times a factor, computed in doubles. -/
def scale? (d : Duration) (factor : Float) : Option Duration :=
  ofSeconds? (factor * d.toSeconds)

end Duration

end TunnelIngress
