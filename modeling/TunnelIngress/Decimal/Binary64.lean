import TunnelIngress.Decimal.Power

/-!
Double-precision numbers taken apart into an exact `mantissa · 2 ^ exponent`, and made from an exact
decimal.
-/

namespace TunnelIngress.Decimal

/-- What a double is, exactly. A finite one is `mantissa · 2 ^ exponent` under its sign. -/
inductive Binary64 where
  | finite (negative : Bool) (mantissa : Nat) (exponent : Int)
  | infinite (negative : Bool)
  | nan
deriving DecidableEq, Repr

def Binary64.ofBits (bits : UInt64) : Binary64 :=
  let n := bits.toNat
  let negative := n / twoPow 63 = 1
  let exponent : Nat := n / twoPow 52 % 2048
  let fraction : Nat := n % twoPow 52
  if exponent = 2047 then
    if fraction = 0 then .infinite negative else .nan
  else if exponent = 0 then
    .finite negative fraction (-1074)
  else
    .finite negative (fraction + twoPow 52) ((exponent : Int) - 1075)

def Binary64.ofFloat (x : Float) : Binary64 :=
  .ofBits x.toBits

def infinity : Float :=
  1.0 / 0.0

def notANumber : Float :=
  0.0 / 0.0

def digitCount (n : Nat) : Nat :=
  (Nat.toDigits 10 n).length

/-- The double nearest to `digits · 10 ^ exponent`, ties to even, infinite beyond the range. The
guards keep the powers of ten small: outside them the result is already settled. -/
def nearestFloat (negative : Bool) (digits : Nat) (exponent : Int) : Float :=
  let magnitude : Int := digitCount digits + exponent
  let size :=
    if digits = 0 ∨ magnitude < -330 then
      0.0
    else if 320 < magnitude then
      infinity
    else
      Float.ofScientific digits (exponent < 0) exponent.natAbs
  if negative then -size else size

end TunnelIngress.Decimal
