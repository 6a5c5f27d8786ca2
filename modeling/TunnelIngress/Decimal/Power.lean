/-!
Powers of two and of ten, the units of binary and of decimal numbers.
-/

namespace TunnelIngress.Decimal

def twoPow (n : Nat) : Nat :=
  Nat.pow 2 n

def tenPow (n : Nat) : Nat :=
  Nat.pow 10 n

end TunnelIngress.Decimal
