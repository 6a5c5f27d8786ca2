/-!
Whole numbers in decimal text: an optional sign and then ASCII digits, at least one, in range.
-/

namespace TunnelIngress.Decimal

def digit? (c : Char) : Option Nat :=
  if '0' ≤ c ∧ c ≤ '9' then some (c.toNat - 0x30) else none

/-- The number a run of digits writes, on top of the digits already read. -/
def digits? (read : Nat) : List Char → Option Nat
  | [] => some read
  | c :: cs => (digit? c).bind fun d => digits? (10 * read + d) cs

def natural? : List Char → Option Nat
  | [] => none
  | c :: cs => digits? 0 (c :: cs)

/-- A number below the bound; a plus sign may lead. -/
def unsigned? (bound : Nat) (s : String) : Option Nat :=
  let digits := match s.toList with
    | '+' :: rest => rest
    | cs => cs
  (natural? digits).filter (· < bound)

/-- A number in `-bound ≤ n < bound`; either sign may lead. -/
def signed? (bound : Nat) (s : String) : Option Int :=
  let value := match s.toList with
    | '-' :: rest => (natural? rest).map fun n => -(n : Int)
    | '+' :: rest => (natural? rest).map Int.ofNat
    | cs => (natural? cs).map Int.ofNat
  value.filter fun n => -(bound : Int) ≤ n && n < bound

def word64? (s : String) : Option UInt64 :=
  (unsigned? UInt64.size s).map UInt64.ofNat

def word32? (s : String) : Option UInt32 :=
  (unsigned? UInt32.size s).map UInt32.ofNat

def int32? (s : String) : Option Int32 :=
  (signed? (UInt32.size / 2) s).map Int32.ofInt

end TunnelIngress.Decimal
