import TunnelIngress.Decimal.Binary64

/-!
The text of a double: the fewest decimal digits that read back as the same double, the nearest of
those, written without an exponent.
-/

namespace TunnelIngress.Decimal

/-- `a · 2 ^ q` and `b · 10 ^ j` over a common denominator. -/
def overCommon (a : Nat) (q : Int) (b : Nat) (j : Int) : Nat × Nat :=
  (a * twoPow q.toNat * tenPow (-j).toNat, b * tenPow j.toNat * twoPow (-q).toNat)

/-- Whether `c · 10 ^ j` reads back as the double `m · 2 ^ q`. The doubles next to it are one unit
away, or half a unit below when `m` is the least mantissa of its exponent; the ends of the interval
belong to an even mantissa. -/
def readsBack (m : Nat) (q : Int) (c : Nat) (j : Int) : Bool :=
  let below := if m = twoPow 52 ∧ -1074 < q then 1 else 2
  let (low, x) := overCommon (4 * m - below) q (4 * c) j
  let (high, _) := overCommon (4 * m + 2) q (4 * c) j
  if m % 2 = 0 then low ≤ x && x ≤ high else low < x && x < high

/-- The neighbour of `m · 2 ^ q` on the grid of multiples of `10 ^ j` that reads back, the nearer one
when both do; halfway between them the larger is taken. -/
def onGrid? (m : Nat) (q : Int) (j : Int) : Option Nat :=
  let (value, step) := overCommon m q 1 j
  let c := value / step
  let rest := value % step
  match readsBack m q c j, readsBack m q (c + 1) j with
  | true, true => some (if 2 * rest < step then c else c + 1)
  | true, false => some c
  | false, true => some (c + 1)
  | false, false => none

/-- The exponent `k` with `10 ^ k ≤ m · 2 ^ q < 10 ^ (k + 1)`. -/
def leadingPower (m : Nat) (q : Int) : Int :=
  let (value, unit) := overCommon m q 1 0
  if unit ≤ value then
    digitCount (value / unit) - 1
  else
    match (List.range 400).find? fun t => unit ≤ value * tenPow t with
    | some t => -(t : Int)
    | none => -400

/-- Digits and power of ten of the shortest decimal that reads back as `m · 2 ^ q`. The point above
a value may be the next power of ten, whose last digit is zero. -/
def shortest (m : Nat) (q : Int) : Nat × Int :=
  let k := leadingPower m q
  let grids := (List.range 17).map fun n : Nat => k - (n : Int)
  match grids.findSome? fun j => (onGrid? m q j).map (·, j) with
  | some (c, j) => if c % 10 = 0 then (c / 10, j + 1) else (c, j)
  | none => (0, 0)

/-- `digits · 10 ^ exponent` written out in full. -/
def positional (digits : Nat) (exponent : Int) : String :=
  let ds := Nat.toDigits 10 digits
  let written :=
    if 0 ≤ exponent then
      ds ++ List.replicate exponent.toNat '0'
    else
      let places := (-exponent).toNat
      if places < ds.length then
        ds.take (ds.length - places) ++ '.' :: ds.drop (ds.length - places)
      else
        '0' :: '.' :: List.replicate (places - ds.length) '0' ++ ds
  String.ofList written

def Binary64.text : Binary64 → String
  | .nan => "NaN"
  | .infinite negative => if negative then "-inf" else "inf"
  | .finite negative mantissa exponent =>
    let size :=
      if mantissa = 0 then
        "0"
      else
        let (digits, power) := shortest mantissa exponent
        positional digits power
    if negative then "-" ++ size else size

def floatText (x : Float) : String :=
  (Binary64.ofFloat x).text

end TunnelIngress.Decimal
