import TunnelIngress.Decimal.Binary64
import TunnelIngress.Decimal.Integer

/-!
Reading a double from text: an optional sign, then digits with an optional point at either end or
between and an optional exponent, or `inf`, `infinity` or `nan` in any case.
-/

namespace TunnelIngress.Decimal

/-- A number in scientific form: `digits · 10 ^ exponent`. -/
structure Scientific where
  digits : Nat
  exponent : Int
deriving DecidableEq, Repr

def runValue (cs : List Char) : Nat :=
  cs.foldl (fun n c => 10 * n + (c.toNat - 0x30)) 0

/-- The exponent after its `e`. -/
def exponent? : List Char → Option Int
  | '-' :: rest => (natural? rest).map fun n => -(n : Int)
  | '+' :: rest => (natural? rest).map Int.ofNat
  | rest => (natural? rest).map Int.ofNat

def scientific? (cs : List Char) : Option Scientific := do
  let whole := cs.takeWhile Char.isDigit
  let rest := cs.dropWhile Char.isDigit
  let (fraction, rest) := match rest with
    | '.' :: more => (more.takeWhile Char.isDigit, more.dropWhile Char.isDigit)
    | more => ([], more)
  if whole.isEmpty && fraction.isEmpty then
    none
  else
    let power ← match rest with
      | [] => some 0
      | 'e' :: more => exponent? more
      | 'E' :: more => exponent? more
      | _ => none
    return ⟨runValue (whole ++ fraction), power - fraction.length⟩

def named? (cs : List Char) : Option Float :=
  match String.ofList (cs.map Char.toLower) with
  | "inf" => some infinity
  | "infinity" => some infinity
  | "nan" => some notANumber
  | _ => none

def unsignedFloat? (negative : Bool) (cs : List Char) : Option Float :=
  match scientific? cs with
  | some number => some (nearestFloat negative number.digits number.exponent)
  | none => (named? cs).map fun x => if negative then -x else x

def float? (s : String) : Option Float :=
  match s.toList with
  | '-' :: rest => unsignedFloat? true rest
  | '+' :: rest => unsignedFloat? false rest
  | cs => unsignedFloat? false cs

end TunnelIngress.Decimal
