import TunnelIngress.Decimal.Binary64

/-!
Documents: the values of JSON. A number keeps its digits and whether it was written as a whole
number, since readers of settings accept the two differently.
-/

namespace TunnelIngress

/-- A number as written: `digits · 10 ^ exponent` under its sign; `whole` when the text had neither a
point nor an exponent. -/
structure Json.Number where
  negative : Bool
  digits : Nat
  exponent : Int
  whole : Bool
deriving DecidableEq, Repr

inductive Json where
  | null
  | bool (value : Bool)
  | number (value : Json.Number)
  | text (value : String)
  | list (items : List Json)
  | record (fields : List (String × Json))

namespace Json

def ofNat (n : Nat) : Json :=
  .number ⟨false, n, 0, true⟩

def ofInt (n : Int) : Json :=
  .number ⟨n < 0, n.natAbs, 0, true⟩

def Number.toFloat (n : Number) : Float :=
  Decimal.nearestFloat n.negative n.digits n.exponent

/-- A number written whole and without a minus sign. -/
def Number.toNat? (n : Number) : Option Nat :=
  if n.whole && !n.negative then some n.digits else none

def Number.toInt? (n : Number) : Option Int :=
  if n.whole then some (if n.negative then -(n.digits : Int) else n.digits) else none

/-- The last field of a name, when the document is a record that has one. -/
def field? (name : String) : Json → Option Json
  | .record fields => (fields.reverse.find? (·.1 == name)).map (·.2)
  | _ => none

/-- A field that is present and not null. -/
def present? (name : String) (doc : Json) : Option Json :=
  match doc.field? name with
  | some .null => none
  | found => found

end Json

end TunnelIngress
