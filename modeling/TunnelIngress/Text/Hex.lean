/-!
Byte strings as lower-case hexadecimal text, two digits a byte, high half first.
-/

namespace TunnelIngress.Text

def hexDigit (n : Nat) : Char :=
  Char.ofNat (if n < 10 then 0x30 + n else 0x57 + n)

def hexValue? (c : Char) : Option Nat :=
  if '0' ≤ c ∧ c ≤ '9' then
    some (c.toNat - 0x30)
  else if 'a' ≤ c ∧ c ≤ 'f' then
    some (c.toNat - 0x57)
  else if 'A' ≤ c ∧ c ≤ 'F' then
    some (c.toNat - 0x37)
  else
    none

def toHex (bytes : List UInt8) : String :=
  String.ofList (bytes.flatMap fun b => [hexDigit (b.toNat / 16), hexDigit (b.toNat % 16)])

def hexBytes? : List Char → Option (List UInt8)
  | [] => some []
  | high :: low :: rest => do
    let h ← hexValue? high
    let l ← hexValue? low
    let bytes ← hexBytes? rest
    return UInt8.ofNat (16 * h + l) :: bytes
  | [_] => none

def ofHex? (s : String) : Option (List UInt8) :=
  hexBytes? s.toList

/-- The sixteen digits of a word, high digit first. -/
def wordHex (w : UInt64) : String :=
  String.ofList ((List.range 16).map fun i => hexDigit (w.toNat / Nat.pow 16 (15 - i) % 16))

end TunnelIngress.Text
