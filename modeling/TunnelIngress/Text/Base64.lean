/-!
Reading of padded base64 in the standard alphabet. Only the canonical spelling of a byte string is
accepted: whole groups of four, padding at the end alone, and no stray bits under the padding.
-/

namespace TunnelIngress.Text

def base64Value? (c : Char) : Option Nat :=
  if 'A' ≤ c ∧ c ≤ 'Z' then
    some (c.toNat - 0x41)
  else if 'a' ≤ c ∧ c ≤ 'z' then
    some (c.toNat - 0x61 + 26)
  else if '0' ≤ c ∧ c ≤ '9' then
    some (c.toNat - 0x30 + 52)
  else if c = '+' then
    some 62
  else if c = '/' then
    some 63
  else
    none

def base64Bytes? : List Char → Option (List UInt8)
  | [] => some []
  | [a, b, '=', '='] => do
    let x ← base64Value? a
    let y ← base64Value? b
    if y % 16 = 0 then
      return [UInt8.ofNat (4 * x + y / 16)]
    else
      none
  | [a, b, c, '='] => do
    let x ← base64Value? a
    let y ← base64Value? b
    let z ← base64Value? c
    if z % 4 = 0 then
      return [UInt8.ofNat (4 * x + y / 16), UInt8.ofNat (16 * (y % 16) + z / 4)]
    else
      none
  | a :: b :: c :: d :: rest => do
    let x ← base64Value? a
    let y ← base64Value? b
    let z ← base64Value? c
    let w ← base64Value? d
    let bytes ← base64Bytes? rest
    return UInt8.ofNat (4 * x + y / 16) :: UInt8.ofNat (16 * (y % 16) + z / 4)
      :: UInt8.ofNat (64 * (z % 4) + w) :: bytes
  | _ => none

def ofBase64? (s : String) : Option (List UInt8) :=
  base64Bytes? s.toList

end TunnelIngress.Text
