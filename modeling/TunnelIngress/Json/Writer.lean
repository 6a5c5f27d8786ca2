import TunnelIngress.Json.Basic
import TunnelIngress.Text.Hex

/-!
Writing a document on one line. Numbers written by this library are whole.
-/

namespace TunnelIngress.Json

def escapedText (c : Char) : String :=
  if c = '"' then
    "\\\""
  else if c = '\\' then
    "\\\\"
  else if c.toNat < 0x20 then
    "\\u00" ++ Text.toHex [UInt8.ofNat c.toNat]
  else
    c.toString

def quoted (s : String) : String :=
  s.foldl (fun written c => written ++ escapedText c) "\"" ++ "\""

def Number.render (n : Number) : String :=
  let sign := if n.negative then "-" else ""
  let power := if n.exponent = 0 then "" else "e" ++ toString n.exponent
  sign ++ toString n.digits ++ power

mutual

def render : Json → String
  | .null => "null"
  | .bool value => if value then "true" else "false"
  | .number value => value.render
  | .text value => quoted value
  | .list items => "[" ++ renderItems items ++ "]"
  | .record fields => "\x7b" ++ renderFields fields ++ "\x7d"

def renderItems : List Json → String
  | [] => ""
  | [item] => item.render
  | item :: rest => item.render ++ "," ++ renderItems rest

def renderFields : List (String × Json) → String
  | [] => ""
  | [(name, value)] => quoted name ++ ":" ++ value.render
  | (name, value) :: rest => quoted name ++ ":" ++ value.render ++ "," ++ renderFields rest

end

end TunnelIngress.Json
