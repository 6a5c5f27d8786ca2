import TunnelIngress.Json.Basic
import TunnelIngress.Decimal.Reading
import TunnelIngress.Text.Hex

/-!
Reading a document from its text. Each reader takes the characters that are left and returns a value
with what is left after it. A nested value costs at least one character, so the number of characters
bounds the depth.
-/

namespace TunnelIngress.Json

def skipSpace (cs : List Char) : List Char :=
  cs.dropWhile fun c => c = ' ' || c = '\n' || c = '\r' || c = '\t'

/-- A code unit of four hexadecimal digits. -/
def unit? : List Char → Option (Nat × List Char)
  | a :: b :: c :: d :: rest => do
    let w ← Text.hexValue? a
    let x ← Text.hexValue? b
    let y ← Text.hexValue? c
    let z ← Text.hexValue? d
    return (((w * 16 + x) * 16 + y) * 16 + z, rest)
  | _ => none

/-- The character after a `\u`; a high and a low surrogate make one character together. -/
def escapedChar? (cs : List Char) : Option (Char × List Char) := do
  let (high, rest) ← unit? cs
  if 0xD800 ≤ high && high < 0xDC00 then
    match rest with
    | '\\' :: 'u' :: more =>
      let (low, rest) ← unit? more
      if 0xDC00 ≤ low && low < 0xE000 then
        return (Char.ofNat (0x10000 + (high - 0xD800) * 0x400 + (low - 0xDC00)), rest)
      else
        none
    | _ => none
  else if 0xDC00 ≤ high && high < 0xE000 then
    none
  else
    return (Char.ofNat high, rest)

def escapes : List (Char × Char) :=
  [('"', '"'), ('\\', '\\'), ('/', '/'), ('b', '\x08'), ('f', '\x0c'), ('n', '\n'), ('r', '\r'),
   ('t', '\t')]

/-- The characters up to the closing quote, in reverse. -/
def textBody? (fuel : Nat) (seen : List Char) (cs : List Char) : Option (List Char × List Char) :=
  match fuel, cs with
  | 0, _ => none
  | _, [] => none
  | _, '"' :: rest => some (seen, rest)
  | fuel + 1, '\\' :: 'u' :: rest => do
    let (c, rest) ← escapedChar? rest
    textBody? fuel (c :: seen) rest
  | fuel + 1, '\\' :: c :: rest => do
    let named ← escapes.lookup c
    textBody? fuel (named :: seen) rest
  | fuel + 1, c :: rest => textBody? fuel (c :: seen) rest

def text? (cs : List Char) : Option (String × List Char) :=
  (textBody? (cs.length + 1) [] cs).map fun found => (String.ofList found.1.reverse, found.2)

def isNumberChar (c : Char) : Bool :=
  c.isDigit || c = '-' || c = '+' || c = '.' || c = 'e' || c = 'E'

def number? (cs : List Char) : Option (Number × List Char) := do
  let written := cs.takeWhile isNumberChar
  let rest := cs.dropWhile isNumberChar
  let (negative, size) := match written with
    | '-' :: size => (true, size)
    | size => (false, size)
  let value ← Decimal.scientific? size
  return (⟨negative, value.digits, value.exponent, size.all Char.isDigit⟩, rest)

/-- What a reader is in the middle of: a value, the items of a list after the first ones, or the
fields of a record after the first ones. -/
inductive Goal where
  | value
  | items (read : List Json)
  | fields (read : List (String × Json))

def read? (fuel : Nat) (goal : Goal) (cs : List Char) : Option (Json × List Char) :=
  match fuel with
  | 0 => none
  | fuel + 1 =>
    match goal, skipSpace cs with
    | .value, 'n' :: 'u' :: 'l' :: 'l' :: rest => some (.null, rest)
    | .value, 't' :: 'r' :: 'u' :: 'e' :: rest => some (.bool true, rest)
    | .value, 'f' :: 'a' :: 'l' :: 's' :: 'e' :: rest => some (.bool false, rest)
    | .value, '"' :: rest => (text? rest).map fun found => (.text found.1, found.2)
    | .value, '[' :: rest =>
      match skipSpace rest with
      | ']' :: rest => some (.list [], rest)
      | rest => read? fuel (.items []) rest
    | .value, '\x7b' :: rest =>
      match skipSpace rest with
      | '\x7d' :: rest => some (.record [], rest)
      | rest => read? fuel (.fields []) rest
    | .value, rest => (number? rest).map fun found => (.number found.1, found.2)
    | .items read, rest => do
      let (item, rest) ← read? fuel .value rest
      match skipSpace rest with
      | ',' :: rest => read? fuel (.items (item :: read)) rest
      | ']' :: rest => some (.list (item :: read).reverse, rest)
      | _ => none
    | .fields read, '"' :: rest => do
      let (name, rest) ← text? rest
      match skipSpace rest with
      | ':' :: rest =>
        let (value, rest) ← read? fuel .value rest
        match skipSpace rest with
        | ',' :: rest => read? fuel (.fields ((name, value) :: read)) rest
        | '\x7d' :: rest => some (.record ((name, value) :: read).reverse, rest)
        | _ => none
      | _ => none
    | .fields _, _ => none

/-- The document that is the whole text. -/
def ofText? (s : String) : Option Json := do
  let cs := s.toList
  let (doc, rest) ← read? (2 * cs.length + 2) .value cs
  if (skipSpace rest).isEmpty then
    return doc
  else
    none

end TunnelIngress.Json
