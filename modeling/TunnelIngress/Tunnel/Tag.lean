import TunnelIngress.Text.Blank
import TunnelIngress.Text.Pieces

/-!
Tags of a tunnel, written as a comma-separated list of `name=value`. Blank names and values are
skipped, a later value of a name replaces the earlier one, and a limit caps the number of names.
-/

namespace TunnelIngress

structure Tag where
  name : String
  value : String
deriving DecidableEq, Repr

namespace Tag

def text (tag : Tag) : String :=
  tag.name ++ "=" ++ tag.value

/-- The tag of one list entry, when it has a name and a value. -/
def ofPiece? (piece : String) : Option Tag :=
  match Text.cut? '=' piece with
  | none => none
  | some (name, value) =>
    let name := Text.trim name
    let value := Text.trim value
    if name.isEmpty || value.isEmpty then none else some ⟨name, value⟩

/-- A known name takes the new value in its place; a new one is added below the limit. -/
def collect (limit : Nat) (tags : List Tag) (tag : Tag) : List Tag :=
  if tags.any (·.name == tag.name) then
    tags.map fun known => if known.name == tag.name then tag else known
  else if tags.length < limit then
    tags ++ [tag]
  else
    tags

def readList (input : String) (limit : Nat) : List Tag :=
  ((Text.pieces ',' input).filterMap ofPiece?).foldl (collect limit) []

end Tag

end TunnelIngress
