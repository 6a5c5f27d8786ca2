/-!
Cutting a text at a separator character: into all its pieces, or in two at the first separator.
-/

namespace TunnelIngress.Text

/-- The runs between separators; a text without one is its own single piece. -/
def piecesList (sep : Char) : List Char → List (List Char)
  | [] => [[]]
  | c :: cs =>
    if c = sep then
      [] :: piecesList sep cs
    else
      match piecesList sep cs with
      | [] => [[c]]
      | piece :: rest => (c :: piece) :: rest

/-- What stands before and after the first separator. -/
def cutList? (sep : Char) : List Char → Option (List Char × List Char)
  | [] => none
  | c :: cs =>
    if c = sep then
      some ([], cs)
    else
      (cutList? sep cs).map fun parts => (c :: parts.1, parts.2)

def pieces (sep : Char) (s : String) : List String :=
  (piecesList sep s.toList).map String.ofList

def cut? (sep : Char) (s : String) : Option (String × String) :=
  (cutList? sep s.toList).map fun parts => (String.ofList parts.1, String.ofList parts.2)

end TunnelIngress.Text
