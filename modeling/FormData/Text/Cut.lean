/-
Cutting text at a separator, and comparing names without regard to the case of ASCII letters.
-/
namespace FormData.Text

/-- The pieces between the separators, one more than there are separators. -/
def pieces (separator : Char) : List Char → List (List Char)
  | [] => [[]]
  | c :: cs =>
    if c = separator then [] :: pieces separator cs
    else match pieces separator cs with
      | [] => [[c]]
      | p :: ps => (c :: p) :: ps

/-- The text before and after the first separator. -/
def cut? (separator : Char) : List Char → Option (List Char × List Char)
  | [] => none
  | c :: cs =>
    if c = separator then some ([], cs)
    else (cut? separator cs).map fun (before, after) => (c :: before, after)

/-- ASCII letters in lower case, all else as it is. -/
def lower (cs : List Char) : List Char :=
  cs.map Char.toLower

/-- Equality up to the case of ASCII letters. -/
def sameName (a b : String) : Bool :=
  lower a.toList == lower b.toList

/-- Whether `part` occurs in the text as a run of consecutive characters. -/
def occurs (part : List Char) : List Char → Bool
  | [] => part.isPrefixOf []
  | c :: cs => part.isPrefixOf (c :: cs) || occurs part cs

end FormData.Text
