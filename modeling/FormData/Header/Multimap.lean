/-
The headers of a part: an ordered multimap whose names are compared without regard to the case of
ASCII letters. A name keeps the spelling of its first occurrence and the place of it; the values of
one name keep their order.
-/
import FormData.Text.Cut

namespace FormData

/-- One name and its values. -/
structure Headers.Entry where
  name : String
  values : List String
  deriving DecidableEq, Repr

structure Headers where
  entries : List Headers.Entry := []
  deriving DecidableEq, Repr

namespace Headers

def addTo (name value : String) : List Entry → List Entry
  | [] => [⟨name, [value]⟩]
  | e :: es =>
    if Text.sameName e.name name then { e with values := e.values ++ [value] } :: es
    else e :: addTo name value es

/-- Adds a value, behind the earlier values of the same name. -/
def add (h : Headers) (name value : String) : Headers :=
  ⟨addTo name value h.entries⟩

/-- The values of a name, in the order they were added. -/
def getAll (h : Headers) (name : String) : List String :=
  match h.entries.find? fun e => Text.sameName e.name name with
  | some e => e.values
  | none => []

/-- The first value of a name. -/
def get? (h : Headers) (name : String) : Option String :=
  (h.getAll name).head?

/-- The names in first-seen order and spelling. -/
def names (h : Headers) : List String :=
  h.entries.map (·.name)

/-- All pairs of name and value, grouped by name. -/
def toList (h : Headers) : List (String × String) :=
  h.entries.flatMap fun e => e.values.map fun v => (e.name, v)

def size (h : Headers) : Nat :=
  h.entries.length

def isEmpty (h : Headers) : Bool :=
  h.entries.isEmpty

end Headers

end FormData
