/-
Header values with parameters: a leading token, then `; name=value` pairs. A semicolon inside
double quotes separates nothing. Quotes around a value are taken off, and nothing inside them is
unescaped, since browsers send the backslashes of path names as they are.
-/
import FormData.Text.Blank
import FormData.Text.Cut

namespace FormData

structure Parameters where
  main : String
  /-- Names in lower case, values as sent. -/
  pairs : List (String × String)
  deriving DecidableEq, Repr

namespace Parameters

/-- The stretches between semicolons outside quotes. A quote after an odd run of backslashes
neither opens nor closes. -/
def segments (inQuotes escaped : Bool) : List Char → List (List Char)
  | [] => [[]]
  | c :: cs =>
    if c = ';' ∧ inQuotes = false then [] :: segments false false cs
    else
      match segments (if c = '"' ∧ escaped = false then !inQuotes else inQuotes)
          (!escaped && c == '\\') cs with
      | [] => [[c]]
      | s :: ss => (c :: s) :: ss

/-- Takes off a pair of enclosing quotes. -/
def unquote (value : List Char) : List Char :=
  if 2 ≤ value.length ∧ value.head? = some '"' ∧ value.getLast? = some '"' then
    (value.drop 1).dropLast
  else value

/-- Name and value of one stretch; one without a name is no parameter. -/
def pair? (segment : List Char) : Option (String × String) :=
  let (name, value) := match Text.cut? '=' segment with
    | some (name, value) => (name, unquote (Text.trim value))
    | none => (segment, [])
  let name := Text.trim name
  if name.isEmpty then none
  else some (String.ofList (Text.lower name), String.ofList value)

def ofSegments : List (List Char) → Parameters
  | [] => ⟨"", []⟩
  | s :: ss => ⟨String.ofList (Text.trim s), ss.filterMap pair?⟩

/-- Splits a header value into its leading token and its parameters. -/
def parse (value : String) : Parameters :=
  ofSegments (segments false false value.toList)

/-- The value of the first parameter with this name. -/
def get? (p : Parameters) (name : String) : Option String :=
  (p.pairs.find? fun pair => Text.sameName pair.1 name).map (·.2)

end Parameters

end FormData
