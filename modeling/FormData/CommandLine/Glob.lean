/-
Patterns for field names, in which a star stands for any run of characters, none included, a
question mark for one character, and any other character for itself.
-/
namespace FormData.Glob

/-- Whether a pattern has a wildcard. -/
def hasWildcard (pattern : List Char) : Bool :=
  pattern.any fun c => c == '*' || c == '?'

/-- Whether the pattern covers the whole text. -/
def covers : List Char → List Char → Bool
  | [], text => text.isEmpty
  | p :: pattern, [] => p == '*' && covers pattern []
  | p :: pattern, c :: text =>
    if p = '*' then covers pattern (c :: text) || covers (p :: pattern) text
    else (p == '?' || p == c) && covers pattern text
termination_by pattern text => pattern.length + text.length

end FormData.Glob
