/-
Quoted text, the form in which messages show names and values: between double quotes, with a
backslash before quotes and backslashes, the usual letters for control characters, and every other
invisible character by its code point in hexadecimal.
-/
import FormData.Text.Invisible

namespace FormData.Text

/-- A code point as `\\u`, an opening brace, hexadecimal digits and a closing brace. -/
def byCodePoint (c : Char) : List Char :=
  '\\' :: 'u' :: '\x7b' :: Nat.toDigits 16 c.toNat ++ ['\x7d']

def quoteChar (c : Char) : List Char :=
  if c = '\x00' then ['\\', '0']
  else if c = '\t' then ['\\', 't']
  else if c = '\r' then ['\\', 'r']
  else if c = '\n' then ['\\', 'n']
  else if c = '\\' then ['\\', '\\']
  else if c = '"' then ['\\', '"']
  else if isInvisible c then byCodePoint c
  else [c]

/-- The text between double quotes, its special and invisible characters escaped. -/
def quoted (text : String) : String :=
  String.ofList ('"' :: text.toList.flatMap quoteChar ++ ['"'])

/-- A quoted text that may be missing. -/
def quotedOption : Option String → String
  | none => "None"
  | some text => "Some(" ++ quoted text ++ ")"

end FormData.Text
