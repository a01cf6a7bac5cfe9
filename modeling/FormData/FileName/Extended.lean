/-
Extended parameter values, `charset'language'encoded`: percent escapes stand for bytes, which are
read in the charset named, UTF-8 or US-ASCII. The language may be anything and is not looked at.
-/
import FormData.Error
import FormData.Text.Cut

namespace FormData.FileName

/-- The value of a hexadecimal digit given as a byte. -/
def hexDigit? (b : UInt8) : Option Nat :=
  if 48 ≤ b ∧ b ≤ 57 then some (b.toNat - 48)
  else if 65 ≤ b ∧ b ≤ 70 then some (b.toNat - 55)
  else if 97 ≤ b ∧ b ≤ 102 then some (b.toNat - 87)
  else none

/-- Replaces each escape by its byte; refuses a percent sign that no two digits follow. -/
def unescape? : Bytes → Option Bytes
  | [] => some []
  | 37 :: high :: low :: rest => do
    let h ← hexDigit? high
    let l ← hexDigit? low
    let bytes ← unescape? rest
    pure (UInt8.ofNat (h * 16 + l) :: bytes)
  | b :: rest => if b = 37 then none else (unescape? rest).map (b :: ·)

/-- The charsets that an extended value may name. -/
inductive Charset where
  | utf8
  | usAscii
  deriving DecidableEq, Repr

def Charset.named? (name : String) : Option Charset :=
  if Text.sameName name "us-ascii" then some .usAscii
  else if Text.sameName name "utf-8" then some .utf8
  else none

/-- Reads the bytes of an extended value in its charset. -/
def Charset.read (charset : Charset) (bytes : Bytes) : Except EncodingFault String :=
  if charset = .usAscii ∧ bytes.any (0x80 ≤ ·) then .error .notAscii
  else match Utf8.decode? bytes with
    | some text => .ok text
    | none => .error .notUtf8

def apostrophe : Char := Char.ofNat 0x27

/-- Splits an extended value into charset, language and encoded text. -/
def split? (raw : List Char) : Option (List Char × List Char × List Char) := do
  let (charset, rest) ← Text.cut? apostrophe raw
  let (language, encoded) ← Text.cut? apostrophe rest
  pure (charset, language, encoded)

/-- The text of an extended value. -/
def decodeExtended (raw : String) : Except EncodingFault String :=
  match split? raw.toList with
  | none => .error (.notExtended raw)
  | some (charset, _, encoded) =>
    match Charset.named? (String.ofList charset) with
    | none => .error (.unknownCharset (String.ofList charset))
    | some known =>
      match unescape? (Utf8.encode (String.ofList encoded)) with
      | none => .error (.badEscape (String.ofList encoded))
      | some bytes => known.read bytes

end FormData.FileName
