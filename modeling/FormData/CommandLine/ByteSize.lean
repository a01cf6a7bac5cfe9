/-
Sizes for people: bytes, or a number of kilo-, mega- or gigabytes with two decimals. The number is
taken at the precision of a binary64 and rounded to the nearest hundredth, a half to the even one.
-/
namespace FormData.ByteSize

/-- The nearest whole number to a quotient, of two equally near the even one. -/
def roundQuotient (numerator denominator : Nat) : Nat :=
  let q := numerator / denominator
  let r := numerator % denominator
  if 2 * r < denominator then q
  else if denominator < 2 * r then q + 1
  else if q % 2 = 0 then q else q + 1

/-- The nearest number with at most 53 binary digits before its trailing zeros. -/
def toBinary64 (n : Nat) : Nat :=
  if n < Nat.pow 2 53 then n
  else
    let scale := Nat.pow 2 (n.log2 - 52)
    roundQuotient n scale * scale

/-- A quotient with two decimals. -/
def twoDecimals (numerator denominator : Nat) : String :=
  let hundredths := roundQuotient (numerator * 100) denominator
  let decimals := hundredths % 100
  toString (hundredths / 100) ++ "." ++ (if decimals < 10 then "0" else "") ++ toString decimals

def kilo : Nat := 1024
def mega : Nat := 1024 * kilo
def giga : Nat := 1024 * mega

/-- The size in its largest unit of which it has at least one. -/
def format (size : Nat) : String :=
  if giga ≤ size then twoDecimals (toBinary64 size) giga ++ " GB"
  else if mega ≤ size then twoDecimals (toBinary64 size) mega ++ " MB"
  else if kilo ≤ size then twoDecimals (toBinary64 size) kilo ++ " KB"
  else toString size ++ " bytes"

end FormData.ByteSize
