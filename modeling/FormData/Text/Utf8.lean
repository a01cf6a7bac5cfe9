/-
Text as UTF-8: the bytes of a text, the strict reading that refuses anything else, and the lenient
reading, which puts U+FFFD for each longest run of bytes that begins a character but does not
complete one.
-/
import FormData.Bytes

namespace FormData.Utf8

/-! ## Strict -/

def encode (text : String) : Bytes :=
  text.toUTF8.data.toList

/-- The text these bytes encode, if they encode one. -/
def decode? (bytes : Bytes) : Option String :=
  String.fromUTF8? ⟨bytes.toArray⟩

/-! ## Lenient -/

/-- What a byte of value 80 or more asks of its successors: how many there are, and between which
bounds the first of them lies. -/
structure Lead where
  tails : Nat
  low : UInt8
  high : UInt8
  bits : Nat

/-- Bytes that start a character of more than one byte. -/
def lead? (b : UInt8) : Option Lead :=
  if 0xC2 ≤ b ∧ b ≤ 0xDF then some ⟨1, 0x80, 0xBF, b.toNat - 0xC0⟩
  else if b = 0xE0 then some ⟨2, 0xA0, 0xBF, 0⟩
  else if b = 0xED then some ⟨2, 0x80, 0x9F, 0xD⟩
  else if 0xE1 ≤ b ∧ b ≤ 0xEF then some ⟨2, 0x80, 0xBF, b.toNat - 0xE0⟩
  else if b = 0xF0 then some ⟨3, 0x90, 0xBF, 0⟩
  else if 0xF1 ≤ b ∧ b ≤ 0xF3 then some ⟨3, 0x80, 0xBF, b.toNat - 0xF0⟩
  else if b = 0xF4 then some ⟨3, 0x80, 0x8F, 4⟩
  else none

/-- The code point completed by the next `tails` bytes, if they fit, and the bytes after those that
fit. -/
def finish : Nat → UInt8 → UInt8 → Nat → Bytes → Option Nat × Bytes
  | 0, _, _, bits, rest => (some bits, rest)
  | _ + 1, _, _, _, [] => (none, [])
  | tails + 1, low, high, bits, b :: rest =>
    if low ≤ b ∧ b ≤ high then finish tails 0x80 0xBF (bits * 64 + (b.toNat - 0x80)) rest
    else (none, b :: rest)

theorem finish_length_le (tails : Nat) (low high : UInt8) (bits : Nat) (rest : Bytes) :
    (finish tails low high bits rest).2.length ≤ rest.length := by
  fun_induction finish with
  | case1 => exact Nat.le_refl _
  | case2 => exact Nat.le_refl _
  | case3 tails low high bits b rest h ih =>
    exact Nat.le_trans ih (Nat.le_succ _)
  | case4 => exact Nat.le_refl _

def replacement : Char := Char.ofNat 0xFFFD

/-- The characters of the bytes, U+FFFD standing for each run that is none. -/
def lenientChars : Bytes → List Char
  | [] => []
  | b :: rest =>
    if b < 0x80 then Char.ofNat b.toNat :: lenientChars rest
    else match lead? b with
      | none => replacement :: lenientChars rest
      | some l =>
        have := finish_length_le l.tails l.low l.high l.bits rest
        match (finish l.tails l.low l.high l.bits rest).1 with
        | some code => Char.ofNat code :: lenientChars (finish l.tails l.low l.high l.bits rest).2
        | none => replacement :: lenientChars (finish l.tails l.low l.high l.bits rest).2
termination_by bytes => bytes.length
decreasing_by
  · exact Nat.lt_succ_self _
  · exact Nat.lt_succ_self _
  · exact Nat.lt_succ_of_le this
  · exact Nat.lt_succ_of_le this

def lenient (bytes : Bytes) : String :=
  String.ofList (lenientChars bytes)

end FormData.Utf8
