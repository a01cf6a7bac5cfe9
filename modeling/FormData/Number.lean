/-
Unsigned 64-bit numbers in decimal, as they occur in headers and arguments: an optional plus sign
and at least one digit, nothing else, and no value past the range (`number?_eq_some_iff`).
-/
namespace FormData

def digit? (c : Char) : Option Nat :=
  if '0' ≤ c ∧ c ≤ '9' then some (c.toNat - '0'.toNat) else none

/-- The value of a run of digits behind a number read so far. -/
def digitsFrom (value : Nat) : List Char → Option Nat
  | [] => some value
  | c :: cs => match digit? c with
    | some d => digitsFrom (value * 10 + d) cs
    | none => none

/-- The number a text spells, if it spells one below 2^64. -/
def number? (text : List Char) : Option Nat :=
  let digits := match text with
    | '+' :: rest => rest
    | _ => text
  match digits with
  | [] => none
  | _ => (digitsFrom 0 digits).filter (· < UInt64.size)

/-! ## What a text spells -/

/-- The text is this number in decimal, zeros in front allowed, behind an optional plus sign. -/
def Spells (text : List Char) (n : Nat) : Prop :=
  ∃ digits, (text = digits ∨ text = '+' :: digits) ∧ digits ≠ [] ∧ (∀ c ∈ digits, c.isDigit = true) ∧
    Nat.ofDigitChars 10 digits 0 = n

theorem digit?_eq (c : Char) : digit? c = if c.isDigit then some (c.toNat - '0'.toNat) else none := by
  unfold digit? Char.isDigit
  simp only [ge_iff_le, Bool.and_eq_true, decide_eq_true_eq]
  rfl

/-- By induction on the digits. -/
theorem digitsFrom_eq_some_iff {value n : Nat} {text : List Char} :
    digitsFrom value text = some n ↔
      (∀ c ∈ text, c.isDigit = true) ∧ Nat.ofDigitChars 10 text value = n := by
  induction text generalizing value with
  | nil => simp [digitsFrom]
  | cons c cs ih =>
    rw [Nat.ofDigitChars_cons, digitsFrom, digit?_eq, List.forall_mem_cons]
    by_cases hc : c.isDigit = true
    · rw [if_pos hc]
      simp only [ih, hc, true_and, Nat.mul_comm value 10]
    · rw [if_neg hc]
      simp only [reduceCtorEq, hc, Bool.false_eq_true, false_and]

/-- Digits are a number where it has 64 bits. -/
theorem filter_digitsFrom_eq_some_iff {digits : List Char} {n : Nat} :
    (digitsFrom 0 digits).filter (· < UInt64.size) = some n ↔
      (∀ c ∈ digits, c.isDigit = true) ∧ Nat.ofDigitChars 10 digits 0 = n ∧ n < UInt64.size := by
  rw [Option.filter_eq_some_iff, digitsFrom_eq_some_iff, decide_eq_true_eq, and_assoc]

/-- A number is read where the text spells one of 64 bits. -/
theorem number?_eq_some_iff {text : List Char} {n : Nat} :
    number? text = some n ↔ Spells text n ∧ n < UInt64.size := by
  unfold number? Spells
  constructor
  · intro h
    split at h <;> simp only at h
    · rename_i rest
      split at h
      · cases h
      · rename_i hne
        obtain ⟨hdigits, hvalue, hlt⟩ := filter_digitsFrom_eq_some_iff.1 h
        exact ⟨⟨rest, .inr rfl, hne, hdigits, hvalue⟩, hlt⟩
    · split at h
      · cases h
      · rename_i hne
        obtain ⟨hdigits, hvalue, hlt⟩ := filter_digitsFrom_eq_some_iff.1 h
        exact ⟨⟨text, .inl rfl, hne, hdigits, hvalue⟩, hlt⟩
  · rintro ⟨⟨digits, htext, hne, hdigits, hvalue⟩, hlt⟩
    have hread := filter_digitsFrom_eq_some_iff.2 ⟨hdigits, hvalue, hlt⟩
    obtain ⟨c, cs, rfl⟩ := List.exists_cons_of_ne_nil hne
    rcases htext with rfl | rfl
    · -- a sign is not a digit
      have hunsigned : c ≠ '+' := by
        rintro rfl
        exact absurd (hdigits _ List.mem_cons_self) (by decide)
      split
      · rename_i heq
        exact absurd (List.cons.inj heq).1 hunsigned
      · exact hread
    · exact hread

end FormData
