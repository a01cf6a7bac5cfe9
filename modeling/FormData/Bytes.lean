/-
Byte strings, as the parser sees a body: plain lists of octets, with the search for the first
occurrence of a pattern that finding delimiter lines rests on. The search reports the least offset
at which the pattern starts (`locate?_eq_some_iff`).
-/
namespace FormData

/-- A byte string. -/
abbrev Bytes := List UInt8

namespace Bytes

def cr : UInt8 := 13
def lf : UInt8 := 10
def dash : UInt8 := 45

/-! ## Searching -/

/-- `from + ` the offset of the first occurrence of `pattern`. -/
def locateFrom (pattern : Bytes) : Nat → Bytes → Option Nat
  | start, [] => if pattern.isPrefixOf [] then some start else none
  | start, b :: rest =>
    if pattern.isPrefixOf (b :: rest) then some start else locateFrom pattern (start + 1) rest

/-- Offset of the first occurrence of `pattern`. -/
def locate? (pattern text : Bytes) : Option Nat :=
  locateFrom pattern 0 text

theorem locateFrom_add (pattern : Bytes) (text : Bytes) (start : Nat) :
    locateFrom pattern start text = (locate? pattern text).map (start + ·) := by
  unfold locate?
  induction text generalizing start with
  | nil => by_cases h : pattern.isPrefixOf [] <;> simp [locateFrom, h]
  | cons b rest ih =>
    by_cases h : pattern.isPrefixOf (b :: rest)
    · simp [locateFrom, h]
    · simp only [locateFrom, h, Bool.false_eq_true, if_false]
      rw [ih (start + 1), ih (0 + 1), Option.map_map]
      congr 1
      funext k
      simp [Function.comp]
      omega

theorem locate?_nil (pattern : Bytes) :
    locate? pattern [] = if pattern.isPrefixOf [] then some 0 else none := rfl

theorem locate?_cons (pattern : Bytes) (b : UInt8) (rest : Bytes) :
    locate? pattern (b :: rest) =
      if pattern.isPrefixOf (b :: rest) then some 0 else (locate? pattern rest).map (· + 1) := by
  conv => lhs; unfold locate?
  rw [locateFrom]
  split
  · rfl
  · rw [locateFrom_add]
    congr 1
    funext k
    omega

/-- The search finds the least offset at which the pattern starts. -/
theorem locate?_eq_some_iff (pattern text : Bytes) (k : Nat) :
    locate? pattern text = some k ↔
      k ≤ text.length ∧ pattern <+: text.drop k ∧ ∀ j < k, ¬ pattern <+: text.drop j := by
  induction text generalizing k with
  | nil =>
    rw [locate?_nil]
    by_cases h : pattern.isPrefixOf []
    · rw [if_pos h, Option.some.injEq]
      constructor
      · rintro rfl
        exact ⟨Nat.le_refl _, by simpa using h, fun j hj => absurd hj (Nat.not_lt_zero _)⟩
      · rintro ⟨hk, _, _⟩
        simp at hk
        exact hk.symm
    · rw [if_neg h]
      constructor
      · intro hc; cases hc
      · rintro ⟨_, hp, _⟩
        exact absurd (by simpa using hp) h
  | cons b rest ih =>
    rw [locate?_cons]
    by_cases h : pattern.isPrefixOf (b :: rest)
    · rw [if_pos h, Option.some.injEq]
      constructor
      · rintro rfl
        exact ⟨Nat.zero_le _, by simpa using h, fun j hj => absurd hj (Nat.not_lt_zero _)⟩
      · rintro ⟨_, _, hl⟩
        rcases Nat.eq_zero_or_pos k with rfl | hk
        · rfl
        · exact absurd (by simpa using h) (hl 0 hk)
    · rw [if_neg h, Option.map_eq_some_iff]
      constructor
      · rintro ⟨m, hm, rfl⟩
        obtain ⟨h1, h2, h3⟩ := (ih m).1 hm
        refine ⟨by simpa using h1, by simpa using h2, fun j hj => ?_⟩
        cases j with
        | zero => exact fun hc => h (by simpa using hc)
        | succ j => simpa using h3 j (by omega)
      · rintro ⟨h1, h2, h3⟩
        cases k with
        | zero => exact absurd (by simpa using h2) h
        | succ k =>
          refine ⟨k, (ih k).2 ⟨by simpa using h1, by simpa using h2, fun j hj => ?_⟩, rfl⟩
          simpa using h3 (j + 1) (by omega)

/-! ## Text of one byte a character -/

/-- The characters that have the bytes' values as code points. -/
def latin1 (bytes : Bytes) : String :=
  String.ofList (bytes.map fun b => Char.ofNat b.toNat)

end Bytes

end FormData
