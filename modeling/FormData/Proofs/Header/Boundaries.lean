/-
Boundaries as texts: up to seventy characters of those that RFC 2046 names, but for the space. Such a
text is plain ASCII without blanks, so it can be told from the first line of a body that it delimits
(`boundaryOfFirstLine_line`), and the content type that is made of it names it (`boundaryOf_formDataType`).
-/
import FormData.CommandLine.Arguments
import FormData.Body.Source
import FormData.Body.Window
import FormData.Proofs.Header.Parameters

namespace FormData

/-- The content type made of a boundary names it. -/
theorem boundaryOf_formDataType {boundary : String} (h : Parameters.IsWritable false boundary)
    (hne : boundary ≠ "") :
    boundaryOf (Arguments.formDataType boundary) = .ok (Utf8.encode boundary) := by
  have htype : Arguments.formDataType boundary =
      Parameters.render "multipart/form-data" "boundary" false boundary := by
    have hlead : "multipart/form-data; boundary=" = "multipart/form-data" ++ "; " ++ "boundary" ++ "=" := by
      decide
    unfold Arguments.formDataType Parameters.render
    rw [hlead]
    rfl
  rw [htype]
  exact boundaryOf_render (by decide) (by decide) hne h

/-- The characters of boundaries, other than the space. -/
def isBoundaryChar (c : Char) : Bool :=
  c.isAlphanum || ['\'', '(', ')', '+', '_', ',', '-', '.', '/', ':', '=', '?'].contains c

/-- A text that may delimit a body. -/
structure IsBoundary (text : String) : Prop where
  named : text ≠ ""
  short : text.length ≤ 70
  chars : ∀ c ∈ text.toList, isBoundaryChar c = true

instance (text : String) : Decidable (IsBoundary text) :=
  decidable_of_iff (text ≠ "" ∧ text.length ≤ 70 ∧ text.toList.all isBoundaryChar)
    ⟨fun ⟨h1, h2, h3⟩ => ⟨h1, h2, List.all_eq_true.1 h3⟩,
      fun h => ⟨h.named, h.short, List.all_eq_true.2 h.chars⟩⟩

/-! ## What the characters are not -/

section

variable {c : Char}

theorem isBoundaryChar_range (h : isBoundaryChar c = true) : 0x20 < c.toNat ∧ c.toNat < 0x80 := by
  have hval : c.toNat = c.val.toNat := rfl
  unfold isBoundaryChar at h
  rcases Bool.or_eq_true_iff.1 h with halnum | hmark
  · change ((decide ('A'.val ≤ c.val ∧ c.val ≤ 'Z'.val) ||
      decide ('a'.val ≤ c.val) && decide (c.val ≤ 'z'.val)) ||
      decide ('0'.val ≤ c.val) && decide (c.val ≤ '9'.val)) = true at halnum
    simp only [Bool.or_eq_true, Bool.and_eq_true, decide_eq_true_eq, UInt32.le_iff_toNat_le] at halnum
    rw [hval]
    obtain (⟨hlow, hhigh⟩ | ⟨hlow, hhigh⟩) | ⟨hlow, hhigh⟩ := halnum <;>
      exact ⟨Nat.lt_of_lt_of_le (by decide) hlow, Nat.lt_of_le_of_lt hhigh (by decide)⟩
  · simp only [List.contains_eq_mem, decide_eq_true_eq, List.mem_cons, List.not_mem_nil, or_false] at hmark
    rcases hmark with rfl | rfl | rfl | rfl | rfl | rfl | rfl | rfl | rfl | rfl | rfl | rfl <;> decide

theorem isBlank_of_isBoundaryChar (h : isBoundaryChar c = true) : Text.isBlank c = false := by
  obtain ⟨hlow, hhigh⟩ := isBoundaryChar_range h
  unfold Text.isBlank
  simp only [Bool.or_eq_false_iff, Bool.and_eq_false_iff, decide_eq_false_iff_not, beq_eq_false_iff_ne]
  omega

end

namespace IsBoundary

variable {boundary : String} (h : IsBoundary boundary)
include h

theorem isAscii : Utf8.IsAscii boundary :=
  fun c hc => (isBoundaryChar_range (h.chars c hc)).2

theorem encode_ne_nil : Utf8.encode boundary ≠ [] :=
  Utf8.encode_ne_nil h.named

theorem encode_length : (Utf8.encode boundary).length ≤ 70 := by
  rw [Utf8.encode_ascii h.isAscii, List.length_map]
  exact h.short

/-- Each byte is a character of the boundary, and that is no blank. -/
theorem encode_noBlank : (Utf8.encode boundary).any Source.boundaryOfFirstLine.isAsciiBlank = false := by
  rw [List.any_eq_false]
  intro b hb hblank
  rw [Utf8.encode_ascii h.isAscii] at hb
  obtain ⟨c, hc, rfl⟩ := List.mem_map.1 hb
  obtain ⟨hlow, hhigh⟩ := isBoundaryChar_range (h.chars c hc)
  have hbyte : (UInt8.ofNat c.toNat).toNat = c.toNat := by
    rw [UInt8.toNat_ofNat']
    omega
  unfold Source.boundaryOfFirstLine.isAsciiBlank at hblank
  simp only [Bool.or_eq_true, decide_eq_true_eq, ← UInt8.toNat_inj, hbyte] at hblank
  rcases hblank with (((hb | hb) | hb) | hb) | hb <;> (rw [hb] at hlow; revert hlow; decide)

theorem isWritable : Parameters.IsWritable false boundary where
  noQuote hc := absurd (h.chars _ hc) (by decide)
  bare _ := by
    refine ⟨fun hc => absurd (h.chars _ hc) (by decide), fun c hc => ?_, fun c hc => ?_⟩
    · exact isBlank_of_isBoundaryChar (h.chars c (List.mem_of_head? hc))
    · exact isBlank_of_isBoundaryChar (h.chars c (List.mem_of_getLast? hc))

theorem boundaryOf_formDataType : boundaryOf (Arguments.formDataType boundary) = .ok (Utf8.encode boundary) :=
  FormData.boundaryOf_formDataType h.isWritable h.named

end IsBoundary

/-! ## First lines -/

/-- The boundary of a body is told from the first delimiter line, if it has no blanks. -/
theorem Source.boundaryOfFirstLine_line {boundary : Bytes} (hne : boundary ≠ [])
    (hblank : boundary.any boundaryOfFirstLine.isAsciiBlank = false) (rest : Bytes) :
    boundaryOfFirstLine (Window.dashed boundary ++ Bytes.cr :: Bytes.lf :: rest) = some boundary := by
  have hnolf : ∀ b ∈ Window.dashed boundary ++ [Bytes.cr], (b != Bytes.lf) = true := by
    intro b hb
    rw [bne_iff_ne]
    rintro rfl
    simp only [Window.dashed, List.cons_append, List.mem_cons, List.mem_append, List.not_mem_nil,
      or_false] at hb
    rcases hb with hb | hb | hb | hb
    · exact absurd hb (by decide)
    · exact absurd hb (by decide)
    · exact absurd rfl (List.any_eq_false.1 hblank _ hb)
    · exact absurd hb (by decide)
  have hline : (Window.dashed boundary ++ Bytes.cr :: Bytes.lf :: rest).takeWhile (· != Bytes.lf) =
      Window.dashed boundary ++ [Bytes.cr] := by
    rw [show Window.dashed boundary ++ Bytes.cr :: Bytes.lf :: rest =
        (Window.dashed boundary ++ [Bytes.cr]) ++ Bytes.lf :: rest by simp,
      List.takeWhile_append_of_pos hnolf, List.takeWhile_cons_of_neg (by simp), List.append_nil]
  have hcontains : (Window.dashed boundary ++ Bytes.cr :: Bytes.lf :: rest).contains Bytes.lf = true := by
    simp
  have hempty : boundary.isEmpty = false := by simpa using hne
  unfold boundaryOfFirstLine
  rw [if_pos hcontains, hline]
  simp only [List.getLast?_concat, if_true, List.dropLast_concat, Window.dashed, hempty, hblank, and_self]

end FormData
