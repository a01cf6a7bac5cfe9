/-
Which texts a pattern covers. It covers those that can be cut into pieces, one for each of its
characters, such that a star has any piece, a question mark one character and every other character
itself (`Glob.Fits`). The search cuts off one character at a time and loses nothing by it: at a star the
piece ends here or goes on (`fits_star_cons_iff`), and elsewhere there is no choice
(`fits_cons_cons_iff`). So a field is selected by what its name can be cut into, whether the patterns have
wildcards or not (`Arguments.selects_iff`).
-/
import Mathlib.Data.List.Forall2
import FormData.CommandLine.Arguments

namespace FormData

namespace Glob

variable {p c : Char} {pattern text piece : List Char}

/-! ## Pieces of a text -/

/-- What a character of a pattern stands for. -/
inductive StandsFor : Char → List Char → Prop
  | run (piece : List Char) : StandsFor '*' piece
  | one (c : Char) : StandsFor '?' [c]
  | itself {c : Char} : c ≠ '*' → c ≠ '?' → StandsFor c [c]

/-- The text is made of pieces that the characters of the pattern stand for, one after the other. -/
def Fits (pattern text : List Char) : Prop :=
  ∃ pieces : List (List Char), pieces.flatten = text ∧ List.Forall₂ StandsFor pattern pieces

/-- All but the star stand for one character. -/
theorem standsFor_iff (h : p ≠ '*') : StandsFor p piece ↔ ∃ c, piece = [c] ∧ (p = '?' ∨ p = c) := by
  constructor
  · rintro (_ | c | ⟨-, -⟩)
    · exact absurd rfl h
    · exact ⟨c, rfl, .inl rfl⟩
    · exact ⟨p, rfl, .inr rfl⟩
  · rintro ⟨c, rfl, hp⟩
    by_cases hone : p = '?'
    · rw [hone]
      exact .one c
    · obtain rfl := hp.resolve_left hone
      exact .itself h hone

theorem fits_nil_iff : Fits [] text ↔ text = [] := by
  constructor
  · rintro ⟨_, rfl, ⟨⟩⟩
    rfl
  · rintro rfl
    exact ⟨[], rfl, .nil⟩

/-- The first piece comes off the front. -/
theorem fits_cons_iff : Fits (p :: pattern) text ↔
    ∃ piece rest, text = piece ++ rest ∧ StandsFor p piece ∧ Fits pattern rest := by
  constructor
  · rintro ⟨_, rfl, ⟨⟩⟩
    rename_i piece pieces hpiece hpieces
    exact ⟨piece, pieces.flatten, List.flatten_cons, hpiece, pieces, rfl, hpieces⟩
  · rintro ⟨piece, _, rfl, hpiece, pieces, rfl, hpieces⟩
    exact ⟨piece :: pieces, List.flatten_cons, .cons hpiece hpieces⟩

/-! ## One character at a time -/

theorem fits_star_nil_iff : Fits ('*' :: pattern) [] ↔ Fits pattern [] := by
  rw [fits_cons_iff]
  constructor
  · rintro ⟨piece, rest, htext, -, hrest⟩
    obtain ⟨-, rfl⟩ := List.append_eq_nil_iff.1 htext.symm
    exact hrest
  · intro h
    exact ⟨[], [], rfl, .run [], h⟩

/-- The piece of a star ends here, or has the next character in it and goes on. -/
theorem fits_star_cons_iff :
    Fits ('*' :: pattern) (c :: text) ↔ Fits pattern (c :: text) ∨ Fits ('*' :: pattern) text := by
  constructor
  · intro h
    obtain ⟨piece, rest, htext, -, hrest⟩ := fits_cons_iff.1 h
    cases piece with
    | nil => exact .inl (htext ▸ hrest)
    | cons d piece =>
      obtain ⟨-, rfl⟩ := List.cons.inj htext
      exact .inr (fits_cons_iff.2 ⟨piece, rest, rfl, .run piece, hrest⟩)
  · rintro (h | h)
    · exact fits_cons_iff.2 ⟨[], c :: text, rfl, .run [], h⟩
    · obtain ⟨piece, rest, rfl, -, hrest⟩ := fits_cons_iff.1 h
      exact fits_cons_iff.2 ⟨c :: piece, rest, rfl, .run (c :: piece), hrest⟩

theorem not_fits_cons_nil (h : p ≠ '*') : ¬ Fits (p :: pattern) [] := by
  intro hfits
  obtain ⟨piece, rest, htext, hpiece, -⟩ := fits_cons_iff.1 hfits
  obtain ⟨c, rfl, -⟩ := (standsFor_iff h).1 hpiece
  cases htext

theorem fits_cons_cons_iff (h : p ≠ '*') :
    Fits (p :: pattern) (c :: text) ↔ (p = '?' ∨ p = c) ∧ Fits pattern text := by
  rw [fits_cons_iff]
  constructor
  · rintro ⟨piece, rest, htext, hpiece, hrest⟩
    obtain ⟨d, rfl, hd⟩ := (standsFor_iff h).1 hpiece
    obtain ⟨rfl, rfl⟩ := List.cons.inj htext
    exact ⟨hd, hrest⟩
  · rintro ⟨hc, hrest⟩
    exact ⟨[c], text, rfl, (standsFor_iff h).2 ⟨c, rfl, hc⟩, hrest⟩

/-- By induction on the search. -/
theorem covers_iff_fits (pattern text : List Char) : covers pattern text = true ↔ Fits pattern text := by
  fun_induction covers pattern text with
  | case1 text => rw [fits_nil_iff, List.isEmpty_iff]
  | case2 p pattern ih =>
    rw [Bool.and_eq_true, beq_iff_eq, ih]
    by_cases hstar : p = '*'
    · rw [hstar, fits_star_nil_iff, and_iff_right rfl]
    · exact iff_of_false (fun h => hstar h.1) (not_fits_cons_nil hstar)
  | case3 pattern c text ih ih' => rw [Bool.or_eq_true, ih, ih', fits_star_cons_iff]
  | case4 p pattern c text hstar ih =>
    rw [Bool.and_eq_true, Bool.or_eq_true, beq_iff_eq, beq_iff_eq, ih, fits_cons_cons_iff hstar]

/-! ## Patterns without wildcards -/

theorem hasWildcard_eq_false_iff : hasWildcard pattern = false ↔ '*' ∉ pattern ∧ '?' ∉ pattern := by
  unfold hasWildcard
  rw [List.any_eq_false]
  constructor
  · intro h
    exact ⟨fun hmem => h _ hmem (by decide), fun hmem => h _ hmem (by decide)⟩
  · rintro ⟨hrun, hone⟩ c hc hwild
    rcases Bool.or_eq_true_iff.1 hwild with hc' | hc' <;> rw [beq_iff_eq] at hc' <;> subst hc'
    · exact hrun hc
    · exact hone hc

/-- Without wildcards each character has itself. -/
theorem fits_plain_iff (hrun : '*' ∉ pattern) (hone : '?' ∉ pattern) :
    Fits pattern text ↔ text = pattern := by
  induction pattern generalizing text with
  | nil => exact fits_nil_iff
  | cons p pattern ih =>
    rw [List.mem_cons, not_or] at hrun hone
    have hstar : p ≠ '*' := Ne.symm hrun.1
    cases text with
    | nil => exact iff_of_false (not_fits_cons_nil hstar) nofun
    | cons c text =>
      rw [fits_cons_cons_iff hstar, ih hrun.2 hone.2, or_iff_right (Ne.symm hone.1), List.cons.injEq,
        eq_comm]

/-- A pattern covers a text exactly if the text can be cut into what the characters of the pattern stand
for. One without wildcards covers nothing but itself. -/
theorem covers_decides (pattern text : List Char) :
    (covers pattern text = true ↔ Fits pattern text) ∧
      ('*' ∉ pattern → '?' ∉ pattern → (covers pattern text = true ↔ text = pattern)) := by
  refine ⟨covers_iff_fits pattern text, fun hrun hone => ?_⟩
  rw [covers_iff_fits]
  exact fits_plain_iff hrun hone

/-- Wildcards in the text are characters like others: they are covered by themselves, and by a question
mark, but do not stand for anything. -/
theorem covers_decides_wildcardsInText :
    Fits "*?*".toList "?*".toList ∧ ¬ Fits "a*?".toList "a".toList ∧
      '*' ∉ "a.b".toList ∧ '?' ∉ "a.b".toList ∧ ¬ covers "a.b".toList "a?b".toList = true := by
  refine ⟨(covers_decides _ _).1.1 (by decide +kernel), fun h => ?_, by decide, by decide, fun h => ?_⟩
  · exact absurd ((covers_decides _ _).1.2 h) (by decide +kernel)
  · exact absurd (((covers_decides _ _).2 (by decide) (by decide)).1 h) (by decide)

end Glob

/-! ## Selected fields -/

namespace Text

theorem occurs_iff {part cs : List Char} : occurs part cs = true ↔ part <:+: cs := by
  induction cs with
  | nil => rw [occurs, List.isPrefixOf_iff_prefix, List.prefix_nil, List.infix_nil]
  | cons c cs ih => rw [occurs, Bool.or_eq_true, List.isPrefixOf_iff_prefix, ih, List.infix_cons_iff]

end Text

/-- A field is selected if no field is listed or a listed pattern fits its name, and no exclusion occurs
in it or fits it. -/
theorem Arguments.selects_iff (a : Arguments) (field : String) :
    a.selects field = true ↔
      (a.fields = [] ∨ ∃ f ∈ a.fields, Glob.Fits f.toList field.toList) ∧
        ∀ x ∈ a.exclude, ¬ x.toList <:+: field.toList ∧ ¬ Glob.Fits x.toList field.toList := by
  have hlisted : ∀ f : String, ((if Glob.hasWildcard f.toList then Glob.covers f.toList field.toList
      else f == field) = true) ↔ Glob.Fits f.toList field.toList := by
    intro f
    split
    · exact Glob.covers_iff_fits _ _
    · -- a name without wildcards is compared as it is, which comes to the same
      rename_i hplain
      obtain ⟨hrun, hone⟩ := Glob.hasWildcard_eq_false_iff.1 (Bool.eq_false_iff.2 hplain)
      rw [Glob.fits_plain_iff hrun hone, beq_iff_eq, String.toList_inj, eq_comm]
  unfold selects
  simp only [Bool.and_eq_true, Bool.or_eq_true, List.isEmpty_iff, List.any_eq_true, hlisted,
    Bool.not_eq_true', List.any_eq_false, not_or, Text.occurs_iff, Glob.covers_iff_fits]

end FormData
