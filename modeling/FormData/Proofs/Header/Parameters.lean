/-
Header values as they are written: a leading token and one parameter, whose value is quoted or bare.
What is written reads back (`parse_render`), so a part that names an inner boundary as the content type
of a set does is taken for the set with that boundary (`setOf_mixed`).
-/
import FormData.Proofs.Header.Lines
import FormData.Session

namespace FormData

namespace Parameters

/-! ## Writing -/

/-- A value between quotes or bare. -/
def renderValue (quoted : Bool) (value : String) : String :=
  if quoted then "\"" ++ value ++ "\"" else value

/-- A leading token and one parameter. -/
def render (main name : String) (quoted : Bool) (value : String) : String :=
  main ++ "; " ++ name ++ "=" ++ renderValue quoted value

/-- A token of a header value: no blanks at its ends, and nothing in it that separates or quotes. -/
structure IsToken (token : String) : Prop where
  named : token ≠ ""
  first : ∀ c ∈ token.toList.head?, Text.isBlank c = false
  last : ∀ c ∈ token.toList.getLast?, Text.isBlank c = false
  plain : ∀ c ∈ token.toList, c ∉ [';', '"', '\\', '=']

instance (token : String) : Decidable (IsToken token) :=
  decidable_of_iff (token ≠ "" ∧ token.toList.head?.all (!Text.isBlank ·) ∧
      token.toList.getLast?.all (!Text.isBlank ·) ∧
      token.toList.all fun c => decide (c ∉ [';', '"', '\\', '=']))
    ⟨fun ⟨h1, h2, h3, h4⟩ => ⟨h1, by simpa [Option.all_eq_true] using h2,
        by simpa [Option.all_eq_true] using h3, by simpa only [List.all_eq_true, decide_eq_true_eq] using h4⟩,
      fun h => ⟨h.named, by simpa [Option.all_eq_true] using h.first,
        by simpa [Option.all_eq_true] using h.last,
        by simpa only [List.all_eq_true, decide_eq_true_eq] using h.plain⟩⟩

/-- A value that can be written so. Between quotes it may hold anything but a quote. -/
structure IsWritable (quoted : Bool) (value : String) : Prop where
  noQuote : '"' ∉ value.toList
  bare : quoted = false → ';' ∉ value.toList ∧
    (∀ c ∈ value.toList.head?, Text.isBlank c = false) ∧ ∀ c ∈ value.toList.getLast?, Text.isBlank c = false

instance (quoted : Bool) (value : String) : Decidable (IsWritable quoted value) :=
  decidable_of_iff ('"' ∉ value.toList ∧ (quoted = false → ';' ∉ value.toList ∧
      value.toList.head?.all (!Text.isBlank ·) ∧ value.toList.getLast?.all (!Text.isBlank ·)))
    ⟨fun ⟨h1, h2⟩ => ⟨h1, by simpa [Option.all_eq_true] using h2⟩,
      fun h => ⟨h.noQuote, by simpa [Option.all_eq_true] using h.bare⟩⟩

theorem toList_renderValue_quoted (value : String) :
    (renderValue true value).toList = '"' :: (value.toList ++ ['"']) := by
  rw [renderValue, if_pos rfl, String.toList_append, String.toList_append]
  rfl

/-! ## Stretches -/

/-- The stretches with a text in front of the first. -/
def onto (text : List Char) : List (List Char) → List (List Char)
  | [] => [text]
  | s :: ss => (text ++ s) :: ss

/-- Whether a quote behind this text would be escaped. -/
def escapedBehind (escaped : Bool) (text : List Char) : Bool :=
  text.foldl (fun escaped c => !escaped && c == '\\') escaped

theorem segments_cons {c : Char} {inQuotes : Bool} (hc : c ≠ ';' ∨ inQuotes = true) (escaped : Bool)
    (cs : List Char) :
    segments inQuotes escaped (c :: cs) =
      onto [c] (segments (if c = '"' ∧ escaped = false then !inQuotes else inQuotes)
        (!escaped && c == '\\') cs) := by
  have hno : ¬ (c = ';' ∧ inQuotes = false) := by
    rintro ⟨hsemi, hout⟩
    obtain hc | hc := hc
    · exact hc hsemi
    · cases hc.symm.trans hout
  rw [segments, if_neg hno]
  split <;> rename_i hss <;> rw [hss] <;> rfl

theorem escapedBehind_concat (escaped : Bool) (text : List Char) (c : Char) :
    escapedBehind escaped (text ++ [c]) = (!escapedBehind escaped text && c == '\\') := by
  rw [escapedBehind, List.foldl_append]
  rfl

/-- A semicolon outside quotes ends a stretch. -/
theorem segments_semicolon (escaped : Bool) (rest : List Char) :
    segments false escaped (';' :: rest) = [] :: segments false false rest := by
  rw [segments, if_pos ⟨rfl, rfl⟩]

/-- Outside quotes a text without semicolons and quotes goes before the rest of its stretch. -/
theorem segments_outside {text : List Char} (hsemi : ';' ∉ text) (hquote : '"' ∉ text) (escaped : Bool)
    {rest s : List Char} {ss : List (List Char)}
    (hrest : segments false (escapedBehind escaped text) rest = s :: ss) :
    segments false escaped (text ++ rest) = (text ++ s) :: ss := by
  induction text generalizing escaped with
  | nil => exact hrest
  | cons c cs ih =>
    rw [List.mem_cons, not_or] at hsemi hquote
    rw [List.cons_append, segments_cons (.inl (Ne.symm hsemi.1)), if_neg fun h => hquote.1 h.1.symm,
      ih hsemi.2 hquote.2 _ hrest]
    rfl

/-- Between quotes so does a text whose own quotes are escaped. -/
theorem segments_inside {text : List Char} {escaped : Bool}
    (hquotes : ∀ front behind, text = front ++ '"' :: behind → escapedBehind escaped front = true)
    {rest s : List Char} {ss : List (List Char)}
    (hrest : segments true (escapedBehind escaped text) rest = s :: ss) :
    segments true escaped (text ++ rest) = (text ++ s) :: ss := by
  induction text generalizing escaped with
  | nil => exact hrest
  | cons c cs ih =>
    have hstays : ¬ (c = '"' ∧ escaped = false) := by
      rintro ⟨rfl, hplain⟩
      cases hplain.symm.trans (hquotes [] cs rfl)
    rw [List.cons_append, segments_cons (.inr rfl), if_neg hstays,
      ih (fun front behind heq => hquotes (c :: front) behind (by rw [heq]; rfl)) hrest]
    rfl

/-- A name and an equals sign go before the rest of their stretch; the sign is no backslash, so nothing
behind it is escaped. -/
theorem segments_name {name rest s : List Char} {ss : List (List Char)} (hsemi : ';' ∉ name)
    (hquote : '"' ∉ name) (hrest : segments false false rest = s :: ss) :
    segments false false (' ' :: name ++ '=' :: rest) = (' ' :: name ++ '=' :: s) :: ss := by
  have hescaped : escapedBehind false (' ' :: name ++ ['=']) = false := by
    rw [escapedBehind_concat]
    exact Bool.and_false _
  have hsemi' : ';' ∉ ' ' :: name ++ ['='] := by simpa using hsemi
  have hquote' : '"' ∉ ' ' :: name ++ ['='] := by simpa using hquote
  have hstretch := segments_outside hsemi' hquote' false (by rw [hescaped]; exact hrest)
  simpa using hstretch

/-- A value that is written last is one stretch, whatever would be behind it. -/
theorem IsWritable.segments {quoted : Bool} {value : String} (h : IsWritable quoted value) :
    segments false false (renderValue quoted value).toList = [(renderValue quoted value).toList] := by
  cases quoted with
  | false =>
    have hvalue : Parameters.segments false false (value.toList ++ []) = [value.toList ++ []] :=
      segments_outside (h.bare rfl).1 h.noQuote false rfl
    rwa [List.append_nil] at hvalue
  | true =>
    have hend : ∀ escaped, Parameters.segments true escaped ['"'] = [['"']] := by
      rintro (_ | _) <;> rfl
    have hquotes : ∀ front behind, value.toList = front ++ '"' :: behind →
        escapedBehind false front = true :=
      fun front behind heq => absurd (heq ▸ List.mem_append_right front List.mem_cons_self) h.noQuote
    rw [toList_renderValue_quoted, segments_cons (.inl (by decide)), if_pos ⟨rfl, rfl⟩]
    show onto ['"'] (Parameters.segments true false _) = _
    rw [segments_inside hquotes (hend _)]
    rfl

/-! ## Values -/

theorem unquote_bare {value : List Char} (h : '"' ∉ value) : unquote value = value := by
  refine if_neg ?_
  rintro ⟨-, hfirst, -⟩
  exact h (List.mem_of_head? hfirst)

theorem unquote_quoted (value : List Char) : unquote ('"' :: (value ++ ['"'])) = value := by
  have hlast : ('"' :: (value ++ ['"'])).getLast? = some '"' := by
    rw [← List.cons_append, List.getLast?_concat]
  have hlength : 2 ≤ ('"' :: (value ++ ['"'])).length := by
    rw [List.length_cons, List.length_append]
    exact Nat.succ_le_succ (Nat.le_add_left 1 _)
  rw [unquote, if_pos ⟨hlength, rfl, hlast⟩, List.drop_succ_cons, List.drop_zero, List.dropLast_concat]

/-- Quotes are no blanks, so trimming stops at them. -/
theorem unquote_trim_quoted (value : List Char) :
    unquote (Text.trim ('"' :: (value ++ ['"']))) = value := by
  have htrim : Text.trim ('"' :: (value ++ ['"'])) = '"' :: (value ++ ['"']) := by
    refine Text.trim_of_ends ?_ ?_
    · rintro c ⟨⟩
      decide
    · rw [← List.cons_append, List.getLast?_concat]
      rintro c ⟨⟩
      decide
  rw [htrim, unquote_quoted]

theorem IsWritable.unquote {quoted : Bool} {value : String} (h : IsWritable quoted value) :
    unquote (Text.trim (renderValue quoted value).toList) = value.toList := by
  cases quoted with
  | false =>
    obtain ⟨-, hfirst, hlast⟩ := h.bare rfl
    show Parameters.unquote (Text.trim value.toList) = value.toList
    rw [Text.trim_of_ends hfirst hlast, unquote_bare h.noQuote]
  | true => rw [toList_renderValue_quoted, unquote_trim_quoted]

theorem IsToken.trim {token : String} (h : IsToken token) : Text.trim token.toList = token.toList :=
  Text.trim_of_ends h.first h.last

/-- A stretch with an equals sign behind a name is a parameter with the name in lower case. -/
theorem pair?_stretch {name : String} {text value : List Char} (hnamed : name ≠ "")
    (htrim : Text.trim name.toList = name.toList) (hequals : '=' ∉ name.toList)
    (hvalue : unquote (Text.trim text) = value) :
    pair? (' ' :: name.toList ++ '=' :: text) =
      some (String.ofList (Text.lower name.toList), String.ofList value) := by
  have hcut : '=' ∉ ' ' :: name.toList := by
    rw [List.mem_cons, not_or]
    exact ⟨by decide, hequals⟩
  have hname : Text.trim (' ' :: name.toList) = name.toList := htrim
  have hempty : name.toList.isEmpty = false := by
    rw [List.isEmpty_eq_false_iff]
    exact fun h0 => hnamed (String.toList_eq_nil_iff.1 h0)
  unfold pair?
  simp only [Text.cut?_append hcut, hname, hempty, hvalue, Bool.false_eq_true, if_false]

/-- What is written reads back. -/
theorem parse_render {main name value : String} {quoted : Bool} (hmain : IsToken main)
    (hname : IsToken name) (hvalue : IsWritable quoted value) :
    parse (render main name quoted value) =
      ⟨main, [(String.ofList (Text.lower name.toList), value)]⟩ := by
  have htext : (render main name quoted value).toList =
      main.toList ++ ';' :: (' ' :: name.toList ++ '=' :: (renderValue quoted value).toList) := by
    simp only [render, String.toList_append, List.append_assoc]
    rfl
  have hnot : ∀ {token : String} (c : Char), IsToken token → c ∈ [';', '"', '\\', '='] →
      c ∉ token.toList := fun c h hc hmem => h.plain c hmem hc
  have hstretch := segments_name (hnot ';' hname (by decide)) (hnot '"' hname (by decide)) hvalue.segments
  rw [parse, htext, segments_outside (hnot ';' hmain (by decide)) (hnot '"' hmain (by decide)) false
    ((segments_semicolon _ _).trans (congrArg _ hstretch)), List.append_nil]
  have hpair := pair?_stretch hname.named hname.trim (hnot '=' hname (by decide)) hvalue.unquote
  simp only [ofSegments, hmain.trim, String.ofList_toList, List.filterMap_cons, List.filterMap_nil, hpair]

end Parameters

/-! ## Content types -/

/-- The boundary that a multipart content type is written with. -/
theorem boundaryOf_render {main : String} {quoted : Bool} {boundary : String}
    (hmain : Parameters.IsToken main)
    (hmultipart : "multipart/".toList.isPrefixOf (Text.lower main.toList) = true) (hne : boundary ≠ "")
    (h : Parameters.IsWritable quoted boundary) :
    boundaryOf (Parameters.render main "boundary" quoted boundary) = .ok (Utf8.encode boundary) := by
  have hempty : boundary.isEmpty = false := by simpa using hne
  have hname : Parameters.IsToken "boundary" := by decide
  have hparse := Parameters.parse_render hmain hname h
  unfold boundaryOf
  simp only [hparse]
  rw [if_pos hmultipart]
  have hget : Parameters.get? ⟨main, [(String.ofList (Text.lower "boundary".toList), boundary)]⟩
      "boundary" = some boundary := by
    have hname : Text.sameName (String.ofList (Text.lower "boundary".toList)) "boundary" = true := by
      decide
    simp only [Parameters.get?, List.find?_cons, hname, Option.map_some]
  simp only [hget, hempty, Bool.false_eq_true, if_false]

/-- The content type of a set with this inner boundary. -/
def mixedType (quoted : Bool) (boundary : String) : String :=
  Parameters.render "multipart/mixed" "boundary" quoted boundary

theorem boundaryOf_mixedType {quoted : Bool} {boundary : String} (hne : boundary ≠ "")
    (h : Parameters.IsWritable quoted boundary) :
    boundaryOf (mixedType quoted boundary) = .ok (Utf8.encode boundary) :=
  boundaryOf_render (by decide) (by decide) hne h

/-- A part with a name and the content type of a set holds that set. -/
theorem Session.setOf_mixed {headers : Headers} {field boundary : String} {quoted : Bool}
    (hfield : headers.fieldName? = some field)
    (htype : headers.contentType? = some (mixedType quoted boundary)) (hne : boundary ≠ "")
    (h : Parameters.IsWritable quoted boundary) :
    Session.setOf headers = .ok (some (field, Utf8.encode boundary)) := by
  have hprefix : "multipart/mixed".toList.isPrefixOf
      (Text.lower (Text.trimStart (mixedType quoted boundary).toList)) = true := by
    have htext : (mixedType quoted boundary).toList = "multipart/mixed".toList ++
        ("; ".toList ++ ("boundary".toList ++ ("=".toList ++
          (Parameters.renderValue quoted boundary).toList))) := by
      simp only [mixedType, Parameters.render, String.toList_append, List.append_assoc]
    rw [htext]
    rfl
  unfold Session.setOf
  simp only [htype, hprefix, if_true, hfield, boundaryOf_mixedType hne h]

end FormData
