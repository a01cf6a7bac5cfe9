/-
Header values with any number of parameters, bare or between quotes. Between quotes anything may stand
as long as each quote in it has an odd run of backslashes in front, which also keeps the closing quote
from being taken for one. What is written reads back, backslashes and all (`parse_renderList`), so the
first parameter of a name is found under every spelling of the name (`reads_parameters`).
-/
import Mathlib.Data.List.DropRight
import FormData.Proofs.Header.Boundaries
import FormData.Proofs.Header.Grouped
import FormData.Proofs.Header.Trimmed

namespace FormData

namespace Parameters

/-! ## Writing -/

/-- The length of the run of backslashes that a text ends in. -/
def slashes (text : List Char) : Nat :=
  (text.rtakeWhile (· == '\\')).length

/-- A value that may stand between quotes: the quotes in it are escaped, the one behind it is not. -/
structure IsQuotable (value : String) : Prop where
  escaped : ∀ i, (h : i < value.toList.length) → value.toList[i] = '"' →
    slashes (value.toList.take i) % 2 = 1
  closed : slashes value.toList % 2 = 0

instance (value : String) : Decidable (IsQuotable value) :=
  decidable_of_iff ((∀ i, (h : i < value.toList.length) → value.toList[i] = '"' →
      slashes (value.toList.take i) % 2 = 1) ∧ slashes value.toList % 2 = 0)
    ⟨fun ⟨h1, h2⟩ => ⟨h1, h2⟩, fun h => ⟨h.escaped, h.closed⟩⟩

/-- A leading token: nothing in it separates or quotes, and it has no blanks at its ends. -/
structure IsMain (main : String) : Prop where
  trimmed : Text.IsTrimmed main.toList
  noSemicolon : ';' ∉ main.toList
  noQuote : '"' ∉ main.toList

instance (main : String) : Decidable (IsMain main) :=
  decidable_of_iff (Text.IsTrimmed main.toList ∧ ';' ∉ main.toList ∧ '"' ∉ main.toList)
    ⟨fun ⟨h1, h2, h3⟩ => ⟨h1, h2, h3⟩, fun h => ⟨h.trimmed, h.noSemicolon, h.noQuote⟩⟩

/-- A parameter to be written. -/
structure Parameter where
  name : String
  value : String
  isQuoted : Bool
  deriving DecidableEq, Repr

namespace Parameter

/-- What is behind the semicolon. -/
def stretch (p : Parameter) : String :=
  " " ++ p.name ++ "=" ++ renderValue p.isQuoted p.value

/-- A parameter that can be written so. -/
structure IsSendable (p : Parameter) : Prop where
  named : p.name ≠ ""
  trimmed : Text.IsTrimmed p.name.toList
  plain : ∀ c ∈ p.name.toList, c ∉ [';', '=', '"']
  quoted : p.isQuoted = true → IsQuotable p.value
  bare : p.isQuoted = false → IsWritable false p.value

instance (p : Parameter) : Decidable p.IsSendable :=
  decidable_of_iff (p.name ≠ "" ∧ Text.IsTrimmed p.name.toList ∧
      (p.name.toList.all fun c => decide (c ∉ [';', '=', '"'])) ∧
      (p.isQuoted = true → IsQuotable p.value) ∧ (p.isQuoted = false → IsWritable false p.value))
    ⟨fun ⟨h1, h2, h3, h4, h5⟩ =>
        ⟨h1, h2, by simpa only [List.all_eq_true, decide_eq_true_eq] using h3, h4, h5⟩,
      fun h => ⟨h.named, h.trimmed, by simpa only [List.all_eq_true, decide_eq_true_eq] using h.plain,
        h.quoted, h.bare⟩⟩

end Parameter

/-- Parameters, each behind a semicolon. -/
def renderList : List Parameter → String
  | [] => ""
  | p :: ps => ";" ++ p.stretch ++ renderList ps

/-! ## Runs of backslashes -/

/-- Backslashes escape one another, so an odd run of them escapes what is behind it. -/
theorem escapedBehind_iff (text : List Char) :
    escapedBehind false text = true ↔ slashes text % 2 = 1 := by
  induction text using List.reverseRecOn with
  | nil => simp [escapedBehind, slashes]
  | append_singleton text c ih =>
    rw [escapedBehind_concat, slashes]
    by_cases hc : c = '\\'
    · subst hc
      have hone : slashes text % 2 = 1 ↔ ¬ (slashes text + 1) % 2 = 1 := by omega
      rw [List.rtakeWhile_concat_pos _ _ _ rfl, List.length_append]
      change _ ↔ (slashes text + 1) % 2 = 1
      rw [← not_iff_not, ← hone, ← ih]
      simp
    · rw [List.rtakeWhile_concat_neg _ _ _ (by simpa using hc)]
      simp [hc]

theorem IsQuotable.escapedBehind_front {value : String} (h : IsQuotable value) {front behind : List Char}
    (heq : value.toList = front ++ '"' :: behind) : escapedBehind false front = true := by
  have hodd := h.escaped front.length (by simp [heq]) (by simp [heq])
  rw [heq, List.take_left] at hodd
  exact (escapedBehind_iff front).2 hodd

theorem IsQuotable.escapedBehind_self {value : String} (h : IsQuotable value) :
    escapedBehind false value.toList = false := by
  rw [← Bool.not_eq_true, escapedBehind_iff, h.closed]
  decide

/-! ## Stretches -/

namespace Parameter

variable {p : Parameter}

theorem toList_stretch (p : Parameter) :
    p.stretch.toList = ' ' :: p.name.toList ++ '=' :: (renderValue p.isQuoted p.value).toList := by
  simp only [stretch, String.toList_append, List.append_assoc]
  rfl

/-- A value ends its stretch where a semicolon follows, or nothing at all. -/
theorem IsSendable.segments_value (h : p.IsSendable) {rest : List Char} {ss : List (List Char)}
    (hrest : ∀ escaped, segments false escaped rest = [] :: ss) :
    segments false false ((renderValue p.isQuoted p.value).toList ++ rest) =
      (renderValue p.isQuoted p.value).toList :: ss := by
  rcases hq : p.isQuoted with _ | _
  · have hbare := h.bare hq
    have hvalue := segments_outside (hbare.bare rfl).1 hbare.noQuote false (hrest _)
    rwa [List.append_nil] at hvalue
  · have hvalue := h.quoted hq
    -- the closing quote is not escaped, so what follows is outside quotes again
    have hclose : segments true (escapedBehind false p.value.toList) ('"' :: rest) = ['"'] :: ss := by
      rw [hvalue.escapedBehind_self, segments_cons (.inl (by decide)), if_pos ⟨rfl, rfl⟩, Bool.not_true,
        hrest]
      rfl
    rw [toList_renderValue_quoted, List.cons_append, List.append_assoc, List.singleton_append,
      segments_cons (.inl (by decide)), if_pos ⟨rfl, rfl⟩]
    show onto ['"'] (segments true false (p.value.toList ++ '"' :: rest)) = _
    rw [segments_inside (fun _ _ heq => hvalue.escapedBehind_front heq) hclose]
    rfl

theorem IsSendable.notMem {c : Char} (h : p.IsSendable) (hc : c ∈ [';', '=', '"']) :
    c ∉ p.name.toList :=
  fun hmem => h.plain c hmem hc

/-- A stretch reads back as the parameter it was written for. -/
theorem IsSendable.pair?_stretch (h : p.IsSendable) :
    pair? p.stretch.toList = some (String.ofList (Text.lower p.name.toList), p.value) := by
  have htrim : Text.trim p.name.toList = p.name.toList :=
    Text.trim_of_ends h.trimmed.first h.trimmed.last
  have hvalue : unquote (Text.trim (renderValue p.isQuoted p.value).toList) = p.value.toList := by
    rcases hq : p.isQuoted with _ | _
    · exact (h.bare hq).unquote
    · rw [toList_renderValue_quoted, unquote_trim_quoted]
  rw [toList_stretch, Parameters.pair?_stretch h.named htrim (h.notMem (by decide)) hvalue,
    String.ofList_toList]

end Parameter

variable {main : String} {ps : List Parameter}

/-- Each parameter is a stretch of its own, whatever is in its value. -/
theorem segments_renderList (hps : ∀ p ∈ ps, p.IsSendable) (escaped : Bool) :
    segments false escaped (renderList ps).toList = [] :: ps.map fun p => p.stretch.toList := by
  induction ps generalizing escaped with
  | nil => rfl
  | cons p ps ih =>
    have hp := hps p List.mem_cons_self
    have hrest := ih fun q hq => hps q (List.mem_cons_of_mem p hq)
    have htext : (renderList (p :: ps)).toList = ';' :: (' ' :: p.name.toList ++
        '=' :: ((renderValue p.isQuoted p.value).toList ++ (renderList ps).toList)) := by
      rw [renderList, String.toList_append, String.toList_append, p.toList_stretch]
      simp
    rw [htext, segments_semicolon, segments_name (hp.notMem (by decide)) (hp.notMem (by decide))
      (hp.segments_value hrest), ← p.toList_stretch]
    rfl

/-! ## Reading back -/

/-- What is written reads back, the names in lower case. -/
theorem parse_renderList (hmain : IsMain main) (hps : ∀ p ∈ ps, p.IsSendable) :
    parse (main ++ renderList ps) =
      ⟨main, ps.map fun p => (String.ofList (Text.lower p.name.toList), p.value)⟩ := by
  have hpairs : (ps.map fun p => p.stretch.toList).filterMap pair? =
      ps.map fun p => (String.ofList (Text.lower p.name.toList), p.value) := by
    clear hmain
    induction ps with
    | nil => rfl
    | cons p ps ih =>
      obtain ⟨hp, hrest⟩ := List.forall_mem_cons.1 hps
      rw [List.map_cons, List.filterMap_cons_some hp.pair?_stretch, ih hrest, List.map_cons]
  have hsegments := segments_outside hmain.noSemicolon hmain.noQuote false
    (segments_renderList hps _)
  rw [List.append_nil] at hsegments
  rw [parse, String.toList_append, hsegments, ofSegments,
    Text.trim_of_ends hmain.trimmed.first hmain.trimmed.last, String.ofList_toList, hpairs]

end Parameters

namespace Text

theorem lower_lower (cs : List Char) : lower (lower cs) = lower cs := by
  simp only [lower, List.map_map]
  exact List.map_congr_left fun c _ => toLower_toLower c

theorem sameName_lower (a b : String) : sameName (String.ofList (lower a.toList)) b = sameName a b := by
  rw [sameName, String.toList_ofList, lower_lower]
  rfl

end Text

namespace Parameters

variable {main : String} {ps : List Parameter}

/-- The value of the first parameter with a name, if there is one. -/
def valueOf? (name : String) (ps : List Parameter) : Option String :=
  (ps.find? fun p => Text.sameName p.name name).map Parameter.value

theorem get?_renderList (hmain : IsMain main) (hps : ∀ p ∈ ps, p.IsSendable) (name : String) :
    (parse (main ++ renderList ps)).get? name = valueOf? name ps := by
  have hname : (fun pair : String × String => Text.sameName pair.1 name) ∘
      (fun p : Parameter => (String.ofList (Text.lower p.name.toList), p.value)) =
      fun p => Text.sameName p.name name :=
    funext fun p => Text.sameName_lower p.name name
  rw [parse_renderList hmain hps, get?, valueOf?, List.find?_map, Option.map_map, hname]
  rfl

/-- The boundary that a multipart content type names is the value of its first boundary parameter. -/
theorem boundaryOf_renderList (hmain : IsMain main) (hps : ∀ p ∈ ps, p.IsSendable)
    (hmultipart : "multipart/".toList.isPrefixOf (Text.lower main.toList) = true) {boundary : String}
    (hfirst : valueOf? "boundary" ps = some boundary) (hne : boundary ≠ "") :
    boundaryOf (main ++ renderList ps) = .ok (Utf8.encode boundary) := by
  have hmain' : (parse (main ++ renderList ps)).main = main :=
    congrArg Parameters.main (parse_renderList hmain hps)
  have hget := (get?_renderList hmain hps "boundary").trans hfirst
  have hempty : boundary.isEmpty = false := by simpa using hne
  unfold boundaryOf
  simp only [hmain', hmultipart, if_true, hget, hempty, Bool.false_eq_true, if_false]

/-- What is written as a header value with parameters is read back: the leading token, and under every
spelling of a name the value of the first parameter of that name, as it is. So the content type of a
multipart body names its first boundary parameter, and in particular the boundary it is made of. -/
theorem reads_parameters (hmain : IsMain main) (hps : ∀ p ∈ ps, p.IsSendable) :
    (parse (main ++ renderList ps)).main = main ∧
    (∀ name, (parse (main ++ renderList ps)).get? name = valueOf? name ps) ∧
    (∀ boundary, "multipart/".toList.isPrefixOf (Text.lower main.toList) = true →
      valueOf? "boundary" ps = some boundary → boundary ≠ "" →
      boundaryOf (main ++ renderList ps) = .ok (Utf8.encode boundary)) ∧
    ∀ (a : Arguments) boundary, a.contentType = none → a.boundary = some boundary →
      IsWritable false boundary → boundary ≠ "" →
      a.explicitContentType.map boundaryOf = some (.ok (Utf8.encode boundary)) := by
  refine ⟨congrArg Parameters.main (parse_renderList hmain hps), get?_renderList hmain hps, ?_, ?_⟩
  · intro boundary hmultipart hfirst hne
    exact boundaryOf_renderList hmain hps hmultipart hfirst hne
  · intro a boundary htype hboundary hvalue hne
    have hexplicit : a.explicitContentType = some (Arguments.formDataType boundary) := by
      unfold Arguments.explicitContentType
      rw [htype, hboundary]
    rw [hexplicit, Option.map_some, boundaryOf_formDataType hvalue hne]

/-- Names and values with backslashes, quotes and semicolons in them, and a second boundary. -/
def oddParameters : List Parameter :=
  [⟨"file\\", "C:\\docs\\a;b=\\\"c\\\" \\\\", true⟩, ⟨"empty", "", false⟩, ⟨"Boundary", "x; é", true⟩,
    ⟨"boundary", "y\\", false⟩]

theorem reads_parameters_odd :
    (parse ("Multipart/X\\" ++ renderList oddParameters)).main = "Multipart/X\\" ∧
    (parse ("Multipart/X\\" ++ renderList oddParameters)).get? "FILE\\" =
      some "C:\\docs\\a;b=\\\"c\\\" \\\\" ∧
    (parse ("Multipart/X\\" ++ renderList oddParameters)).get? "name" = none ∧
    boundaryOf ("Multipart/X\\" ++ renderList oddParameters) = .ok (Utf8.encode "x; é") ∧
    ({ boundary := some "y\\" } : Arguments).explicitContentType.map boundaryOf =
      some (.ok (Utf8.encode "y\\")) := by
  have hmain : IsMain "Multipart/X\\" := by decide +kernel
  have hps : ∀ p ∈ oddParameters, p.IsSendable := by decide +kernel
  obtain ⟨hmain, hget, hboundary, harguments⟩ := reads_parameters hmain hps
  refine ⟨hmain, ?_, ?_, ?_, ?_⟩
  · rw [hget]
    decide +kernel
  · rw [hget]
    decide +kernel
  · exact hboundary "x; é" (by decide +kernel) (by decide +kernel) (by decide +kernel)
  · exact harguments { boundary := some "y\\" } "y\\" rfl rfl (by decide +kernel) (by decide +kernel)

end Parameters

end FormData
