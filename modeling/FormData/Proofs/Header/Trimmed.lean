/-
What comes off a header block whoever wrote it. Names are never empty, and have neither a colon nor
a blank at an end. A value is put together from the pieces of its lines, each of them trimmed, and is
not trimmed once more: it has a blank at an end when the first or the last of several pieces is empty
(`ofBlock_trimmed`).
-/
import FormData.Proofs.Header.Folded

namespace FormData

/-! ## Letters -/

namespace Text

theorem isUpper_iff_val (c : Char) : c.isUpper = true ↔ c.val ≥ 'A'.val ∧ c.val ≤ 'Z'.val :=
  decide_eq_true_iff

theorem isUpper_iff (c : Char) : c.isUpper = true ↔ 65 ≤ c.toNat ∧ c.toNat ≤ 90 := by
  rw [isUpper_iff_val, ge_iff_le, UInt32.le_iff_toNat_le, UInt32.le_iff_toNat_le]
  rfl

/-- Only capitals are changed. -/
theorem toLower_of_not_isUpper {c : Char} (h : ¬ c.isUpper = true) : c.toLower = c := by
  rw [isUpper_iff_val] at h
  unfold Char.toLower
  rw [dif_neg h]

theorem toLower_of_isBlank {c : Char} (h : isBlank c = true) : c.toLower = c := by
  refine toLower_of_not_isUpper fun hupper => ?_
  rw [isUpper_iff] at hupper
  simp only [isBlank, Bool.or_eq_true, Bool.and_eq_true, decide_eq_true_eq, beq_iff_eq] at h
  omega

theorem toNat_toLower {c : Char} (h : c.isUpper = true) : c.toLower.toNat = c.toNat + 32 := by
  have hrange := (isUpper_iff c).1 h
  have hvalue : c.toNat = c.val.toNat := rfl
  have hstep : ('a'.val - 'A'.val : UInt32).toNat = 32 := rfl
  rw [isUpper_iff_val] at h
  unfold Char.toLower
  rw [dif_pos h]
  show (c.val + _).toNat = _
  rw [UInt32.toNat_add, hstep]
  omega

/-- A letter that was put in lower case is no capital. -/
theorem toLower_toLower (c : Char) : c.toLower.toLower = c.toLower := by
  by_cases hupper : c.isUpper = true
  · have hrange := (isUpper_iff c).1 hupper
    have hstep := toNat_toLower hupper
    refine toLower_of_not_isUpper fun h => ?_
    rw [isUpper_iff] at h
    omega
  · rw [toLower_of_not_isUpper hupper, toLower_of_not_isUpper hupper]

end Text

/-! ## Trimming -/

namespace Text

/-- No blank at either end. -/
structure IsTrimmed (cs : List Char) : Prop where
  first : ∀ c ∈ cs.head?, isBlank c = false
  last : ∀ c ∈ cs.getLast?, isBlank c = false

instance (cs : List Char) : Decidable (IsTrimmed cs) :=
  decidable_of_iff (cs.head?.all (!isBlank ·) ∧ cs.getLast?.all (!isBlank ·))
    ⟨fun ⟨h1, h2⟩ => ⟨by simpa [Option.all_eq_true] using h1, by simpa [Option.all_eq_true] using h2⟩,
      fun h => ⟨by simpa [Option.all_eq_true] using h.first, by simpa [Option.all_eq_true] using h.last⟩⟩

theorem head?_dropWhile_isBlank (cs : List Char) :
    ∀ c ∈ (cs.dropWhile isBlank).head?, isBlank c = false := by
  intro c hc
  have hnot := List.head?_dropWhile_not isBlank cs
  rw [Option.mem_def.1 hc] at hnot
  simpa using hnot

theorem trimEnd_front (cs : List Char) : trimEnd cs <+: cs := by
  rw [trimEnd, ← List.reverse_suffix, List.reverse_reverse]
  exact List.dropWhile_suffix isBlank

theorem isTrimmed_trim (cs : List Char) : IsTrimmed (trim cs) where
  first := by
    intro c hc
    obtain ⟨rest, hrest⟩ := trimEnd_front (trimStart cs)
    apply head?_dropWhile_isBlank cs c
    show c ∈ (trimStart cs).head?
    rw [← hrest, List.head?_append]
    exact Option.or_eq_some_iff.2 (.inl hc)
  last := by
    intro c hc
    rw [trim, trimEnd, List.getLast?_reverse] at hc
    exact head?_dropWhile_isBlank _ c hc

theorem trim_subset (cs : List Char) : trim cs ⊆ cs :=
  fun _ hc => (List.dropWhile_suffix isBlank).subset ((trimEnd_front _).subset hc)

theorem getLast?_intercalate {piece last : List Char} {more : List (List Char)}
    (h : more.getLast? = some last) :
    ([' '].intercalate (piece :: more)).getLast? = last.getLast?.or (some ' ') := by
  induction more generalizing piece with
  | nil => cases h
  | cons next more ih =>
    rw [List.intercalate_cons_cons, List.getLast?_append]
    cases more with
    | nil =>
      cases h
      simp
    | cons _ _ =>
      rw [List.getLast?_cons_cons] at h
      rw [ih h]
      cases last.getLast? <;> rfl

/-- Pieces joined by spaces have a blank at an end just where the first or the last one is empty. -/
theorem isTrimmed_intercalate {piece : List Char} {more : List (List Char)} (hpiece : IsTrimmed piece)
    (hmore : ∀ p ∈ more, IsTrimmed p) :
    IsTrimmed ([' '].intercalate (piece :: more)) ↔
      more = [] ∨ piece ≠ [] ∧ ∀ p ∈ more.getLast?, p ≠ [] := by
  rcases hlast : more.getLast? with _ | last
  · obtain rfl := List.getLast?_eq_none_iff.1 hlast
    rw [List.intercalate_singleton]
    exact ⟨fun _ => .inl rfl, fun _ => hpiece⟩
  · obtain ⟨next, rest, rfl⟩ := List.exists_cons_of_ne_nil (List.ne_nil_of_mem
      (List.mem_of_getLast? hlast))
    have hends : ([' '].intercalate (piece :: next :: rest)).head? = piece.head?.or (some ' ') := by
      rw [List.intercalate_cons_cons, List.append_assoc, List.head?_append]
      rfl
    have hspace : isBlank ' ' = true := rfl
    constructor
    · intro h
      have hfirst := h.first
      have hfinal := h.last
      rw [hends] at hfirst
      rw [getLast?_intercalate hlast] at hfinal
      refine .inr ⟨?_, ?_⟩
      · rintro rfl
        exact Bool.noConfusion (hspace.symm.trans (hfirst ' ' rfl))
      · rintro p hp rfl
        cases hp
        exact Bool.noConfusion (hspace.symm.trans (hfinal ' ' rfl))
    · rintro (hnil | ⟨hne, hfinal⟩)
      · cases hnil
      · obtain ⟨c, cs, rfl⟩ := List.exists_cons_of_ne_nil hne
        have hlastTrimmed := hmore last (List.mem_of_getLast? hlast)
        have hlastNe := hfinal last rfl
        constructor
        · rw [hends]
          exact hpiece.first
        · rw [getLast?_intercalate hlast, List.getLast?_eq_some_getLast hlastNe]
          have := hlastTrimmed.last
          rwa [List.getLast?_eq_some_getLast hlastNe] at this

end Text

namespace Headers

/-! ## Sections of a block -/

/-- Whether a line goes on with the header before it. -/
def isFold : List Char → Bool
  | [] => false
  | c :: _ => decide (IsIndent c)

/-- The lines in front that go on with the header before them, whatever empty lines are between. -/
def folds (lines : List (List Char)) : List (List Char) :=
  (lines.filter fun line => !line.isEmpty).takeWhile isFold

/-- A header of a block: its name and the pieces of its value, one for each line. -/
structure Section where
  name : List Char
  piece : List Char
  more : List (List Char)
  deriving DecidableEq, Repr

/-- The header that a line starts, if it does. -/
def starts? (line : List Char) : Option Open :=
  if isFold line then none else Reading.header? line

/-- The headers on some lines. -/
def sections : List (List Char) → List Section
  | [] => []
  | line :: rest =>
    match starts? line with
    | some o => ⟨o.name, o.value, (folds rest).map Text.trim⟩ :: sections rest
    | none => sections rest

/-- The lines of a block. -/
def blockLines (block : Bytes) : List (List Char) :=
  (Text.pieces '\n' (blockText block).toList).map chopReturn

namespace Section

def value (s : Section) : List Char :=
  [' '].intercalate (s.piece :: s.more)

def pair (s : Section) : String × String :=
  (String.ofList s.name, String.ofList s.value)

/-- No space is in front of the first piece or behind the last one. -/
def IsFlush (s : Section) : Prop :=
  s.more = [] ∨ s.piece ≠ [] ∧ ∀ p ∈ s.more.getLast?, p ≠ []

instance (s : Section) : Decidable s.IsFlush :=
  inferInstanceAs (Decidable (_ ∨ _))

/-- What is sure of a header of a block. -/
structure IsSound (s : Section) : Prop where
  named : s.name ≠ []
  trimmed : Text.IsTrimmed s.name
  noColon : ':' ∉ s.name
  piece : Text.IsTrimmed s.piece
  more : ∀ p ∈ s.more, Text.IsTrimmed p

theorem IsSound.value_iff {s : Section} (h : s.IsSound) : Text.IsTrimmed s.value ↔ s.IsFlush :=
  Text.isTrimmed_intercalate h.piece h.more

end Section

theorem header?_sound {line : List Char} {o : Open} (h : Reading.header? line = some o) :
    o.name ≠ [] ∧ Text.IsTrimmed o.name ∧ ':' ∉ o.name ∧ Text.IsTrimmed o.value := by
  unfold Reading.header? at h
  split at h
  · cases h
  · rename_i name value hcut
    split at h
    · cases h
    · rename_i hnamed
      cases h
      refine ⟨by simpa using hnamed, Text.isTrimmed_trim name, ?_, Text.isTrimmed_trim value⟩
      exact fun hc => (Text.cut?_eq_some_iff.1 hcut).2 (Text.trim_subset name hc)

theorem sections_sound {lines : List (List Char)} : ∀ s ∈ sections lines, s.IsSound := by
  induction lines with
  | nil => exact fun s hs => absurd hs List.not_mem_nil
  | cons line rest ih =>
    rw [sections]
    split
    · rename_i o hstarts
      intro s hs
      rcases List.mem_cons.1 hs with rfl | hs
      · have hheader : Reading.header? line = some o := by
          unfold starts? at hstarts
          split at hstarts
          · cases hstarts
          · exact hstarts
        obtain ⟨hnamed, hname, hcolon, hvalue⟩ := header?_sound hheader
        refine ⟨hnamed, hname, hcolon, hvalue, ?_⟩
        intro p hp
        obtain ⟨fold, -, rfl⟩ := List.mem_map.1 hp
        exact Text.isTrimmed_trim fold
      · exact ih s hs
    · exact ih

/-! ## Reading sections -/

theorem close_foldl_fold (more : List (List Char)) (done : Headers) (name value : List Char) :
    (more.foldl Reading.fold ⟨done, some ⟨name, value⟩⟩).close =
      done.add (String.ofList name)
        (String.ofList ([' '].intercalate (value :: more.map Text.trim))) := by
  induction more generalizing value with
  | nil => simp [Reading.close]
  | cons line more ih =>
    rw [List.foldl_cons, Reading.fold, Option.map_some, ih, intercalate_fold, List.map_cons]

theorem close_foldl_fold_none (more : List (List Char)) (done : Headers) :
    (more.foldl Reading.fold ⟨done, none⟩).close = done := by
  induction more with
  | nil => rfl
  | cons line more ih => exact ih

theorem close_foldl_sections (lines : List (List Char)) (r : Reading) :
    (lines.foldl Reading.line r).close =
      ((sections lines).map Section.pair).foldl (fun h pair => h.add pair.1 pair.2)
        ((folds lines).foldl Reading.fold r).close := by
  induction lines generalizing r with
  | nil => rfl
  | cons line rest ih =>
    rw [List.foldl_cons, ih]
    cases line with
    | nil => rfl
    | cons c cs =>
      by_cases hc : IsIndent c
      · have hfold : isFold (c :: cs) = true := decide_eq_true hc
        have hline : r.line (c :: cs) = r.fold (c :: cs) := if_pos hc
        have hfolds : folds ((c :: cs) :: rest) = (c :: cs) :: folds rest := by
          simp [folds, hfold]
        rw [hline, hfolds, List.foldl_cons, sections, starts?, if_pos hfold]
      · -- the header before this line ends, so nothing that follows goes on with it
        have hfold : isFold (c :: cs) = false := decide_eq_false hc
        have hline : r.line (c :: cs) = ⟨r.close, Reading.header? (c :: cs)⟩ := if_neg hc
        have hfolds : folds ((c :: cs) :: rest) = [] := by
          simp [folds, hfold]
        have hstarts : starts? (c :: cs) = Reading.header? (c :: cs) :=
          if_neg (by rw [hfold]; exact Bool.false_ne_true)
        rw [hline, hfolds, List.foldl_nil, sections, hstarts]
        cases Reading.header? (c :: cs) with
        | none => rw [close_foldl_fold_none]
        | some o => rw [close_foldl_fold, List.map_cons, List.foldl_cons]; rfl

theorem ofBlock_eq_sections (block : Bytes) :
    ofBlock block = ofList ((sections (blockLines block)).map Section.pair) := by
  unfold ofBlock ofText
  rw [close_foldl_sections, close_foldl_fold_none]
  rfl

/-! ## What is in a multimap -/

/-- What holds of all names and values added holds of those in the multimap. -/
def All (name value : String → Prop) (h : Headers) : Prop :=
  ∀ e ∈ h.entries, name e.name ∧ ∀ v ∈ e.values, value v

variable {P Q : String → Prop}

theorem All.add {h : Headers} (hall : h.All P Q) {name value : String} (hname : P name)
    (hvalue : Q value) : (h.add name value).All P Q := by
  obtain ⟨entries⟩ := h
  show ∀ e ∈ addTo name value entries, P e.name ∧ ∀ v ∈ e.values, Q v
  induction entries with
  | nil => simp [addTo, hname, hvalue]
  | cons e es ih =>
    obtain ⟨⟨hown, hvalues⟩, hrest⟩ := List.forall_mem_cons.1 hall
    rw [addTo]
    split
    · refine List.forall_mem_cons.2 ⟨⟨hown, ?_⟩, hrest⟩
      intro v hv
      rcases List.mem_append.1 hv with hv | hv
      · exact hvalues v hv
      · rwa [List.mem_singleton.1 hv]
    · exact List.forall_mem_cons.2 ⟨⟨hown, hvalues⟩, ih hrest⟩

theorem all_ofList {pairs : List (String × String)} (h : ∀ pair ∈ pairs, P pair.1 ∧ Q pair.2) :
    (ofList pairs).All P Q := by
  have hfold : ∀ done : Headers, done.All P Q →
      (pairs.foldl (fun h pair => h.add pair.1 pair.2) done).All P Q := by
    induction pairs with
    | nil => exact fun _ hdone => hdone
    | cons pair pairs ih =>
      obtain ⟨⟨hname, hvalue⟩, hrest⟩ := List.forall_mem_cons.1 h
      exact fun done hdone => ih hrest _ (hdone.add hname hvalue)
  exact hfold {} fun _ he => absurd he List.not_mem_nil

/-- Whatever a block holds, the names are trimmed, and so is a value unless it goes over several lines
and the first or the last of them has nothing of it. -/
theorem ofBlock_trimmed (block : Bytes) :
    ofBlock block = ofList ((sections (blockLines block)).map Section.pair) ∧
    (∀ name ∈ (ofBlock block).names,
      name ≠ "" ∧ Text.IsTrimmed name.toList ∧ ':' ∉ name.toList) ∧
    ∀ pair ∈ (ofBlock block).toList, ∃ s ∈ sections (blockLines block),
      pair.2 = String.ofList s.value ∧ (Text.IsTrimmed pair.2.toList ↔ s.IsFlush) := by
  have hall : (ofBlock block).All
      (fun name => name ≠ "" ∧ Text.IsTrimmed name.toList ∧ ':' ∉ name.toList)
      (fun value => ∃ s ∈ sections (blockLines block), value = String.ofList s.value) := by
    rw [ofBlock_eq_sections]
    apply all_ofList
    intro pair hpair
    obtain ⟨s, hs, rfl⟩ := List.mem_map.1 hpair
    have hsound := sections_sound s hs
    refine ⟨⟨?_, ?_, ?_⟩, s, hs, rfl⟩
    · intro hempty
      exact hsound.named (String.ofList_eq_empty_iff.1 hempty)
    · simpa [Section.pair] using hsound.trimmed
    · simpa [Section.pair] using hsound.noColon
  refine ⟨ofBlock_eq_sections block, ?_, ?_⟩
  · intro name hname
    obtain ⟨e, he, rfl⟩ := List.mem_map.1 hname
    exact (hall e he).1
  · intro pair hpair
    obtain ⟨e, he, hvalue⟩ := List.mem_flatMap.1 hpair
    obtain ⟨v, hv, rfl⟩ := List.mem_map.1 hvalue
    obtain ⟨s, hs, heq⟩ := (hall e he).2 v hv
    refine ⟨s, hs, heq, ?_⟩
    rw [show (e.name, v).2 = v from rfl, heq, String.toList_ofList]
    exact (sections_sound s hs).value_iff

/-- The blank is the one between two pieces, the first or the second of them empty. -/
theorem folded_value_untrimmed :
    (ofBlock (Utf8.encode "A:\r\n x\r\n")).toList = [("A", " x")] ∧
      ¬ Text.IsTrimmed " x".toList ∧
    (ofBlock (Utf8.encode "A: x\r\n \r\n")).toList = [("A", "x ")] ∧
      ¬ Text.IsTrimmed "x ".toList := by
  decide +kernel

end Headers

end FormData
