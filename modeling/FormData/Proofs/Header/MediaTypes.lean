/-
What a part says of being a set of files: it is one if it belongs to a field and the leading token of its
content type is `multipart/mixed` (`Headers.IsSet`). It is taken for one already if that token begins so
(`Headers.ResemblesSet`), since the content type is only looked at from its front, with its blanks off
(`prefix_trimStart_iff`). The difference is the media types that go on from there
(`Headers.resemblesSet_iff`).
-/
import FormData.Proofs.Header.Parameters
import FormData.Proofs.Header.Trimmed

namespace FormData

/-! ## Fronts of texts -/

/-- What comes right behind a text does not matter to what begins with it, if it is no part of that. -/
theorem prefix_append_iff {α : Type} {word behind : List α} (front : List α)
    (h : ∀ c ∈ behind.head?, c ∉ word) :
    word <+: front ++ behind ↔ word <+: front := by
  constructor
  · intro hword
    rcases Nat.le_total word.length front.length with hle | hle
    · exact List.prefix_of_prefix_length_le hword (List.prefix_append front behind) hle
    · -- the word would reach past the text, and so have in it what comes first there
      obtain ⟨more, rfl⟩ := List.prefix_of_prefix_length_le (List.prefix_append front behind) hword hle
      cases more with
      | nil => simp
      | cons c cs =>
        obtain ⟨rest, hrest⟩ := (List.prefix_append_right_inj front).1 hword
        have hfirst : c ∈ behind.head? := by
          rw [← hrest]
          rfl
        exact absurd (List.mem_append_right front List.mem_cons_self) (h c hfirst)
  · exact fun hword => hword.trans (List.prefix_append front behind)

namespace Text

/-- What is left behind a trimmed text are its last blanks. -/
theorem trimStart_eq (cs : List Char) :
    ∃ blanks, trimStart cs = trim cs ++ blanks ∧ ∀ c ∈ blanks, isBlank c = true := by
  refine ⟨((trimStart cs).reverse.takeWhile isBlank).reverse, ?_, ?_⟩
  · rw [trim, trimEnd, ← List.reverse_append, List.takeWhile_append_dropWhile, List.reverse_reverse]
  · intro c hc
    exact List.all_eq_true.1 List.all_takeWhile c (List.mem_reverse.1 hc)

/-- Blanks are taken off a text up to its first other character, whatever comes behind it. -/
theorem trimStart_append {cs : List Char} (h : trim cs ≠ []) (rest : List Char) :
    trimStart (cs ++ rest) = trimStart cs ++ rest := by
  have hsome : (cs.dropWhile isBlank).isEmpty = false := by
    rw [List.isEmpty_eq_false_iff]
    intro hnil
    apply h
    rw [trim, trimStart, hnil]
    rfl
  rw [trimStart, List.dropWhile_append, hsome]
  rfl

/-- A text that comes to nothing when trimmed is blank. -/
theorem trimStart_of_trim_nil {cs : List Char} (h : trim cs = []) (rest : List Char) :
    trimStart (cs ++ rest) = trimStart rest := by
  obtain ⟨blanks, hblanks, hall⟩ := trimStart_eq cs
  rw [h, List.nil_append] at hblanks
  have hcs : ∀ c ∈ cs, isBlank c = true := by
    intro c hc
    rw [← List.takeWhile_append_dropWhile (p := isBlank) (l := cs)] at hc
    rcases List.mem_append.1 hc with hfront | hback
    · exact List.all_eq_true.1 List.all_takeWhile c hfront
    · exact hall c (hblanks ▸ hback)
  exact List.dropWhile_append_of_pos hcs

end Text

/-! ## Leading tokens -/

namespace Parameters

/-- The first stretch is the front of the text, up to the end or a semicolon. -/
theorem segments_front (inQuotes escaped : Bool) (text : List Char) :
    ∃ front behind ss, segments inQuotes escaped text = front :: ss ∧ text = front ++ behind ∧
      ∀ c ∈ behind.head?, c = ';' := by
  induction text generalizing inQuotes escaped with
  | nil => exact ⟨[], [], [], rfl, rfl, nofun⟩
  | cons c cs ih =>
    by_cases hends : c = ';' ∧ inQuotes = false
    · refine ⟨[], c :: cs, segments false false cs, ?_, rfl, ?_⟩
      · rw [segments, if_pos hends]
      · rintro _ ⟨⟩
        exact hends.1
    · have hgoes : c ≠ ';' ∨ inQuotes = true := by
        rcases Decidable.not_and_iff_or_not.1 hends with hc | hin
        · exact .inl hc
        · exact .inr (Bool.not_eq_false _ ▸ hin)
      obtain ⟨front, behind, ss, hseg, htext, hhead⟩ :=
        ih (if c = '"' ∧ escaped = false then !inQuotes else inQuotes) (!escaped && c == '\\')
      refine ⟨c :: front, behind, ss, ?_, ?_, hhead⟩
      · rw [segments_cons hgoes, hseg]
        rfl
      · rw [htext]
        rfl

/-- A word of plain characters begins a value, with its blanks off, exactly if it begins the leading
token. -/
theorem prefix_trimStart_iff {word : List Char}
    (hplain : ∀ c ∈ word, Text.isBlank c = false ∧ c ≠ ';') (value : String) :
    word <+: Text.lower (Text.trimStart value.toList) ↔
      word <+: Text.lower (parse value).main.toList := by
  obtain ⟨front, behind, ss, hseg, htext, hhead⟩ := segments_front false false value.toList
  have hmain : (parse value).main.toList = Text.trim front := by
    rw [parse, hseg, ofSegments, String.toList_ofList]
  have hsemi : Text.isBlank ';' = false := by decide
  rw [hmain, htext]
  by_cases hnil : Text.trim front = []
  · -- with nothing in the leading token, the first character is a semicolon, if there is one
    have hstart : Text.trimStart behind = behind := by
      refine Text.dropWhile_isBlank fun c hc => ?_
      rw [hhead c hc]
      exact hsemi
    rw [Text.trimStart_of_trim_nil hnil, hstart, hnil]
    have hbehind : ∀ c ∈ (Text.lower behind).head?, c ∉ word := by
      intro c hc hmem
      rw [Text.lower, List.head?_map] at hc
      obtain ⟨d, hd, rfl⟩ := Option.map_eq_some_iff.1 (Option.mem_def.1 hc)
      rw [hhead d hd] at hmem
      exact (hplain _ hmem).2 rfl
    exact prefix_append_iff [] hbehind
  · obtain ⟨blanks, hblanks, hall⟩ := Text.trimStart_eq front
    rw [Text.trimStart_append hnil, hblanks, List.append_assoc]
    simp only [Text.lower, List.map_append]
    rw [← List.map_append]
    refine prefix_append_iff _ fun c hc hmem => ?_
    rw [List.head?_map] at hc
    obtain ⟨d, hd, rfl⟩ := Option.map_eq_some_iff.1 (Option.mem_def.1 hc)
    rw [List.head?_append] at hd
    rcases Option.or_eq_some_iff.1 hd with hblank | ⟨-, hother⟩
    · have hd : Text.isBlank d = true := hall d (List.mem_of_head? hblank)
      rw [Text.toLower_of_isBlank hd] at hmem
      cases hd.symm.trans (hplain d hmem).1
    · rw [hhead d hother] at hmem
      exact (hplain _ hmem).2 rfl

end Parameters

/-! ## Sets by their headers -/

namespace Headers

/-- The part of a field whose media type is that of sets. -/
structure IsSet (headers : Headers) : Prop where
  field : headers.fieldName?.isSome
  type : ∃ contentType, headers.contentType? = some contentType ∧
    Text.sameName (Parameters.parse contentType).main "multipart/mixed"

/-- The part of a field whose media type begins with that of sets. -/
structure ResemblesSet (headers : Headers) : Prop where
  field : headers.fieldName?.isSome
  type : ∃ contentType, headers.contentType? = some contentType ∧
    "multipart/mixed".toList <+: Text.lower (Parameters.parse contentType).main.toList

/-- The part of a field whose media type goes on behind that of sets. -/
structure OutgrowsSet (headers : Headers) : Prop where
  field : headers.fieldName?.isSome
  type : ∃ contentType more, headers.contentType? = some contentType ∧ more ≠ [] ∧
    Text.lower (Parameters.parse contentType).main.toList = "multipart/mixed".toList ++ more

variable {headers : Headers}

instance : Decidable headers.IsSet :=
  decidable_of_iff (headers.fieldName?.isSome ∧ headers.contentType?.any fun contentType =>
      Text.sameName (Parameters.parse contentType).main "multipart/mixed")
    ⟨fun ⟨hfield, htype⟩ => ⟨hfield, by simpa [Option.any_eq_true] using htype⟩,
      fun h => ⟨h.field, by simpa [Option.any_eq_true] using h.type⟩⟩

instance : Decidable headers.ResemblesSet :=
  decidable_of_iff (headers.fieldName?.isSome ∧ headers.contentType?.any fun contentType =>
      "multipart/mixed".toList.isPrefixOf (Text.lower (Parameters.parse contentType).main.toList))
    ⟨fun ⟨hfield, htype⟩ => ⟨hfield, by simpa [Option.any_eq_true] using htype⟩,
      fun h => ⟨h.field, by simpa [Option.any_eq_true] using h.type⟩⟩

theorem sameName_mixed_iff (token : String) :
    Text.sameName token "multipart/mixed" ↔ Text.lower token.toList = "multipart/mixed".toList := by
  have hlower : Text.lower "multipart/mixed".toList = "multipart/mixed".toList := by decide
  rw [Text.sameName, beq_iff_eq, hlower]

theorem resemblesSet_iff : headers.ResemblesSet ↔ headers.IsSet ∨ headers.OutgrowsSet := by
  constructor
  · rintro ⟨hfield, contentType, htype, more, hmore⟩
    cases more with
    | nil =>
      rw [List.append_nil] at hmore
      exact .inl ⟨hfield, contentType, htype, (sameName_mixed_iff _).2 hmore.symm⟩
    | cons c cs => exact .inr ⟨hfield, contentType, c :: cs, htype, List.cons_ne_nil c cs, hmore.symm⟩
  · rintro (⟨hfield, contentType, htype, hname⟩ | ⟨hfield, contentType, more, htype, -, hmore⟩)
    · exact ⟨hfield, contentType, htype, (sameName_mixed_iff _).1 hname ▸ List.prefix_rfl⟩
    · exact ⟨hfield, contentType, htype, more, hmore.symm⟩

theorem IsSet.not_outgrowsSet (h : headers.IsSet) : ¬ headers.OutgrowsSet := by
  rintro ⟨-, contentType, more, htype, hne, hmore⟩
  obtain ⟨_, htype', hname⟩ := h.type
  cases htype.symm.trans htype'
  rw [(sameName_mixed_iff _).1 hname] at hmore
  exact hne (List.append_right_eq_self.1 hmore.symm)

end Headers

namespace Session

variable {headers : Headers} {contentType field : String}

theorem mixed_prefix_iff (contentType : String) :
    "multipart/mixed".toList.isPrefixOf (Text.lower (Text.trimStart contentType.toList)) = true ↔
      "multipart/mixed".toList <+: Text.lower (Parameters.parse contentType).main.toList := by
  have hall : "multipart/mixed".toList.all (fun c => !Text.isBlank c && c != ';') = true := by decide
  have hplain : ∀ c ∈ "multipart/mixed".toList, Text.isBlank c = false ∧ c ≠ ';' := by
    intro c hc
    simpa using List.all_eq_true.1 hall c hc
  rw [List.isPrefixOf_iff_prefix]
  exact Parameters.prefix_trimStart_iff hplain contentType

/-- A part that holds no set does not look like one. -/
theorem setOf_eq_none_iff : setOf headers = .ok none ↔ ¬ headers.ResemblesSet := by
  unfold setOf
  constructor
  · rintro h ⟨hfield, contentType, htype, hbegins⟩
    obtain ⟨field, hfield⟩ := Option.isSome_iff_exists.1 hfield
    rw [htype] at h
    simp only [(mixed_prefix_iff contentType).2 hbegins, if_true, hfield] at h
    split at h <;> cases h
  · intro h
    split
    · rfl
    · rename_i contentType htype
      split
      · rename_i hbegins
        split
        · rfl
        · rename_i field hfield
          have hresembles : headers.ResemblesSet := {
            field := by rw [hfield]; rfl
            type := ⟨contentType, htype, (mixed_prefix_iff contentType).1 hbegins⟩ }
          exact absurd hresembles h
      · rfl

/-- A part that looks like a set holds that which its content type names a boundary of. -/
theorem setOf_resembling (hfield : headers.fieldName? = some field)
    (htype : headers.contentType? = some contentType)
    (hbegins : "multipart/mixed".toList <+: Text.lower (Parameters.parse contentType).main.toList) :
    setOf headers = match boundaryOf contentType with
      | .ok inner => .ok (some (field, inner))
      | .error _ => .error (.malformed (.setWithoutBoundary field)) := by
  unfold setOf
  rcases hbound : boundaryOf contentType with fault | inner <;>
    simp only [htype, (mixed_prefix_iff contentType).2 hbegins, if_true, hfield, hbound]

end Session

end FormData
