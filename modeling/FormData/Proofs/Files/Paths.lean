/-
The steps that texts spell as paths. A path joined to a directory takes the steps of the directory and
then its own (`steps_join`); the directory above a path takes the first of its steps
(`parent_steps`). The output name of an upload takes one step down for each of its names and no other
(`OutputName.steps_ofFileName?`), since names are all that is left of it.
-/
import FormData.CommandLine.OutputName
import FormData.Files.Path

namespace FormData

/-! ## Pieces of a text -/

namespace Text

variable {separator : Char}

theorem pieces_ne_nil (cs : List Char) : pieces separator cs ≠ [] := by
  cases cs with
  | nil => nofun
  | cons c cs =>
    rw [pieces]
    split
    · nofun
    · split <;> nofun

/-- Two texts with a separator between them have the pieces of both. -/
theorem pieces_between (before after : List Char) :
    pieces separator (before ++ separator :: after) =
      pieces separator before ++ pieces separator after := by
  induction before with
  | nil => simp [pieces]
  | cons c cs ih =>
    rw [List.cons_append, pieces, pieces]
    by_cases hc : c = separator
    · rw [if_pos hc, if_pos hc, ih, List.cons_append]
    · rw [if_neg hc, if_neg hc, ih]
      rcases hp : pieces separator cs with _ | ⟨p, ps⟩
      · exact absurd hp (pieces_ne_nil cs)
      · rfl

theorem pieces_plain {cs : List Char} (h : separator ∉ cs) : pieces separator cs = [cs] := by
  induction cs with
  | nil => rfl
  | cons c cs ih =>
    rw [List.mem_cons, not_or] at h
    rw [pieces, if_neg (Ne.symm h.1), ih h.2]

/-- No piece holds a separator. -/
theorem notMem_of_mem_pieces {cs piece : List Char} (h : piece ∈ pieces separator cs) :
    separator ∉ piece := by
  induction cs generalizing piece with
  | nil =>
    rw [pieces, List.mem_singleton] at h
    rw [h]
    exact List.not_mem_nil
  | cons c cs ih =>
    rw [pieces] at h
    by_cases hc : c = separator
    · rw [if_pos hc] at h
      rcases List.mem_cons.1 h with rfl | h
      · exact List.not_mem_nil
      · exact ih h
    · rw [if_neg hc] at h
      rcases hp : pieces separator cs with _ | ⟨p, ps⟩
      · exact absurd hp (pieces_ne_nil cs)
      · rw [hp] at h ih
        rcases List.mem_cons.1 h with rfl | h
        · rw [List.mem_cons, not_or]
          exact ⟨Ne.symm hc, ih List.mem_cons_self⟩
        · exact ih (List.mem_cons_of_mem _ h)

/-- Plain texts set apart by a separator are the pieces of the whole. -/
theorem pieces_intercalate {texts : List (List Char)} (hne : texts ≠ [])
    (h : ∀ text ∈ texts, separator ∉ text) :
    pieces separator ([separator].intercalate texts) = texts := by
  induction texts with
  | nil => exact absurd rfl hne
  | cons text texts ih =>
    have htext := pieces_plain (h text List.mem_cons_self)
    cases texts with
    | nil => simpa [List.intercalate] using htext
    | cons next texts =>
      have hrest := ih nofun fun t ht => h t (List.mem_cons_of_mem _ ht)
      have hjoin : [separator].intercalate (text :: next :: texts) =
          text ++ separator :: [separator].intercalate (next :: texts) := by
        simp [List.intercalate, List.intersperse]
      rw [hjoin, pieces_between, htext, hrest, List.singleton_append]

end Text

namespace Path

/-! ## Steps of a spelling -/

/-- The steps of pieces, empty ones being none. -/
def stepsOf (pieces : List String) : List Step :=
  (pieces.filter (!·.isEmpty)).map Step.ofText

theorem steps_eq (p : Path) : p.steps = stepsOf p.pieces := rfl

theorem stepsOf_append (ps qs : List String) : stepsOf (ps ++ qs) = stepsOf ps ++ stepsOf qs := by
  simp [stepsOf]

theorem stepsOf_cons_empty (ps : List String) : stepsOf ("" :: ps) = stepsOf ps := by
  simp [stepsOf]

/-- A slash in front of the whole does not count as a step. -/
theorem steps_ofText (text : String) :
    (ofText text).steps = stepsOf ((Text.pieces '/' text.toList).map String.ofList) := by
  unfold ofText
  split
  · rename_i cs hcs
    rw [hcs, Text.pieces, if_pos rfl, List.map_cons, steps_eq]
    exact (stepsOf_cons_empty _).symm
  · rfl

theorem isAbsolute_ofText (text : String) :
    (ofText text).isAbsolute = decide (text.toList.head? = some '/') := by
  unfold ofText
  rcases htext : text.toList with _ | ⟨c, cs⟩
  · rfl
  · by_cases hc : c = '/'
    · subst hc
      rfl
    · rw [List.head?_cons, decide_eq_false (by simpa using hc)]
      split
      · rename_i h
        cases h
        exact absurd rfl hc
      · rfl

theorem ofText_relative {text : String} (h : text.toList.head? ≠ some '/') :
    ofText text = ⟨false, (Text.pieces '/' text.toList).map String.ofList⟩ := by
  unfold ofText
  split
  · rename_i cs hcs
    rw [hcs] at h
    exact absurd rfl h
  · rfl

theorem stepsOf_between (before after : List Char) :
    stepsOf ((Text.pieces '/' (before ++ '/' :: after)).map String.ofList) =
      stepsOf ((Text.pieces '/' before).map String.ofList) ++
        stepsOf ((Text.pieces '/' after).map String.ofList) := by
  rw [Text.pieces_between, List.map_append, stepsOf_append]

/-- A relative name joined to a directory: where it starts from, and its steps. -/
theorem steps_join {directory name : String} (h : name.toList.head? ≠ some '/') :
    (ofText (join directory name)).isAbsolute = (ofText directory).isAbsolute ∧
      (ofText (join directory name)).steps = (ofText directory).steps ++ (ofText name).steps := by
  rcases hd : directory.toList with _ | ⟨c, cs⟩
  · have hempty : directory = "" := String.toList_eq_nil_iff.1 hd
    have hjoin : join directory name = name := by
      unfold join
      rw [if_pos (by simp [hempty])]
    rw [hjoin, hempty]
    refine ⟨?_, rfl⟩
    rw [isAbsolute_ofText, decide_eq_false h]
    rfl
  · have hne : ¬ (name.toList.head? = some '/' || directory.isEmpty) := by
      have : directory ≠ "" := by
        rintro rfl
        cases hd
      simp [h, this]
    have hhead : ∀ rest, (directory.toList ++ rest).head? = directory.toList.head? := by
      intro rest
      rw [hd]
      rfl
    rw [join, if_neg hne]
    by_cases hslash : directory.toList.getLast? = some '/'
    · rw [if_pos hslash]
      obtain ⟨front, hfront⟩ := List.getLast?_eq_some_iff.1 hslash
      refine ⟨?_, ?_⟩
      · rw [isAbsolute_ofText, isAbsolute_ofText, String.toList_append, hhead]
      · rw [steps_ofText, steps_ofText, steps_ofText, String.toList_append, hfront,
          List.append_assoc, List.singleton_append, stepsOf_between, stepsOf_between]
        simp [Text.pieces, stepsOf]
    · rw [if_neg hslash]
      have htext : (directory ++ "/" ++ name).toList = directory.toList ++ '/' :: name.toList := by
        simp
      refine ⟨?_, ?_⟩
      · rw [isAbsolute_ofText, isAbsolute_ofText, htext, hhead]
      · rw [steps_ofText, steps_ofText, steps_ofText, htext, stepsOf_between]

/-- A name below a directory is a path if there is room for it. -/
theorem read_join {directory name : String} (h : read directory = .ok (ofText directory))
    (hname : name ≠ "") (hnul : '\x00' ∉ name.toList)
    (hlength : (join directory name).utf8ByteSize ≤ maxLength) :
    read (join directory name) = .ok (ofText (join directory name)) := by
  have hdirectory : '\x00' ∉ directory.toList := by
    intro hmem
    unfold read at h
    rw [if_pos (by simpa using hmem)] at h
    cases h
  have hjoin : '\x00' ∉ (join directory name).toList := by
    unfold join
    split
    · exact hnul
    · split <;> simp [hdirectory, hnul]
  have hne : join directory name ≠ "" := by
    unfold join
    split
    · exact hname
    · split <;> simp [hname]
  unfold read
  rw [if_neg (by simpa using hjoin), if_neg (by simpa using hne), if_neg (Nat.not_lt.2 hlength)]

/-! ## The directory above -/

theorem prefix_trimIdle (pieces : List String) : trimIdle pieces <+: pieces := by
  have h := List.reverse_prefix.2 (List.dropWhile_suffix isIdle (l := pieces.reverse))
  rwa [List.reverse_reverse] at h

theorem stepsOf_prefix {ps qs : List String} (h : ps <+: qs) : stepsOf ps <+: stepsOf qs := by
  obtain ⟨rest, rfl⟩ := h
  rw [stepsOf_append]
  exact List.prefix_append _ _

/-- What is left without idle pieces at the end is nothing, or ends in a piece that leads somewhere. -/
theorem trimIdle_cases (pieces : List String) :
    trimIdle pieces = [] ∨ ∃ front piece, trimIdle pieces = front ++ [piece] ∧ piece.isEmpty = false := by
  unfold trimIdle
  rcases hd : pieces.reverse.dropWhile isIdle with _ | ⟨piece, rest⟩
  · exact .inl rfl
  · refine .inr ⟨rest.reverse, piece, List.reverse_cons, ?_⟩
    have hidle : isIdle piece = false := by
      have h := List.head_dropWhile_not isIdle (l := pieces.reverse) (by rw [hd]; nofun)
      simpa [hd] using h
    unfold isIdle at hidle
    simp only [Bool.or_eq_false_iff] at hidle
    exact hidle.1

theorem stepsOf_above (pieces : List String) : stepsOf (above pieces) <+: (stepsOf pieces).dropLast := by
  have habove : stepsOf (above pieces) <+: stepsOf (trimIdle pieces).dropLast :=
    stepsOf_prefix (prefix_trimIdle _)
  refine habove.trans ?_
  obtain hnil | ⟨front, piece, htrim, hpiece⟩ := trimIdle_cases pieces
  · rw [hnil]
    exact List.nil_prefix
  · obtain ⟨rest, hrest⟩ := prefix_trimIdle pieces
    have hstep : stepsOf [piece] = [Step.ofText piece] := by
      simp [stepsOf, hpiece]
    rw [htrim, List.dropLast_concat, ← hrest, htrim, stepsOf_append, stepsOf_append, hstep,
      List.append_assoc, List.dropLast_append_of_ne_nil (by simp)]
    exact List.prefix_append _ _

theorem parent_isAbsolute (p : Path) : p.parent.isAbsolute = p.isAbsolute := by
  unfold parent
  split
  · rfl
  · split <;> rfl

theorem parent_steps_prefix (p : Path) : p.parent.steps <+: p.steps := by
  unfold parent
  split
  · exact List.prefix_refl _
  · rename_i first rest hp
    split
    · have habove := (stepsOf_above rest).trans (List.dropLast_prefix _)
      rw [steps_eq, steps_eq, hp, ← List.singleton_append, ← List.singleton_append (l := rest),
        stepsOf_append, stepsOf_append]
      exact (List.prefix_append_right_inj _).2 habove
    · rw [steps_eq, steps_eq, hp]
      exact (stepsOf_above _).trans (List.dropLast_prefix _)

/-- Above a path that ends in a name, no more steps are taken than the path takes before it. -/
theorem parent_steps {p : Path} {front : List Step} {name : String}
    (h : p.steps = front ++ [.name name]) : p.parent.steps <+: front := by
  unfold parent
  split
  · rename_i hp
    rw [steps_eq, hp] at h
    exact absurd h.symm (by simp [stepsOf])
  · rename_i first rest hp
    rw [steps_eq, hp] at h
    split
    · rename_i hfirst
      have hstay : stepsOf [first] = [.stay] := by
        rw [hfirst.2]
        decide
      rw [← List.singleton_append, stepsOf_append, hstay] at h
      rw [steps_eq, ← List.singleton_append, stepsOf_append, hstay]
      -- the path stays first, so its name is among the steps of the other pieces
      rcases List.eq_nil_or_concat (stepsOf rest) with hnil | ⟨steps, step, hconcat⟩
      · rw [hnil, List.append_nil] at h
        have hlast := congrArg List.getLast? h
        simp at hlast
      · rw [List.concat_eq_append] at hconcat
        have hsteps := stepsOf_above rest
        rw [hconcat, ← List.append_assoc] at h
        rw [hconcat, List.dropLast_concat] at hsteps
        obtain ⟨hfront, -⟩ := List.append_inj' h rfl
        rw [← hfront]
        exact (List.prefix_append_right_inj _).2 hsteps
    · have hsteps := stepsOf_above (first :: rest)
      rw [h, List.dropLast_concat] at hsteps
      exact hsteps

end Path

/-! ## Output names -/

namespace OutputName

/-- A name that a directory can hold: not empty, not a dot or two, and without a slash. -/
def IsNormal (name : String) : Prop :=
  isPlain name.toList = true ∧ '/' ∉ name.toList

theorem mem_plainPieces {fileName piece : List Char} (h : piece ∈ plainPieces fileName) :
    isPlain piece = true ∧ '/' ∉ piece := by
  unfold plainPieces at h
  obtain ⟨hmem, hplain⟩ := List.mem_filter.1 h
  exact ⟨hplain, Text.notMem_of_mem_pieces hmem⟩

/-- A route has at least one name, and all its names are normal. -/
theorem route?_normal {fileName : String} {junkPaths : Bool} {names : List String}
    (h : route? fileName junkPaths = some names) : names ≠ [] ∧ ∀ name ∈ names, IsNormal name := by
  have hkept : ∀ piece ∈ if junkPaths then (plainPieces fileName.toList).getLast?.toList
      else plainPieces fileName.toList, isPlain piece = true ∧ '/' ∉ piece := by
    intro piece hpiece
    split at hpiece
    · rw [Option.mem_toList] at hpiece
      exact mem_plainPieces (List.mem_of_getLast? hpiece)
    · exact mem_plainPieces hpiece
  unfold route? at h
  simp only at h
  split at h
  · cases h
  · rename_i route hne
    cases h
    refine ⟨by simpa using hne, fun name hname => ?_⟩
    obtain ⟨piece, hpiece, rfl⟩ := List.mem_map.1 hname
    unfold IsNormal
    rw [String.toList_ofList]
    exact hkept piece hpiece

theorem IsNormal.ofText {name : String} (h : IsNormal name) :
    name.isEmpty = false ∧ Path.Step.ofText name = .name name := by
  obtain ⟨hplain, -⟩ := h
  unfold isPlain at hplain
  simp only [Bool.not_eq_true', Bool.or_eq_false_iff, List.isEmpty_eq_false_iff,
    beq_eq_false_iff_ne, ne_eq] at hplain
  obtain ⟨⟨hempty, hdot⟩, hdots⟩ := hplain
  refine ⟨?_, ?_⟩
  · rw [Bool.eq_false_iff]
    intro h
    rw [String.isEmpty_iff] at h
    rw [h] at hempty
    exact hempty rfl
  · unfold Path.Step.ofText
    rw [if_neg, if_neg]
    · rintro rfl
      exact hdots rfl
    · rintro rfl
      exact hdot rfl

/-- Between its slashes an output name has the names of its route, and nothing else. -/
theorem pieces_route {fileName : String} {junkPaths : Bool} {names : List String}
    (h : route? fileName junkPaths = some names) :
    Text.pieces '/' (String.intercalate "/" names).toList = names.map String.toList := by
  obtain ⟨hne, hnormal⟩ := route?_normal h
  rw [String.toList_intercalate]
  refine Text.pieces_intercalate (by simpa using hne) ?_
  intro text htext
  obtain ⟨name, hname, rfl⟩ := List.mem_map.1 htext
  exact (hnormal name hname).2

/-- It is a relative path. -/
theorem head?_route {fileName : String} {junkPaths : Bool} {names : List String}
    (h : route? fileName junkPaths = some names) :
    (String.intercalate "/" names).toList.head? ≠ some '/' := by
  intro hhead
  -- a slash in front would be an empty first name
  have hpieces := pieces_route h
  obtain ⟨cs, hcs⟩ := List.head?_eq_some_iff.1 hhead
  rw [hcs, Text.pieces, if_pos rfl] at hpieces
  rcases names with _ | ⟨name, names⟩
  · cases hpieces
  · have hname := ((route?_normal h).2 name List.mem_cons_self).ofText.1
    have hnil : name.toList = [] := (List.cons.inj hpieces).1.symm
    rw [String.toList_eq_nil_iff.1 hnil] at hname
    cases hname

/-- The output name of an upload is relative, and takes one step down for each name of its route. -/
theorem steps_ofFileName? {fileName relative : String} {junkPaths : Bool}
    (h : ofFileName? fileName junkPaths = some relative) :
    ∃ names, route? fileName junkPaths = some names ∧ relative.toList.head? ≠ some '/' ∧
      (Path.ofText relative).steps = names.map .name := by
  unfold ofFileName? at h
  rcases hroute : route? fileName junkPaths with _ | names <;> rw [hroute] at h <;> cases h
  have hnormal := (route?_normal hroute).2
  refine ⟨names, rfl, head?_route hroute, ?_⟩
  have hsame : names.map (String.ofList ∘ String.toList) = names := by
    simp [Function.comp_def]
  rw [Path.steps_ofText, pieces_route hroute, List.map_map, hsame, Path.stepsOf, List.filter_eq_self.2]
  · exact List.map_congr_left fun name hname => (hnormal name hname).ofText.2
  · intro name hname
    rw [(hnormal name hname).ofText.1]
    rfl

end OutputName

end FormData
