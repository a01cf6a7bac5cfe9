/-
What is left of a file name as an output name. Cut at every separator of either kind, it leaves the pieces
that name something, in their order (`OutputName.route?_eq`), so that an output name is a relative path of
just these pieces, or of the last of them. Below a directory it leads down by them, one after the other,
and taken as a file name it is kept as it is (`sanitises_fileName`).
-/
import FormData.Proofs.Files.Contents

namespace FormData

/-! ## Pieces with their characters -/

namespace Text

variable {separator : Char}

/-- The pieces have all characters between them but the separators. -/
theorem exists_mem_pieces_iff {c : Char} (hc : c ≠ separator) (cs : List Char) :
    (∃ piece ∈ pieces separator cs, c ∈ piece) ↔ c ∈ cs := by
  induction cs with
  | nil => simp [pieces]
  | cons d cs ih =>
    rw [pieces, List.mem_cons, ← ih]
    by_cases hd : d = separator
    · rw [if_pos hd]
      simp [hd, hc]
    · rw [if_neg hd]
      rcases hp : pieces separator cs with _ | ⟨p, ps⟩
      · exact absurd hp (pieces_ne_nil cs)
      · simp [or_assoc]

end Text

namespace OutputName

variable {fileName relative : String} {junkPaths : Bool} {kept : List String}

/-! ## What is kept of a name -/

/-- Senders separate the names of a path by slashes of either kind. -/
def isSeparator (c : Char) : Bool :=
  c == '/' || c == '\\'

/-- What stands between the separators of a file name and names something, in order. -/
def names (fileName : String) : List String :=
  ((fileName.toList.splitOnP isSeparator).map String.ofList).filter fun piece =>
    piece ≠ "" ∧ piece ≠ "." ∧ piece ≠ ".."

/-- Of these the output name has all, or the last one. -/
def namesKept (fileName : String) (junkPaths : Bool) : List String :=
  if junkPaths then (names fileName).getLast?.toList else names fileName

theorem namesKept_eq_nil_iff : namesKept fileName junkPaths = [] ↔ names fileName = [] := by
  unfold namesKept
  split
  · rw [Option.toList_eq_nil_iff, List.getLast?_eq_none_iff]
  · rfl

/-- Cutting at slashes after every backslash was made one is cutting at both. -/
theorem pieces_slashes (cs : List Char) :
    Text.pieces '/' (cs.map fun c => if c = '\\' then '/' else c) = cs.splitOnP isSeparator := by
  induction cs with
  | nil => rfl
  | cons c cs ih =>
    rw [List.map_cons, Text.pieces, ih, List.splitOnP_cons_eq_if_modifyHead]
    by_cases hback : c = '\\'
    · rw [if_pos hback, if_pos rfl, hback, if_pos (by decide)]
    · rw [if_neg hback]
      by_cases hslash : c = '/'
      · rw [if_pos hslash, hslash, if_pos (by decide)]
      · have hplain : ¬ isSeparator c = true := by simp [isSeparator, hback, hslash]
        rw [if_neg hslash, if_neg hplain]
        rcases hp : cs.splitOnP isSeparator with _ | ⟨p, ps⟩
        · exact absurd (ih.trans hp) (Text.pieces_ne_nil _)
        · rfl

theorem isPlain_iff (piece : List Char) :
    isPlain piece = true ↔
      String.ofList piece ≠ "" ∧ String.ofList piece ≠ "." ∧ String.ofList piece ≠ ".." := by
  have hdot : "." = String.ofList ['.'] := rfl
  have hdots : ".." = String.ofList ['.', '.'] := rfl
  rw [hdot, hdots, ne_eq, String.ofList_eq_empty_iff, ne_eq, String.ofList_inj, ne_eq,
    String.ofList_inj]
  simp [isPlain, and_assoc]

theorem map_plainPieces (fileName : String) :
    (plainPieces fileName.toList).map String.ofList = names fileName := by
  unfold plainPieces names
  rw [pieces_slashes, List.filter_map]
  congr 1
  refine List.filter_congr fun piece _ => ?_
  rw [Bool.eq_iff_iff, isPlain_iff, Function.comp_apply, decide_eq_true_iff]

/-- The route of an upload are the names that are kept, if there are any. -/
theorem route?_eq (fileName : String) (junkPaths : Bool) :
    route? fileName junkPaths =
      if namesKept fileName junkPaths = [] then none else some (namesKept fileName junkPaths) := by
  have hkept : namesKept fileName junkPaths =
      (if junkPaths then (plainPieces fileName.toList).getLast?.toList
        else plainPieces fileName.toList).map String.ofList := by
    unfold namesKept
    rw [← map_plainPieces, List.getLast?_map]
    cases junkPaths
    · rfl
    · cases (plainPieces fileName.toList).getLast? <;> rfl
  unfold route?
  simp only [hkept]
  generalize (if junkPaths then (plainPieces fileName.toList).getLast?.toList
    else plainPieces fileName.toList) = pieces
  cases pieces <;> rfl

theorem route?_eq_some_iff :
    route? fileName junkPaths = some kept ↔ namesKept fileName junkPaths = kept ∧ kept ≠ [] := by
  rw [route?_eq]
  constructor
  · intro h
    split at h <;> cases h
    rename_i hne
    exact ⟨rfl, hne⟩
  · rintro ⟨rfl, hne⟩
    rw [if_neg hne]

theorem ofFileName?_eq (fileName : String) (junkPaths : Bool) :
    ofFileName? fileName junkPaths = if namesKept fileName junkPaths = [] then none
      else some (String.intercalate "/" (namesKept fileName junkPaths)) := by
  unfold ofFileName?
  rw [route?_eq]
  split <;> rfl

/-! ## Output names as paths -/

/-- No backslash is left, for each was a separator. -/
theorem backslash_notMem {piece : List Char} (h : piece ∈ plainPieces fileName.toList) : '\\' ∉ piece := by
  intro hback
  have hmem := (Text.exists_mem_pieces_iff (by decide) _).1 ⟨piece, (List.mem_filter.1 h).1, hback⟩
  obtain ⟨c, -, hc⟩ := List.mem_map.1 hmem
  split at hc
  · cases hc
  · rename_i hplain
    exact hplain hc

theorem backslash_notMem_names {name : String} (h : name ∈ names fileName) : '\\' ∉ name.toList := by
  rw [← map_plainPieces] at h
  obtain ⟨piece, hpiece, rfl⟩ := List.mem_map.1 h
  rw [String.toList_ofList]
  exact backslash_notMem hpiece

theorem mem_names_of_mem_namesKept {name : String} (h : name ∈ namesKept fileName junkPaths) :
    name ∈ names fileName := by
  unfold namesKept at h
  split at h
  · exact List.mem_of_getLast? (Option.mem_toList.1 h)
  · exact h

/-- An output name as a path: relative, and of these names. -/
theorem ofText_route (h : route? fileName junkPaths = some kept) :
    Path.ofText (String.intercalate "/" kept) = ⟨false, kept⟩ := by
  rw [Path.ofText_relative (head?_route h), pieces_route h, List.map_map]
  simp [Function.comp_def]

theorem backslash_notMem_route (h : route? fileName junkPaths = some kept) :
    '\\' ∉ (String.intercalate "/" kept).toList := by
  intro hmem
  have hslash : '\\' ≠ '/' := by decide
  rw [← Text.exists_mem_pieces_iff hslash, pieces_route h] at hmem
  obtain ⟨_, hpiece, hback⟩ := hmem
  obtain ⟨name, hname, rfl⟩ := List.mem_map.1 hpiece
  have hkept : name ∈ namesKept fileName junkPaths := (route?_eq_some_iff.1 h).1 ▸ hname
  exact backslash_notMem_names (mem_names_of_mem_namesKept hkept) hback

/-- Taken as a file name, an output name has the same names. -/
theorem names_route (h : route? fileName junkPaths = some kept) :
    names (String.intercalate "/" kept) = kept := by
  have hslashes : (String.intercalate "/" kept).toList.map (fun c => if c = '\\' then '/' else c) =
      (String.intercalate "/" kept).toList := by
    refine (List.map_congr_left fun c hc => ?_).trans (List.map_id _)
    rw [if_neg]
    · rfl
    · rintro rfl
      exact backslash_notMem_route h hc
  have hplain : ∀ piece ∈ kept.map String.toList, isPlain piece = true := by
    intro piece hpiece
    obtain ⟨name, hname, rfl⟩ := List.mem_map.1 hpiece
    exact ((route?_normal h).2 name hname).1
  rw [← map_plainPieces, plainPieces, hslashes, pieces_route h, List.filter_eq_self.2 hplain, List.map_map]
  simp [Function.comp_def]

/-- Joined to a directory, an output name takes its steps behind those of the directory. -/
theorem steps_join_route (h : route? fileName junkPaths = some kept) (directory : String) :
    (Path.ofText (Path.join directory (String.intercalate "/" kept))).isAbsolute =
        (Path.ofText directory).isAbsolute ∧
      (Path.ofText (Path.join directory (String.intercalate "/" kept))).steps =
        (Path.ofText directory).steps ++ kept.map .name := by
  obtain ⟨habsolute, hsteps⟩ := @Path.steps_join directory _ (head?_route h)
  obtain ⟨_, hroute, -, hnames⟩ := steps_ofFileName? (congrArg (Option.map (String.intercalate "/")) h)
  cases hroute.symm.trans h
  exact ⟨habsolute, by rw [hsteps, hnames]⟩

/-- So in every tree it leads down from where the directory is. -/
theorem placeOf_join_route (h : route? fileName junkPaths = some kept) (directory : String)
    (t : FileTree) :
    t.placeOf (Path.join directory (String.intercalate "/" kept)) = t.placeOf directory ++ kept := by
  obtain ⟨habsolute, hsteps⟩ := steps_join_route h directory
  unfold FileTree.placeOf FileTree.start
  rw [habsolute, hsteps, Path.spell_append, Path.spell_names]

/-- File names are sanitised. If nothing is left of a name there is no output name. Otherwise this is the
relative path of exactly the names that are kept. It goes up nowhere and has no backslash. Joined to any
directory it takes the steps of the directory and then one down for each of its names. And taken as a file
name it is kept as it is. -/
theorem sanitises_fileName (fileName : String) (junkPaths : Bool) :
    (ofFileName? fileName junkPaths = if names fileName = [] then none
      else some (String.intercalate "/" (namesKept fileName junkPaths))) ∧
    ∀ relative, ofFileName? fileName junkPaths = some relative →
      Path.ofText relative = ⟨false, namesKept fileName junkPaths⟩ ∧
      Path.Step.up ∉ (Path.ofText relative).steps ∧ '\\' ∉ relative.toList ∧
      (∀ directory,
        (Path.ofText (Path.join directory relative)).isAbsolute = (Path.ofText directory).isAbsolute ∧
        (Path.ofText (Path.join directory relative)).steps =
          (Path.ofText directory).steps ++ (namesKept fileName junkPaths).map .name ∧
        ∀ t : FileTree, t.placeOf (Path.join directory relative) =
          t.placeOf directory ++ namesKept fileName junkPaths) ∧
      ofFileName? relative false = some relative := by
  refine ⟨?_, fun relative hrelative => ?_⟩
  · rw [ofFileName?_eq]
    simp only [namesKept_eq_nil_iff]
  · obtain ⟨kept, hroute, -, hsteps⟩ := steps_ofFileName? hrelative
    obtain rfl : String.intercalate "/" kept = relative := by
      unfold ofFileName? at hrelative
      rw [hroute] at hrelative
      exact Option.some.inj hrelative
    obtain ⟨hkept, hne⟩ := route?_eq_some_iff.1 hroute
    rw [hkept]
    refine ⟨ofText_route hroute, ?_, backslash_notMem_route hroute, fun directory => ?_, ?_⟩
    · rw [hsteps]
      simp
    · obtain ⟨habsolute, hjoined⟩ := steps_join_route hroute directory
      exact ⟨habsolute, hjoined, placeOf_join_route hroute directory⟩
    · have hsame : namesKept (String.intercalate "/" kept) false = kept := names_route hroute
      rw [ofFileName?_eq, hsame, if_neg hne]

/-- A name from another system, with a drive, both separators, and pieces that stay and go up. -/
theorem sanitises_fileName_foreign :
    ofFileName? "C:\\..\\d/.//..d\\" false = some "C:/d/..d" ∧
    ofFileName? "C:\\..\\d/.//..d\\" true = some "..d" ∧
    Path.ofText "C:/d/..d" = ⟨false, ["C:", "d", "..d"]⟩ ∧
    (Path.ofText (Path.join "/out/.." "..d")).steps = [.name "out", .up, .name "..d"] ∧
    ofFileName? "C:/d/..d" false = some "C:/d/..d" ∧ names "/..\\./" = [] := by
  obtain ⟨-, hall⟩ := sanitises_fileName "C:\\..\\d/.//..d\\" false
  obtain ⟨-, hlast⟩ := sanitises_fileName "C:\\..\\d/.//..d\\" true
  have hfull : ofFileName? "C:\\..\\d/.//..d\\" false = some "C:/d/..d" := by decide +kernel
  have hjunk : ofFileName? "C:\\..\\d/.//..d\\" true = some "..d" := by decide +kernel
  obtain ⟨hpath, -, -, -, hagain⟩ := hall _ hfull
  obtain ⟨-, -, -, hjoined, -⟩ := hlast _ hjunk
  refine ⟨hfull, hjunk, hpath.trans (by decide +kernel), ?_, hagain, by decide +kernel⟩
  rw [(hjoined "/out/..").2.1]
  decide +kernel

end OutputName

end FormData
