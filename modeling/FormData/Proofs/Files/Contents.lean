/-
What files read as. A file that was written reads as it was written by every path that leads to it, and
the files at other places read as before (`contentOf_written`, `contentOf_rewritten`). A copy that fails
leaves the tree alone (`copyFile_cases`), and one that is made onto the file itself is empty
(`copyFile_ok`). Plain names joined to one directory lead to places of their own, so of the files in a
directory a file that is written or copied changes that one alone (`Puts`).
-/
import FormData.Proofs.Files.Places

namespace FormData

open FormData.Path (Step spell)

/-! ## Plain names in one directory -/

namespace Path

/-- The path of a plain name in a directory. -/
def IsIn (directory path : String) : Prop :=
  ∃ name, OutputName.IsNormal name ∧ path = join directory name

variable {directory path other name : String}

/-- A plain name is one step. -/
theorem steps_plain (h : OutputName.IsNormal name) : (ofText name).steps = [.name name] := by
  obtain ⟨hempty, hstep⟩ := h.ofText
  rw [steps_ofText, Text.pieces_plain h.2]
  simp [stepsOf, hempty, hstep]

theorem head?_plain (h : OutputName.IsNormal name) : name.toList.head? ≠ some '/' := by
  intro hhead
  exact h.2 (List.mem_of_mem_head? hhead)

/-- The steps that tell two paths apart end in the name that a path ends in. -/
theorem getLast?_normalSteps {p : Path} {front : List Step} (h : p.steps = front ++ [.name name]) :
    p.normalSteps.getLast? = some (.name name) := by
  have hfilter : ∀ front : List Step, (front ++ [Step.name name]).filter (· != .stay) =
      front.filter (· != .stay) ++ [.name name] := by
    intro front
    simp [List.filter_append]
  unfold normalSteps
  split
  · -- a relative path that stays first keeps that step
    rename_i rest _ hsteps
    rw [h] at hsteps
    rcases front with _ | ⟨step, front⟩
    · cases hsteps
    · obtain ⟨-, rfl⟩ := List.cons.inj hsteps
      rw [List.append_eq, hfilter, ← List.cons_append, List.getLast?_concat]
  · rw [h, hfilter, List.getLast?_concat]

theorem IsIn.steps (h : IsIn directory path) :
    ∃ name, path = join directory name ∧ (ofText path).isAbsolute = (ofText directory).isAbsolute ∧
      (ofText path).steps = (ofText directory).steps ++ [.name name] := by
  obtain ⟨name, hname, rfl⟩ := h
  obtain ⟨habsolute, hsteps⟩ := @steps_join directory name (head?_plain hname)
  exact ⟨name, rfl, habsolute, by rw [hsteps, steps_plain hname]⟩

/-- Of the paths in one directory, each is the same only as itself. -/
theorem IsIn.eq_of_same (h : IsIn directory path) (hother : IsIn directory other)
    (hsame : same path other = true) : path = other := by
  obtain ⟨name, rfl, -, hsteps⟩ := h.steps
  obtain ⟨name', rfl, -, hsteps'⟩ := hother.steps
  unfold same at hsame
  simp only [Bool.and_eq_true, beq_iff_eq] at hsame
  have hlast := getLast?_normalSteps hsteps
  rw [hsame.2, getLast?_normalSteps hsteps'] at hlast
  cases hlast
  rfl

theorem same_refl (path : String) : same path path = true := by
  simp [same]

end Path

namespace FileTree

variable {t t' t'' : FileTree} {directory path other : String} {content held : Bytes}

/-! ## Reading a file -/

/-- Where a text spells to. -/
def placeOf (t : FileTree) (path : String) : Place :=
  spell (t.start (Path.ofText path)) (Path.ofText path).steps

theorem Grows.placeOf (h : t.Grows t') (path : String) : t'.placeOf path = t.placeOf path := by
  unfold FileTree.placeOf
  rw [h.start]

/-- A file is read where its path can be walked to and ends in it. -/
theorem contentOf_eq_ok_iff : t.contentOf path = .ok content ↔
    Path.read path = .ok (Path.ofText path) ∧
      t.walk (t.start (Path.ofText path)) (Path.ofText path).steps = .ok (t.placeOf path) ∧
      t.node? (t.placeOf path) = some (.file content) ∧ (Path.ofText path).isDirectory = false := by
  constructor
  · intro h
    obtain ⟨hread, hfile⟩ := onPath_ok h
    rcases hfind : t.find (Path.ofText path) with fault | ⟨q, _ | held⟩ <;> simp only [hfind] at hfile <;>
      cases hfile
    obtain ⟨hwalk, hnode, hslash⟩ := find_file_iff.1 hfind
    obtain rfl : q = t.placeOf path := walk_ok hwalk
    exact ⟨hread, hwalk, hnode, hslash⟩
  · rintro ⟨hread, hwalk, hnode, hslash⟩
    refine onPath_of_read hread ?_
    simp only [find_file_iff.2 ⟨hwalk, hnode, hslash⟩]

/-! ## Writing one -/

/-- A file that was written reads as it was written. -/
theorem contentOf_written (h : t.writeFile path content = .ok t') : t'.contentOf path = .ok content := by
  obtain ⟨hread, place, htarget, rfl⟩ := writeFile_ok h
  have hgrows := grows_written htarget content
  have hnode := node?_written htarget content
  obtain ⟨front, name, hsteps, hplace, hwalk, hdirectory, -, hlength, hslash⟩ := target_ok htarget
  have hspelled : (t.put place (.file content)).placeOf path = place := by
    rw [hgrows.placeOf, placeOf, hsteps, Path.spell_append, hplace]
    rfl
  have hthere : (t.put place (.file content)).node? place = some (.file content) := by
    rw [hnode, if_pos rfl]
  rw [contentOf_eq_ok_iff, hspelled]
  refine ⟨hread, ?_, hthere, hslash⟩
  -- the walk goes on from the directory above to the new file
  rw [hsteps, hgrows.start, walk_append (hgrows.walk hwalk),
    walk_of_directory (hgrows.directory _ hdirectory)]
  · rw [hplace]
    rfl
  · rintro _ ⟨⟩
    rw [← hplace, hthere]
    exact ⟨hlength, nofun⟩

/-- A write changes what its path spells to, and nothing else. -/
theorem node?_writeFile (h : t.writeFile path content = .ok t') :
    t.Grows t' ∧ ∀ q, t'.node? q = if q = t.placeOf path then some (.file content) else t.node? q := by
  obtain ⟨-, place, htarget, rfl⟩ := writeFile_ok h
  obtain rfl : place = t.placeOf path := by
    obtain ⟨front, name, hsteps, rfl, -⟩ := target_ok htarget
    rw [placeOf, hsteps, Path.spell_append]
    rfl
  exact ⟨grows_written htarget content, node?_written htarget content⟩

theorem Rooted.rewritten (h : t.Rooted) (hwrite : t.writeFile path content = .ok t') : t'.Rooted := by
  obtain ⟨-, place, htarget, rfl⟩ := writeFile_ok hwrite
  exact h.written htarget content

/-- What could be read reads as what was written if it is in the same place, and else as before. -/
theorem contentOf_rewritten (h : t.writeFile path content = .ok t') (hheld : t.contentOf other = .ok held) :
    t'.contentOf other = .ok (if t.placeOf other = t.placeOf path then content else held) := by
  obtain ⟨hgrows, hnode⟩ := node?_writeFile h
  obtain ⟨hread, hwalk, hthere, hslash⟩ := contentOf_eq_ok_iff.1 hheld
  rw [contentOf_eq_ok_iff, hgrows.placeOf, hgrows.start]
  refine ⟨hread, hgrows.walk hwalk, ?_, hslash⟩
  rw [hnode]
  split
  · rfl
  · exact hthere

theorem contentOf_spared (h : t.writeFile path content = .ok t')
    (hother : t.placeOf other ≠ t.placeOf path) (hheld : t.contentOf other = .ok held) :
    t'.contentOf other = .ok held := by
  rw [contentOf_rewritten h hheld, if_neg hother]

/-- A file that was written can be written again. -/
theorem writable_written (h : t.writeFile path content = .ok t') : t'.Writable path := by
  obtain ⟨hread, place, htarget, rfl⟩ := writeFile_ok h
  have hgrows := grows_written htarget content
  have hnode := node?_written htarget content
  obtain ⟨front, name, hsteps, rfl, hwalk, hdirectory, -, hlength, hslash⟩ := target_ok htarget
  refine ⟨hread, hslash, front, name, _, hsteps, hlength, ?_, hgrows.directory _ hdirectory, ?_⟩
  · rw [hgrows.start]
    exact hgrows.walk hwalk
  · rw [hnode, if_pos rfl]
    nofun

/-- A file that can be read can be written. -/
theorem Rooted.writable (h : t.Rooted) (hheld : t.contentOf path = .ok held) : t.Writable path := by
  obtain ⟨hread, hwalk, hnode, hslash⟩ := contentOf_eq_ok_iff.1 hheld
  rw [walk_ok hwalk] at hnode
  rcases List.eq_nil_or_concat (Path.ofText path).steps with hsteps | ⟨front, step, hsteps⟩
  · rw [hsteps, Path.spell_nil, h.start] at hnode
    cases hnode
  rw [List.concat_eq_append] at hsteps
  rw [hsteps] at hwalk hnode
  have hfront := walk_front hwalk
  rw [walk_append hfront] at hwalk
  obtain ⟨hdirectory, -, hname⟩ := walk_cons hwalk
  rw [Path.spell_append] at hnode
  -- a step that stays or goes up leads from a directory to a directory
  cases step with
  | stay =>
    have hsame : t.node? (spell (t.start (Path.ofText path)) front) = some (.file held) := hnode
    rw [hdirectory] at hsame
    cases hsame
  | up =>
    have hup : t.node? (spell (t.start (Path.ofText path)) front).dropLast = some (.file held) := hnode
    rw [h.dropLast (by rw [hdirectory]; nofun)] at hup
    cases hup
  | name name =>
    have hfile : t.node? (spell (t.start (Path.ofText path)) front ++ [name]) = some (.file held) := hnode
    exact ⟨hread, hslash, front, name, _, hsteps, (hname name rfl).1, hfront, hdirectory,
      by rw [hfile]; nofun⟩

/-- In a tree that has grown every file can be read still, though it may have another content. -/
theorem Grows.contentOf (h : t.Grows t') (hheld : t.contentOf path = .ok held) :
    ∃ held', t'.contentOf path = .ok held' := by
  obtain ⟨hread, hwalk, hnode, hslash⟩ := contentOf_eq_ok_iff.1 hheld
  obtain ⟨held', hnode'⟩ := h.file _ _ hnode
  refine ⟨held', contentOf_eq_ok_iff.2 ?_⟩
  rw [h.start, h.placeOf]
  exact ⟨hread, h.walk hwalk, hnode', hslash⟩

/-! ## Copying one -/

/-- A copy fails before it is opened, and then nothing is changed, or not at all. -/
theorem copyFile_cases (t : FileTree) (source path : String) :
    (((∃ held, t.contentOf source = .ok held) ∧ t.Writable path) ∧
        ∃ copied, t.copyFile source path = (.ok (), copied)) ∨
      ¬ ((∃ held, t.contentOf source = .ok held) ∧ t.Writable path) ∧
        ∃ e, t.copyFile source path = (.error e, t) := by
  unfold copyFile
  rcases hsource : t.contentOf source with e | held
  · exact .inr ⟨nofun, e, rfl⟩
  rcases hopen : t.writeFile path [] with e | opened
  · refine .inr ⟨?_, e, rfl⟩
    rw [writable_iff [], hopen]
    nofun
  -- the source is there still, and what was opened can be written
  · left
    have hwritable := (writable_iff []).2 ⟨opened, hopen⟩
    obtain ⟨-, place, htarget, hput⟩ := writeFile_ok hopen
    obtain ⟨content, hcontent⟩ := (hput ▸ grows_written htarget []).contentOf hsource
    obtain ⟨copied, hcopied⟩ := (writable_iff content).1 (writable_written hopen)
    refine ⟨⟨⟨held, rfl⟩, hwritable⟩, copied, ?_⟩
    simp only [hcontent, hcopied]

/-- However far a copy gets, the tree stays in good order. -/
theorem Rooted.copied (h : t.Rooted) (source path : String) : (t.copyFile source path).2.Rooted := by
  unfold copyFile
  rcases t.contentOf source with e | held
  · exact h
  rcases hopen : t.writeFile path [] with e | opened
  · exact h
  have hopened := h.rewritten hopen
  simp only
  rcases opened.contentOf source with e | content
  · exact hopened
  rcases hwrite : opened.writeFile path content with e | copied
  · simp only [hwrite]
    exact hopened
  · simp only [hwrite]
    exact hopened.rewritten hwrite

/-- What a copy of a file has: the content of the file, unless it is made where the file is. The file is
empty then before it is read. -/
def copyOf (t : FileTree) (source path : String) (content : Bytes) : Bytes :=
  if t.placeOf source = t.placeOf path then [] else content

/-- A copy is made at its path, and every other file reads as before. -/
theorem copyFile_ok {source : String} (hsource : t.contentOf source = .ok content)
    (h : t.copyFile source path = (.ok (), t')) :
    t.Grows t' ∧ t'.contentOf path = .ok (t.copyOf source path content) ∧
      ∀ other held, t.contentOf other = .ok held → t'.contentOf other =
        .ok (if t.placeOf other = t.placeOf path then t.copyOf source path content else held) := by
  unfold copyFile at h
  simp only [hsource] at h
  rcases hopen : t.writeFile path [] with e | opened <;> simp only [hopen] at h
  · cases h
  have hgrows := (node?_writeFile hopen).1
  simp only [contentOf_rewritten hopen hsource] at h
  rcases hwrite : opened.writeFile path (t.copyOf source path content) with e | copied <;>
    simp only [copyOf] at hwrite <;> simp only [hwrite] at h <;> cases h
  refine ⟨hgrows.trans (node?_writeFile hwrite).1, contentOf_written hwrite, fun other held hheld => ?_⟩
  rw [contentOf_rewritten hwrite (contentOf_rewritten hopen hheld), hgrows.placeOf, hgrows.placeOf]
  split <;> rfl

/-! ## Files of one directory -/

theorem placeOf_in (t : FileTree) (h : Path.IsIn directory path) :
    ∃ name, path = Path.join directory name ∧ t.placeOf path = t.placeOf directory ++ [name] := by
  obtain ⟨name, hpath, habsolute, hsteps⟩ := h.steps
  refine ⟨name, hpath, ?_⟩
  unfold placeOf FileTree.start
  rw [habsolute, hsteps, Path.spell_append]
  rfl

/-- Different paths in a directory lead to different places. -/
theorem placeOf_ne (t : FileTree) (h : Path.IsIn directory path) (hother : Path.IsIn directory other)
    (hne : other ≠ path) : t.placeOf other ≠ t.placeOf path := by
  obtain ⟨name, rfl, hplace⟩ := t.placeOf_in h
  obtain ⟨name', rfl, hplace'⟩ := t.placeOf_in hother
  rw [hplace, hplace']
  intro heq
  obtain rfl : name' = name := by simpa using heq
  exact hne rfl

/-- The file at this path has this content now, and the others in the directory are as before. -/
structure Puts (directory path : String) (content : Bytes) (t t' : FileTree) : Prop where
  itself : t'.contentOf path = .ok content
  others : ∀ other held, Path.IsIn directory other → other ≠ path → t.contentOf other = .ok held →
    t'.contentOf other = .ok held

theorem puts_of_writeFile (hpath : Path.IsIn directory path)
    (h : t.writeFile path content = .ok t') : Puts directory path content t t' where
  itself := contentOf_written h
  others _ _ hother hne hheld := contentOf_spared h (t.placeOf_ne hpath hother hne) hheld

/-- A copy of another file of the directory has its content. -/
theorem puts_of_copyFile {source : String} (hpath : Path.IsIn directory path)
    (hsource : Path.IsIn directory source) (hne : source ≠ path)
    (hcontent : t.contentOf source = .ok content)
    (h : t.copyFile source path = (.ok (), t')) :
    Puts directory path content t t' := by
  obtain ⟨-, hitself, hothers⟩ := copyFile_ok hcontent h
  refine ⟨?_, fun other held hother hne' hheld => ?_⟩
  · rw [hitself, copyOf, if_neg (t.placeOf_ne hpath hsource hne)]
  · rw [hothers other held hheld, if_neg (t.placeOf_ne hpath hother hne')]

end FileTree

end FormData
