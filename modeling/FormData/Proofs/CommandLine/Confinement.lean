/-
Where a run leaves its marks. Files are written below the directory of the output only, at names that
stay below it, and files that were there before are kept unless they may be overwritten. One saved file
keeps a tree within these bounds (`Confined.saving`), so every run does, however it ends.
-/
import FormData.Proofs.CommandLine.Saving

namespace FormData.CommandLine

variable {a : Arguments} {r : Run} {s : Session} {t₀ t t' : FileTree}

/-! ## The files of a run -/

/-- Files that exist may be overwritten. -/
def Overwrites (a : Arguments) : Prop :=
  a.overwrite = true ∧ a.neverOverwrite = false

theorem overwrites_of_keepsExisting (h : keepsExisting? a = none) : Overwrites a := by
  unfold keepsExisting? at h
  split at h
  · cases h
  · rename_i hnever
    split at h
    · rename_i hover
      exact ⟨hover, by simpa using hnever⟩
    · cases h

theorem keepsExisting_of_overwrites (h : Overwrites a) : keepsExisting? a = none := by
  unfold keepsExisting?
  rw [h.1, h.2]
  rfl

/-- The tree grew out of the first one, by files at normal names below the directory of the output; and
unless files may be overwritten, those of the first tree are as they were. -/
structure Confined (a : Arguments) (t₀ t : FileTree) : Prop where
  rooted : t.Rooted
  grows : t₀.Grows t
  within : ∀ place content, t.node? place = some (.file content) →
    t₀.node? place = some (.file content) ∨
      ∃ names, names ≠ [] ∧ (∀ name ∈ names, OutputName.IsNormal name) ∧
        place = outputBase a t₀ ++ names
  kept : ¬ Overwrites a → ReachesOutput a t₀ → ∀ place content,
    t₀.node? place = some (.file content) → t.node? place = some (.file content)

theorem Confined.refl (h : t.Rooted) : Confined a t t where
  rooted := h
  grows := .refl t
  within _ _ := .inl
  kept _ _ _ _ := id

/-- Directories made on the way do not matter. -/
theorem Confined.founds {place : Place} {steps : List Path.Step} (h : Confined a t₀ t)
    (hmade : t.Founds place steps t') : Confined a t₀ t' where
  rooted := hmade.rooted h.rooted
  grows := h.grows.trans hmade.grows
  within place content hplace := h.within place content ((hmade.file_iff place content).1 hplace)
  kept hover hreaches place content hplace :=
    (hmade.file_iff place content).2 (h.kept hover hreaches place content hplace)

theorem ReachesOutput.grows (h : ReachesOutput a t) (hgrows : t.Grows t') : ReachesOutput a t' :=
  fun directory hdirectory => (h directory hdirectory).grows hgrows

/-- What a saved file replaces was found before its directories were made. -/
theorem Writes.overwrites {fileName relative : String} {made : FileTree} {place : Place}
    (h : Writes a fileName t made relative place) (hrooted : t.Rooted) (hreaches : ReachesOutput a t)
    (hthere : t.node? place ≠ none) : Overwrites a := by
  obtain ⟨-, -, -, hdown⟩ := savePath_steps (t := t) h.name
  have hgrows := (FileTree.makeDirectories_founds h.make).grows
  obtain ⟨node, hfind⟩ := FileTree.find_of_target hrooted (hdown hreaches) hgrows h.target hthere
  have hexists : t.exists? (savePath a relative) = true := by
    unfold FileTree.exists?
    rw [FileTree.onPath_of_read h.read hfind]
    rfl
  exact overwrites_of_keepsExisting (h.guard hexists)

/-- One file more is saved at most, and within the bounds. -/
theorem Confined.saving {fileName : String} {content : Bytes} {result : Except Failure Unit}
    (h : Confined a t₀ t) (hs : Saving a fileName content t result t') : Confined a t₀ t' := by
  cases hs with
  | unusable => exact h
  | spared => exact h
  | blocked => exact h
  | refused f relative made hname hmake => exact h.founds (FileTree.makeDirectories_founds hmake)
  | saved relative made place hwrites =>
    have hfounds := FileTree.makeDirectories_founds hwrites.make
    have hmade := h.founds hfounds
    obtain ⟨names, hroute, hplace⟩ := hwrites.place
    obtain ⟨hne, hnormal⟩ := OutputName.route?_normal hroute
    rw [outputBase_eq h.grows.here] at hplace
    have hwritten := FileTree.node?_written hwrites.target content
    refine ⟨hmade.rooted.written hwrites.target content,
      hmade.grows.trans (FileTree.grows_written hwrites.target content), fun q held hq => ?_,
      fun hover hreaches q held hq => ?_⟩
    · rw [hwritten] at hq
      split at hq
      · rename_i hqp
        exact .inr ⟨names, hne, hnormal, hqp.trans hplace⟩
      · exact hmade.within q held hq
    · rw [hwritten, if_neg]
      · exact hmade.kept hover hreaches q held hq
      · -- a file at that place would have been found, and spared
        rintro rfl
        have hthere : t.node? q ≠ none := by
          rw [h.kept hover hreaches q held hq]
          nofun
        exact hover (hwrites.overwrites h.rooted (hreaches.grows h.grows) hthere)

/-! ## From the first part to the last -/

/-- By induction on the visits: what every file saved keeps, the run keeps, and nothing is left in the
depot of what came in. -/
theorem visitParts_saving {P : FileTree → Prop} (hextracts : ¬ Views a)
    (hstep : ∀ {t t' fileName content result}, P t → Saving a fileName content t result t' → P t')
    (hdisk : s.OnDisk) (hd : r.depot.Numbered) (hsettings : s.settings = a.settings) (h : P r.depot.tree) :
    ∃ tree, P tree ∧ Leaves r.depot tree (visitParts a r s).2.depot := by
  fun_induction visitParts a r s with
  | case1 r s s' _ => exact ⟨_, h, leaves_of_restored (.refl _)⟩
  | case2 r s e s' _ => exact ⟨_, h, leaves_of_restored (.refl _)⟩
  | case3 r s p hs f r' s' hv =>
    have hvisit := nextPart_extracts hextracts hdisk (Session.next_part_iff.1 hs) hd hsettings
    rw [hv] at hvisit
    exact hvisit.keeps hstep h
  | case4 r s p hs r' s' hv _ ih =>
    have hpart := Session.next_part_iff.1 hs
    have hvisit := nextPart_extracts hextracts hdisk hpart hd hsettings
    rw [hv] at hvisit
    obtain ⟨tree, htree, hleaves⟩ := hvisit.keeps hstep h
    have hsettings' : s'.settings = a.settings :=
      (hvisit.session rfl).1.trans ((Session.nextPart_settings hpart).trans hsettings)
    obtain ⟨tree', htree', hleaves'⟩ := ih (visitPart_onDisk (hdisk.part hpart) hv) (hleaves.numbered hd)
      hsettings' (hleaves.tree.symm ▸ htree)
    exact ⟨tree', htree', hleaves.trans hleaves'⟩

theorem visitParts_depot (hviews : Views a) (r : Run) (s : Session) :
    (visitParts a r s).2.depot = r.depot := by
  fun_induction visitParts a r s with
  | case1 => rfl
  | case2 => rfl
  | case3 r s p _ f r' s' hv =>
    have hsame := visitPart_depot hviews r p
    rwa [hv] at hsame
  | case4 r s p _ r' s' hv _ ih =>
    have hsame := visitPart_depot hviews r p
    rw [hv] at hsame
    exact ih.trans hsame

/-- The depot of a run is that of its visits, if it comes to any. -/
theorem rawRun_depot (a : Arguments) (foreign : List String) (tree : FileTree) :
    (rawRun a foreign tree).2.depot = startingDepot a foreign tree ∨
      ∃ r s, r.depot = startingDepot a foreign tree ∧ s.settings = a.settings ∧ s.OnDisk ∧
        (rawRun a foreign tree).2.depot = (visitParts a r s).2.depot := by
  unfold rawRun runBody
  split
  · exact .inl rfl
  · rename_i hlocal
    split
    · exact .inl rfl
    · rename_i captured place hbody
      split
      · exact .inl rfl
      · rename_i contentType source htype
        have hopens : Opens a tree source contentType place :=
          ⟨by simpa using hlocal, captured, hbody, htype⟩
        unfold processBody
        rcases hopen : Session.ofContentType? source contentType a.settings with e | s
        · exact .inl rfl
        · right
          refine ⟨if a.verbose then tableHead { depot := startingDepot a foreign tree, body := some place }
            else { depot := startingDepot a foreign tree, body := some place }, s, ?_,
            Session.ofContentType?_settings hopen, Session.ofContentType?_onDisk hopen hopens.onDisk, ?_⟩
          · split <;> rfl
          · simp only
            split <;> rename_i hv <;> rw [hv]
            split <;> rfl

theorem startingDepot_numbered (a : Arguments) (foreign : List String) (tree : FileTree) :
    (startingDepot a foreign tree).Numbered :=
  ⟨nofun, nofun⟩

/-! ## Runs -/

/-- A run that only shows the parts leaves the tree as it is. Any other leaves marks below the directory
of the output alone. -/
theorem rawRun_confined (a : Arguments) (foreign : List String) {tree : FileTree} (hrooted : tree.Rooted) :
    (Views a → (rawRun a foreign tree).2.depot = startingDepot a foreign tree) ∧
      ∃ tree', Confined a tree tree' ∧
        Leaves (startingDepot a foreign tree) tree' (rawRun a foreign tree).2.depot := by
  obtain hnone | ⟨r, s, hdepot, hsettings, hdisk, hvisits⟩ := rawRun_depot a foreign tree
  · rw [hnone]
    exact ⟨fun _ => rfl, tree, .refl hrooted, leaves_of_restored (.refl _)⟩
  · rw [hvisits, ← hdepot]
    refine ⟨fun hviews => visitParts_depot hviews r s, ?_⟩
    have hconfined : Confined a tree r.depot.tree := by
      rw [hdepot]
      exact .refl hrooted
    by_cases hviews : Views a
    · -- the tree of the start is confined, and it is the tree of the end
      rw [visitParts_depot hviews]
      exact ⟨_, hconfined, leaves_of_restored (.refl _)⟩
    · exact visitParts_saving hviews Confined.saving hdisk
        (hdepot ▸ startingDepot_numbered a foreign tree) hsettings hconfined

/-- A depot that kept nothing of what came in leaves no temp file behind. -/
theorem Leaves.temps {foreign : List String} {tree tree' : FileTree} {d : Depot}
    (h : Leaves (startingDepot a foreign tree) tree' d) : d.shutdown.2.temps = [] := by
  obtain ⟨issued, -, rfl⟩ := h
  rfl

/-- Extraction is confined. Whatever the arguments, the body and the tree, and however the run ends: a
file that is new or changed lies below the directory of the output, at normal names; a run that only
shows the parts changes nothing; and no temp file is left, be they moved by renaming them or, to a foreign
path, by copying. Unless files may be overwritten, those of the tree are kept, if the path of the output
does not go up from a directory that is yet to be made: what such a path leads to is not looked at before it
is. -/
theorem extraction_confined {args : List String} (hparse : Arguments.parse args = .ok a)
    (foreign : List String) {tree : FileTree} (hrooted : tree.Rooted) :
    ∃ outcome, run args foreign tree = .ok outcome ∧
      (∀ place content, outcome.tree.node? place = some (.file content) →
        tree.node? place = some (.file content) ∨
          ∃ names, names ≠ [] ∧ (∀ name ∈ names, OutputName.IsNormal name) ∧
            place = outputBase a tree ++ names) ∧
      (Views a → outcome.tree = tree) ∧
      outcome.temps = [] ∧
      (¬ Overwrites a → ReachesOutput a tree → ∀ place content,
        tree.node? place = some (.file content) →
          outcome.tree.node? place = some (.file content)) := by
  obtain ⟨hviews, tree', hconfined, hleaves⟩ := rawRun_confined a foreign hrooted
  have htree : (runWith a foreign tree).tree = tree' := by
    rw [runWith_tree]
    exact hleaves.tree
  have hrun : run args foreign tree = .ok (runWith a foreign tree) := by
    unfold run
    rw [hparse]
    rfl
  refine ⟨runWith a foreign tree, hrun, ?_, ?_, ?_, ?_⟩
  · rw [htree]
    exact hconfined.within
  · intro h
    rw [runWith_tree, hviews h]
    rfl
  · rw [runWith_temps]
    exact hleaves.temps
  · rw [htree]
    exact hconfined.kept

/-- A body with one upload of this name and content. -/
def uploading (name content : String) : FileTree.Node :=
  .file (Utf8.encode ("--B\r\nContent-Disposition: form-data; name=a; filename=\"" ++ name ++
    "\"\r\n\r\n" ++ content ++ "\r\n--B--\r\n"))

/-- An upload that would go up to a file beside the directory of the output, and a file there. -/
def climbing : FileTree where
  nodes := [(["body"], uploading "../../body" "new"), (["out"], .directory),
    (["out", "body"], .file (Utf8.encode "old"))]

theorem extraction_confined_climbing :
    Arguments.parse ["body", "-d", "out"] = .ok { file := "body", extractDir := some "out" } ∧
    climbing.Rooted ∧ ReachesOutput { file := "body", extractDir := some "out" } climbing ∧
    ∃ outcome, run ["body", "-d", "out"] ["out/body"] climbing = .ok outcome ∧
      outcome.tree.node? ["out", "body"] = some (.file (Utf8.encode "old")) ∧ outcome.temps = [] := by
  have hparse : Arguments.parse ["body", "-d", "out"] =
      .ok { file := "body", extractDir := some "out" } := by
    decide +kernel
  have hrooted : climbing.Rooted := FileTree.rooted_of_nodes (by decide +kernel) (by decide +kernel)
  have hreaches : ReachesOutput { file := "body", extractDir := some "out" } climbing := by
    rintro _ ⟨⟩
    exact ⟨[], [.name "out"], [], by decide +kernel, by decide, rfl⟩
  obtain ⟨outcome, hrun, -, -, htemps, hkept⟩ := extraction_confined hparse ["out/body"] hrooted
  refine ⟨hparse, hrooted, hreaches, outcome, hrun, ?_, htemps⟩
  exact hkept (fun hover => nomatch hover.1) hreaches ["out", "body"] _ (by decide +kernel)

/-- The directory of the output is reached through one that is missing, and holds a file. -/
def detour : FileTree where
  nodes := [(["body"], uploading "f" "new"), (["kept"], .directory),
    (["kept", "f"], .file (Utf8.encode "old"))]

/-- A file that must not be overwritten is, once the missing directory is made. -/
theorem detour_overwritten :
    detour.Rooted ∧ detour.node? ["kept", "f"] = some (.file (Utf8.encode "old")) ∧
    (Arguments.parse ["body", "-n", "-d", "missing/../kept"]).toOption.map keepsExisting? =
      some (some "file exists") ∧
    ((run ["body", "-n", "-d", "missing/../kept"] [] detour).toOption.map fun outcome =>
      (outcome.exitCode, outcome.tree.node? ["kept", "f"])) =
      some (0, some (.file (Utf8.encode "new"))) := by
  refine ⟨FileTree.rooted_of_nodes (by decide +kernel) (by decide +kernel), ?_, ?_, ?_⟩ <;>
    decide +kernel

end FormData.CommandLine
