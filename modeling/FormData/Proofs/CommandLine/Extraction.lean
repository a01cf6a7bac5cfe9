/-
What a run that extracts files leaves. The parts of the body say which contents go to which places
(`outputs`), and the tree beforehand says what becomes of them there (`extracted?`): the first content
for a place is kept, or the last one if files may be overwritten. Every part visited keeps the tree in
step with the parts so far (`Extracted.saving`), whatever of them was held in memory or in temp files.
-/
import FormData.Proofs.CommandLine.Confinement

namespace FormData

namespace FileTree

/-- The content of the file at a place. -/
def file? (t : FileTree) (place : Place) : Option Bytes :=
  match t.node? place with
  | some (.file content) => some content
  | _ => none

theorem file?_eq_some {t : FileTree} {place : Place} {content : Bytes} :
    t.file? place = some content ↔ t.node? place = some (.file content) := by
  unfold file?
  split <;> simp_all

theorem file?_congr {t t' : FileTree} {place : Place} (h : t'.node? place = t.node? place) :
    t'.file? place = t.file? place := by
  unfold file?
  rw [h]

theorem Founds.file?_eq {t t' : FileTree} {place : Place} {steps : List Path.Step}
    (h : t.Founds place steps t') (q : Place) : t'.file? q = t.file? q :=
  Option.ext fun content => by rw [file?_eq_some, file?_eq_some, h.file_iff]

end FileTree

namespace CommandLine

variable {a : Arguments} {r r' : Run} {s : Session} {t₀ t t' : FileTree} {place p : Place}
  {content : Bytes} {done more : List (Place × Bytes)}

/-! ## What the parts ask for -/

instance : Decidable (Overwrites a) :=
  inferInstanceAs (Decidable (_ ∧ _))

/-- The place for a part that is within the limit on files, and the content to save there. -/
def output? (a : Arguments) (t : FileTree) (part : PartHead × Bytes) : Option (Place × Bytes) :=
  if PartHead.Fits a.settings.maxFileSize part then (place? a t part.1).map (·, part.2) else none

def outputs (a : Arguments) (t : FileTree) (parts : List (PartHead × Bytes)) : List (Place × Bytes) :=
  parts.filterMap (output? a t)

/-- The contents for a place, in order. -/
def contentsAt (outputs : List (Place × Bytes)) (place : Place) : List Bytes :=
  (outputs.filter (·.1 = place)).map (·.2)

/-- The file at a place after these outputs: the one that was there, unless files may be overwritten;
else the first of the contents for the place, or the last if files may be overwritten. What is a
directory stays one. -/
def extracted? (a : Arguments) (t : FileTree) (outputs : List (Place × Bytes)) (place : Place) :
    Option Bytes :=
  match t.node? place with
  | some .directory => none
  | some (.file old) =>
    some (if Overwrites a then (contentsAt outputs place).getLast?.getD old else old)
  | none =>
    if Overwrites a then (contentsAt outputs place).getLast? else (contentsAt outputs place).head?

theorem contentsAt_append (outputs more : List (Place × Bytes)) (place : Place) :
    contentsAt (outputs ++ more) place = contentsAt outputs place ++ contentsAt more place := by
  unfold contentsAt
  rw [List.filter_append, List.map_append]

theorem contentsAt_singleton (place : Place) (content : Bytes) :
    contentsAt [(place, content)] place = [content] := by
  simp [contentsAt]

theorem contentsAt_elsewhere (content : Bytes) (h : p ≠ place) :
    contentsAt [(place, content)] p = [] := by
  simp [contentsAt, h.symm]

/-- An output changes no file elsewhere. -/
theorem extracted?_elsewhere (content : Bytes) (h : p ≠ place) :
    extracted? a t (done ++ [(place, content)]) p = extracted? a t done p := by
  unfold extracted?
  rw [contentsAt_append, contentsAt_elsewhere content h, List.append_nil]

/-- A file that may be overwritten has the content that comes last. -/
theorem extracted?_last (hover : Overwrites a) (hfree : t.node? place ≠ some .directory)
    (content : Bytes) : extracted? a t (done ++ [(place, content)]) place = some content := by
  unfold extracted?
  rw [contentsAt_append, contentsAt_singleton, List.getLast?_concat]
  rcases hnode : t.node? place with _ | _ | old
  · exact if_pos hover
  · exact absurd hnode hfree
  · simp only
    rw [if_pos hover]
    rfl

/-- The first content for a place where nothing was is saved there. -/
theorem extracted?_first (hover : ¬ Overwrites a) (hnone : t.node? place = none)
    (hfirst : extracted? a t done place = none) (content : Bytes) :
    extracted? a t (done ++ [(place, content)]) place = some content := by
  unfold extracted? at hfirst ⊢
  simp only [hnone] at hfirst ⊢
  rw [if_neg hover, List.head?_eq_none_iff] at hfirst
  rw [if_neg hover, contentsAt_append, hfirst, contentsAt_singleton]
  rfl

/-- What is there stays, unless files may be overwritten. -/
theorem extracted?_spared (hover : ¬ Overwrites a)
    (hthere : t.node? place ≠ none ∨ extracted? a t done place ≠ none) (content : Bytes) :
    extracted? a t (done ++ [(place, content)]) place = extracted? a t done place := by
  unfold extracted? at hthere ⊢
  rcases hnode : t.node? place with _ | _ | old
  · simp only [hnode, ne_eq, not_true_eq_false, false_or] at hthere ⊢
    rw [if_neg hover] at hthere
    rw [if_neg hover, if_neg hover, contentsAt_append, List.head?_append]
    rcases hhead : (contentsAt done place).head? with _ | first
    · exact absurd hhead hthere
    · rfl
  · rfl
  · simp only
    rw [if_neg hover, if_neg hover]

/-! ## One file after the other -/

/-- The tree after these outputs. Directories were made above the places of outputs only. -/
structure Extracted (a : Arguments) (t₀ : FileTree) (done : List (Place × Bytes)) (t : FileTree) :
    Prop where
  rooted : t.Rooted
  grows : t₀.Grows t
  files : ∀ place, t.file? place = extracted? a t₀ done place
  made : ∀ q, t.node? q = some .directory →
    t₀.node? q = some .directory ∨ ∃ output ∈ done, q <+: output.1 ∧ q ≠ output.1

theorem Extracted.refl (h : t.Rooted) : Extracted a t [] t where
  rooted := h
  grows := .refl t
  made _ := .inl
  files place := by
    unfold FileTree.file? extracted? contentsAt
    rcases t.node? place with _ | _ | old <;> simp

/-- A place is not above another. -/
def Apart (place : Place) (outputs : List (Place × Bytes)) : Prop :=
  ∀ output ∈ outputs, place <+: output.1 → place = output.1

/-- A directory that is made for a file stands above it. -/
theorem Writes.above {fileName relative : String} {made : FileTree} {place q : Place}
    (h : Writes a fileName t made relative place) (hrooted : t.Rooted) (hreaches : ReachesOutput a t)
    (hnone : t.node? q = none) (hmade : made.node? q = some .directory) : q <+: place ∧ q ≠ place := by
  obtain ⟨-, -, -, hdown⟩ := savePath_steps (t := t) h.name
  obtain ⟨front, name, hfront, rfl, -⟩ := FileTree.target_ok h.target
  have habove := FileTree.makeDirectories_above hrooted (hdown hreaches) hfront h.make hnone
    (by rw [hmade]; nofun)
  rw [(FileTree.makeDirectories_founds h.make).grows.start]
  refine ⟨habove.trans (List.prefix_append _ _), ?_⟩
  rintro rfl
  have hlength := habove.length_le
  rw [List.length_append, List.length_singleton] at hlength
  omega

/-- A directory that was made above an output stays made with more outputs. -/
theorem made_mono {q : Place} (output : Place × Bytes)
    (h : t₀.node? q = some .directory ∨ ∃ out ∈ done, q <+: out.1 ∧ q ≠ out.1) :
    t₀.node? q = some .directory ∨ ∃ out ∈ done ++ [output], q <+: out.1 ∧ q ≠ out.1 := by
  refine h.imp_right ?_
  rintro ⟨out, hout, habove⟩
  exact ⟨out, List.mem_append_left _ hout, habove⟩

/-- What is there is spared, and the tree is in step with an output that is not saved. -/
theorem Extracted.spared (h : Extracted a t₀ done t) (hover : ¬ Overwrites a)
    (hthere : t.node? place ≠ none) (hapart : Apart place done) (content : Bytes) :
    Extracted a t₀ (done ++ [(place, content)]) t := by
  refine ⟨h.rooted, h.grows, fun q => ?_, fun q hq => made_mono _ (h.made q hq)⟩
  rw [h.files q]
  by_cases hq : q = place
  · subst hq
    refine (extracted?_spared hover ?_ content).symm
    -- what is there was there before, or is a file that was saved
    rcases hnode : t.node? q with _ | _ | old
    · exact absurd hnode hthere
    · obtain hbefore | ⟨output, hmem, habove, hne⟩ := h.made _ hnode
      · left
        rw [hbefore]
        nofun
      · exact absurd (hapart output hmem habove) hne
    · right
      rw [← h.files, FileTree.file?_eq_some.2 hnode]
      nofun
  · exact (extracted?_elsewhere content hq).symm

/-- A file that is written is the one its output asks for: what was there may be overwritten, or nothing
was there. -/
theorem Extracted.overwritten {made : FileTree} {fileName relative : String} (h : Extracted a t₀ done t)
    (hreaches : ReachesOutput a t₀) (hwrites : Writes a fileName t made relative place)
    (content : Bytes) : extracted? a t₀ (done ++ [(place, content)]) place = some content := by
  have hfree : t₀.node? place ≠ some .directory := by
    obtain ⟨front, name, -, -, -, -, hfree, -⟩ := FileTree.target_ok hwrites.target
    exact fun hdirectory => hfree
      ((FileTree.makeDirectories_founds hwrites.make).grows.directory _ (h.grows.directory _ hdirectory))
  by_cases hover : Overwrites a
  · exact extracted?_last hover hfree content
  · -- whatever was there would have been found, and spared
    have hnone : t.node? place = none := by
      by_contra hthere
      exact hover (hwrites.overwrites h.rooted (hreaches.grows h.grows) hthere)
    refine extracted?_first hover ?_ ?_ content
    · by_contra hthere
      exact h.grows.there hthere hnone
    · rw [← h.files]
      unfold FileTree.file?
      rw [hnone]

/-- A file is written at its place, below the directories made for it, and nothing else changes. -/
theorem Extracted.written {made : FileTree} {fileName relative : String} (h : Extracted a t₀ done t)
    (hreaches : ReachesOutput a t₀) (hwrites : Writes a fileName t made relative place)
    (content : Bytes) :
    Extracted a t₀ (done ++ [(place, content)]) (made.put place (.file content)) := by
  have hfounds := FileTree.makeDirectories_founds hwrites.make
  have htarget := hwrites.target
  have hwritten := FileTree.node?_written htarget content
  refine ⟨(hfounds.rooted h.rooted).written htarget content,
    (h.grows.trans hfounds.grows).trans (FileTree.grows_written htarget content), fun q => ?_,
    fun q hq => ?_⟩
  · by_cases hq : q = place
    · subst hq
      rw [h.overwritten hreaches hwrites, FileTree.file?_eq_some]
      exact (hwritten q).trans (if_pos rfl)
    · rw [FileTree.file?_congr ((hwritten q).trans (if_neg hq)), hfounds.file?_eq, h.files,
        extracted?_elsewhere content hq]
  · have hmade : made.node? q = some .directory := by
      rw [hwritten] at hq
      split at hq
      · cases hq
      · exact hq
    rcases hfounds.node q with hsame | ⟨hnone, -, -⟩
    · rw [hsame] at hmade
      exact made_mono _ (h.made q hmade)
    · exact .inr ⟨(place, content), by simp, hwrites.above h.rooted (hreaches.grows h.grows) hnone hmade⟩

/-- What saving a file that has no place, or a place that is not above others, makes of the tree. -/
theorem Extracted.saving {fileName : String} (h : Extracted a t₀ done t)
    (hreaches : ReachesOutput a t₀)
    (hapart : ∀ names, OutputName.route? fileName a.junkPaths = some names →
      Apart (outputBase a t₀ ++ names) done)
    (hs : Saving a fileName content t (.ok ()) t') :
    Extracted a t₀ (done ++ ((OutputName.route? fileName a.junkPaths).map
      (outputBase a t₀ ++ ·, content)).toList) t' := by
  cases hs with
  | unusable hname =>
    unfold OutputName.ofFileName? at hname
    rw [Option.map_eq_none_iff] at hname
    rw [hname, Option.map_none, Option.toList_none, List.append_nil]
    exact h
  | spared relative hname hexists hkeeps =>
    obtain ⟨names, hroute, hsteps, -⟩ := savePath_steps (t := t) hname
    rw [outputBase_eq h.grows.here] at hsteps
    rw [hroute, Option.map_some, Option.toList_some]
    refine h.spared (fun hover => hkeeps (keepsExisting_of_overwrites hover)) ?_ (hapart names hroute) _
    unfold FileTree.exists? at hexists
    rcases hfind : FileTree.onPath (savePath a relative) t.find with e | ⟨q, node⟩
    · rw [hfind] at hexists
      cases hexists
    · obtain ⟨hq, hnode⟩ := FileTree.find_ok (FileTree.onPath_ok hfind).2
      rw [← hsteps, ← hq, hnode]
      nofun
  | saved relative made place hwrites =>
    obtain ⟨names, hroute, hplace⟩ := hwrites.place
    rw [outputBase_eq h.grows.here] at hplace
    rw [hroute, Option.map_some, Option.toList_some, ← hplace]
    exact h.written hreaches hwrites content

/-! ## One part after the other -/

/-- The places of outputs are apart from each other: none is above another. -/
def AllApart (outputs : List (Place × Bytes)) : Prop :=
  ∀ output ∈ outputs, Apart output.1 outputs

instance (outputs : List (Place × Bytes)) : Decidable (AllApart outputs) :=
  inferInstanceAs (Decidable (∀ output ∈ outputs, ∀ other ∈ outputs, _ → _))

theorem outputs_cons (part : PartHead × Bytes) (parts : List (PartHead × Bytes)) :
    outputs a t (part :: parts) = (output? a t part).toList ++ outputs a t parts := by
  unfold outputs
  rw [List.filterMap_cons]
  cases output? a t part <;> rfl

theorem Apart.mono {outputs : List (Place × Bytes)} (h : Apart place outputs) (hmore : more ⊆ outputs) :
    Apart place more :=
  fun output hmem => h output (hmore hmem)

theorem output?_eq (h : t'.here = t.here) : output? a t' = output? a t := by
  funext part
  unfold output?
  rw [place?_eq h]

/-- What visiting a part with this content makes of the tree. -/
theorem Extracted.visit {q : OpenPart} (h : Extracted a t₀ done r.depot.tree)
    (hextracts : ¬ Views a) (hreaches : ReachesOutput a t₀) (hdisk : s.OnDisk)
    (hpart : s.nextPart = .ok q) (hd : r.depot.Numbered) (hsettings : s.settings = a.settings)
    (hcontent : (q.withFileLimit none).Yields content)
    (hapart : ∀ output ∈ output? a t₀ (q.head, content), Apart output.1 done)
    {s' : Session} (hv : visitPart a r q = (.ok (), r', s')) :
    Extracted a t₀ (done ++ (output? a t₀ (q.head, content)).toList) r'.depot.tree := by
  have hsettings' := (Session.nextPart_settings hpart).trans hsettings
  have hunread := Session.nextPart_unread hpart
  have hvisit := nextPart_extracts (r := r) hextracts hdisk hpart hd hsettings
  rw [hv] at hvisit
  obtain ⟨tree, hleaves, hsaved⟩ := hvisit.saved
  rw [hleaves.tree]
  obtain ⟨rfl, hnone⟩ | ⟨name, content', huploads, hyields, hsaving⟩ := hsaved
  · -- a part that fits and is an upload would have been saved
    have houtput : output? a t₀ (q.head, content) = none := by
      unfold output?
      split
      · rename_i hfits
        have hyields := hcontent.withFileLimit hunread.1 (by rw [hsettings']; exact hfits)
        unfold place?
        rw [upload?_eq_none (hnone rfl content hyields)]
        rfl
      · rfl
    rw [houtput, Option.toList_none, List.append_nil]
    exact h
  · obtain rfl := hyields.withoutFileLimit.unique hcontent
    have houtput : output? a t₀ (q.head, content') =
        (OutputName.route? name a.junkPaths).map (outputBase a t₀ ++ ·, content') := by
      have hfits := hyields.fits hunread.1
      rw [hsettings'] at hfits
      unfold output? place?
      rw [if_pos hfits, huploads.upload?_eq, Option.map_map]
      rfl
    rw [houtput] at hapart ⊢
    refine h.saving hreaches (fun names hnames => ?_) hsaving
    exact hapart (outputBase a t₀ ++ names, content') (by rw [hnames]; rfl)

/-- By induction on the visits of a run that ends well. Its parts are those of the transcript without a
limit on files, since no visit rewrites the file that the body is read from. -/
theorem visitParts_extracts {rooms : Nat → Nat → Nat} {count : Nat} {all : List (Place × Bytes)}
    (hextracts : ¬ Views a) (hreaches : ReachesOutput a t₀) (hrooms : ∀ n i, 0 < rooms n i)
    (hdisk : s.OnDisk) (hd : r.depot.Numbered) (hsettings : s.settings = a.settings)
    (h : Extracted a t₀ done r.depot.tree)
    (hall : all = done ++ outputs a t₀ ((s.withFileLimit none).transcriptFrom rooms count).1.parts)
    (hbody : ∀ output ∈ all, output.1 ∉ r.body) (hapart : AllApart all)
    (hends : visitParts a r s = (.ok (), r')) :
    s.Decodes ((s.withFileLimit none).transcriptFrom rooms count).1.parts ∧
      Extracted a t₀ all r'.depot.tree := by
  fun_induction visitParts a r s generalizing count done with
  | case1 r s s' hs =>
    cases hends
    obtain ⟨hnext, hphase⟩ := Session.next_ended_iff.1 hs
    have htranscript : (s.withFileLimit none).transcriptFrom rooms count = _ :=
      Session.transcriptFrom_error (by rw [Session.nextPart_withFileLimit, hnext])
    rw [htranscript] at hall ⊢
    refine ⟨Session.Stops.stop hnext fun _ => hphase, ?_⟩
    rw [hall]
    unfold outputs
    rwa [List.filterMap_nil, List.append_nil]
  | case2 => cases hends
  | case3 => cases hends
  | case4 r s q hs r₁ s₁ hv _ ih =>
    have hpart := Session.next_part_iff.1 hs
    have hsettings' := (Session.nextPart_settings hpart).trans hsettings
    have htree : r.depot.tree.here = t₀.here := h.grows.here
    have hvisit := nextPart_extracts (r := r) hextracts hdisk hpart hd hsettings
    rw [hv] at hvisit
    obtain ⟨hkept, hsession⟩ := hvisit.session rfl
    have hleaves : q.session.Leaves s₁ := by
      obtain hleaves | ⟨name, content, huploads, hyields, -, made, relative, place, hmem, hwrites⟩ :=
        hsession
      · exact hleaves
      · -- the part would be an output for the place of the body
        exfalso
        have hfits := hyields.fits (Session.nextPart_unread hpart).1
        rw [hsettings'] at hfits
        have hcons : (s.withFileLimit none).transcriptFrom rooms count = _ :=
          Session.transcriptFrom_yields hrooms hpart hyields.withoutFileLimit (.refl _)
        have houtput : output? a t₀ (q.head, content) = some (place, content) := by
          rw [← output?_eq htree]
          unfold output?
          rw [if_pos hfits, hwrites.place?_eq huploads]
          rfl
        refine hbody (place, content) ?_ hmem
        rw [hall, hcons]
        refine List.mem_append_right _ ?_
        show _ ∈ outputs a t₀ ((q.head, content) :: _)
        rw [outputs_cons, houtput]
        exact List.mem_cons_self
    obtain ⟨content, hyields⟩ := yields_of_visitParts hpart hleaves hends
    have hcons : (s.withFileLimit none).transcriptFrom rooms count = _ :=
      Session.transcriptFrom_yields hrooms hpart hyields hleaves
    have hall' : all = done ++ (output? a t₀ (q.head, content)).toList ++
        outputs a t₀ ((s₁.withFileLimit none).transcriptFrom rooms (count + 1)).1.parts := by
      rw [hall, hcons, List.append_assoc, ← outputs_cons]
      rfl
    have happart₁ : ∀ output ∈ output? a t₀ (q.head, content), Apart output.1 done := by
      intro output houtput
      have hmem : output ∈ all := by
        rw [hall']
        exact List.mem_append_left _ (List.mem_append_right _ (by simpa using houtput))
      refine (hapart output hmem).mono ?_
      rw [hall]
      exact List.subset_append_left _ _
    obtain ⟨tree, hdepot, -⟩ := hvisit.saved
    obtain ⟨hdecodes, hextracted⟩ := ih (visitPart_onDisk (hdisk.part hpart) hv)
      (hdepot.numbered hd) (hkept.trans hsettings')
      (h.visit hextracts hreaches hdisk hpart hd hsettings hyields happart₁ hv) hall'
      (fun output hmem hbody' => hbody output hmem (hvisit.body _ hbody')) hends
    rw [hcons]
    exact ⟨Session.Stops.part hpart hyields hleaves hdecodes, hextracted⟩

/-! ## Runs -/

/-- What a run that extracts files and ends well leaves, whatever it held in memory and read at once, and
wherever temp files were copied because they could not be renamed: no temp file, and a tree of files. Say
that no output of the parts has the place of the body, and none is above another. Then these parts make up
the whole body, and the files of the tree are those that its parts ask for. The path of the output must not
go up from a directory that is yet to be made: a file that is there is not found before that, and
overwritten. -/
theorem extraction_result (hextracts : ¬ Views a) {tree : FileTree} (hrooted : tree.Rooted)
    (hreaches : ReachesOutput a tree) {rooms : Nat → Nat → Nat} (hrooms : ∀ n i, 0 < rooms n i)
    {foreign : List String} (hexit : (runWith a foreign tree).exitCode = 0) :
    (runWith a foreign tree).temps = [] ∧
    ∃ source contentType place s, Opens a tree source contentType place ∧
      Session.ofContentType? source contentType { a.settings with maxFileSize := none } = .ok s ∧
      ∀ parts, (s.transcriptFrom rooms 0).1.parts = parts →
        (∀ output ∈ outputs a tree parts, output.1 ≠ place) → AllApart (outputs a tree parts) →
        Request.HasParts rooms source contentType { a.settings with maxFileSize := none } parts ∧
        ∀ p, (runWith a foreign tree).tree.file? p = extracted? a tree (outputs a tree parts) p := by
  obtain ⟨-, tree', -, hleaves⟩ := rawRun_confined a foreign hrooted
  rw [runWith_exitCode] at hexit
  rw [runWith_tree, runWith_temps]
  refine ⟨hleaves.temps, ?_⟩
  obtain ⟨source, contentType, place, hopens⟩ := opens_of_rawRun hexit
  rw [hopens.rawRun_eq] at hexit ⊢
  unfold processBody at hexit ⊢
  rcases hopen : Session.ofContentType? source contentType a.settings with e | s <;>
    simp only [hopen] at hexit ⊢
  · cases hexit
  · refine ⟨source, contentType, place, s.withFileLimit none, hopens, ?_, ?_⟩
    · rw [Session.ofContentType?_withFileLimit, hopen]
      rfl
    · rintro parts rfl hbody hapart
      -- a table of the parts is no extraction
      have hverbose : a.verbose = false := by
        by_contra hverbose
        exact hextracts (.inr (.inl (by simpa using hverbose)))
      simp only [hverbose, Bool.false_eq_true, if_false] at hexit ⊢
      rcases hv : visitParts a { depot := startingDepot a foreign tree, body := some place } s with
        ⟨f | ⟨⟩, r⟩ <;> simp only [hv] at hexit ⊢
      · cases hexit
      · have hnone : Extracted a tree [] (startingDepot a foreign tree).tree := .refl hrooted
        have hall : outputs a tree ((s.withFileLimit none).transcriptFrom rooms 0).1.parts =
            [] ++ outputs a tree ((s.withFileLimit none).transcriptFrom rooms 0).1.parts :=
          (List.nil_append _).symm
        obtain ⟨hdecodes, hextracted⟩ := visitParts_extracts hextracts hreaches hrooms
          (Session.ofContentType?_onDisk hopen hopens.onDisk) (startingDepot_numbered a foreign tree)
          (Session.ofContentType?_settings hopen) hnone hall
          (fun output hmem hplace => hbody output hmem (Option.some.inj hplace).symm) hapart hv
        exact ⟨(Request.hasParts_iff_decodes hrooms ..).2 ⟨s, hopen, hdecodes⟩, hextracted.files⟩

/-- Two uploads of one name, the first longer than what is kept in memory, and a file of that name. -/
def twice : FileTree where
  nodes := [(["body"], .file (Utf8.encode
    ("--B\r\nContent-Disposition: form-data; name=a; filename=f\r\n\r\nlong\r\n--B\r\n" ++
      "Content-Disposition: form-data; name=b; filename=f\r\n\r\n2\r\n--B--\r\n"))),
    (["out"], .directory), (["out", "f"], .file (Utf8.encode "old"))]

/-- The files of that tree may be overwritten, and all but two bytes go to temp files. -/
def overwriting : Arguments where
  file := "body"
  extractDir := some "out"
  overwrite := true
  threshold := 2
  tempDir := some "."

theorem extraction_result_twice :
    ¬ Views overwriting ∧ twice.Rooted ∧ ReachesOutput overwriting twice ∧
    (∀ n i, 0 < (fun _ _ => 1 : Nat → Nat → Nat) n i) ∧ (runWith overwriting ["out/f"] twice).exitCode = 0 ∧
    (runWith overwriting ["out/f"] twice).temps = [] ∧
    ∃ source contentType place s parts, Opens overwriting twice source contentType place ∧
      Session.ofContentType? source contentType { overwriting.settings with maxFileSize := none } =
        .ok s ∧
      (s.transcriptFrom (fun _ _ => 1) 0).1.parts = parts ∧
      outputs overwriting twice parts =
        [(["out", "f"], Utf8.encode "long"), (["out", "f"], Utf8.encode "2")] ∧
      (runWith overwriting ["out/f"] twice).tree.file? ["out", "f"] = some (Utf8.encode "2") := by
  have hviews : ¬ Views overwriting := by
    unfold Views
    decide
  have hrooted : twice.Rooted := FileTree.rooted_of_nodes (by decide +kernel) (by decide +kernel)
  have hreaches : ReachesOutput overwriting twice := by
    rintro _ ⟨⟩
    exact ⟨[], [.name "out"], [], by decide +kernel, by decide, rfl⟩
  have hrooms : ∀ n i, 0 < (fun _ _ => 1 : Nat → Nat → Nat) n i := fun _ _ => Nat.one_pos
  have hexit : (runWith overwriting ["out/f"] twice).exitCode = 0 := by decide +kernel
  obtain ⟨htemps, source, contentType, place, s, hopens, hopen, hresult⟩ :=
    extraction_result hviews hrooted hreaches hrooms hexit
  refine ⟨hviews, hrooted, hreaches, hrooms, hexit, htemps, ?_⟩
  have houtputs : ((openBody twice overwriting.file).toOption.bind fun opened =>
      (contentTypeOf overwriting opened.1).1.toOption.bind fun contentType =>
        (Session.ofContentType? (contentTypeOf overwriting opened.1).2 contentType
          { overwriting.settings with maxFileSize := none }).toOption.map fun s =>
          (opened.2, outputs overwriting twice (s.transcriptFrom (fun _ _ => 1) 0).1.parts)) =
      some (["body"], [(["out", "f"], Utf8.encode "long"), (["out", "f"], Utf8.encode "2")]) := by
    decide +kernel
  obtain ⟨-, captured, hcaptured, htype⟩ := hopens
  simp only [hcaptured, htype, hopen, Except.toOption, Option.bind_some, Option.map_some,
    Option.some.injEq, Prod.mk.injEq] at houtputs
  obtain ⟨rfl, houtputs⟩ := houtputs
  obtain ⟨-, hfiles⟩ := hresult _ rfl (by rw [houtputs]; decide) (by rw [houtputs]; decide)
  refine ⟨source, contentType, _, s, _, ⟨rfl, captured, hcaptured, htype⟩, hopen, rfl, houtputs, ?_⟩
  rw [hfiles, houtputs]
  decide +kernel

/-- The file in the tree with the detour is not kept, though files may not be overwritten. -/
theorem detour_not_kept :
    detour.Rooted ∧
    (Arguments.parse ["body", "-d", "missing/../kept"]).toOption.map keepsExisting? =
      some (some "use -o to overwrite") ∧
    detour.file? ["kept", "f"] = some (Utf8.encode "old") ∧
    ((run ["body", "-d", "missing/../kept"] [] detour).toOption.map fun outcome =>
      (outcome.exitCode, outcome.tree.file? ["kept", "f"])) = some (0, some (Utf8.encode "new")) := by
  refine ⟨FileTree.rooted_of_nodes (by decide +kernel) (by decide +kernel), ?_, ?_, ?_⟩ <;>
    decide +kernel

end FormData.CommandLine
