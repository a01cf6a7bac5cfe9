/-
What saving an uploaded file does. Whether its content is in memory or in a temp file, a file that is
saved is written to one place, below the directory that files are extracted to, once the directories
above that place are made; every other way saving it may end leaves the files of the tree alone
(`Saving`). The item is released whatever became of its file (`Saves`), so a visit leaves nothing of a
part behind but the tree (`Extracts`). A part that is only looked at leaves the depot alone altogether
(`visitPart_depot`).
-/
import FormData.Proofs.CommandLine.Visits
import FormData.Proofs.Depot.Writing

namespace FormData

/-! ## Items with their content -/

/-- The item holds this content, in memory if it is short, or in a temp file. -/
inductive Item.Holds (content : Bytes) (d : Depot) (i : Item) : Prop
  | memory : i.storage = .memory content → content.length ≤ d.threshold → Holds content d i
  | temp (id : Nat) : i.storage = .temp id → d.temp? id = some content → Holds content d i

namespace Item

variable {i i' : Item} {d d' : Depot} {content : Bytes} {path : String}

/-- Wherever the content is, writing it to a path is writing a file, and nothing else is left of it
once the item is released. -/
theorem Holds.writeTo_ok (h : i.Holds content d) (hw : i.writeTo d path = (.ok (), i', d')) :
    ∃ tree, d.tree.writeFile path content = .ok tree ∧ d'.tree = tree ∧
      i'.release d' = { i.release d with tree } ∧
      ∀ held, i'.storage = .memory held → i.storage = .memory content := by
  unfold writeTo at hw
  cases h with
  | memory hs hshort =>
    simp only [hs] at hw
    rcases hf : d.tree.writeFile path content with e | tree <;> simp only [hf] at hw <;> cases hw
    refine ⟨tree, rfl, rfl, ?_, fun _ _ => hs⟩
    unfold release
    rw [hs]
  | temp id hs ht =>
    simp only [hs, Depot.moveTemp_eq, ht] at hw
    rcases hf : d.tree.writeFile path content with e | tree <;> simp only [hf] at hw <;> cases hw
    refine ⟨tree, rfl, rfl, ?_, ?_⟩
    · unfold release
      rw [hs]
    · rintro held ⟨⟩

theorem Holds.withTree (h : i.Holds content d) (tree : FileTree) :
    i.Holds content { d with tree } := by
  cases h with
  | memory hs hshort => exact .memory hs hshort
  | temp id hs ht => exact .temp id hs ht

/-- Only short content is in memory. -/
theorem Holds.short (h : i.Holds content d) (hs : i.storage = .memory content) :
    content.length ≤ d.threshold := by
  cases h with
  | memory _ hshort => exact hshort
  | temp id hs' _ => cases hs.symm.trans hs'

/-- The tree of a depot does not matter to what a release removes. -/
theorem release_withTree (i : Item) (d : Depot) (tree : FileTree) :
    i.release { d with tree } = { i.release d with tree } := by
  unfold release
  split <;> rfl

theorem release_threshold (i : Item) (d : Depot) : (i.release d).threshold = d.threshold := by
  unfold release
  split <;> rfl

end Item

/-- A part that is kept yields the content that the item holds, and without the item the depot is as it
was. -/
theorem OpenPart.keep_holds {p q : OpenPart} {d d' : Depot} {item : Item}
    (hreading : p.session.phase = .reading) (hunfinished : p.isFinished = false) (hd : d.Numbered)
    {name : Option String} (hname : p.fileName = .ok name) (h : p.keep d = (.ok item, q, d')) :
    ∃ content, p.Yields content ∧ item.Holds content d' ∧ d'.tree = d.tree ∧
      d.Restored (item.release d') := by
  obtain ⟨content, hyields⟩ := yields_of_keep hreading hunfinished h
  refine ⟨content, hyields, ?_⟩
  obtain ⟨hshort, q', -, hkeep⟩ | ⟨-, -, q', -, hkeep⟩ | ⟨-, -, e, q', -, hkeep⟩ :=
    hyields.keep hname hd
  · cases h.symm.trans hkeep
    exact ⟨.memory rfl hshort, rfl, .refl _⟩
  · cases h.symm.trans hkeep
    exact ⟨.temp _ rfl (hd.temp?_withTemp content), rfl, hd.dropTemp_withTemp content⟩
  · cases h.symm.trans hkeep

namespace CommandLine

open FormData.Path (spell)

variable {a : Arguments} {r r' : Run} {s s' : Session} {i i' : Item} {t t' : FileTree} {content : Bytes}

/-! ## Where files are saved -/

/-- The directory that files are extracted to. -/
def outputBase (a : Arguments) (t : FileTree) : Place :=
  match a.extractDir with
  | some directory => spell (t.start (Path.ofText directory)) (Path.ofText directory).steps
  | none => t.here

theorem outputBase_eq (h : t'.here = t.here) : outputBase a t' = outputBase a t := by
  unfold outputBase FileTree.start
  rw [h]

/-- If the path of that directory goes up anywhere, it does so from a directory that is there. -/
def ReachesOutput (a : Arguments) (t : FileTree) : Prop :=
  ∀ directory ∈ a.extractDir, t.Reaches (Path.ofText directory)

/-- The path of an output name, as the steps to the directory of the output and the names below it. -/
theorem savePath_steps {fileName relative : String}
    (h : OutputName.ofFileName? fileName a.junkPaths = some relative) :
    ∃ names, OutputName.route? fileName a.junkPaths = some names ∧
      spell (t.start (Path.ofText (savePath a relative))) (Path.ofText (savePath a relative)).steps =
        outputBase a t ++ names ∧
      (ReachesOutput a t → t.Reaches (Path.ofText (savePath a relative))) := by
  obtain ⟨names, hroute, hrelative, hsteps⟩ := OutputName.steps_ofFileName? h
  -- the names only go down, so it is the directory's path that may go up
  have hdown : Path.Step.up ∉ names.map Path.Step.name := by
    intro hmem
    obtain ⟨name, -, hname⟩ := List.mem_map.1 hmem
    cases hname
  have hstart : (Path.ofText relative).isAbsolute = false := by
    rw [Path.isAbsolute_ofText, decide_eq_false hrelative]
  refine ⟨names, hroute, ?_⟩
  unfold savePath outputBase ReachesOutput
  rcases a.extractDir with _ | directory
  · have hhere : t.start (Path.ofText relative) = t.here := by
      unfold FileTree.start
      rw [hstart]
      rfl
    simp only
    rw [hsteps, hhere, Path.spell_names]
    exact ⟨rfl, fun _ => ⟨[], names.map .name, _, hsteps, hdown, rfl⟩⟩
  · obtain ⟨habsolute, hjoin⟩ := @Path.steps_join directory relative hrelative
    have hsame : t.start (Path.ofText (Path.join directory relative)) =
        t.start (Path.ofText directory) := by
      unfold FileTree.start
      rw [habsolute]
    simp only
    rw [hjoin, hsteps, hsame, Path.spell_append, Path.spell_names]
    refine ⟨rfl, fun hreaches => ?_⟩
    obtain ⟨before, after, q, hsplit, hup, hwalk⟩ := hreaches directory rfl
    refine ⟨before, after ++ names.map .name, q, ?_, ?_, by rw [hsame]; exact hwalk⟩
    · rw [hjoin, hsplit, hsteps, List.append_assoc]
    · rw [List.mem_append, not_or]
      exact ⟨hup, hdown⟩

/-! ## What saving comes to -/

/-- A file of this name is written at this place, once the directories above it are made. What was there
already may be overwritten. -/
structure Writes (a : Arguments) (fileName : String) (t made : FileTree) (relative : String)
    (place : Place) : Prop where
  name : OutputName.ofFileName? fileName a.junkPaths = some relative
  guard : t.exists? (savePath a relative) = true → keepsExisting? a = none
  make : t.makeDirectories (Path.ofText (savePath a relative)).parent = .ok made
  read : Path.read (savePath a relative) = .ok (Path.ofText (savePath a relative))
  target : made.target (Path.ofText (savePath a relative)) = .ok place

/-- The place is below the directory of the output, at the names that are left of the file name. -/
theorem Writes.place {fileName relative : String} {made : FileTree} {place : Place}
    (h : Writes a fileName t made relative place) :
    ∃ names, OutputName.route? fileName a.junkPaths = some names ∧ place = outputBase a t ++ names := by
  obtain ⟨names, hroute, hsteps, -⟩ := savePath_steps (t := t) h.name
  obtain ⟨front, name, hfront, rfl, -⟩ := FileTree.target_ok h.target
  refine ⟨names, hroute, ?_⟩
  rw [← hsteps, hfront, Path.spell_append, (FileTree.makeDirectories_founds h.make).grows.start]
  rfl

/-- What saving a file comes to: a result, and the tree then. -/
inductive Saving (a : Arguments) (fileName : String) (content : Bytes) (t : FileTree) :
    Except Failure Unit → FileTree → Prop
  /-- Nothing is left of the name. -/
  | unusable : OutputName.ofFileName? fileName a.junkPaths = none →
    Saving a fileName content t (.ok ()) t
  /-- Something is there, and stays. -/
  | spared (relative : String) : OutputName.ofFileName? fileName a.junkPaths = some relative →
    t.exists? (savePath a relative) = true → keepsExisting? a ≠ none →
    Saving a fileName content t (.ok ()) t
  /-- The directories above cannot be made. -/
  | blocked (f : Failure) : Saving a fileName content t (.error f) t
  /-- The directories above are made, and the file cannot be written. -/
  | refused (f : Failure) (relative : String) (made : FileTree) :
    OutputName.ofFileName? fileName a.junkPaths = some relative →
    t.makeDirectories (Path.ofText (savePath a relative)).parent = .ok made →
    Saving a fileName content t (.error f) made
  | saved (relative : String) (made : FileTree) (place : Place) :
    Writes a fileName t made relative place →
    Saving a fileName content t (.ok ()) (made.put place (.file content))

theorem Saving.here {fileName : String} {result : Except Failure Unit}
    (h : Saving a fileName content t result t') : t'.here = t.here := by
  cases h with
  | refused _ _ _ _ hmake => exact (FileTree.makeDirectories_founds hmake).here
  | saved _ _ _ hwrites => exact (FileTree.makeDirectories_founds hwrites.make).here
  | _ => rfl

@[simp] theorem Run.sayIf_depot (r : Run) (condition : Bool) (text : String) :
    (r.sayIf condition text).depot = r.depot := by
  unfold Run.sayIf
  split <;> rfl

@[simp] theorem Run.sayIf_body (r : Run) (condition : Bool) (text : String) :
    (r.sayIf condition text).body = r.body := by
  unfold Run.sayIf
  split <;> rfl

@[simp] theorem Run.warnIf_depot (r : Run) (condition : Bool) (text : String) :
    (r.warnIf condition text).depot = r.depot := by
  unfold Run.warnIf
  split <;> rfl

@[simp] theorem Run.warnIf_body (r : Run) (condition : Bool) (text : String) :
    (r.warnIf condition text).body = r.body := by
  unfold Run.warnIf
  split <;> rfl

/-! ## The body while files are saved -/

theorem followBody_depot (r : Run) (s : Session) (i : Item) (path : String) :
    (followBody r s i path).1.depot = r.depot := by
  unfold followBody
  split
  · split
    · split <;> rfl
    · rfl
  · rfl

theorem followBody_window (r : Run) (s : Session) (i : Item) (path : String) :
    ∃ window, (followBody r s i path).2 = { s with window } := by
  unfold followBody
  split
  · split
    · split
      · exact ⟨_, rfl⟩
      · exact ⟨_, rfl⟩
    · exact ⟨_, rfl⟩
  · exact ⟨_, rfl⟩

/-- A visit may rewrite the file that the body is read from. Unless it does, the session goes on as it
would have. -/
theorem followBody_session (r : Run) (s : Session) (i : Item) (path : String) :
    (∀ place ∈ (followBody r s i path).1.body, place ∈ r.body) ∧
      ((followBody r s i path).2 = s ∨
        (∃ content, i.storage = .memory content) ∧
          ∃ place ∈ r.body, place = spell (r.depot.tree.start (Path.ofText path)) (Path.ofText path).steps) := by
  unfold followBody
  split
  · rename_i place target node hbody hfind
    split
    · rename_i hplace
      split
      · rename_i held hstorage
        refine ⟨fun _ h => h, .inr ⟨⟨held, hstorage⟩, place, hbody, ?_⟩⟩
        obtain ⟨-, hfind'⟩ := FileTree.onPath_ok hfind
        rw [← hplace]
        exact (FileTree.find_ok hfind').1
      · exact ⟨nofun, .inl rfl⟩
    · exact ⟨fun _ h => h, .inl rfl⟩
  · exact ⟨fun _ h => h, .inl rfl⟩

/-- What saving an item comes to. The item is released in the end, whatever became of its file; and
unless the file that the body is read from is written over, the session goes on as it would have. -/
structure Saves (a : Arguments) (fileName : String) (content : Bytes) (r : Run) (s : Session) (i : Item)
    (x : Except Failure Unit × Run × Session × Item) : Prop where
  saving : ∃ tree, x.2.2.2.release x.2.1.depot = { i.release r.depot with tree } ∧
    Saving a fileName content r.depot.tree x.1 tree
  body : ∀ place ∈ x.2.1.body, place ∈ r.body
  window : ∃ window, x.2.2.1 = { s with window }
  session : x.2.2.1 = s ∨ i.storage = .memory content ∧
    ∃ made relative, ∃ place ∈ r.body, Writes a fileName r.depot.tree made relative place

theorem release_sameTree (i : Item) (d : Depot) : i.release d = { i.release d with tree := d.tree } := by
  rw [← Item.release_withTree]

theorem saveTo_saves (hi : i.Holds content r.depot) {fileName relative : String}
    (hname : OutputName.ofFileName? fileName a.junkPaths = some relative)
    (hguard : r.depot.tree.exists? (savePath a relative) = true → keepsExisting? a = none) (s : Session) :
    Saves a fileName content r s i (saveTo a r s i (savePath a relative)) := by
  unfold saveTo
  rcases hmake : r.depot.tree.makeDirectories (Path.ofText (savePath a relative)).parent with fault | made
  · exact ⟨⟨_, release_sameTree i r.depot, .blocked _⟩, fun _ h => h, ⟨_, rfl⟩, .inl rfl⟩
  · -- with the directories made, the item still holds its content
    have hi' := hi.withTree made
    simp only [Run.sayIf_depot]
    rcases hw : i.writeTo { r.depot with tree := made } (savePath a relative) with ⟨e | ⟨⟩, i₁, d₁⟩
    · obtain ⟨rfl, rfl⟩ := Item.writeTo_error hw
      refine ⟨⟨made, Item.release_withTree _ _ _, .refused _ relative made hname hmake⟩, ?_, ⟨_, rfl⟩, .inl rfl⟩
      rw [Run.sayIf_body]
      exact fun _ h => h
    · obtain ⟨tree, hwrite, htree, hrelease, hmemory⟩ := hi'.writeTo_ok hw
      obtain ⟨hread, place, htarget, rfl⟩ := FileTree.writeFile_ok hwrite
      have hwrites : Writes a fileName r.depot.tree made relative place :=
        ⟨hname, hguard, hmake, hread, htarget⟩
      -- the path leads to the same place as before the file was written
      have hplace : spell (d₁.tree.start (Path.ofText (savePath a relative)))
          (Path.ofText (savePath a relative)).steps = place := by
        obtain ⟨front, name, hfront, rfl, -⟩ := FileTree.target_ok htarget
        rw [htree, (FileTree.grows_written htarget content).start, hfront, Path.spell_append]
        rfl
      simp only
      refine ⟨⟨_, ?_, .saved relative made place hwrites⟩, fun body hbody => ?_, followBody_window _ _ _ _, ?_⟩
      · rw [followBody_depot]
        simp only
        rw [hrelease, Item.release_withTree]
      · have hsame := (followBody_session _ _ _ _).1 body hbody
        rwa [Run.sayIf_body] at hsame
      · refine (followBody_session _ _ _ _).2.imp_right ?_
        rintro ⟨⟨held, hheld⟩, body, hbody, rfl⟩
        simp only [hplace, Run.sayIf_body] at hbody
        exact ⟨hmemory held hheld, made, relative, place, hbody, hwrites⟩

theorem saveItem_saves (hi : i.Holds content r.depot) (s : Session) (field fileName : String) :
    Saves a fileName content r s i (saveItem a r s i field fileName) := by
  -- a warning leaves everything but the output as it is
  have hskips : ∀ {condition : Bool} {text : String},
      Saving a fileName content r.depot.tree (.ok ()) r.depot.tree →
      Saves a fileName content r s i (.ok (), r.warnIf condition text, s, i) := by
    intro condition text hsaving
    refine ⟨⟨_, ?_, hsaving⟩, ?_, ⟨_, rfl⟩, .inl rfl⟩
    · rw [Run.warnIf_depot]
      exact release_sameTree i r.depot
    · rw [Run.warnIf_body]
      exact fun _ h => h
  unfold saveItem
  rcases hname : OutputName.ofFileName? fileName a.junkPaths with _ | relative
  · exact hskips (.unusable hname)
  · by_cases hexists : r.depot.tree.exists? (savePath a relative) = true
    · simp only [hexists, if_true]
      rcases hkeeps : keepsExisting? a with _ | reason
      · exact saveTo_saves hi hname (fun _ => hkeeps) s
      · exact hskips (.spared relative hname hexists (by rw [hkeeps]; nofun))
    · simp only [if_neg hexists]
      exact saveTo_saves hi hname (fun h => absurd h hexists) s

/-! ## Uploads -/

/-- A part with such a head is an upload of this name, and its field is selected. -/
def Uploads (a : Arguments) (head : PartHead) (name : String) : Prop :=
  a.selects (head.field.getD "") = true ∧ head.fileName a.settings.decoder = .ok (some name) ∧
    name.isEmpty = false

/-- The route that the head of a part asks its content to be saved under, if it is an upload with a
usable name and its field is selected. -/
def upload? (a : Arguments) (head : PartHead) : Option (List String) :=
  if a.selects (head.field.getD "") then
    match head.fileName a.settings.decoder with
    | .ok (some name) => if name.isEmpty then none else OutputName.route? name a.junkPaths
    | _ => none
  else none

theorem Uploads.upload?_eq {head : PartHead} {name : String} (h : Uploads a head name) :
    upload? a head = OutputName.route? name a.junkPaths := by
  obtain ⟨hselects, hname, hnonempty⟩ := h
  unfold upload?
  rw [if_pos hselects, hname]
  exact if_neg (by rw [hnonempty]; exact Bool.false_ne_true)

theorem upload?_eq_none {head : PartHead} (h : ∀ name, ¬ Uploads a head name) : upload? a head = none := by
  unfold upload?
  split
  · rename_i hselects
    split
    · rename_i name hname
      split
      · rfl
      · rename_i hnonempty
        exact absurd ⟨hselects, hname, by simpa using hnonempty⟩ (h name)
    · rfl
  · rfl

/-- The place for an upload with such a head. -/
def place? (a : Arguments) (t : FileTree) (head : PartHead) : Option Place :=
  (upload? a head).map (outputBase a t ++ ·)

theorem Writes.place?_eq {head : PartHead} {name relative : String} {made : FileTree} {place : Place}
    (h : Writes a name t made relative place) (huploads : Uploads a head name) :
    place? a t head = some place := by
  obtain ⟨names, hroute, rfl⟩ := h.place
  unfold place?
  rw [huploads.upload?_eq, hroute]
  rfl

theorem place?_eq (h : t'.here = t.here) : place? a t' = place? a t := by
  funext head
  unfold place?
  rw [outputBase_eq h]

/-! ## What a visit leaves -/

/-- Nothing is left in the depot of what came in since: the tree may be another, and numbers may have
been given out. -/
def Leaves (d : Depot) (tree : FileTree) (d' : Depot) : Prop :=
  ∃ issued, d.issued ≤ issued ∧ d' = { d with issued, tree }

theorem leaves_withTree {d d' : Depot} (h : d.Restored d') (tree : FileTree) :
    Leaves d tree { d' with tree } := by
  obtain ⟨issued, hle, rfl⟩ := h
  exact ⟨issued, hle, rfl⟩

theorem leaves_of_restored {d d' : Depot} (h : d.Restored d') : Leaves d d.tree d' := by
  obtain ⟨issued, hle, rfl⟩ := h
  exact ⟨issued, hle, rfl⟩

theorem Leaves.trans {d d' d'' : Depot} {tree tree' : FileTree} (h : Leaves d tree d')
    (h' : Leaves d' tree' d'') : Leaves d tree' d'' := by
  obtain ⟨n, hn, rfl⟩ := h
  obtain ⟨m, hm, rfl⟩ := h'
  exact ⟨m, Nat.le_trans hn hm, rfl⟩

theorem Leaves.tree {d d' : Depot} {tree : FileTree} (h : Leaves d tree d') : d'.tree = tree := by
  obtain ⟨n, -, rfl⟩ := h
  rfl

theorem Leaves.threshold {d d' : Depot} {tree : FileTree} (h : Leaves d tree d') :
    d'.threshold = d.threshold := by
  obtain ⟨n, -, rfl⟩ := h
  rfl

theorem Leaves.numbered {d d' : Depot} {tree : FileTree} (h : Leaves d tree d') (hd : d.Numbered) :
    d'.Numbered := by
  obtain ⟨n, hn, rfl⟩ := h
  exact ⟨fun t ht => Nat.lt_of_lt_of_le (hd.temps t ht) hn,
    fun id hid => Nat.lt_of_lt_of_le (hd.tracked id hid) hn⟩

variable {p : OpenPart}

/-- What extracting a part leaves. It is kept and saved under its name; or there is no content to keep, or
no name to save it under, and the tree stays as it is. If its visit ends well, the session goes on as it would
have, unless the part is short and written over the file that the body is read from. -/
structure Extracts (a : Arguments) (r : Run) (p : OpenPart) (visit : Visit) : Prop where
  saved : ∃ tree, Leaves r.depot tree visit.2.1.depot ∧
    ((tree = r.depot.tree ∧
        (visit.1 = .ok () → ∀ content, p.Yields content → ∀ name, ¬ Uploads a p.head name)) ∨
      ∃ name content, Uploads a p.head name ∧ p.Yields content ∧
        Saving a name content r.depot.tree visit.1 tree)
  body : ∀ place ∈ visit.2.1.body, place ∈ r.body
  session : visit.1 = .ok () → visit.2.2.settings = p.session.settings ∧
    (p.session.Leaves visit.2.2 ∨ ∃ name content, Uploads a p.head name ∧ p.Yields content ∧
      content.length ≤ r.depot.threshold ∧
      ∃ made relative, ∃ place ∈ r.body, Writes a name r.depot.tree made relative place)

/-- A visit that saves nothing. -/
theorem extracts_nothing {visit : Visit} (hdepot : r.depot.Restored visit.2.1.depot)
    (hbody : visit.2.1.body = r.body)
    (hnone : visit.1 = .ok () → ∀ content, p.Yields content → ∀ name, ¬ Uploads a p.head name)
    (hleaves : visit.1 = .ok () → p.session.Leaves visit.2.2) : Extracts a r p visit where
  saved := ⟨_, leaves_of_restored hdepot, .inl ⟨rfl, hnone⟩⟩
  body := by
    rw [hbody]
    exact fun _ h => h
  session h := ⟨(hleaves h).settings_eq, .inl (hleaves h)⟩

theorem showField_depot (a : Arguments) (r : Run) (i : Item) (field : String) :
    (showField a r i field).2.depot = r.depot := by
  unfold showField
  split
  · rfl
  · split <;> rfl

theorem showField_body (a : Arguments) (r : Run) (i : Item) (field : String) :
    (showField a r i field).2.body = r.body := by
  unfold showField
  split
  · rfl
  · split <;> rfl

/-- A part that yields its content is not refused for its size. -/
theorem keep_not_fileSize {d d' : Depot} {e : Error} {q : OpenPart} {name : Option String}
    (hyields : p.Yields content) (hname : p.fileName = .ok name) (hd : d.Numbered)
    (hk : p.keep d = (.error e, q, d')) : ∀ field file limit actual, e ≠ .fileSize field file limit actual := by
  rintro field file limit actual rfl
  obtain ⟨-, q', -, hkeep⟩ | ⟨-, -, q', -, hkeep⟩ | ⟨-, -, e, q', hnew, hkeep⟩ := hyields.keep hname hd
  · cases hk.symm.trans hkeep
  · cases hk.symm.trans hkeep
  · cases hk.symm.trans hkeep
    unfold Depot.newTemp at hnew
    split at hnew
    · cases hnew
    · split at hnew <;> cases hnew

theorem extractPart_extracts (hdisk : p.session.OnDisk) (hreading : p.session.phase = .reading)
    (hunfinished : p.isFinished = false) (hd : r.depot.Numbered) (hsettings : p.session.settings = a.settings)
    (hselects : a.selects (p.head.field.getD "") = true) {fileName : Option String}
    (hname : p.fileName = .ok fileName) (field : String) :
    Extracts a r p (extractPart a r p field fileName) := by
  have hhead : p.head.fileName a.settings.decoder = .ok fileName := by
    rw [← hsettings]
    exact hname
  have hnamed : ∀ {name}, Uploads a p.head name → fileName = some name ∧ name.isEmpty = false := by
    rintro name ⟨-, hname', hnonempty⟩
    cases hhead.symm.trans hname'
    exact ⟨rfl, hnonempty⟩
  have hpasses := OpenPart.keep_passes (d := r.depot) hreading
  unfold extractPart
  rcases hk : p.keep r.depot with ⟨e | item, q, d⟩ <;> rw [hk] at hpasses
  · -- no content is kept: the part is above the limit on files, or the run ends
    have hrestored := OpenPart.keep_error hd hk
    simp only
    split
    · refine extracts_nothing ?_ ?_ (fun _ content hyields => ?_) fun _ => ?_
      · rw [Run.warnIf_depot]
        exact hrestored
      · rw [Run.warnIf_body]
      · exact absurd rfl (keep_not_fileSize hyields hname hd hk _ _ _ _)
      · exact hpasses (OpenPart.own_of_not_fatal hdisk.isFatal rfl)
    · exact extracts_nothing hrestored rfl nofun nofun
  · have hleaves : p.session.Leaves q.session := hpasses (OpenPart.own_ok item)
    obtain ⟨content, hyields, hholds, htree, hrestored⟩ :=
      OpenPart.keep_holds hreading hunfinished hd hname hk
    rcases fileName with _ | name
    · refine extracts_nothing ?_ ?_ (fun _ _ _ name hname => nomatch (hnamed hname).1) fun _ => hleaves
      · simp only
        rw [showField_depot]
        exact hrestored
      · simp only
        rw [showField_body]
    · by_cases hempty : name.isEmpty = true
      · simp only [hempty, if_true]
        refine extracts_nothing hrestored rfl (fun _ _ _ name' hname' => ?_) fun _ => hleaves
        obtain ⟨hsome, hnonempty⟩ := hnamed hname'
        cases hsome
        exact absurd hempty (by rw [hnonempty]; exact Bool.false_ne_true)
      · simp only [if_neg hempty]
        have huploads : Uploads a p.head name := ⟨hselects, hhead, by simpa using hempty⟩
        obtain ⟨⟨tree, hrelease, hsaving⟩, hbody, ⟨window, hwindow⟩, hsession⟩ :=
          saveItem_saves (a := a) (r := { r with depot := d }) hholds q.session field name
        simp only [htree] at hrelease hsaving hsession
        -- what is kept in memory depends on the threshold of the run, which the depot keeps
        have hthreshold : d.threshold = r.depot.threshold := by
          obtain ⟨issued, -, hd'⟩ := hrestored
          have hsame := congrArg Depot.threshold hd'
          rwa [Item.release_threshold] at hsame
        refine ⟨⟨tree, ?_, .inr ⟨name, content, huploads, hyields, hsaving⟩⟩, hbody, fun _ => ⟨?_, ?_⟩⟩
        · simp only [hrelease]
          exact leaves_withTree hrestored tree
        · exact (congrArg Session.settings hwindow).trans hleaves.settings_eq
        · simp only
          refine hsession.imp ?_ ?_
          · intro hsame
            rw [hsame]
            exact hleaves
          · rintro ⟨hmemory, made, relative, place, hplace, hwrites⟩
            exact ⟨name, content, huploads, hyields, hthreshold ▸ hholds.short hmemory, made, relative, place,
              hplace, hwrites⟩

theorem not_views (h : ¬ Views a) : (a.list || a.verbose) = false ∧ a.pipe = false := by
  unfold Views at h
  simpa [and_assoc] using h

/-- What a visit leaves when files are extracted. -/
theorem visitPart_extracts (hextracts : ¬ Views a) (hdisk : p.session.OnDisk)
    (hreading : p.session.phase = .reading) (hunfinished : p.isFinished = false) (hd : r.depot.Numbered)
    (hsettings : p.session.settings = a.settings) : Extracts a r p (visitPart a r p) := by
  obtain ⟨hlists, hpipes⟩ := not_views hextracts
  have hhead : p.head.fileName a.settings.decoder = p.fileName := by
    rw [← hsettings]
    rfl
  unfold visitPart
  simp only [hlists, hpipes, Bool.false_eq_true, if_false]
  by_cases hselects : a.selects (p.head.field.getD "") = true
  · rw [if_pos hselects]
    rcases hname : p.fileName with e | fileName
    · -- a name that cannot be decoded is none
      have hnone : ∀ name, ¬ Uploads a p.head name := by
        rintro name ⟨-, hname', -⟩
        cases (hname'.symm.trans hhead).trans hname
      simp only
      split
      · exact extracts_nothing (.refl _) rfl (fun _ _ _ => hnone) nofun
      · refine extracts_nothing ?_ ?_ (fun _ _ _ => hnone) fun _ => .refl _
        · rw [Run.warnIf_depot]
          exact .refl _
        · rw [Run.warnIf_body]
    · exact extractPart_extracts hdisk hreading hunfinished hd hsettings hselects hname _
  · rw [if_neg hselects]
    exact extracts_nothing (.refl _) rfl (fun _ _ _ _ huploads => hselects huploads.1) fun _ => .refl _

theorem nextPart_extracts (hextracts : ¬ Views a) (hdisk : s.OnDisk) (hpart : s.nextPart = .ok p)
    (hd : r.depot.Numbered) (hsettings : s.settings = a.settings) : Extracts a r p (visitPart a r p) :=
  visitPart_extracts hextracts (hdisk.part hpart) (Session.nextPart_reading hpart)
    (Session.nextPart_unread hpart).2 hd ((Session.nextPart_settings hpart).trans hsettings)

/-- What every file saved keeps, a visit keeps. -/
theorem Extracts.keeps {visit : Visit} {P : FileTree → Prop} (h : Extracts a r p visit)
    (hstep : ∀ {t t' fileName content result}, P t → Saving a fileName content t result t' → P t')
    (hP : P r.depot.tree) : ∃ tree, P tree ∧ Leaves r.depot tree visit.2.1.depot := by
  obtain ⟨tree, hleaves, ⟨rfl, -⟩ | ⟨name, content, -, -, hsaving⟩⟩ := h.saved
  · exact ⟨_, hP, hleaves⟩
  · exact ⟨tree, hstep hP hsaving, hleaves⟩

/-! ## Parts that are only looked at -/

theorem copyContent_depot (r : Run) (p : OpenPart) : (copyContent r p).2.1.depot = r.depot := by
  fun_induction copyContent r p with
  | case1 => rfl
  | case2 => rfl
  | case3 r p b bytes p' _ _ ih => exact ih

/-- A part that is listed or written to the output is not kept. -/
theorem visitPart_depot (hviews : Views a) (r : Run) (p : OpenPart) :
    (visitPart a r p).2.1.depot = r.depot := by
  unfold visitPart
  simp only
  split
  · split
    · split
      · rfl
      · exact Run.warnIf_depot _ _ _
    · split
      · unfold listPart
        split <;> rfl
      · rename_i hlists
        split
        · have hcopy := copyContent_depot
            (r.sayIf (showsMarkers a) ("--- " ++ p.head.field.getD "" ++ " ---")) p
          rw [Run.sayIf_depot] at hcopy
          unfold pipePart
          simp only
          split <;> rename_i hc <;> rw [hc] at hcopy
          · rwa [Run.sayIf_depot]
          · split
            · rwa [Run.sayIf_depot]
            · exact hcopy
        · rename_i hpipes
          simp only [Bool.or_eq_true, not_or] at hlists
          obtain hl | hv | hp := hviews
          · exact absurd hl hlists.1
          · exact absurd hv hlists.2
          · exact absurd hp hpipes
  · rfl

end CommandLine

end FormData
