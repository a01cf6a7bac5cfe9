/-
The modes that show a body without saving anything. On a body that decodes, a run that lists or pipes
is a fold over the parts (`visitParts_eq_foldl`): a part that is selected and whose name decodes
appends its row or its content, and any other part nothing. Rows and contents come from the same parts
in the same order, and the length in a row is that of the content (`modes_agree`).
-/
import FormData.Proofs.CommandLine.Visits
import FormData.Proofs.Session.Skipping

namespace FormData.CommandLine

/-! ## What is shown of a part -/

/-- One line of the output. -/
def line (text : String) : Bytes :=
  Utf8.encode text ++ [Bytes.lf]

/-- The field a part is selected by, empty if it has none. -/
def fieldOf (part : PartHead × Bytes) : String :=
  part.1.field.getD ""

/-- The parts that are shown: selected ones, with a name that decodes or without one. -/
def shows (a : Arguments) (part : PartHead × Bytes) : Bool :=
  a.selects (fieldOf part) && (part.1.fileName a.settings.decoder).toOption.isSome

/-- No part that is selected is above the limit on files. -/
def SelectedFit (a : Arguments) (parts : List (PartHead × Bytes)) : Prop :=
  ∀ part ∈ parts, a.selects (fieldOf part) → PartHead.Fits a.settings.maxFileSize part

/-- What is piped of a part. -/
def piped (a : Arguments) (part : PartHead × Bytes) : Bytes :=
  if showsMarkers a then line ("--- " ++ fieldOf part ++ " ---") ++ part.2 ++ line "" else part.2

/-- The row of a part in the table. -/
def tableRow (a : Arguments) (part : PartHead × Bytes) : Bytes :=
  line (row (toString part.2.length) (part.1.headers.contentType?.getD "-") (fieldOf part)
    ((part.1.fileName a.settings.decoder).toOption.join.getD ""))

/-- The sum of the lengths of contents. -/
def totalSize : List (PartHead × Bytes) → Nat
  | [] => 0
  | part :: parts => part.2.length + totalSize parts

/-- The table of these parts. -/
def table (a : Arguments) (parts : List (PartHead × Bytes)) : Bytes :=
  line (row "Length" "Type" "Field" "File") ++ line rule ++ parts.flatMap (tableRow a) ++
    line rule ++ line (row (toString (totalSize parts)) "" "" (toString parts.length ++ " parts"))

/-! ## Reading a table -/

def blanks (n : Nat) : List Char :=
  List.replicate n ' '

/-- A text in four columns, two blanks apart: a size at the right of ten places, a content type and a field
at the left of 24 and of 16, and a file. What is longer than its column is there in full. -/
structure Columns (size contentType field file text : String) : Prop where
  spells : ∃ left middle right,
    text.toList = blanks left ++ size.toList ++ blanks 2 ++ contentType.toList ++ blanks middle ++ blanks 2 ++
      field.toList ++ blanks right ++ blanks 2 ++ file.toList ∧
    left + size.length = max 10 size.length ∧
    contentType.length + middle = max 24 contentType.length ∧
    field.length + right = max 16 field.length

theorem row_columns (size contentType field file : String) :
    Columns size contentType field file (row size contentType field file) := by
  refine ⟨10 - size.length, 24 - contentType.length, 16 - field.length, ?_, by omega, by omega, by omega⟩
  simp [row, padLeft, padRight, blanks]

/-- The output is a table of these parts: below the names of the columns a row for each part, in their
order, with the length of its content first; at the end the sum of these lengths and the number of rows. -/
structure Tabulates (a : Arguments) (parts : List (PartHead × Bytes)) (output : Bytes) : Prop where
  rows : ∃ head rows foot, output = ([head, rule] ++ rows ++ [rule, foot]).flatMap line ∧
    Columns "Length" "Type" "Field" "File" head ∧
    List.Forall₂ (fun part => Columns (toString part.2.length) (part.1.headers.contentType?.getD "-")
      (fieldOf part) ((part.1.fileName a.settings.decoder).toOption.join.getD "")) parts rows ∧
    Columns (toString (totalSize parts)) "" "" (toString parts.length ++ " parts") foot

theorem table_tabulates (a : Arguments) (parts : List (PartHead × Bytes)) :
    Tabulates a parts (table a parts) := by
  refine ⟨_, parts.map fun part => row (toString part.2.length) (part.1.headers.contentType?.getD "-")
    (fieldOf part) ((part.1.fileName a.settings.decoder).toOption.join.getD ""), _, ?_, row_columns ..,
    ?_, row_columns ..⟩
  · simp [table, List.flatMap_map]
    rfl
  · exact List.forall₂_map_right_iff.2 (List.forall₂_same.2 fun _ _ => row_columns ..)

/-! ## Visits as a function of the parts -/

/-- The run after a part is listed. -/
def listed (a : Arguments) (r : Run) (part : PartHead × Bytes) (fileName : Option String) : Run :=
  let r := { r with listedSize := r.listedSize + part.2.length, listedParts := r.listedParts + 1 }
  r.say (if a.verbose then
      row (toString part.2.length) (part.1.headers.contentType?.getD "-") (fieldOf part)
        (fileName.getD "")
    else match fileName with
      | some name => fieldOf part ++ ": " ++ name
      | none => fieldOf part)

/-- The run after a part is viewed. -/
def view (a : Arguments) (r : Run) (part : PartHead × Bytes) : Run :=
  if a.selects (fieldOf part) then
    match part.1.fileName a.settings.decoder with
    | .error e => r.warnIf (!a.isVeryQuiet) (skipping (fieldOf part) e.message)
    | .ok fileName =>
      if a.list || a.verbose then listed a r part fileName
      else ((r.sayIf (showsMarkers a) ("--- " ++ fieldOf part ++ " ---")).write part.2).sayIf
        (showsMarkers a) ""
  else r

variable {a : Arguments} {r : Run} {p : OpenPart} {s : Session} {content : Bytes}
  {parts : List (PartHead × Bytes)}

/-- A part is piped as it is, by reads of whatever sizes. -/
theorem copyContent_yields (h : p.Yields content) :
    ∃ q, copyContent r p = (.ok (), r.write content, q) ∧ p.session.Leaves q.session := by
  fun_induction copyContent r p generalizing content with
  | case1 r p e p' hr =>
    obtain ⟨-, q, hr', -⟩ | ⟨b, bytes, rest, q, hr', -⟩ := h.read_cases OpenPart.stretch_pos
    · cases hr.symm.trans hr'
    · cases hr.symm.trans hr'
  | case2 r p p' hr =>
    obtain ⟨rfl, q, hr', hl⟩ | ⟨b, bytes, rest, q, hr', -⟩ := h.read_cases OpenPart.stretch_pos
    · cases hr.symm.trans hr'
      exact ⟨p', by simp [Run.write], hl⟩
    · cases hr.symm.trans hr'
  | case3 r p b bytes p' hr _ ih =>
    obtain ⟨-, q, hr', -⟩ | ⟨b, bytes, rest, q, hr', rfl, hq, -, hl⟩ := h.read_cases OpenPart.stretch_pos
    · cases hr.symm.trans hr'
    · cases hr.symm.trans hr'
      obtain ⟨q', hcopy, hl'⟩ := ih hq
      exact ⟨q', by rw [hcopy]; simp [Run.write], hl.trans hl'⟩

/-- A part is skipped with the length of its content, limit on files or not. -/
theorem skip_yields (h : (p.withFileLimit none).Yields content) :
    ∃ q, p.skip = (.ok content.length, q) ∧ q.head = p.head ∧ p.session.Leaves q.session := by
  have hout := p.skip_outcome
  have hunfinished : p.isFinished = false := h.unfinished
  obtain ⟨w, hd⟩ := h.ends
  have hskip : p.skip = (.ok content.length,
      { p with session := { p.session with window := w }, isFinished := true }) := by
    unfold OpenPart.skip OpenPart.discardRest
    rw [if_neg (by rw [hunfinished]; exact Bool.false_ne_true),
      show p.session.window.discard = (.ok content.length, w) from hd]
  rw [hskip] at hout
  exact ⟨_, hskip, rfl, hout⟩

/-- The visit of a part that is viewed, and that fits if its content is read. -/
theorem visitPart_eq_view (hviews : Views a) (h : (p.withFileLimit none).Yields content)
    (hunread : p.bytesRead = 0) (hsettings : p.session.settings = a.settings)
    (hfits : a.selects (fieldOf (p.head, content)) → PartHead.Fits a.settings.maxFileSize (p.head, content)) :
    ∃ t, visitPart a r p = (.ok (), view a r (p.head, content), t) ∧ p.session.Leaves t := by
  have hname : p.fileName = p.head.fileName a.settings.decoder := by rw [← hsettings]; rfl
  unfold visitPart view
  simp only
  by_cases hselects : a.selects (fieldOf (p.head, content))
  · rw [if_pos hselects, if_pos (show a.selects (p.head.field.getD "") from hselects), hname]
    rcases hdecode : p.head.fileName a.settings.decoder with e | fileName
    · simp only [OpenPart.fileName_error_not_fatal (hname.trans hdecode), Bool.false_eq_true, if_false]
      exact ⟨_, rfl, .refl _⟩
    · simp only
      by_cases hlists : a.list || a.verbose
      · obtain ⟨q, hskip, hhead, hleaves⟩ := skip_yields h
        simp only [hlists, if_true, listPart, hskip, hhead]
        exact ⟨_, rfl, hleaves⟩
      · have hpipe : a.pipe = true := by
          simp only [Bool.or_eq_true, not_or] at hlists
          obtain hl | hv | hp := hviews
          · exact absurd hl hlists.1
          · exact absurd hv hlists.2
          · exact hp
        have hyields := h.withFileLimit hunread (hsettings ▸ hfits hselects)
        obtain ⟨q, hcopy, hleaves⟩ := copyContent_yields (r := r.sayIf (showsMarkers a)
          ("--- " ++ fieldOf (p.head, content) ++ " ---")) hyields
        simp only [hlists, Bool.false_eq_true, if_false, hpipe, if_true, pipePart]
        rw [show p.head.field.getD "" = fieldOf (p.head, content) from rfl, hcopy]
        exact ⟨_, rfl, hleaves⟩
  · rw [if_neg hselects, if_neg (show ¬ a.selects (p.head.field.getD "") from hselects)]
    exact ⟨_, rfl, .refl _⟩

/-- By induction on the parts: a run that views them goes through all. -/
theorem visitParts_eq_foldl (hviews : Views a) (h : s.Decodes parts)
    (hsettings : s.settings = a.settings)
    (hfits : SelectedFit a parts) :
    visitParts a r s = (.ok (), parts.foldl (view a) r) := by
  induction parts generalizing s r with
  | nil =>
    cases h with
    | stop hend hphase => exact visitParts_end hend (hphase rfl)
  | cons part rest ih =>
    obtain ⟨head, content⟩ := part
    obtain ⟨p, hpart, rfl, hyields, hrest⟩ := h.first
    have hkept := (Session.nextPart_settings hpart).trans hsettings
    obtain ⟨t, hvisit, hleaves⟩ := visitPart_eq_view (r := r) hviews hyields
      (Session.nextPart_unread hpart).1 hkept (hfits _ List.mem_cons_self)
    rw [visitParts_visited hpart hvisit, List.foldl_cons]
    exact ih (hrest t hleaves) (hleaves.settings_eq.trans hkept)
      fun part hmem => hfits part (List.mem_cons_of_mem _ hmem)

/-! ## What the visits write -/

@[simp] theorem Run.say_stdout (r : Run) (text : String) : (r.say text).stdout = r.stdout ++ line text :=
  rfl

@[simp] theorem Run.say_listedSize (r : Run) (text : String) : (r.say text).listedSize = r.listedSize :=
  rfl

@[simp] theorem Run.say_listedParts (r : Run) (text : String) :
    (r.say text).listedParts = r.listedParts := rfl

@[simp] theorem Run.warnIf_stdout (r : Run) (condition : Bool) (text : String) :
    (r.warnIf condition text).stdout = r.stdout := by
  unfold Run.warnIf
  split <;> rfl

@[simp] theorem Run.warnIf_listedSize (r : Run) (condition : Bool) (text : String) :
    (r.warnIf condition text).listedSize = r.listedSize := by
  unfold Run.warnIf
  split <;> rfl

@[simp] theorem Run.warnIf_listedParts (r : Run) (condition : Bool) (text : String) :
    (r.warnIf condition text).listedParts = r.listedParts := by
  unfold Run.warnIf
  split <;> rfl

/-- The parts that are shown, one by one. -/
theorem filter_shows_cons (part : PartHead × Bytes) (parts : List (PartHead × Bytes)) :
    (part :: parts).filter (shows a) =
      (if shows a part then [part] else []) ++ parts.filter (shows a) := by
  rw [List.filter_cons]
  split <;> rfl

theorem view_piped (hlist : a.list = false) (hverbose : a.verbose = false) (r : Run)
    (part : PartHead × Bytes) :
    (view a r part).stdout = r.stdout ++ (if shows a part then [part] else []).flatMap (piped a) := by
  unfold view shows piped
  by_cases hselects : a.selects (fieldOf part)
  · simp only [hselects, if_true, Bool.true_and, hlist, hverbose, Bool.or_false, Bool.false_eq_true,
      if_false]
    rcases part.1.fileName a.settings.decoder with e | fileName
    · simp [Except.toOption]
    · cases showsMarkers a <;> simp [Except.toOption, Run.sayIf, Run.write]
  · simp [hselects]

/-- By induction on the parts. -/
theorem foldl_piped (hlist : a.list = false) (hverbose : a.verbose = false) (r : Run) :
    (parts.foldl (view a) r).stdout = r.stdout ++ (parts.filter (shows a)).flatMap (piped a) := by
  induction parts generalizing r with
  | nil => simp
  | cons part rest ih =>
    rw [List.foldl_cons, ih, view_piped hlist hverbose, filter_shows_cons, List.flatMap_append,
      List.append_assoc]

/-- The rows and the sums of these parts were added. -/
structure Tabled (a : Arguments) (r : Run) (parts : List (PartHead × Bytes)) (r' : Run) : Prop where
  stdout : r'.stdout = r.stdout ++ parts.flatMap (tableRow a)
  listedSize : r'.listedSize = r.listedSize + totalSize parts
  listedParts : r'.listedParts = r.listedParts + parts.length

theorem totalSize_append (parts more : List (PartHead × Bytes)) :
    totalSize (parts ++ more) = totalSize parts + totalSize more := by
  induction parts with
  | nil => rw [List.nil_append, totalSize, Nat.zero_add]
  | cons part parts ih => rw [List.cons_append, totalSize, totalSize, ih, Nat.add_assoc]

theorem Tabled.append {r' r'' : Run} {more : List (PartHead × Bytes)} (h : Tabled a r parts r')
    (hmore : Tabled a r' more r'') : Tabled a r (parts ++ more) r'' where
  stdout := by rw [hmore.stdout, h.stdout, List.flatMap_append, List.append_assoc]
  listedSize := by rw [hmore.listedSize, h.listedSize, totalSize_append, Nat.add_assoc]
  listedParts := by rw [hmore.listedParts, h.listedParts, List.length_append, Nat.add_assoc]

theorem view_tabled (hverbose : a.verbose = true) (r : Run) (part : PartHead × Bytes) :
    Tabled a r (if shows a part then [part] else []) (view a r part) := by
  unfold view shows
  by_cases hselects : a.selects (fieldOf part)
  · simp only [hselects, if_true, Bool.true_and, hverbose, Bool.or_true]
    rcases hname : part.1.fileName a.settings.decoder with e | fileName
    · simp only [Except.toOption, Option.isSome_none, Bool.false_eq_true, if_false]
      exact ⟨by simp, by simp [totalSize], by simp⟩
    · simp only [Except.toOption, Option.isSome_some, if_true]
      refine ⟨?_, ?_, ?_⟩
      · simp [listed, tableRow, hverbose, hname, Except.toOption]
      · simp [listed, totalSize]
      · simp [listed]
  · simp only [hselects, Bool.false_and, Bool.false_eq_true, if_false]
    exact ⟨by simp, by simp [totalSize], by simp⟩

/-- By induction on the parts. -/
theorem foldl_tabled (hverbose : a.verbose = true) (r : Run) (parts : List (PartHead × Bytes)) :
    Tabled a r (parts.filter (shows a)) (parts.foldl (view a) r) := by
  induction parts generalizing r with
  | nil => exact ⟨by simp, by simp [totalSize], by simp⟩
  | cons part rest ih =>
    rw [List.foldl_cons, filter_shows_cons]
    exact (view_tabled hverbose r part).append (ih _)

/-! ## The modes -/

/-- The arguments with which the parts are piped. -/
def piping (a : Arguments) : Arguments :=
  { a with list := false, verbose := false, pipe := true }

/-- The arguments with which a table of the parts is made, whatever is asked for besides. -/
def tabling (a : Arguments) (list pipe : Bool) : Arguments :=
  { a with list, verbose := true, pipe }

variable {source : Source} {contentType : String}

/-- A body on a disk that ends well in one mode decodes. -/
theorem decodes_of_processBody (hviews : Views a)
    (hdisk : ∀ e ∈ source.failures, ∃ fault, e = .io (.system fault))
    (h : (processBody a r source contentType).1 = .ok ()) :
    ∃ s parts, Session.ofContentType? source contentType a.settings = .ok s ∧ s.Decodes parts := by
  unfold processBody at h
  rcases hopen : Session.ofContentType? source contentType a.settings with e | s <;>
    simp only [hopen] at h
  · cases h
  · rcases hv : visitParts a (if a.verbose then tableHead r else r) s with ⟨f | ⟨⟩, r'⟩ <;> rw [hv] at h
    · cases h
    · obtain ⟨parts, hparts⟩ := decodes_of_visitParts hviews (Session.ofContentType?_onDisk hopen hdisk) hv
      exact ⟨s, parts, rfl, hparts⟩

theorem processBody_eq_foldl (hviews : Views a)
    (hopen : Session.ofContentType? source contentType a.settings = .ok s) (h : s.Decodes parts)
    (hfits : SelectedFit a parts) :
    processBody a r source contentType =
      (.ok (), if a.verbose then tableFoot (parts.foldl (view a) (tableHead r))
        else parts.foldl (view a) r) := by
  unfold processBody
  simp only [hopen]
  rw [visitParts_eq_foldl hviews h (Session.ofContentType?_settings hopen) hfits]
  cases a.verbose <;> rfl

theorem processBody_piping (hopen : Session.ofContentType? source contentType a.settings = .ok s)
    (h : s.Decodes parts)
    (hfits : SelectedFit a parts) :
    (processBody (piping a) r source contentType).1 = .ok () ∧
      (processBody (piping a) r source contentType).2.stdout =
        r.stdout ++ (parts.filter (shows a)).flatMap (piped a) := by
  rw [processBody_eq_foldl (a := piping a) (.inr (.inr rfl)) hopen h hfits]
  exact ⟨rfl, foldl_piped (a := piping a) rfl rfl r⟩

theorem processBody_tabling (list pipe : Bool)
    (hopen : Session.ofContentType? source contentType a.settings = .ok s) (h : s.Decodes parts)
    (hfits : SelectedFit a parts)
    (depot : Depot) (body : Option Place) :
    (processBody (tabling a list pipe) { depot, body } source contentType).1 = .ok () ∧
      (processBody (tabling a list pipe) { depot, body } source contentType).2.stdout =
        table a (parts.filter (shows a)) := by
  rw [processBody_eq_foldl (a := tabling a list pipe) (.inr (.inl rfl)) hopen h hfits]
  have hrows : Tabled a (tableHead { depot, body }) (parts.filter (shows a))
      (parts.foldl (view (tabling a list pipe)) (tableHead { depot, body })) := by
    obtain ⟨hstdout, hsize, hcount⟩ := foldl_tabled (a := tabling a list pipe) rfl
      (tableHead { depot, body }) parts
    exact ⟨hstdout, hsize, hcount⟩
  have hsize := hrows.listedSize
  have hcount := hrows.listedParts
  have hzero : (tableHead { depot, body }).listedSize = 0 := rfl
  have hnone : (tableHead { depot, body }).listedParts = 0 := rfl
  rw [hzero, Nat.zero_add] at hsize
  rw [hnone, Nat.zero_add] at hcount
  refine ⟨rfl, ?_⟩
  simp only [tabling, if_true, tableFoot, Run.say_stdout]
  rw [show parts.foldl (view { a with list, verbose := true, pipe }) (tableHead { depot, body }) =
    parts.foldl (view (tabling a list pipe)) (tableHead { depot, body }) from rfl, hrows.stdout, hsize, hcount]
  simp [table, tableHead]

/-- Piping and tabling agree on every part. Wherever a body on a disk comes from, and however it is cut
into reads, a run that ends well in one of the two modes has met parts that make up the whole body; unless a
selected part is above the limit on files, both runs end well, the one with the contents of the parts
that are shown, the other with a table of them: rows with the lengths of these contents, and their sum. A
run on a file ends well when it opens one and that is so. -/
theorem modes_agree (a : Arguments) (list pipe : Bool) {rooms : Nat → Nat → Nat}
    (hrooms : ∀ n i, 0 < rooms n i) :
    (∀ source contentType depot body, (∀ e ∈ source.failures, ∃ fault, e = .io (.system fault)) →
      (processBody (piping a) { depot, body } source contentType).1 = .ok () ∨
        (processBody (tabling a list pipe) { depot, body } source contentType).1 = .ok () →
      ∃ parts, Request.HasParts rooms source contentType { a.settings with maxFileSize := none } parts ∧
        (SelectedFit a parts →
          (processBody (piping a) { depot, body } source contentType).1 = .ok () ∧
          (processBody (piping a) { depot, body } source contentType).2.stdout =
            (parts.filter (shows a)).flatMap (piped a) ∧
          (processBody (tabling a list pipe) { depot, body } source contentType).1 = .ok () ∧
          Tabulates a (parts.filter (shows a))
            (processBody (tabling a list pipe) { depot, body } source contentType).2.stdout)) ∧
    ∀ foreign tree, (runWith (piping a) foreign tree).exitCode = 0 ∨
        (runWith (tabling a list pipe) foreign tree).exitCode = 0 →
      ∃ source contentType place parts, Opens a tree source contentType place ∧
        Request.HasParts rooms source contentType { a.settings with maxFileSize := none } parts ∧
        (SelectedFit a parts →
          (runWith (piping a) foreign tree).exitCode = 0 ∧
          (runWith (piping a) foreign tree).stdout = (parts.filter (shows a)).flatMap (piped a) ∧
          (runWith (tabling a list pipe) foreign tree).exitCode = 0 ∧
          Tabulates a (parts.filter (shows a)) (runWith (tabling a list pipe) foreign tree).stdout) := by
  have hbody : ∀ source contentType depot body, (∀ e ∈ source.failures, ∃ fault, e = .io (.system fault)) →
      (processBody (piping a) { depot, body } source contentType).1 = .ok () ∨
        (processBody (tabling a list pipe) { depot, body } source contentType).1 = .ok () →
      ∃ s parts, Session.ofContentType? source contentType a.settings = .ok s ∧ s.Decodes parts := by
    intro source contentType depot body hdisk hends
    obtain hends | hends := hends
    · exact decodes_of_processBody (a := piping a) (.inr (.inr rfl)) hdisk hends
    · exact decodes_of_processBody (a := tabling a list pipe) (.inr (.inl rfl)) hdisk hends
  refine ⟨?_, ?_⟩
  · intro source contentType depot body hdisk hends
    obtain ⟨s, parts, hopen, hparts⟩ := hbody source contentType depot body hdisk hends
    refine ⟨parts, (Request.hasParts_iff_decodes hrooms ..).2 ⟨s, hopen, hparts⟩, fun hfits => ?_⟩
    obtain ⟨hp, hpiped⟩ := processBody_piping (r := { depot, body }) hopen hparts hfits
    obtain ⟨ht, htable⟩ := processBody_tabling list pipe hopen hparts hfits depot body
    exact ⟨hp, hpiped, ht, htable ▸ table_tabulates a _⟩
  · intro foreign tree hends
    rw [runWith_exitCode, runWith_exitCode] at hends
    -- both runs read the same file, and go by the same content type
    obtain ⟨source, contentType, place, hopens⟩ : ∃ source contentType place,
        Opens a tree source contentType place := by
      obtain hends | hends := hends
      · obtain ⟨source, contentType, place, hopens⟩ := opens_of_rawRun hends
        exact ⟨source, contentType, place, hopens.congr rfl rfl⟩
      · obtain ⟨source, contentType, place, hopens⟩ := opens_of_rawRun hends
        exact ⟨source, contentType, place, hopens.congr rfl rfl⟩
    have hpipe : Opens (piping a) tree source contentType place := hopens.congr rfl rfl
    have htable : Opens (tabling a list pipe) tree source contentType place := hopens.congr rfl rfl
    rw [hpipe.rawRun_eq, htable.rawRun_eq] at hends
    obtain ⟨s, parts, hopen, hparts⟩ := hbody source contentType _ _ hopens.onDisk hends
    refine ⟨source, contentType, place, parts, hopens,
      (Request.hasParts_iff_decodes hrooms ..).2 ⟨s, hopen, hparts⟩, fun hfits => ?_⟩
    rw [runWith_exitCode, runWith_exitCode, runWith_stdout, runWith_stdout, hpipe.rawRun_eq,
      htable.rawRun_eq]
    obtain ⟨hp, hpiped⟩ := processBody_piping (r := { depot := _, body := _ }) hopen hparts hfits
    obtain ⟨ht, htable⟩ := processBody_tabling list pipe hopen hparts hfits _ _
    exact ⟨hp, hpiped, ht, htable ▸ table_tabulates a _⟩

/-- A field that ends like a delimiter begins, and an empty file. -/
def delimiterLike : FileTree where
  nodes := [(["body"], .file (Utf8.encode
    ("--B\r\nContent-Disposition: form-data; name=a\r\n\r\nx\r\n--\r\n--B\r\n" ++
      "Content-Disposition: form-data; name=b; filename=f\r\n\r\n\r\n--B--\r\n")))]

/-- The body in that tree, through a window of seven bytes. -/
def narrowly : Arguments where
  file := "body"
  bufferSize := 7

/-- The table of that body. -/
def delimiterLikeTable : String :=
  "    Length  Type                      Field             File\n" ++
  "----------------------------------------------------------------------\n" ++
  "         5  -                         a                 \n" ++
  "         0  -                         b                 f\n" ++
  "----------------------------------------------------------------------\n" ++
  "         5                                              2 parts\n"

theorem modes_agree_delimiterLike :
    (∀ n i, 0 < (fun _ _ => 1 : Nat → Nat → Nat) n i) ∧
    (runWith (piping narrowly) [] delimiterLike).exitCode = 0 ∧
    (runWith (piping narrowly) [] delimiterLike).stdout =
      Utf8.encode "--- a ---\nx\r\n--\n--- b ---\n\n" ∧
    (runWith (tabling narrowly true false) [] delimiterLike).stdout = Utf8.encode delimiterLikeTable ∧
    ∃ source contentType place parts, Opens narrowly delimiterLike source contentType place ∧
      Request.HasParts (fun _ _ => 1) source contentType
        { narrowly.settings with maxFileSize := none } parts ∧
      (runWith (piping narrowly) [] delimiterLike).stdout =
        (parts.filter (shows narrowly)).flatMap (piped narrowly) ∧
      (runWith (tabling narrowly true false) [] delimiterLike).exitCode = 0 ∧
      Tabulates narrowly (parts.filter (shows narrowly))
        (runWith (tabling narrowly true false) [] delimiterLike).stdout := by
  have hrun : (runWith (piping narrowly) [] delimiterLike).exitCode = 0 ∧
      (runWith (piping narrowly) [] delimiterLike).stdout =
        Utf8.encode "--- a ---\nx\r\n--\n--- b ---\n\n" ∧
      (runWith (tabling narrowly true false) [] delimiterLike).stdout = Utf8.encode delimiterLikeTable := by
    decide +kernel
  have hrooms : ∀ n i, 0 < (fun _ _ => 1 : Nat → Nat → Nat) n i := fun _ _ => Nat.one_pos
  refine ⟨hrooms, hrun.1, hrun.2.1, hrun.2.2, ?_⟩
  obtain ⟨source, contentType, place, parts, hopens, hparts, hagree⟩ :=
    (modes_agree narrowly true false hrooms).2 [] delimiterLike (.inl hrun.1)
  obtain ⟨-, hpiped, hexit, htable⟩ := hagree fun _ _ _ _ h => nomatch h
  exact ⟨source, contentType, place, parts, hopens, hparts, hpiped, hexit, htable⟩

end FormData.CommandLine
