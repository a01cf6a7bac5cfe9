/-
A run of the command line on a tree of files: it lists the parts of a captured body, writes their
content to the output, or saves the uploaded files and shows the form fields. The run is a function
of the arguments and the tree, and gives the exit code, both outputs, the tree as it is then and the temp
files that are left.
-/
import FormData.CommandLine.Grammar
import FormData.CommandLine.OutputName
import FormData.Item

namespace FormData.CommandLine

/-! ## Outcomes -/

/-- Why a run stops early. -/
inductive Failure where
  | parser (error : Error)
  /-- A refusal of the file system that does not concern an item. -/
  | files (error : IoError)
  | noBoundary
  | noNetwork
  deriving DecidableEq, Repr

namespace Failure

def message : Failure → String
  | parser error => error.message
  | files error => error.message
  | noBoundary => "Could not detect the multipart boundary; pass -b or -t"
  | noNetwork => "Bodies are not fetched from the network; pass a file"

/-- The cause behind the message, where there is one. -/
def cause? : Failure → Option String
  | parser (.io error) => some error.message
  | _ => none

/-- What is said about a failure at the end of a run. -/
def report (f : Failure) : String :=
  "Error: " ++ f.message ++ "\n" ++ match f.cause? with
    | some cause => "\nCaused by:\n    " ++ cause ++ "\n"
    | none => ""

end Failure

structure Outcome where
  exitCode : Nat
  stdout : Bytes
  stderr : Bytes
  tree : FileTree
  /-- The temp files left. -/
  temps : List (Nat × Bytes)
  deriving DecidableEq, Repr

/-- The state of a run between two parts. -/
structure Run where
  stdout : Bytes := []
  stderr : Bytes := []
  depot : Depot
  /-- Sum of the sizes listed. -/
  listedSize : Nat := 0
  listedParts : Nat := 0
  /-- The file that the body is read from, as long as it is the one that has that name. -/
  body : Option Place := none
  deriving DecidableEq, Repr

namespace Run

def write (r : Run) (bytes : Bytes) : Run :=
  { r with stdout := r.stdout ++ bytes }

def say (r : Run) (line : String) : Run :=
  r.write (Utf8.encode line ++ [Bytes.lf])

def warn (r : Run) (line : String) : Run :=
  { r with stderr := r.stderr ++ Utf8.encode line ++ [Bytes.lf] }

def sayIf (r : Run) (condition : Bool) (line : String) : Run :=
  if condition then r.say line else r

def warnIf (r : Run) (condition : Bool) (line : String) : Run :=
  if condition then r.warn line else r

end Run

/-! ## Layout -/

def padLeft (width : Nat) (text : String) : String :=
  String.ofList (List.replicate (width - text.length) ' ') ++ text

def padRight (width : Nat) (text : String) : String :=
  text ++ String.ofList (List.replicate (width - text.length) ' ')

/-- A row of the table of parts. -/
def row (size contentType field file : String) : String :=
  padLeft 10 size ++ "  " ++ padRight 24 contentType ++ "  " ++ padRight 16 field ++ "  " ++ file

def rule : String :=
  String.ofList (List.replicate 70 '-')

/-- What is said of a part that is passed over. -/
def skipping (name reason : String) : String :=
  "Skipping: " ++ name ++ " (" ++ reason ++ ")"

/-! ## One part -/

/-- What visiting a part results in. -/
abbrev Visit := Except Failure Unit × Run × Session

def listPart (a : Arguments) (r : Run) (p : OpenPart) (field : String) (fileName : Option String) :
    Visit :=
  match p.skip with
  | (.error e, p) => (.error (.parser e), r, p.session)
  | (.ok size, p) =>
    let r := { r with listedSize := r.listedSize + size, listedParts := r.listedParts + 1 }
    let line := if a.verbose then
        row (toString size) (p.head.headers.contentType?.getD "-") field (fileName.getD "")
      else match fileName with
        | some name => field ++ ": " ++ name
        | none => field
    (.ok (), r.say line, p.session)

/-- Copies what is left of a part to the output. -/
def copyContent (r : Run) (p : OpenPart) : Except Error Unit × Run × OpenPart :=
  match h : p.read OpenPart.stretch with
  | (.error e, p') => (.error e, r, p')
  | (.ok [], p') => (.ok (), r, p')
  | (.ok (b :: bytes), p') =>
    have := OpenPart.read_left_lt h
    copyContent (r.write (b :: bytes)) p'
termination_by p.session.left

/-- Parts are set apart unless exactly one field was asked for by name. -/
def showsMarkers (a : Arguments) : Bool :=
  match a.fields with
  | [f] => Glob.hasWildcard f.toList
  | _ => true

def pipePart (a : Arguments) (r : Run) (p : OpenPart) (field : String) : Visit :=
  let r := r.sayIf (showsMarkers a) ("--- " ++ field ++ " ---")
  match copyContent r p with
  | (.ok (), r, p) => (.ok (), r.sayIf (showsMarkers a) "", p.session)
  | (.error e, r, p) =>
    match e.crossed with
    | .fileSize .. => (.ok (), r.sayIf (showsMarkers a) "", p.session)
    | e => (.error (.parser e), r, p.session)

/-- The session after an item was written to a path. If that is the file the body is read from, a
file moved there replaces it and the one being read goes on without a name; content written there
takes its place, and since it is part of what was read, nothing is left to read behind it. -/
def followBody (r : Run) (s : Session) (i : Item) (path : String) : Run × Session :=
  match r.body, FileTree.onPath path r.depot.tree.find with
  | some place, .ok (target, _) =>
    if target = place then
      match i.storage with
      | .memory _ =>
        let feed := { s.window.feed with source := s.window.feed.source.cutShort }
        (r, { s with window := { s.window with feed } })
      | _ => ({ r with body := none }, s)
    else (r, s)
  | _, _ => (r, s)

/-- Where an uploaded file is saved. -/
def savePath (a : Arguments) (relative : String) : String :=
  match a.extractDir with
  | some directory => Path.join directory relative
  | none => relative

/-- Why a file that exists is left alone, unless it may be overwritten. -/
def keepsExisting? (a : Arguments) : Option String :=
  if a.neverOverwrite then some "file exists"
  else if a.overwrite then none
  else some "use -o to overwrite"

/-- Saves an uploaded file, after making the directories it goes to. -/
def saveTo (a : Arguments) (r : Run) (s : Session) (i : Item) (path : String) :
    Except Failure Unit × Run × Session × Item :=
  match r.depot.tree.makeDirectories (Path.ofText path).parent with
  | .error fault => (.error (.files (.system fault)), r, s, i)
  | .ok tree =>
    let r := { r with depot := { r.depot with tree } }
    let r := r.sayIf (!a.isQuiet) ("  extracting: " ++ path)
    match i.writeTo r.depot path with
    | (.error e, i, depot) => (.error (.parser e), { r with depot }, s, i)
    | (.ok (), i, depot) =>
      let (r, s) := followBody { r with depot } s i path
      (.ok (), r, s, i)

/-- Saves an uploaded file under the name it was sent with, if that is usable and free. -/
def saveItem (a : Arguments) (r : Run) (s : Session) (i : Item) (field fileName : String) :
    Except Failure Unit × Run × Session × Item :=
  match OutputName.ofFileName? fileName a.junkPaths with
  | none =>
    let reason := "unusable file name " ++ Text.quoted fileName
    (.ok (), r.warnIf (!a.isVeryQuiet) (skipping field reason), s, i)
  | some relative =>
    let path := savePath a relative
    match if r.depot.tree.exists? path then keepsExisting? a else none with
    | some reason => (.ok (), r.warnIf (!a.isQuiet) (skipping path reason), s, i)
    | none => saveTo a r s i path

/-- Shows the value of a form field. -/
def showField (a : Arguments) (r : Run) (i : Item) (field : String) : Except Failure Unit × Run :=
  if a.isQuiet then (.ok (), r)
  else match i.text r.depot with
    | .error e => (.error (.parser e), r)
    | .ok value => (.ok (), r.say ("  field: " ++ field ++ " = " ++ value))

/-- Takes a part out of the body: a form field is shown, an uploaded file saved. A file input that
was left empty has an empty name. -/
def extractPart (a : Arguments) (r : Run) (p : OpenPart) (field : String)
    (fileName : Option String) : Visit :=
  match p.keep r.depot with
  | (.error e, p, depot) =>
    let r := { r with depot }
    match e with
    | .fileSize .. =>
      (.ok (), r.warnIf (!a.isVeryQuiet) (skipping field e.message), p.session)
    | _ => (.error (.parser e), r, p.session)
  | (.ok item, p, depot) =>
    let r := { r with depot }
    match fileName with
    | none =>
      let (result, r) := showField a r item field
      (result, { r with depot := item.release r.depot }, p.session)
    | some name =>
      if name.isEmpty then (.ok (), { r with depot := item.release r.depot }, p.session)
      else
        let (result, r, s, item) := saveItem a r p.session item field name
        (result, { r with depot := item.release r.depot }, s)

/-- Visits one part. -/
def visitPart (a : Arguments) (r : Run) (p : OpenPart) : Visit :=
  let field := p.head.field.getD ""
  if a.selects field then
    match p.fileName with
    | .error e =>
      if e.isFatal then (.error (.parser e), r, p.session)
      else (.ok (), r.warnIf (!a.isVeryQuiet) (skipping field e.message), p.session)
    | .ok fileName =>
      if a.list || a.verbose then listPart a r p field fileName
      else if a.pipe then pipePart a r p field
      else extractPart a r p field fileName
  else (.ok (), r, p.session)

/-! ## Visits come to an end -/

theorem left_copyContent_le (r : Run) (p : OpenPart) :
    (copyContent r p).2.2.session.left ≤ p.session.left := by
  fun_induction copyContent r p with
  | case1 r p e p' h =>
    have := OpenPart.left_read_le p OpenPart.stretch
    rwa [h] at this
  | case2 r p p' h =>
    have := OpenPart.left_read_le p OpenPart.stretch
    rwa [h] at this
  | case3 r p b bytes p' h hlt ih => exact Nat.le_trans ih (Nat.le_of_lt hlt)

theorem left_listPart_le (a : Arguments) (r : Run) (p : OpenPart) (field : String)
    (fileName : Option String) : (listPart a r p field fileName).2.2.left ≤ p.session.left := by
  have := OpenPart.left_skip_le p
  unfold listPart
  split <;> (rename_i h; rw [h] at this; exact this)

theorem left_pipePart_le (a : Arguments) (r : Run) (p : OpenPart) (field : String) :
    (pipePart a r p field).2.2.left ≤ p.session.left := by
  have := left_copyContent_le (r.sayIf (showsMarkers a) ("--- " ++ field ++ " ---")) p
  unfold pipePart
  simp only
  split
  · rename_i h
    rw [h] at this
    exact this
  · rename_i h
    rw [h] at this
    split <;> exact this

theorem left_followBody_le (r : Run) (s : Session) (i : Item) (path : String) :
    (followBody r s i path).2.left ≤ s.left := by
  unfold followBody
  split
  · split
    · split
      · refine Session.left_le_of_phase ?_ rfl
        have := Source.cutShort_pending_le s.window.feed.source
        simp only [Session.pending, Window.pending, List.length_append]
        omega
      · exact Nat.le_refl _
    · exact Nat.le_refl _
  · exact Nat.le_refl _

theorem left_saveItem_le (a : Arguments) (r : Run) (s : Session) (i : Item)
    (field fileName : String) : (saveItem a r s i field fileName).2.2.1.left ≤ s.left := by
  unfold saveItem
  split
  · exact Nat.le_refl _
  · simp only
    split
    · exact Nat.le_refl _
    · unfold saveTo
      split
      · exact Nat.le_refl _
      · simp only
        split
        · exact Nat.le_refl _
        · exact left_followBody_le _ _ _ _

theorem left_extractPart_le (a : Arguments) (r : Run) (p : OpenPart) (field : String)
    (fileName : Option String) : (extractPart a r p field fileName).2.2.left ≤ p.session.left := by
  have h1 := OpenPart.left_keep_le p r.depot
  unfold extractPart
  split
  · rename_i h
    rw [h] at h1
    simp only
    split <;> exact h1
  · rename_i h
    rw [h] at h1
    simp only
    split
    · exact h1
    · split
      · exact h1
      · exact Nat.le_trans (left_saveItem_le _ _ _ _ _ _) h1

theorem left_visitPart_le (a : Arguments) (r : Run) (p : OpenPart) :
    (visitPart a r p).2.2.left ≤ p.session.left := by
  unfold visitPart
  simp only
  split
  · split
    · split <;> exact Nat.le_refl _
    · split
      · exact left_listPart_le _ _ _ _ _
      · split
        · exact left_pipePart_le _ _ _ _
        · exact left_extractPart_le _ _ _ _ _
  · exact Nat.le_refl _

/-! ## All parts -/

/-- Visits the parts that are left, up to the first failure. -/
def visitParts (a : Arguments) (r : Run) (s : Session) : Except Failure Unit × Run :=
  match h : s.next with
  | .ended _ => (.ok (), r)
  | .failed e _ => (.error (.parser e), r)
  | .part p =>
    match hv : visitPart a r p with
    | (.error f, r, _) => (.error f, r)
    | (.ok (), r', s') =>
      have : s'.left < s.left := by
        have h1 := left_visitPart_le a r p
        rw [hv] at h1
        exact Nat.lt_of_le_of_lt h1 (Session.next_left_lt h)
      visitParts a r' s'
termination_by s.left

/-- The head of the table of parts. -/
def tableHead (r : Run) : Run :=
  (r.say (row "Length" "Type" "Field" "File")).say rule

/-- The sums below the table of parts. -/
def tableFoot (r : Run) : Run :=
  (r.say rule).say (row (toString r.listedSize) "" "" (toString r.listedParts ++ " parts"))

/-- Takes the body of a source apart. -/
def processBody (a : Arguments) (r : Run) (source : Source) (contentType : String) :
    Except Failure Unit × Run :=
  match Session.ofContentType? source contentType a.settings with
  | .error e => (.error (.parser e), r)
  | .ok s =>
    match visitParts a (if a.verbose then tableHead r else r) s with
    | (.error f, r) => (.error f, r)
    | (.ok (), r) => (.ok (), if a.verbose then tableFoot r else r)

/-- The content type to go by: the one given, or one made from the boundary the body shows. -/
def contentTypeOf (a : Arguments) (source : Source) : Except Failure String × Source :=
  match a.explicitContentType with
  | some contentType => (.ok contentType, source)
  | none =>
    match source.sniffBoundary with
    | (.error e, source) => (.error (.files e), source)
    | (.ok none, source) => (.error .noBoundary, source)
    | (.ok (some boundary), source) =>
      (.ok (Arguments.formDataType (Utf8.lenient boundary)), source)

/-- The source for a captured body, and its place. -/
def openBody (tree : FileTree) (path : String) : Except IoError (Source × Place) :=
  FileTree.onPath path fun p => (tree.find p).map fun
    | (place, .file content) => (Source.ofFile content, place)
    | (place, .directory) => (Source.ofDirectory, place)

/-- What a run does between reading the arguments and cleaning up. -/
def runBody (a : Arguments) (r : Run) : Except Failure Unit × Run :=
  if a.isUrl then (.error .noNetwork, r)
  else match openBody r.depot.tree a.file with
    | .error e => (.error (.files e), r)
    | .ok (source, place) =>
      match contentTypeOf a source with
      | (.error f, _) => (.error f, r)
      | (.ok contentType, source) =>
        processBody a { r with body := some place } source contentType

/-- The depot that a run begins with. To the foreign paths no temp file can be renamed, as the directory of
the temp files may lie on a file system of its own. -/
def startingDepot (a : Arguments) (foreign : List String) (tree : FileTree) : Depot :=
  { tree, repository := a.settings.repository, threshold := a.settings.memoryThreshold, foreign }

/-- Runs with arguments that were read. Whatever happened, the temp files are cleaned up. -/
def runWith (a : Arguments) (foreign : List String) (tree : FileTree) : Outcome :=
  let (result, r) := runBody a { depot := startingDepot a foreign tree }
  let depot := r.depot.shutdown.2
  match result with
  | .ok () => ⟨0, r.stdout, r.stderr, depot.tree, depot.temps⟩
  | .error f => ⟨1, r.stdout, r.stderr ++ Utf8.encode f.report, depot.tree, depot.temps⟩

/-- Runs the command line. -/
def run (args : List String) (foreign : List String) (tree : FileTree) : Except Arguments.Usage Outcome :=
  (Arguments.parse args).map fun a => runWith a foreign tree

end FormData.CommandLine
