/-
Paths as they are spelled: names separated by slashes, with `.` for staying and `..` for going up.
Two spellings are the same path when they take the same steps, whatever file they lead to. What a
spelling has beyond its steps counts only for its length.
-/
import FormData.Error
import FormData.Text.Cut

namespace FormData

inductive Path.Step where
  | stay
  | up
  | name (text : String)
  deriving DecidableEq, Repr

structure Path where
  isAbsolute : Bool
  /-- What stands between the slashes behind the root, empty where two slashes meet. -/
  pieces : List String
  deriving DecidableEq, Repr

namespace Path

def Step.ofText (text : String) : Step :=
  if text = "." then .stay
  else if text = ".." then .up
  else .name text

def ofText (text : String) : Path :=
  match text.toList with
  | '/' :: cs => ⟨true, (Text.pieces '/' cs).map String.ofList⟩
  | cs => ⟨false, (Text.pieces '/' cs).map String.ofList⟩

def steps (p : Path) : List Step :=
  (p.pieces.filter (!·.isEmpty)).map Step.ofText

/-- Spelled with a slash at its end, as only a directory can be. -/
def isDirectory (p : Path) : Bool :=
  !p.steps.isEmpty && p.pieces.getLast? == some ""

/-- The length of the spelling, in bytes. -/
def length (p : Path) : Nat :=
  (if p.isAbsolute then "/" else "").utf8ByteSize + (String.intercalate "/" p.pieces).utf8ByteSize

/-- The steps that tell two paths apart: a step that stays counts only in front of a relative path. -/
def normalSteps (p : Path) : List Step :=
  match p.isAbsolute, p.steps with
  | false, .stay :: rest => .stay :: rest.filter (· != .stay)
  | _, steps => steps.filter (· != .stay)

/-- Whether two spellings are the same path. -/
def same (a b : String) : Bool :=
  let p := ofText a
  let q := ofText b
  p.isAbsolute == q.isAbsolute && p.normalSteps == q.normalSteps

/-- The path of a name below a directory; an absolute name stands for itself. -/
def join (directory name : String) : String :=
  if name.toList.head? = some '/' || directory.isEmpty then name
  else if directory.toList.getLast? = some '/' then directory ++ name
  else directory ++ "/" ++ name

/-- A piece that leads nowhere. -/
def isIdle (piece : String) : Bool :=
  piece.isEmpty || piece == "."

/-- The pieces without the idle ones at their end. -/
def trimIdle (pieces : List String) : List String :=
  (pieces.reverse.dropWhile isIdle).reverse

/-- The pieces without the last that leads somewhere. -/
def above (pieces : List String) : List String :=
  trimIdle (trimIdle pieces).dropLast

/-- The path without its last step, spelled as before up to there. A first piece that stays is kept
in a relative path. -/
def parent (p : Path) : Path :=
  match p.pieces with
  | [] => p
  | first :: rest =>
    if p.isAbsolute = false ∧ first = "." then { p with pieces := first :: above rest }
    else { p with pieces := above (first :: rest) }

theorem length_trimIdle_le (pieces : List String) : (trimIdle pieces).length ≤ pieces.length := by
  have := (List.dropWhile_sublist isIdle (l := pieces.reverse)).length_le
  simpa [trimIdle] using this

theorem length_above_le (pieces : List String) : (above pieces).length ≤ pieces.length - 1 := by
  have h1 := length_trimIdle_le (trimIdle pieces).dropLast
  have h2 := length_trimIdle_le pieces
  simp only [List.length_dropLast] at h1
  simp only [above]
  omega

theorem length_steps_le (p : Path) : p.steps.length ≤ p.pieces.length := by
  simpa [steps] using List.length_filter_le (fun piece => !piece.isEmpty) p.pieces

/-- Above a path of more than one step there are fewer pieces. -/
theorem length_pieces_parent_lt {p : Path} (h : 1 < p.steps.length) :
    p.parent.pieces.length < p.pieces.length := by
  have hs := length_steps_le p
  unfold parent
  split
  · rename_i hp
    simp only [hp, List.length_nil] at hs
    omega
  · rename_i first rest hp
    have h1 := length_above_le rest
    have h2 := length_above_le (first :: rest)
    simp only [hp, List.length_cons] at hs h2 ⊢
    split
    · simp only [List.length_cons]
      omega
    · simp only
      omega

/-- The longest name and the longest path a file system takes, in bytes. -/
def maxName : Nat := 255

def maxLength : Nat := 4095

def isTooLong (p : Path) : Bool :=
  maxLength < p.length

/-- The path a text spells, if a file system takes it. -/
def read (text : String) : Except IoError Path :=
  if text.toList.contains '\x00' then
    .error (.described .invalidInput "file name contained an unexpected NUL byte")
  else if text.isEmpty then .error (.system .noSuchFile)
  else if maxLength < text.utf8ByteSize then .error (.system .nameTooLong)
  else .ok (ofText text)

end Path

end FormData
