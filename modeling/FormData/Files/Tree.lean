/-
A tree of directories and files, without links, and the operations on files that are needed here.
A path is followed step by step from the root or from the working directory: what it passes must
exist and be a directory. A file that cannot be opened is refused, and then nothing is changed.
-/
import FormData.Files.Path

namespace FormData

/-- The names from the root to a file or directory. -/
abbrev Place := List String

inductive FileTree.Node where
  | directory
  | file (content : Bytes)
  deriving DecidableEq, Repr

structure FileTree where
  /-- All but the root, which always is a directory. -/
  nodes : List (Place × FileTree.Node) := []
  /-- The working directory. -/
  here : Place := []
  deriving DecidableEq, Repr

namespace FileTree

/-! ## Nodes -/

def node? (t : FileTree) (place : Place) : Option Node :=
  if place.isEmpty then some .directory else t.nodes.lookup place

def putInto (place : Place) (node : Node) : List (Place × Node) → List (Place × Node)
  | [] => [(place, node)]
  | n :: ns => if n.1 = place then (place, node) :: ns else n :: putInto place node ns

def put (t : FileTree) (place : Place) (node : Node) : FileTree :=
  { t with nodes := putInto place node t.nodes }

def remove (t : FileTree) (place : Place) : FileTree :=
  { t with nodes := t.nodes.filter (·.1 != place) }

theorem lookup_putInto (place q : Place) (node : Node) (nodes : List (Place × Node)) :
    (putInto place node nodes).lookup q = if q = place then some node else nodes.lookup q := by
  induction nodes with
  | nil =>
    by_cases h : q = place
    · simp [putInto, h]
    · simp [putInto, List.lookup_cons, beq_false_of_ne h, h]
  | cons n ns ih =>
    obtain ⟨m, x⟩ := n
    by_cases hm : m = place
    · subst hm
      by_cases h : q = m
      · simp [putInto, h]
      · simp [putInto, List.lookup_cons, beq_false_of_ne h, h]
    · by_cases h : q = m
      · subst h
        simp [putInto, hm]
      · simp only [putInto, hm, if_false, List.lookup_cons, beq_false_of_ne h]
        exact ih

/-- Putting a node changes what is there, and nothing else. -/
theorem node?_put (t : FileTree) (place q : Place) (node : Node) (h : place ≠ []) :
    (t.put place node).node? q = if q = place then some node else t.node? q := by
  by_cases hq : q = []
  · subst hq
    simp [node?, Ne.symm h]
  · simp [node?, put, hq, lookup_putInto]

/-! ## Following a path -/

/-- Where the steps lead from a place. -/
def walk (t : FileTree) : Place → List Path.Step → Except SystemFault Place
  | place, [] => .ok place
  | place, step :: rest =>
    match t.node? place with
    | none => .error .noSuchFile
    | some (.file _) => .error .notADirectory
    | some .directory =>
      match step with
      | .stay => t.walk place rest
      | .up => t.walk place.dropLast rest
      | .name name =>
        if Path.maxName < name.utf8ByteSize then .error .nameTooLong
        else if (t.node? (place ++ [name])).isNone then .error .noSuchFile
        else t.walk (place ++ [name]) rest

def start (t : FileTree) (p : Path) : Place :=
  if p.isAbsolute then [] else t.here

/-- What a path leads to. -/
def find (t : FileTree) (p : Path) : Except SystemFault (Place × Node) :=
  match t.walk (t.start p) p.steps with
  | .error fault => .error fault
  | .ok place =>
    match t.node? place with
    | none => .error .noSuchFile
    | some (.file content) =>
      if p.isDirectory then .error .notADirectory else .ok (place, .file content)
    | some .directory => .ok (place, .directory)

/-- The directory that the last step of a path starts from, and that step. -/
def lastStep (t : FileTree) (p : Path) : Except SystemFault (Place × Option Path.Step) :=
  match p.steps.getLast? with
  | none => .ok (t.start p, none)
  | some step =>
    match t.walk (t.start p) p.steps.dropLast with
    | .error fault => .error fault
    | .ok place =>
      match t.node? place with
      | some .directory => .ok (place, some step)
      | some (.file _) => .error .notADirectory
      | none => .error .noSuchFile

/-- The place of a file that is opened for writing, and created if it is missing. -/
def target (t : FileTree) (p : Path) : Except SystemFault Place :=
  match t.lastStep p with
  | .error fault => .error fault
  | .ok (place, some (.name name)) =>
    if p.isDirectory then .error .isADirectory
    else if Path.maxName < name.utf8ByteSize then .error .nameTooLong
    else if t.node? (place ++ [name]) = some .directory then .error .isADirectory
    else .ok (place ++ [name])
  | .ok _ => .error .isADirectory

/-! ## Operations on files -/

def onPath (text : String) (f : Path → Except SystemFault α) : Except IoError α :=
  match Path.read text with
  | .error e => .error e
  | .ok p => match f p with
    | .error fault => .error (.system fault)
    | .ok a => .ok a

/-- Whether anything is there. -/
def exists? (t : FileTree) (path : String) : Bool :=
  (onPath path t.find).toOption.isSome

/-- The content of a file. -/
def contentOf (t : FileTree) (path : String) : Except IoError Bytes :=
  onPath path fun p => match t.find p with
    | .error fault => .error fault
    | .ok (_, .directory) => .error .isADirectory
    | .ok (_, .file content) => .ok content

/-- Writes a file, in place of its content if it exists. -/
def writeFile (t : FileTree) (path : String) (content : Bytes) : Except IoError FileTree :=
  onPath path fun p => match t.target p with
    | .error fault => .error fault
    | .ok place => .ok (t.put place (.file content))

/-- Copies a file over another. The copy is opened before the first byte is read, so a file that is
copied onto itself ends up empty. -/
def copyFile (t : FileTree) (source path : String) : Except IoError Unit × FileTree :=
  match t.contentOf source with
  | .error e => (.error e, t)
  | .ok _ =>
    match t.writeFile path [] with
    | .error e => (.error e, t)
    | .ok opened =>
      match opened.contentOf source with
      | .error e => (.error e, opened)
      | .ok content =>
        match opened.writeFile path content with
        | .error e => (.error e, opened)
        | .ok copied => (.ok (), copied)

/-- Whether a file of a new name can be made in a directory. -/
def accepts (t : FileTree) (directory name : String) : Except IoError Unit :=
  onPath (Path.join directory name) fun p => (t.lastStep p).map fun _ => ()

/-- Removes a file. -/
def removeFile (t : FileTree) (path : String) : Except IoError FileTree :=
  onPath path fun p => match t.find p with
    | .error fault => .error fault
    | .ok (_, .directory) => .error .isADirectory
    | .ok (place, .file _) => .ok (t.remove place)

/-! ## Directories -/

def isDirectory (t : FileTree) (p : Path) : Bool :=
  match t.find p with
  | .ok (_, .directory) => !p.isTooLong
  | _ => false

/-- Makes one directory, in one that exists. -/
def makeDirectory (t : FileTree) (p : Path) : Except SystemFault FileTree :=
  if p.isTooLong then .error .nameTooLong
  else match t.lastStep p with
    | .error fault => .error fault
    | .ok (place, some (.name name)) =>
      if Path.maxName < name.utf8ByteSize then .error .nameTooLong
      else if (t.node? (place ++ [name])).isSome then .error .fileExists
      else .ok (t.put (place ++ [name]) .directory)
    | .ok _ => .error .fileExists

/-- A directory that is there already is as good as one that was made. -/
def orExisting (t : FileTree) (p : Path) (fault : SystemFault) : Except SystemFault FileTree :=
  if t.isDirectory p then .ok t else .error fault

/-- Makes a directory and those above it that are missing. -/
def makeDirectories (t : FileTree) (p : Path) : Except SystemFault FileTree :=
  if p.steps = [] then .ok t
  else
    match t.makeDirectory p with
    | .ok made => .ok made
    | .error .noSuchFile =>
      if h1 : 1 < p.steps.length then
        have := Path.length_pieces_parent_lt h1
        match t.makeDirectories p.parent with
        | .error fault => .error fault
        | .ok above =>
          match above.makeDirectory p with
          | .ok made => .ok made
          | .error fault => above.orExisting p fault
      else .error .noSuchFile
    | .error fault => t.orExisting p fault
termination_by p.pieces.length

/-- All files, with their places. -/
def files (t : FileTree) : List (Place × Bytes) :=
  t.nodes.filterMap fun
    | (place, .file content) => some (place, content)
    | (_, .directory) => none

end FileTree

end FormData
