/-
The program. It shows a run the part of the disk that the run looks at, and carries out what the
run did: the run decides, this module reads and writes.
-/
import FormData.CommandLine.Run

namespace FormData.CommandLine

/-! ## What is on the disk -/

def placeText (place : Place) : String :=
  "/" ++ String.intercalate "/" place

/-- The code by which the system says that a directory is no file. -/
def directoryCode : UInt32 := 21

def probe (place : Place) : IO (Option FileTree.Node) := do
  try
    let content ← IO.FS.readBinFile (placeText place)
    return some (.file content.data.toList)
  catch
    | .inappropriateType _ code _ => return if code = directoryCode then some .directory else none
    | _ => return none

/-- The places that following the steps comes through. -/
def placesAlong (place : Place) : List Path.Step → List Place
  | [] => [place]
  | .stay :: rest => placesAlong place rest
  | .up :: rest => place :: placesAlong place.dropLast rest
  | .name name :: rest => place :: placesAlong (place ++ [name]) rest

/-- A part of the disk, and the places that were looked at. -/
structure Snapshot where
  tree : FileTree
  seen : List Place := []

/-- Looks at a place. Tells whether something new was found there. -/
def Snapshot.look (s : Snapshot) (place : Place) : IO (Bool × Snapshot) := do
  if place.isEmpty || s.seen.contains place then return (false, s)
  let s := { s with seen := place :: s.seen }
  match ← probe place with
  | some node => return (true, { s with tree := s.tree.put place node })
  | none => return (false, s)

def Snapshot.lookAll (s : Snapshot) (places : List Place) : IO (Bool × Snapshot) := do
  let mut s := s
  let mut found := false
  for place in places do
    let (new, next) ← s.look place
    s := next
    found := found || new
  return (found, s)

/-- Runs, and looks at every place the run would make something at; if something is there already,
runs again. -/
partial def settle (a : Arguments) (s : Snapshot) : IO (Outcome × Snapshot) := do
  let outcome := runWith a [] s.tree
  let (found, s) ← s.lookAll (outcome.tree.nodes.map (·.1))
  if found then settle a s else return (outcome, s)

/-! ## Carrying out a run -/

def makeNode (place : Place) : FileTree.Node → IO Unit
  | .directory => IO.FS.createDirAll (placeText place)
  | .file content => IO.FS.writeBinFile (placeText place) ⟨content.toArray⟩

def carryOut (before : FileTree) (o : Outcome) : IO Unit := do
  for (place, node) in o.tree.nodes do
    if before.node? place != some node then makeNode place node
  (← IO.getStdout).write ⟨o.stdout.toArray⟩
  (← IO.getStderr).write ⟨o.stderr.toArray⟩

def usageLine : String :=
  "Usage: formdata [OPTIONS] FILE [FIELDS]..."

def explain : Arguments.Usage → String
  | .unknownArgument => "an argument is not known"
  | .missingArgument => "the file to read is not given"
  | .conflict => "an argument is given twice, or two exclude each other"
  | .invalidValue => "a value is missing or empty"
  | .unreadableValue => "a value is not a number in range"
  | .tooManyValues => "a value is given where none is taken"
  | .help => "split a multipart/form-data body into its fields and files"
  | .version => "1.0.0"

def runMain (args : List String) : IO UInt32 := do
  match FormData.Arguments.parse args with
  | .error u =>
    IO.eprintln (explain u ++ "\n\n" ++ usageLine)
    return if u = .help ∨ u = .version then 0 else 2
  | .ok a =>
    let here := ((← IO.currentDir).toString.splitOn "/").filter (!·.isEmpty)
    let tree : FileTree := { here }
    let paths := [a.file, Path.join a.settings.repository "new"]
    let places := paths.flatMap fun text =>
      let p := Path.ofText text
      placesAlong (tree.start p) p.steps
    let above := (List.range here.length).map fun k => here.take (k + 1)
    let (_, s) ← ({ tree } : Snapshot).lookAll (above ++ places)
    let (outcome, s) ← settle a s
    carryOut s.tree outcome
    return UInt32.ofNat outcome.exitCode

end FormData.CommandLine

def main (args : List String) : IO UInt32 :=
  FormData.CommandLine.runMain args
