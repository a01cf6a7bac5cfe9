/-
Where items are kept: a tree of files, a repository directory in it for temp files, and a registry
of the temp files that are alive. Temp files have names of their own, which no path spells, so they
are kept beside the tree by number; only the length of such a name counts. Once the depot is shut down
no new one is made.
-/
import FormData.Files.Tree

namespace FormData

structure Depot where
  tree : FileTree
  /-- The directory of the temp files. -/
  repository : String
  /-- The longest content that is kept in memory. -/
  threshold : Nat
  /-- The temp files there are, by number. -/
  temps : List (Nat × Bytes) := []
  /-- The temp files that belong to an item. -/
  tracked : List Nat := []
  isShutDown : Bool := false
  /-- How many temp files were made. -/
  issued : Nat := 0
  /-- Paths that no temp file can be renamed to, as those on other file systems. -/
  foreign : List String := []
  deriving DecidableEq, Repr

namespace Depot

def temp? (d : Depot) (id : Nat) : Option Bytes :=
  d.temps.lookup id

/-- The depot without one temp file and its registration. -/
def dropTemp (d : Depot) (id : Nat) : Depot :=
  { d with temps := d.temps.filter (·.1 != id), tracked := d.tracked.filter (· != id) }

/-- Writes a temp file, whether or not there is one. -/
def putTemp (d : Depot) (id : Nat) (content : Bytes) : Depot :=
  { d with temps := d.temps.filter (·.1 != id) ++ [(id, content)] }

/-- A name as temp files have it: a word, the number of the process, the time in nanoseconds, and how
many were made before. A path must have room for it. -/
def tempName (issued : Nat) : String :=
  "form-data-upload-00000-0000000000000000000-" ++ toString issued ++ ".tmp"

/-- Makes an empty temp file and registers it. -/
def newTemp (d : Depot) : Except Error Nat × Depot :=
  if d.isShutDown then (.error .repositoryClosed, d)
  else match d.tree.accepts d.repository (tempName d.issued) with
    | .error e => (.error (.io e), d)
    | .ok () =>
      (.ok d.issued,
        { d with
          temps := d.temps ++ [(d.issued, [])]
          tracked := d.tracked ++ [d.issued]
          issued := d.issued + 1 })

def removeTemp (d : Depot) (id : Nat) : Depot :=
  { d with temps := d.temps.filter (·.1 != id) }

def untrack (d : Depot) (id : Nat) : Depot :=
  { d with tracked := d.tracked.filter (· != id) }

/-- Renames a temp file to a path, if that can be done. -/
def renameTemp (d : Depot) (id : Nat) (path : String) : Option Depot :=
  if d.foreign.contains path then none
  else match d.temp? id with
    | none => none
    | some content =>
      match d.tree.writeFile path content with
      | .error _ => none
      | .ok tree => some { d.removeTemp id with tree }

/-- Copies a temp file to a path. -/
def copyTemp (d : Depot) (id : Nat) (path : String) : Except IoError Unit × Depot :=
  match d.temp? id with
  | none => (.error (.system .noSuchFile), d)
  | some content =>
    match d.tree.writeFile path content with
    | .error e => (.error e, d)
    | .ok tree => (.ok (), { d with tree })

/-- Moves a temp file to a path, where it is no longer one. What cannot be renamed is copied, and only
then removed; only a file that was moved is registered no longer. -/
def moveTemp (d : Depot) (id : Nat) (path : String) : Except IoError Unit × Depot :=
  match d.renameTemp id path with
  | some d => (.ok (), d.untrack id)
  | none =>
    match d.copyTemp id path with
    | (.error e, d) => (.error e, d)
    | (.ok (), d) => (.ok (), (d.removeTemp id).untrack id)

/-- Removes every registered temp file and makes no more. Tells how many files were removed. -/
def shutdown (d : Depot) : Nat × Depot :=
  let present := d.tracked.filter fun id => (d.temp? id).isSome
  (present.length,
    { d with
      temps := d.temps.filter fun t => !d.tracked.contains t.1
      tracked := []
      isShutDown := true })

end Depot

end FormData
