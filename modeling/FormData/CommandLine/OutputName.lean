/-
Output names for uploaded files. The sender chooses the file name, and may send a whole path with
separators of either kind; only its plain pieces are kept, so that the result is a relative path
that never leaves the directory it is put in.
-/
import FormData.Text.Cut

namespace FormData.OutputName

/-- Pieces that name a file or directory rather than a place relative to one. -/
def isPlain (piece : List Char) : Bool :=
  !(piece.isEmpty || piece == ['.'] || piece == ['.', '.'])

/-- The plain pieces of a file name, in order. -/
def plainPieces (fileName : List Char) : List (List Char) :=
  (Text.pieces '/' (fileName.map fun c => if c = '\\' then '/' else c)).filter isPlain

/-- Where an uploaded file goes: all pieces of its name, or only the last one. -/
def route? (fileName : String) (junkPaths : Bool) : Option (List String) :=
  let kept := plainPieces fileName.toList
  match if junkPaths then kept.getLast?.toList else kept with
  | [] => none
  | route => some (route.map String.ofList)

/-- The same as the text of a path. -/
def ofFileName? (fileName : String) (junkPaths : Bool) : Option String :=
  (route? fileName junkPaths).map (String.intercalate "/")

end FormData.OutputName
