/-
The text of a header block: lines `name: value`, where a line that starts with a space or tab goes
on with the value before it and a line without a colon says nothing. Names and values come out
trimmed.
-/
import FormData.Header.Multimap
import FormData.Text.Blank
import FormData.Text.Utf8

namespace FormData.Headers

/-- A header whose continuation lines may still follow. -/
structure Open where
  name : List Char
  value : List Char
  deriving DecidableEq, Repr

/-- The lines of the block read so far. -/
structure Reading where
  done : Headers := {}
  current : Option Open := none
  deriving DecidableEq, Repr

namespace Reading

def close (r : Reading) : Headers :=
  match r.current with
  | some o => r.done.add (String.ofList o.name) (String.ofList o.value)
  | none => r.done

/-- Goes on with the value of the current header, after one space. -/
def fold (r : Reading) (line : List Char) : Reading :=
  { r with current := r.current.map fun o => { o with value := o.value ++ ' ' :: Text.trim line } }

/-- The header a line starts, if it has a colon and a name before it. -/
def header? (line : List Char) : Option Open :=
  match Text.cut? ':' line with
  | none => none
  | some (name, value) =>
    if (Text.trim name).isEmpty then none else some ⟨Text.trim name, Text.trim value⟩

def line (r : Reading) (line : List Char) : Reading :=
  match line with
  | [] => r
  | c :: _ =>
    if c = ' ' ∨ c = '\t' then r.fold line
    else ⟨r.close, header? line⟩

end Reading

/-- A line without the carriage return at its end. -/
def chopReturn (line : List Char) : List Char :=
  if line.getLast? = some '\r' then line.dropLast else line

/-- The headers of a block of text. -/
def ofText (text : List Char) : Headers :=
  ((Text.pieces '\n' text).map chopReturn).foldl Reading.line {} |>.close

/-- The text of a block: UTF-8, or one character a byte if it is not that. -/
def blockText (block : Bytes) : String :=
  (Utf8.decode? block).getD (Bytes.latin1 block)

/-- The headers of a raw block. -/
def ofBlock (block : Bytes) : Headers :=
  ofText (blockText block).toList

end FormData.Headers
