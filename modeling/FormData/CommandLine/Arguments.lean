/-
The arguments of the command line, and what they settle: the parser's settings, the content type
to go by, how much is said, and which fields are selected.
-/
import FormData.CommandLine.Glob
import FormData.Settings

namespace FormData

structure Arguments where
  /-- The captured body. -/
  file : String := ""
  /-- Fields to take, all if there are none. -/
  fields : List String := []
  list : Bool := false
  verbose : Bool := false
  pipe : Bool := false
  extractDir : Option String := none
  exclude : List String := []
  neverOverwrite : Bool := false
  overwrite : Bool := false
  junkPaths : Bool := false
  quiet : Nat := 0
  contentType : Option String := none
  boundary : Option String := none
  maxRequestSize : Option Nat := none
  maxFileSize : Option Nat := none
  maxHeaderSize : Nat := ({} : Settings).maxHeaderSize
  maxParts : Option Nat := none
  threshold : Nat := ({} : Settings).memoryThreshold
  tempDir : Option String := none
  bufferSize : Nat := ({} : Settings).windowSize
  deriving DecidableEq, Repr

namespace Arguments

/-- Whether the body is to be fetched from the network. -/
def isUrl (a : Arguments) : Bool :=
  "http://".toList.isPrefixOf a.file.toList || "https://".toList.isPrefixOf a.file.toList

def isQuiet (a : Arguments) : Bool :=
  0 < a.quiet || a.pipe

def isVeryQuiet (a : Arguments) : Bool :=
  1 < a.quiet

def settings (a : Arguments) : Settings :=
  let defaults : Settings := {}
  { windowSize := a.bufferSize
    memoryThreshold := a.threshold
    repository := a.tempDir.getD defaults.repository
    maxRequestSize := a.maxRequestSize
    maxFileSize := a.maxFileSize
    maxHeaderSize := a.maxHeaderSize
    maxParts := a.maxParts }

/-- The content type of a body with this boundary. -/
def formDataType (boundary : String) : String :=
  "multipart/form-data; boundary=" ++ boundary

/-- The content type given, or made from the boundary given. -/
def explicitContentType (a : Arguments) : Option String :=
  match a.contentType, a.boundary with
  | some contentType, _ => some contentType
  | none, some boundary => some (formDataType boundary)
  | none, none => none

/-- A field is taken if it is listed, or nothing is, and no exclusion covers it or occurs in it. -/
def selects (a : Arguments) (field : String) : Bool :=
  (a.fields.isEmpty || a.fields.any fun f =>
    if Glob.hasWildcard f.toList then Glob.covers f.toList field.toList else f == field) &&
  !a.exclude.any fun x => Text.occurs x.toList field.toList || Glob.covers x.toList field.toList

end Arguments

end FormData
