/-
The grammar of the arguments. One-letter options without a value may share a dash; the last one of
such a cluster may take a value, which is what is left of the argument or else the next one. The
values of an option are looked at only when the next option or field starts, so an unknown option
behind a bad value is the error that counts. Behind two dashes nothing is an option.
-/
import FormData.CommandLine.Arguments
import FormData.Number

namespace FormData.Arguments

/-! ## The options -/

/-- Options without a value. -/
inductive Switch where
  | list
  | verbose
  | pipe
  | neverOverwrite
  | overwrite
  | junkPaths
  | quiet
  | help
  | version
  deriving DecidableEq, Repr

/-- What takes values. -/
inductive Slot where
  | file
  | fields
  | extractDir
  | exclude
  | contentType
  | boundary
  | maxRequestSize
  | maxFileSize
  | maxHeaderSize
  | maxParts
  | threshold
  | tempDir
  | bufferSize
  deriving DecidableEq, Repr

inductive Name where
  | switch (s : Switch)
  | slot (s : Slot)
  deriving DecidableEq, Repr

def shortName? : Char → Option Name
  | 'l' => some (.switch .list)
  | 'v' => some (.switch .verbose)
  | 'p' => some (.switch .pipe)
  | 'n' => some (.switch .neverOverwrite)
  | 'o' => some (.switch .overwrite)
  | 'j' => some (.switch .junkPaths)
  | 'q' => some (.switch .quiet)
  | 'h' => some (.switch .help)
  | 'V' => some (.switch .version)
  | 'd' => some (.slot .extractDir)
  | 'x' => some (.slot .exclude)
  | 't' => some (.slot .contentType)
  | 'b' => some (.slot .boundary)
  | _ => none

def longName? (name : String) : Option Name :=
  match name with
  | "help" => some (.switch .help)
  | "version" => some (.switch .version)
  | "content-type" => some (.slot .contentType)
  | "boundary" => some (.slot .boundary)
  | "max-request-size" => some (.slot .maxRequestSize)
  | "max-file-size" => some (.slot .maxFileSize)
  | "max-header-size" => some (.slot .maxHeaderSize)
  | "max-parts" => some (.slot .maxParts)
  | "threshold" => some (.slot .threshold)
  | "temp-dir" => some (.slot .tempDir)
  | "buffer-size" => some (.slot .bufferSize)
  | _ => none

/-- Why arguments are refused, or that they ask for a text instead of a run. -/
inductive Usage where
  | unknownArgument
  | missingArgument
  | conflict
  /-- A value is missing, or empty where it must not be. -/
  | invalidValue
  /-- A value is no number in range. -/
  | unreadableValue
  | tooManyValues
  | help
  | version
  deriving DecidableEq, Repr

/-! ## One option after another -/

/-- Where the grammar stands between two arguments. -/
structure Reading where
  parsed : Arguments := {}
  /-- Options that occurred and may not occur again. -/
  seen : List Name := []
  /-- An option or field and its values so far, not looked at yet. -/
  waiting : Option (Slot × List String) := none
  /-- Whether the next argument may be a value of what waits. -/
  wantsValue : Bool := false
  /-- Whether two dashes went by. -/
  isTrailing : Bool := false
  hasFile : Bool := false
  deriving DecidableEq, Repr

namespace Reading

/-- Notes an option that may occur once. -/
def once (r : Reading) (name : Name) : Except Usage Reading :=
  if r.seen.contains name then .error .conflict else .ok { r with seen := name :: r.seen }

def pathValue (value : String) : Except Usage String :=
  if value.isEmpty then .error .invalidValue else .ok value

def numberValue (value : String) : Except Usage Nat :=
  match number? value.toList with
  | some n => .ok n
  | none => .error .unreadableValue

/-- Puts one value into its place. -/
def setValue (a : Arguments) (slot : Slot) (value : String) : Except Usage Arguments :=
  match slot with
  | .file => .ok { a with file := value }
  | .fields => .ok { a with fields := a.fields ++ [value] }
  | .exclude => .ok { a with exclude := a.exclude ++ [value] }
  | .contentType => .ok { a with contentType := some value }
  | .boundary => .ok { a with boundary := some value }
  | .extractDir => (pathValue value).map fun v => { a with extractDir := some v }
  | .tempDir => (pathValue value).map fun v => { a with tempDir := some v }
  | .maxRequestSize => (numberValue value).map fun v => { a with maxRequestSize := some v }
  | .maxFileSize => (numberValue value).map fun v => { a with maxFileSize := some v }
  | .maxHeaderSize => (numberValue value).map fun v => { a with maxHeaderSize := v }
  | .maxParts => (numberValue value).map fun v => { a with maxParts := some v }
  | .threshold => (numberValue value).map fun v => { a with threshold := v }
  | .bufferSize => (numberValue value).map fun v => { a with bufferSize := v }

/-- Slots that may be filled again. -/
def isRepeatable : Slot → Bool
  | .fields | .exclude => true
  | _ => false

/-- Takes the values of an option or field. -/
def fillSlot (r : Reading) (slot : Slot) (values : List String) : Except Usage Reading := do
  if values.isEmpty then .error .invalidValue
  let r ← if isRepeatable slot then pure r else r.once (.slot slot)
  let parsed ← values.foldlM (fun a value => setValue a slot value) r.parsed
  pure { r with parsed }

/-- Looks at what waits. -/
def settle (r : Reading) : Except Usage Reading :=
  match r.waiting with
  | none => .ok r
  | some (slot, values) => ({ r with waiting := none } : Reading).fillSlot slot values

/-- What a switch changes. Saying quiet again makes it quieter, up to 255 times. -/
def raise (a : Arguments) : Switch → Arguments
  | .list => { a with list := true }
  | .verbose => { a with verbose := true }
  | .pipe => { a with pipe := true }
  | .neverOverwrite => { a with neverOverwrite := true }
  | .overwrite => { a with overwrite := true }
  | .junkPaths => { a with junkPaths := true }
  | .quiet => { a with quiet := min (a.quiet + 1) 255 }
  | .help | .version => a

/-- Takes an option without a value. -/
def takeSwitch (r : Reading) (s : Switch) : Except Usage Reading := do
  let r ← r.settle
  match s with
  | .help => .error .help
  | .version => .error .version
  | .quiet => pure { r with parsed := raise r.parsed s, wantsValue := false }
  | _ =>
    let r ← r.once (.switch s)
    pure { r with parsed := raise r.parsed s, wantsValue := false }

/-- Takes an option that has its value attached. -/
def attach (r : Reading) (slot : Slot) (value : String) : Except Usage Reading := do
  let r ← r.settle
  let r ← r.fillSlot slot [value]
  pure { r with wantsValue := false }

/-- Takes an option whose values are to follow. -/
def await (r : Reading) (slot : Slot) : Except Usage Reading := do
  let r ← r.settle
  pure { r with waiting := some (slot, []), wantsValue := true }

/-- A value of the option that waits. Only exclusions take more than one. -/
def takeValue (r : Reading) (value : String) : Except Usage Reading :=
  .ok { r with
    waiting := r.waiting.map fun (slot, values) => (slot, values ++ [value])
    wantsValue := match r.waiting with
      | some (.exclude, _) => true
      | _ => false }

/-- An argument that is neither option nor value: the file, then fields. -/
def takePositional (r : Reading) (value : String) : Except Usage Reading :=
  if r.hasFile then
    match r.waiting with
    | some (.fields, values) =>
      .ok { r with waiting := some (.fields, values ++ [value]), wantsValue := false }
    | _ => do
      let r ← r.settle
      pure { r with waiting := some (.fields, [value]), wantsValue := false }
  else do
    let r ← r.settle
    pure { r with waiting := some (.file, [value]), wantsValue := false, hasFile := true }

/-- The letters behind one dash. -/
def cluster (r : Reading) : List Char → Except Usage Reading
  | [] => .ok r
  | c :: rest =>
    match shortName? c with
    | none => .error .unknownArgument
    | some (.switch s) => do
      let r ← r.takeSwitch s
      cluster r rest
    | some (.slot slot) =>
      match rest with
      | [] => r.await slot
      | '=' :: value => r.attach slot (String.ofList value)
      | value => r.attach slot (String.ofList value)

/-- The text behind two dashes. -/
def longOption (r : Reading) (text : List Char) : Except Usage Reading :=
  let (name, value) := match Text.cut? '=' text with
    | some (name, value) => (name, some (String.ofList value))
    | none => (text, none)
  match longName? (String.ofList name), value with
  | none, _ => .error .unknownArgument
  | some (.switch s), none => r.takeSwitch s
  | some (.switch _), some _ => .error .tooManyValues
  | some (.slot slot), some value => r.attach slot value
  | some (.slot slot), none => r.await slot

/-- Takes the next argument. -/
def argument (r : Reading) (arg : String) : Except Usage Reading :=
  if r.isTrailing then r.takePositional arg
  else match arg.toList with
    | ['-', '-'] => .ok { r with isTrailing := true }
    | '-' :: '-' :: text => r.longOption text
    | '-' :: c :: rest => r.cluster (c :: rest)
    | _ => if r.wantsValue then r.takeValue arg else r.takePositional arg

/-- What must hold of all arguments together. -/
def finish (r : Reading) : Except Usage Arguments := do
  let r ← r.settle
  if r.seen.contains (.slot .boundary) && r.seen.contains (.slot .contentType) then
    .error .conflict
  if r.hasFile then pure r.parsed else .error .missingArgument

end Reading

/-- Reads the arguments of a call, without the name of the program. -/
def parse (args : List String) : Except Usage Arguments := do
  let r ← args.foldlM Reading.argument {}
  r.finish

end FormData.Arguments
