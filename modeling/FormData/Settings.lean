/-
The settings of a session and of the store its parts are kept in. Limits that are not set do not
bind.
-/
import FormData.Body.Window
import FormData.FileName.Decoder

namespace FormData

structure Settings where
  windowSize : Nat := Window.defaultCapacity
  /-- Items longer than this are kept in a temp file. -/
  memoryThreshold : Nat := 10240
  /-- The directory of the temp files. -/
  repository : String := "/tmp"
  maxRequestSize : Option Nat := none
  maxFileSize : Option Nat := none
  maxHeaderSize : Nat := 10240
  maxParts : Option Nat := none
  /-- Whether progress is reported. -/
  listening : Bool := false
  decoder : FileName.Decoder := {}

namespace Settings

def describeLimit : Option Nat → String
  | none => "None"
  | some limit => "Some(" ++ toString limit ++ ")"

/-- One line for logs and diagnostics. -/
def describe (s : Settings) : String :=
  "MultipartConfig \x7b buffer_size: " ++ toString s.windowSize ++
    ", memory_threshold: " ++ toString s.memoryThreshold ++
    ", repository: " ++ Text.quoted s.repository ++
    ", max_request_size: " ++ describeLimit s.maxRequestSize ++
    ", max_file_size: " ++ describeLimit s.maxFileSize ++
    ", max_header_size: " ++ toString s.maxHeaderSize ++
    ", max_parts: " ++ describeLimit s.maxParts ++
    ", progress: " ++ toString s.listening ++ ", .. \x7d"

end Settings

end FormData
