/-
Everything that can go wrong while a body is taken apart or its parts are kept, by cause, with the
wording of each message. An error is fatal when the session cannot go on after it.
-/
import FormData.Text.Quoted
import FormData.Text.Utf8

namespace FormData

/-! ## Input and output -/

inductive IoKind where
  | notFound
  | alreadyExists
  | notADirectory
  | isADirectory
  | invalidFilename
  | invalidInput
  | connectionReset
  | timedOut
  | unexpectedEof
  | wouldBlock
  | other
  deriving DecidableEq, Repr

/-- The refusals of the file system. -/
inductive SystemFault where
  | noSuchFile
  | fileExists
  | notADirectory
  | isADirectory
  | nameTooLong
  deriving DecidableEq, Repr

namespace SystemFault

def kind : SystemFault → IoKind
  | noSuchFile => .notFound
  | fileExists => .alreadyExists
  | notADirectory => .notADirectory
  | isADirectory => .isADirectory
  | nameTooLong => .invalidFilename

def message : SystemFault → String
  | noSuchFile => "No such file or directory (os error 2)"
  | fileExists => "File exists (os error 17)"
  | notADirectory => "Not a directory (os error 20)"
  | isADirectory => "Is a directory (os error 21)"
  | nameTooLong => "File name too long (os error 36)"

end SystemFault

/-! ## Causes -/

inductive ContentTypeFault where
  /-- The type given is not `multipart/*`. -/
  | notMultipart (given : String)
  | noBoundary
  /-- In the words of a source. -/
  | described (text : String)
  deriving DecidableEq, Repr

inductive SettingsFault where
  | emptyBoundary
  /-- The window has `size` bytes and would need more than `need`. -/
  | smallWindow (size need : Nat)
  | described (text : String)
  deriving DecidableEq, Repr

inductive Malformation where
  | boundaryNotFound (boundary : Bytes)
  | noBoundaryHere
  | afterBoundary
  /-- The body ends where one more byte is due. -/
  | noMoreData
  /-- The body ends before the delimiter that ends a content. -/
  | endedEarly
  | setWithoutBoundary (field : String)
  | described (text : String)
  deriving DecidableEq, Repr

inductive EncodingFault where
  | notExtended (raw : String)
  | unknownCharset (charset : String)
  | badEscape (encoded : String)
  | notAscii
  | notUtf8
  /-- A decoder of the caller's refused the value. -/
  | refused (raw : String)
  deriving DecidableEq, Repr

mutual

/-- A failure of a transport or of the file system. -/
inductive IoError where
  | system (fault : SystemFault)
  | described (kind : IoKind) (text : String)
  /-- One that carries an error of a body, as the failures of a source do that reads from a part. -/
  | carrying (kind : IoKind) (error : Error)

inductive Error where
  | contentType (fault : ContentTypeFault)
  | settings (fault : SettingsFault)
  | malformed (fault : Malformation)
  | headerSize (limit actual : Nat)
  | requestSize (limit actual : Nat)
  | fileSize (field file : Option String) (limit actual : Nat)
  | partCount (limit : Nat)
  | fileName (name : String)
  | encoding (fault : EncodingFault)
  /-- There is no next part. -/
  | exhausted
  /-- An earlier fatal error ended the session. -/
  | aborted
  | repositoryClosed
  | io (error : IoError)

end

deriving instance DecidableEq, Repr for IoError, Error

def IoError.kind : IoError → IoKind
  | system fault => fault.kind
  | described kind _ => kind
  | carrying kind _ => kind

/-- The error that a failure is taken for: the one it carries, if it carries one. -/
def Error.ofIo : IoError → Error
  | .carrying _ error => error
  | failure => .io failure

/-- The error as it comes out at the other end of a reader, where it passes as a failure of reading. -/
def Error.crossed : Error → Error
  | .io failure => .ofIo failure
  | e => e

/-! ## Wording -/

open Text (quoted quotedOption)

namespace ContentTypeFault

def message : ContentTypeFault → String
  | notMultipart given => "expected multipart/*, got " ++ quoted given
  | noBoundary => "missing boundary parameter"
  | described text => text

end ContentTypeFault

namespace SettingsFault

def message : SettingsFault → String
  | emptyBoundary => "boundary must not be empty"
  | smallWindow size need =>
    "buffer size " ++ toString size ++ " must exceed boundary length + 4 (" ++ toString need ++ ")"
  | described text => text

end SettingsFault

namespace Malformation

def message : Malformation → String
  | boundaryNotFound boundary =>
    "boundary " ++ quoted (Utf8.lenient boundary) ++ " not found in request body"
  | noBoundaryHere => "expected a boundary at the current position"
  | afterBoundary => "unexpected characters follow a boundary"
  | noMoreData => "no more data is available"
  | endedEarly => "stream ended unexpectedly"
  | setWithoutBoundary field => "nested multipart part " ++ quoted field ++ " has no boundary"
  | described text => text

end Malformation

namespace EncodingFault

def message : EncodingFault → String
  | notExtended raw => "malformed extended value " ++ quoted raw
  | unknownCharset charset => "charset " ++ quoted charset ++ " is not supported"
  | badEscape encoded => "bad percent escape in " ++ quoted encoded
  | notAscii => "non-ASCII byte in US-ASCII value"
  | notUtf8 => "invalid UTF-8 in extended value"
  | refused raw => raw

end EncodingFault

/-- A name with each NUL shown as a backslash and a zero. -/
def Error.showNul (name : String) : String :=
  String.ofList (name.toList.flatMap fun c => if c = '\x00' then ['\\', '0'] else [c])

mutual

def IoError.message : IoError → String
  | .system fault => fault.message
  | .described _ text => text
  | .carrying _ error => error.message

def Error.message : Error → String
  | .contentType fault => "invalid multipart content type: " ++ fault.message
  | .settings fault => "invalid multipart configuration: " ++ fault.message
  | .malformed fault => "malformed multipart stream: " ++ fault.message
  | .headerSize limit actual =>
    "part header block exceeds " ++ toString limit ++ " bytes (read " ++ toString actual ++ ")"
  | .requestSize limit actual =>
    "request size " ++ toString actual ++ " exceeds the configured maximum of " ++
      toString limit ++ " bytes"
  | .fileSize field _ limit actual =>
    "field " ++ quotedOption field ++ " has size " ++ toString actual ++
      ", exceeding the configured maximum of " ++ toString limit ++ " bytes"
  | .partCount limit => "request has more than " ++ toString limit ++ " parts"
  | .fileName name => "invalid file name: " ++ Error.showNul name
  | .encoding fault => "unsupported header encoding: " ++ fault.message
  | .exhausted => "no more parts in this multipart stream"
  | .aborted => "multipart session was aborted by an earlier error"
  | .repositoryClosed => "temp file repository has been shut down"
  | .io error => "I/O error: " ++ error.message

end

/-- Errors that concern one part, or only say that there is none, leave the session usable; all
others end it. -/
def Error.isFatal : Error → Bool
  | .fileSize .. | .fileName _ | .encoding _ | .exhausted | .repositoryClosed => false
  | _ => true

end FormData
