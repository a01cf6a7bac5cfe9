/-
What the headers of a part say about it: its content type and length, the field it belongs to, the
file name it carries, and, for the type of a whole body, the boundary.
-/
import FormData.FileName.Decoder
import FormData.Header.Multimap
import FormData.Header.Parameters
import FormData.Number

namespace FormData

namespace Headers

def contentType? (h : Headers) : Option String :=
  h.get? "Content-Type"

/-- The declared content length, if it is a number. -/
def contentLength? (h : Headers) : Option Nat :=
  (h.get? "Content-Length").bind fun value => number? (Text.trim value.toList)

def disposition? (h : Headers) : Option Parameters :=
  (h.get? "Content-Disposition").map Parameters.parse

/-- The field name of a `form-data` disposition. -/
def fieldName? (h : Headers) : Option String :=
  h.disposition?.bind fun p =>
    if Text.sameName p.main "form-data" then
      (p.get? "name").map fun name => String.ofList (Text.trim name.toList)
    else none

/-- The file name parameter of a `form-data` or `attachment` disposition; the extended form wins. -/
def rawFileName? (h : Headers) : Option FileName.Raw :=
  h.disposition?.bind fun p =>
    if Text.sameName p.main "form-data" || Text.sameName p.main "attachment" then
      match p.get? "filename*" with
      | some value => some ⟨value, true⟩
      | none => (p.get? "filename").map fun value =>
        ⟨String.ofList (Text.trim value.toList), false⟩
    else none

end Headers

/-- The boundary that the content type of a multipart body names. -/
def boundaryOf (contentType : String) : Except ContentTypeFault Bytes :=
  let p := Parameters.parse contentType
  if "multipart/".toList.isPrefixOf (Text.lower p.main.toList) then
    match p.get? "boundary" with
    | some boundary => if boundary.isEmpty then .error .noBoundary else .ok (Utf8.encode boundary)
    | none => .error .noBoundary
  else .error (.notMultipart (String.ofList (Text.trim contentType.toList)))

end FormData
