/-
Decoders of file name parameters. Charset conversion and encoded words are the embedding
application's business, so a decoder is a value it supplies; the default one takes plain values as
they are and knows extended values in UTF-8 and US-ASCII.
-/
import FormData.FileName.Extended

namespace FormData.FileName

structure Decoder where
  plain : String → Except EncodingFault String := .ok
  extended : String → Except EncodingFault String := decodeExtended

/-- A file name parameter as it was sent. -/
structure Raw where
  value : String
  /-- Sent as `filename*`. -/
  isExtended : Bool
  deriving DecidableEq, Repr

/-- The file name a parameter stands for. A name with a NUL is refused. -/
def Decoder.decode (decoder : Decoder) (raw : Raw) : Except Error String :=
  match if raw.isExtended then decoder.extended raw.value else decoder.plain raw.value with
  | .error fault => .error (.encoding fault)
  | .ok name => if name.toList.contains '\x00' then .error (.fileName name) else .ok name

end FormData.FileName
