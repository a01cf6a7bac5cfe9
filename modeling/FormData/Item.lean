/-
Items, the parts whose content was read to the end and kept. Content up to the threshold of the
depot stays in memory; the first stretch that would pass it moves everything to a temp file, which
goes when the item does, or becomes an ordinary file when the item is written somewhere.
-/
import FormData.Depot
import FormData.Session

namespace FormData

/-- Where the content of an item is. -/
inductive Storage where
  | memory (content : Bytes)
  | temp (id : Nat)
  /-- Moved out of the repository. -/
  | stored (path : String)
  | deleted
  deriving DecidableEq, Repr

structure Item where
  field : Option String
  fileName : Option String
  isFormField : Bool
  headers : Headers
  size : Nat
  storage : Storage
  deriving DecidableEq, Repr

/-! ## Content on its way into the depot -/

/-- Content in the making. -/
structure Spool where
  /-- What came so far, the last stretch first. -/
  stretches : List Bytes := []
  written : Nat := 0
  /-- The temp file, once there is one. -/
  temp : Option Nat := none
  deriving DecidableEq, Repr

namespace Spool

def content (s : Spool) : Bytes :=
  s.stretches.reverse.flatten

def add (s : Spool) (bytes : Bytes) : Spool :=
  { s with stretches := bytes :: s.stretches, written := s.written + bytes.length }

/-- Adds a stretch of content, behind the making of a temp file if it would pass the threshold. -/
def write (s : Spool) (d : Depot) (bytes : Bytes) : Except Error Spool × Depot :=
  if s.temp.isNone ∧ d.threshold < s.written + bytes.length then
    match d.newTemp with
    | (.error e, d) => (.error e, d)
    | (.ok id, d) => (.ok { s.add bytes with temp := some id }, d)
  else (.ok (s.add bytes), d)

/-- The depot without what was written. -/
def abandon (s : Spool) (d : Depot) : Depot :=
  match s.temp with
  | some id => d.dropTemp id
  | none => d

/-- Closes the content. -/
def finish (s : Spool) (d : Depot) : Storage × Depot :=
  match s.temp with
  | some id => (.temp id, d.putTemp id s.content)
  | none => (.memory s.content, d)

end Spool

namespace OpenPart

/-- The most that is read of a part at once on its way into the depot. -/
def stretch : Nat := 8192

/-- Reads a part to its end into a spool. A failure leaves nothing in the depot. -/
def spool (p : OpenPart) (d : Depot) (s : Spool) : Except Error Spool × OpenPart × Depot :=
  match h : p.read stretch with
  | (.error e, p') => (.error e, p', s.abandon d)
  | (.ok [], p') => (.ok s, p', d)
  | (.ok (b :: bytes), p') =>
    match s.write d (b :: bytes) with
    | (.error e, d') => (.error e, p', s.abandon d')
    | (.ok s', d') =>
      have := read_left_lt h
      p'.spool d' s'
termination_by p.session.left

/-- Keeps a part as an item. -/
def keep (p : OpenPart) (d : Depot) : Except Error Item × OpenPart × Depot :=
  match p.fileName with
  | .error e => (.error e, p, d)
  | .ok fileName =>
    match p.spool d {} with
    | (.error e, p', d') => (.error e, p', d')
    | (.ok s, p', d') =>
      let (storage, d') := s.finish d'
      (.ok { field := p.head.field, fileName, isFormField := p.isFormField,
             headers := p.head.headers, size := s.written, storage }, p', d')

theorem left_spool_le (p : OpenPart) (d : Depot) (s : Spool) :
    (p.spool d s).2.1.session.left ≤ p.session.left := by
  fun_induction spool p d s with
  | case1 p d s e p' h =>
    have := left_read_le p stretch
    rwa [h] at this
  | case2 p d s p' h =>
    have := left_read_le p stretch
    rwa [h] at this
  | case3 p d s b bytes p' h e d' _ =>
    have := left_read_le p stretch
    rwa [h] at this
  | case4 p d s b bytes p' h s' d' _ hlt ih => exact Nat.le_trans ih (Nat.le_of_lt hlt)

theorem left_keep_le (p : OpenPart) (d : Depot) :
    (p.keep d).2.1.session.left ≤ p.session.left := by
  have h1 := left_spool_le p d {}
  unfold keep
  split
  · exact Nat.le_refl _
  · split
    · rename_i h
      rwa [h] at h1
    · rename_i h
      rwa [h] at h1

end OpenPart

/-! ## Using items -/

namespace Item

def contentType? (i : Item) : Option String :=
  i.headers.contentType?

def isInMemory (i : Item) : Bool :=
  match i.storage with
  | .memory _ => true
  | _ => false

/-- The error of reading content that was deleted. -/
def deletedContent : Error :=
  .io (.described .notFound "item content was deleted")

/-- The whole content. -/
def content (i : Item) (d : Depot) : Except Error Bytes :=
  match i.storage with
  | .memory content => .ok content
  | .temp id =>
    match d.temp? id with
    | some content => .ok content
    | none => .error (.io (.system .noSuchFile))
  | .stored path => (d.tree.contentOf path).mapError .io
  | .deleted => .error deletedContent

/-- Whether the content type names a charset of one byte a character. -/
def isSingleByte (i : Item) : Bool :=
  match i.contentType?.bind fun t => (Parameters.parse t).get? "charset" with
  | some charset => ["iso-8859-1", "latin1", "us-ascii"].any (Text.sameName charset)
  | none => false

/-- The content as text: in the charset the content type names if that has one byte a character,
else as UTF-8 with U+FFFD for what is none. -/
def text (i : Item) (d : Depot) : Except Error String :=
  (i.content d).map fun bytes => if i.isSingleByte then Bytes.latin1 bytes else Utf8.lenient bytes

/-- Writes the content to a file. A temp file is moved there, and the item reads from it from then
on. -/
def writeTo (i : Item) (d : Depot) (path : String) : Except Error Unit × Item × Depot :=
  match i.storage with
  | .memory content =>
    match d.tree.writeFile path content with
    | .error e => (.error (.io e), i, d)
    | .ok tree => (.ok (), i, { d with tree })
  | .temp id =>
    match d.moveTemp id path with
    | (.error e, d) => (.error (.io e), i, d)
    | (.ok (), d) => (.ok (), { i with storage := .stored path }, d)
  | .stored own =>
    if Path.same own path then (.ok (), i, d)
    else match d.tree.copyFile own path with
      | (.error e, tree) => (.error (.io e), i, { d with tree })
      | (.ok (), tree) => (.ok (), i, { d with tree })
  | .deleted => (.error deletedContent, i, d)

/-- The depot once the item is gone. -/
def release (i : Item) (d : Depot) : Depot :=
  match i.storage with
  | .temp id => d.dropTemp id
  | _ => d

/-- Deletes the temp file, if the item has one. -/
def delete (i : Item) (d : Depot) : Item × Depot :=
  match i.storage with
  | .temp _ => ({ i with storage := .deleted }, i.release d)
  | _ => (i, d)

end Item

end FormData
