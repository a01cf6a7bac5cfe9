/-
Where a body comes from. A transport delivers segments, failing in between if it must, and a source
may read ahead of its reader. Whatever the sizes of the reads, the bytes handed out followed by the
bytes still pending are the bytes that were pending before (`read_pending`).
-/
import FormData.Error

namespace FormData

/-- The next thing that happens on a transport. -/
inductive Segment where
  | data (bytes : Bytes)
  /-- A read cut short before it got a byte, to be made again. -/
  | interruption
  | failure (error : IoError)
  deriving DecidableEq, Repr

structure Transport where
  segments : List Segment
  /-- The most bytes one read delivers. -/
  pace : Option Nat := none
  /-- The error of every read behind the segments; without one they find the end of the body. -/
  refusal : Option IoError := none
  deriving DecidableEq, Repr

namespace Transport

/-- The bytes in the segments. -/
def content (segments : List Segment) : Bytes :=
  segments.flatMap fun
    | .data bytes => bytes
    | _ => []

/-- The bytes not delivered yet. -/
def pending (t : Transport) : Bytes :=
  content t.segments

/-- The segments left when `bytes` of the first one are; a segment used up is dropped. -/
def keep (bytes : Bytes) (rest : List Segment) : List Segment :=
  if bytes.isEmpty then rest else .data bytes :: rest

/-- A read behind the segments. -/
def readEnd (t : Transport) : Except IoError Bytes :=
  match t.refusal with
  | none => .ok []
  | some error => .error error

/-- One read with room for `room` bytes, from these segments of the transport. No bytes mean the end
of the body. -/
def readFrom (t : Transport) (room : Nat) : List Segment → Except IoError Bytes × List Segment
  | [] => (t.readEnd, [])
  | .interruption :: rest => t.readFrom room rest
  | .failure error :: rest => (.error error, rest)
  | .data bytes :: rest =>
    if bytes.isEmpty then (.ok [], rest)
    else
      let count := min room (t.pace.getD room)
      (.ok (bytes.take count), keep (bytes.drop count) rest)

def read (t : Transport) (room : Nat) : Except IoError Bytes × Transport :=
  match t.readFrom room t.segments with
  | (r, segments) => (r, { t with segments })

end Transport

/-- A transport read ahead of the reader by blocks of `readAhead` bytes; 0 is no reading ahead. -/
structure Source where
  transport : Transport
  readAhead : Nat := 0
  /-- Read ahead and not handed out yet. -/
  buffered : Bytes := []
  /-- The length the transport declares for the whole body. -/
  declared : Option Nat := none
  deriving DecidableEq, Repr

namespace Source

/-- All bytes not handed out yet. -/
def pending (s : Source) : Bytes :=
  s.buffered ++ s.transport.pending

/-- A read past the buffer. -/
def readThrough (s : Source) (room : Nat) : Except IoError Bytes × Source :=
  match s.transport.read room with
  | (r, transport) => (r, { s with transport })

/-- Reads a block into the buffer if that is empty. -/
def fillBuffer (s : Source) : Except IoError Unit × Source :=
  if s.buffered.isEmpty then
    match s.readThrough s.readAhead with
    | (.error e, s) => (.error e, s)
    | (.ok bytes, s) => (.ok (), { s with buffered := bytes })
  else (.ok (), s)

/-- One read with room for `room` bytes. A read at least as large as the buffer does not go through
it when it is empty. -/
def read (s : Source) (room : Nat) : Except IoError Bytes × Source :=
  if s.buffered.isEmpty ∧ s.readAhead ≤ room then s.readThrough room
  else match s.fillBuffer with
    | (.error e, s) => (.error e, s)
    | (.ok (), s) => (.ok (s.buffered.take room), { s with buffered := s.buffered.drop room })

/-! ## Captured bodies -/

/-- How far a file is read ahead. -/
def fileBlock : Nat := 8192

/-- A body captured in a file. -/
def ofFile (content : Bytes) : Source :=
  { transport := { segments := [.data content] }
    readAhead := fileBlock
    declared := some content.length }

/-- A body read from what turns out to be a directory. Opening that works, reading never does. -/
def ofDirectory : Source :=
  { transport := { segments := [], refusal := some (.system .isADirectory) }
    readAhead := fileBlock
    declared := some directorySize }
where
  /-- The length that file systems commonly give for a directory. -/
  directorySize : Nat := 4096

/-- The source after its file was rewritten with no more than was read of it already: only what was
read ahead is left. -/
def cutShort (s : Source) : Source :=
  { s with transport := { s.transport with segments := [] } }

/-- The boundary of a body that starts with a delimiter line, told from that line. -/
def boundaryOfFirstLine (head : Bytes) : Option Bytes :=
  if head.contains Bytes.lf then
    let line := head.takeWhile (· != Bytes.lf)
    let line := if line.getLast? = some Bytes.cr then line.dropLast else line
    match line with
    | first :: second :: boundary =>
      if first = Bytes.dash ∧ second = Bytes.dash ∧ boundary.isEmpty = false ∧
          boundary.any isAsciiBlank = false then some boundary
      else none
    | _ => none
  else none
where
  isAsciiBlank (b : UInt8) : Bool :=
    b = 9 || b = 10 || b = 12 || b = 13 || b = 32

/-- Tells the boundary from what is read ahead, handing nothing out. -/
def sniffBoundary (s : Source) : Except IoError (Option Bytes) × Source :=
  match s.fillBuffer with
  | (.error e, s) => (.error e, s)
  | (.ok (), s) => (.ok (boundaryOfFirstLine s.buffered), s)

/-! ## Nothing is lost -/

/-- What a read handed out; a failed one nothing. -/
def delivered : Except IoError Bytes → Bytes
  | .ok bytes => bytes
  | .error _ => []

theorem content_keep (bytes : Bytes) (rest : List Segment) :
    Transport.content (Transport.keep bytes rest) = bytes ++ Transport.content rest := by
  unfold Transport.keep
  cases bytes <;> simp [Transport.content]

theorem delivered_readEnd (t : Transport) : delivered t.readEnd = [] := by
  unfold Transport.readEnd
  cases t.refusal <;> rfl

theorem readFrom_content (t : Transport) (room : Nat) (segments : List Segment) :
    Transport.content segments =
      delivered (t.readFrom room segments).1 ++
        Transport.content (t.readFrom room segments).2 := by
  induction segments with
  | nil => simp [Transport.readFrom, delivered_readEnd]
  | cons segment rest ih =>
    cases segment with
    | interruption => simpa [Transport.readFrom, Transport.content] using ih
    | failure error => simp [Transport.readFrom, Transport.content, delivered]
    | data bytes =>
      by_cases h : bytes.isEmpty
      · simp only [List.isEmpty_iff] at h
        simp [Transport.readFrom, h, delivered, Transport.content]
      · simp only [Transport.readFrom, h, Bool.false_eq_true, if_false, delivered]
        rw [content_keep, ← List.append_assoc, List.take_append_drop]
        simp [Transport.content]

theorem readThrough_pending (s : Source) (room : Nat) (h : s.buffered = []) :
    s.pending = delivered (s.readThrough room).1 ++ (s.readThrough room).2.pending := by
  have := readFrom_content s.transport room s.transport.segments
  simpa [pending, readThrough, Transport.read, Transport.pending, h] using this

theorem fillBuffer_pending (s : Source) : s.fillBuffer.2.pending = s.pending := by
  unfold fillBuffer
  split
  · rename_i h
    simp only [List.isEmpty_iff] at h
    have hp := readThrough_pending s s.readAhead h
    have hb : (s.readThrough s.readAhead).2.buffered = [] := by simpa [readThrough] using h
    split
    · rename_i e s' he
      rw [he] at hp
      simpa [delivered] using hp.symm
    · rename_i bytes s' he
      rw [he] at hp hb
      simp only [delivered] at hp
      rw [hp]
      simp only at hb
      simp [pending, hb]
  · rfl

/-- A read moves bytes from what is pending to what was handed out, whether it succeeds or fails. -/
theorem read_pending (s : Source) (room : Nat) :
    s.pending = delivered (s.read room).1 ++ (s.read room).2.pending := by
  unfold read
  split
  · rename_i h
    exact readThrough_pending s room (by simpa using h.1)
  · have hf := fillBuffer_pending s
    split
    · rename_i e s' he
      rw [he] at hf
      simp [delivered, ← hf]
    · rename_i s' he
      rw [he] at hf
      rw [← hf]
      simp only [delivered, pending]
      rw [← List.append_assoc, List.take_append_drop]

theorem cutShort_pending_le (s : Source) : s.cutShort.pending.length ≤ s.pending.length := by
  simp [cutShort, pending, Transport.pending, Transport.content]

end Source

end FormData
