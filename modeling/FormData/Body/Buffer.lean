/-
The window as it lies in memory: a fixed number of cells, of which those between two marks hold what was not
handed out yet. Reading on moves these to the front and has the source fill the rest. Every access to the
cells is checked, and every call to the source is recorded with the room that it was given.
-/
import FormData.Body.HeaderBlock

namespace FormData

/-! ## Checked access -/

namespace Cells

/-- The cells between two marks, which must be in order and in range. -/
def slice? (cells : Bytes) (start stop : Nat) : Option Bytes :=
  if start ≤ stop ∧ stop ≤ cells.length then some ((cells.take stop).drop start) else none

/-- Writes bytes to the cells behind a mark. -/
def write? (cells : Bytes) (start : Nat) (bytes : Bytes) : Option Bytes :=
  if start + bytes.length ≤ cells.length then
    some (cells.take start ++ bytes ++ cells.drop (start + bytes.length))
  else none

end Cells

/-- A call to a source. -/
structure Pull where
  /-- How many cells it could fill. -/
  room : Nat
  /-- How many it filled. -/
  result : Except Error Nat

structure Buffer where
  feed : Feed
  cells : Bytes
  /-- The first cell not handed out yet. -/
  head : Nat := 0
  /-- The first cell behind these. -/
  tail : Nat := 0
  /-- A line break, two dashes and the boundary. -/
  delimiter : Bytes
  /-- How much of the delimiter is left out of the search: the line break, while the first delimiter is
  looked for. -/
  start : Nat := 0
  /-- Whether the delimiter read last closes the body. -/
  isClosed : Bool := false
  /-- The calls to the source so far, the last one first. -/
  pulls : List Pull := []

/-- How one lap of a loop ends: with the loop, or with another lap that starts from `state`. -/
inductive Lap (σ α : Type) where
  | again (state : σ)
  | done (result : Except Error α)

/-! Operations give a result, failed or not, and the buffer behind it; nothing at all where an access was
out of range. -/

namespace Buffer

def open? (feed : Feed) (boundary : Bytes) (size : Nat) : Except Error Buffer :=
  (Window.checkBoundary boundary size).map fun () =>
    { feed, cells := List.replicate size 0, delimiter := Window.delimiter boundary }

/-- Looks for another boundary from here on. -/
def setBoundary (b : Buffer) (boundary : Bytes) : Except Error Unit × Buffer :=
  match Window.checkBoundary boundary b.cells.length with
  | .error e => (.error e, b)
  | .ok () => (.ok (), { b with delimiter := Window.delimiter boundary })

def pattern? (b : Buffer) : Option Bytes :=
  Cells.slice? b.delimiter b.start b.delimiter.length

def unread? (b : Buffer) : Option Bytes :=
  Cells.slice? b.cells b.head b.tail

/-- How many bytes may be handed out now, and whether a delimiter follows them. -/
def available? (b : Buffer) : Option (Nat × Bool) := do
  let unread ← b.unread?
  let pattern ← b.pattern?
  match Bytes.locate? pattern unread with
  | some offset => some (offset, true)
  | none => some (unread.length - min unread.length pattern.length, false)

/-- How many bytes the source has yet to deliver. -/
def left (b : Buffer) : Nat :=
  b.feed.source.pending.length

/-! ## Reading into the cells -/

/-- Moves what was not handed out to the front. -/
def compact? (b : Buffer) : Option Buffer :=
  if b.head = 0 then some b
  else do
    let unread ← b.unread?
    let cells ← Cells.write? b.cells 0 unread
    some { b with cells, head := 0, tail := b.tail - b.head }

/-- Fills the cells behind the tail by one call to the source, and tells how many bytes came. -/
def pull? (b : Buffer) : Option (Except Error Nat × Buffer) := do
  let free ← Cells.slice? b.cells b.tail b.cells.length
  match b.feed.read free.length with
  | (.error e, feed) => some (.error e, { b with feed, pulls := ⟨free.length, .error e⟩ :: b.pulls })
  | (.ok bytes, feed) =>
    let cells ← Cells.write? b.cells b.tail bytes
    some (.ok bytes.length, { b with
      feed, cells
      tail := b.tail + bytes.length
      pulls := ⟨free.length, .ok bytes.length⟩ :: b.pulls })

def fill? (b : Buffer) : Option (Except Error Nat × Buffer) := do
  let b ← b.compact?
  b.pull?

/-- Fills while a delimiter must still come. -/
def refill? (b : Buffer) : Option (Except Error Unit × Buffer) := do
  match ← b.fill? with
  | (.error e, b) => some (.error e, b)
  | (.ok 0, b) => some (.error (.malformed .endedEarly), b)
  | (.ok (_ + 1), b) => some (.ok (), b)

/-- One call to the source, which delivered these many bytes. -/
def Pulled (b b' : Buffer) (count : Nat) : Prop :=
  (∃ room, b'.pulls = ⟨room, .ok count⟩ :: b.pulls) ∧ count + b'.left = b.left

theorem Pulled.left_lt {b b' : Buffer} {count : Nat} (h : b.Pulled b' (count + 1)) : b'.left < b.left := by
  have := h.2
  omega

theorem compact?_pulls {b b' : Buffer} (h : b.compact? = some b') :
    b'.feed = b.feed ∧ b'.pulls = b.pulls := by
  unfold compact? at h
  split at h
  · cases h
    exact ⟨rfl, rfl⟩
  · simp only [Option.bind_eq_bind, Option.bind_eq_some_iff] at h
    obtain ⟨unread, -, cells, -, h⟩ := h
    cases h
    exact ⟨rfl, rfl⟩

theorem pull?_pulled {b b' : Buffer} {count : Nat} (h : b.pull? = some (.ok count, b')) :
    b.Pulled b' count := by
  unfold pull? at h
  simp only [Option.bind_eq_bind, Option.bind_eq_some_iff] at h
  obtain ⟨free, -, h⟩ := h
  rcases hr : b.feed.read free.length with ⟨e | bytes, feed⟩ <;> rw [hr] at h
  · cases h
  · simp only [Option.bind_eq_some_iff] at h
    obtain ⟨cells, -, h⟩ := h
    cases h
    refine ⟨⟨_, rfl⟩, ?_⟩
    rw [left, left, Feed.read_ok hr, List.length_append]

theorem fill?_pulled {b b' : Buffer} {count : Nat} (h : b.fill? = some (.ok count, b')) :
    b.Pulled b' count := by
  unfold fill? at h
  simp only [Option.bind_eq_bind, Option.bind_eq_some_iff] at h
  obtain ⟨c, hc, h⟩ := h
  obtain ⟨hfeed, hpulls⟩ := compact?_pulls hc
  have hpulled := pull?_pulled h
  rwa [Pulled, hpulls, show c.left = b.left from congrArg (·.source.pending.length) hfeed] at hpulled

theorem refill?_pulled {b b' : Buffer} (h : b.refill? = some (.ok (), b')) :
    ∃ count, b.Pulled b' (count + 1) := by
  unfold refill? at h
  simp only [Option.bind_eq_bind, Option.bind_eq_some_iff] at h
  obtain ⟨⟨r, c⟩, hf, h⟩ := h
  split at h
  · cases h
  · cases h
  · rename_i count c' hc
    cases hc
    cases h
    exact ⟨count, fill?_pulled hf⟩

/-! ## Content -/

/-- One look at what is available for a read, behind which the source is called if there is nothing. -/
def takeLap? (b : Buffer) (room : Nat) : Option (Lap Unit Bytes × Buffer) := do
  match ← b.available? with
  | (count + 1, _) =>
    let bytes ← Cells.slice? b.cells b.head (b.head + min (count + 1) room)
    some (.done (.ok bytes), { b with head := b.head + min (count + 1) room })
  | (0, true) => some (.done (.ok []), b)
  | (0, false) =>
    match ← b.refill? with
    | (.error e, b) => some (.done (.error e), b)
    | (.ok (), b) => some (.again (), b)

/-- The same for passing content, of which `count` bytes were passed. -/
def discardLap? (b : Buffer) (count : Nat) : Option (Lap Nat Nat × Buffer) := do
  let (free, found) ← b.available?
  let b := { b with head := b.head + free }
  if found then some (.done (.ok (count + free)), b)
  else match ← b.refill? with
    | (.error e, b) => some (.done (.error e), b)
    | (.ok (), b) => some (.again (count + free), b)

/-- A read that goes on has called the source, and got something. -/
theorem takeLap?_pulled {b b' : Buffer} {room : Nat} (h : b.takeLap? room = some (.again (), b')) :
    ∃ count, b.Pulled b' (count + 1) := by
  unfold takeLap? at h
  simp only [Option.bind_eq_bind, Option.bind_eq_some_iff] at h
  obtain ⟨⟨free, found⟩, -, h⟩ := h
  split at h
  · simp only [Option.bind_eq_some_iff] at h
    obtain ⟨bytes, -, h⟩ := h
    cases h
  · cases h
  · simp only [Option.bind_eq_some_iff] at h
    obtain ⟨⟨r, c⟩, hr, h⟩ := h
    split at h
    · cases h
    · rename_i hc
      cases hc
      cases h
      exact refill?_pulled hr

theorem discardLap?_pulled {b b' : Buffer} {count count' : Nat}
    (h : b.discardLap? count = some (.again count', b')) : ∃ count, b.Pulled b' (count + 1) := by
  unfold discardLap? at h
  simp only [Option.bind_eq_bind, Option.bind_eq_some_iff] at h
  obtain ⟨⟨free, found⟩, -, h⟩ := h
  split at h
  · cases h
  · simp only [Option.bind_eq_some_iff] at h
    obtain ⟨⟨r, c⟩, hr, h⟩ := h
    split at h
    · cases h
    · rename_i hc
      cases hc
      cases h
      obtain ⟨more, hroom, hleft⟩ := refill?_pulled hr
      exact ⟨more, hroom, hleft⟩

/-- Hands out content before the next delimiter, at most `room` bytes. None are handed out when the
delimiter is next. -/
def take? (b : Buffer) (room : Nat) : Option (Except Error Bytes × Buffer) :=
  if room = 0 then some (.ok [], b)
  else match h : b.takeLap? room with
    | none => none
    | some (.done r, b') => some (r, b')
    | some (.again (), b') =>
      have : b'.left < b.left := (takeLap?_pulled h).elim fun _ => Pulled.left_lt
      b'.take? room
termination_by b.left

/-- Drops content up to the next delimiter, and adds its length to `count`. -/
def discardFrom? (count : Nat) (b : Buffer) : Option (Except Error Nat × Buffer) :=
  match h : b.discardLap? count with
  | none => none
  | some (.done r, b') => some (r, b')
  | some (.again count', b') =>
    have : b'.left < b.left := (discardLap?_pulled h).elim fun _ => Pulled.left_lt
    discardFrom? count' b'
termination_by b.left

/-- Drops content up to the next delimiter, and tells how much. -/
def discard? (b : Buffer) : Option (Except Error Nat × Buffer) :=
  b.discardFrom? 0

/-! ## Single bytes -/

/-- Hands out the byte at the head. -/
def front? (b : Buffer) : Option (Except Error UInt8 × Buffer) := do
  let byte ← b.cells[b.head]?
  some (.ok byte, { b with head := b.head + 1 })

/-- Hands out one byte, whatever it is. -/
def readByte? (b : Buffer) : Option (Except Error UInt8 × Buffer) :=
  if b.head = b.tail then do
    match ← b.fill? with
    | (.error e, b) => some (.error e, b)
    | (.ok 0, b) => some (.error (.malformed .noMoreData), b)
    | (.ok (_ + 1), b) => b.front?
  else b.front?

/-- One byte of a header block of which `count` bytes, last first in `block`, were read. -/
def headerLap? (b : Buffer) (limit : Nat) (ending : Window.Ending) (count : Nat) (block : Bytes) :
    Option (Lap (Window.Ending × Nat × Bytes) Bytes × Buffer) :=
  if ending = .complete then some (.done (.ok block.reverse), b)
  else do
    match ← b.readByte? with
    | (.error e, b) => some (.done (.error e), b)
    | (.ok byte, b) =>
      if limit ≤ count then some (.done (.error (.headerSize limit (count + 1))), b)
      else some (.again (ending.next byte, count + 1, byte :: block), b)

theorem front?_ok {b b' : Buffer} {r : Except Error UInt8} (h : b.front? = some (r, b')) :
    b.head < b.cells.length ∧ b' = { b with head := b.head + 1 } := by
  unfold front? at h
  simp only [Option.bind_eq_bind, Option.bind_eq_some_iff] at h
  obtain ⟨byte, hbyte, h⟩ := h
  cases h
  exact ⟨(List.getElem?_eq_some_iff.1 hbyte).1, rfl⟩

/-- A byte comes from the source where the cells hold none, and from the cell at the head else. -/
theorem readByte?_pulled {b b' : Buffer} {byte : UInt8} (h : b.readByte? = some (.ok byte, b')) :
    (b.head = b.tail ∧ ∃ count, b.Pulled b' (count + 1)) ∨
      b.head ≠ b.tail ∧ b.head < b.cells.length ∧ b' = { b with head := b.head + 1 } := by
  unfold readByte? at h
  split at h
  · rename_i hempty
    simp only [Option.bind_eq_bind, Option.bind_eq_some_iff] at h
    obtain ⟨⟨r, c⟩, hf, h⟩ := h
    split at h
    · cases h
    · cases h
    · rename_i count c' hc
      cases hc
      obtain ⟨-, rfl⟩ := front?_ok h
      obtain ⟨hroom, hleft⟩ := fill?_pulled hf
      exact .inl ⟨hempty, count, hroom, hleft⟩
  · rename_i hsome
    exact .inr ⟨hsome, front?_ok h⟩

theorem headerLap?_pulled {b b' : Buffer} {limit count : Nat} {ending : Window.Ending} {block : Bytes}
    {state : Window.Ending × Nat × Bytes}
    (h : b.headerLap? limit ending count block = some (.again state, b')) :
    (b.head = b.tail ∧ ∃ count, b.Pulled b' (count + 1)) ∨
      b.head ≠ b.tail ∧ b.head < b.cells.length ∧ b' = { b with head := b.head + 1 } := by
  unfold headerLap? at h
  split at h
  · cases h
  · simp only [Option.bind_eq_bind, Option.bind_eq_some_iff] at h
    obtain ⟨⟨r, c⟩, hr, h⟩ := h
    split at h
    · cases h
    · rename_i hc
      cases hc
      split at h
      · cases h
      · cases h
        exact readByte?_pulled hr

/-- The rest of a header block. -/
def readBlockFrom? (limit : Nat) (ending : Window.Ending) (count : Nat) (block : Bytes) (b : Buffer) :
    Option (Except Error Bytes × Buffer) :=
  match h : b.headerLap? limit ending count block with
  | none => none
  | some (.done r, b') => some (r, b')
  | some (.again (ending', count', block'), b') =>
    have : Prod.Lex (· < ·) (· < ·) (b'.left, b'.cells.length - b'.head)
        (b.left, b.cells.length - b.head) := by
      rcases headerLap?_pulled h with ⟨-, _, hpulled⟩ | ⟨-, hlt, rfl⟩
      · exact .left _ _ hpulled.left_lt
      · exact .right _ (Nat.sub_lt_sub_left hlt (Nat.lt_succ_self _))
    readBlockFrom? limit ending' count' block' b'
termination_by (b.left, b.cells.length - b.head)
decreasing_by exact this

/-- Reads the header block of a part whose delimiter was just read. -/
def readHeaderBlock? (b : Buffer) (limit : Nat) : Option (Except Error Bytes × Buffer) :=
  b.readBlockFrom? limit .crlf 0 []

/-! ## Delimiters -/

/-- What the two bytes behind a delimiter say. -/
def closing? (b : Buffer) : Option (Except Error Bool × Buffer) := do
  match ← b.readByte? with
  | (.error e, b) => some (.error e, b)
  | (.ok first, b) =>
    match ← b.readByte? with
    | (.error e, b) => some (.error e, b)
    | (.ok second, b) =>
      if first = Bytes.cr ∧ second = Bytes.lf then some (.ok true, { b with isClosed := false })
      else if first = Bytes.dash ∧ second = Bytes.dash then some (.ok false, { b with isClosed := true })
      else some (.error (.malformed .afterBoundary), b)

/-- Reads the delimiter that is next and the two bytes after it. -/
def readDelimiter? (b : Buffer) : Option (Except Error Bool × Buffer) := do
  let unread ← b.unread?
  let pattern ← b.pattern?
  if pattern.isPrefixOf unread then ({ b with head := b.head + pattern.length } : Buffer).closing?
  else some (.error (.malformed .noBoundaryHere), b)

/-- Passes what comes before the first delimiter, and reads that. -/
def findFirst? (b : Buffer) : Option (Except Error Bool × Buffer) := do
  match ← ({ b with start := 2 } : Buffer).discard? with
  | (.error (.malformed _), b) =>
    let boundary ← Cells.slice? b.delimiter 4 b.delimiter.length
    some (.error (.malformed (.boundaryNotFound boundary)), { b with start := 0 })
  | (.error e, b) => some (.error e, { b with start := 0 })
  | (.ok _, b) =>
    let (r, b) ← b.readDelimiter?
    some (r, { b with start := 0 })

end Buffer

end FormData
