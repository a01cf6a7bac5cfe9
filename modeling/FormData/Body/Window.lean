/-
A window of bounded size that moves along a body and stops at delimiters, each a line break, two
dashes and the boundary. As long as no delimiter is in sight, as many bytes as one has are held
back, since one that goes on past the window may begin there. What the window holds and what the
source has yet to deliver are together the bytes pending, and every operation takes a prefix off
them (`take_pending_le` and the lemmas beside it).
-/
import FormData.Body.Feed

namespace FormData

structure Window where
  feed : Feed
  /-- Bytes in the window that were not handed out yet. -/
  unread : Bytes := []
  capacity : Nat
  boundary : Bytes
  /-- While the first delimiter is looked for, which needs no line break before it. -/
  atStart : Bool := false
  /-- Whether the delimiter read last closes the body. -/
  isClosed : Bool := false
  deriving DecidableEq, Repr

namespace Window

def defaultCapacity : Nat := 4096

/-- Two dashes and the boundary. -/
def dashed (boundary : Bytes) : Bytes :=
  Bytes.dash :: Bytes.dash :: boundary

/-- The delimiter of a boundary. -/
def delimiter (boundary : Bytes) : Bytes :=
  Bytes.cr :: Bytes.lf :: dashed boundary

/-- What the window looks for now. -/
def pattern (w : Window) : Bytes :=
  if w.atStart then dashed w.boundary else delimiter w.boundary

/-- A window must be larger than a delimiter. -/
def checkBoundary (boundary : Bytes) (capacity : Nat) : Except Error Unit :=
  if boundary.isEmpty then .error (.settings .emptyBoundary)
  else if capacity ≤ boundary.length + 4 then
    .error (.settings (.smallWindow capacity (boundary.length + 4)))
  else .ok ()

def open? (feed : Feed) (boundary : Bytes) (capacity : Nat) : Except Error Window :=
  (checkBoundary boundary capacity).map fun () => { feed, capacity, boundary }

/-- Looks for another boundary from here on. -/
def setBoundary (w : Window) (boundary : Bytes) : Except Error Unit × Window :=
  match checkBoundary boundary w.capacity with
  | .error e => (.error e, w)
  | .ok () => (.ok (), { w with boundary })

/-- All bytes not handed out yet. -/
def pending (w : Window) : Bytes :=
  w.unread ++ w.feed.source.pending

/-- How many bytes may be handed out now, and whether a delimiter follows them. -/
def available (w : Window) : Nat × Bool :=
  match Bytes.locate? w.pattern w.unread with
  | some offset => (offset, true)
  | none => (w.unread.length - w.pattern.length, false)

/-! ## Reading into the window -/

/-- Fills the free room by one read, and tells how many bytes came. -/
def fill (w : Window) : Except Error Nat × Window :=
  match w.feed.read (w.capacity - w.unread.length) with
  | (.error e, feed) => (.error e, { w with feed })
  | (.ok bytes, feed) => (.ok bytes.length, { w with feed, unread := w.unread ++ bytes })

/-- Fills while a delimiter must still come. -/
def refill (w : Window) : Except Error Unit × Window :=
  match w.fill with
  | (.error e, w) => (.error e, w)
  | (.ok 0, w) => (.error (.malformed .endedEarly), w)
  | (.ok (_ + 1), w) => (.ok (), w)

theorem fill_ok {w w' : Window} {count : Nat} (h : w.fill = (.ok count, w')) :
    w'.pending = w.pending ∧
      w'.feed.source.pending.length + count = w.feed.source.pending.length := by
  unfold fill at h
  split at h
  · cases h
  · rename_i bytes feed hr
    cases h
    have hp := Feed.read_ok hr
    refine ⟨?_, ?_⟩
    · simp [pending, hp]
    · simp [hp]; omega

theorem fill_pending_le (w : Window) : w.fill.2.pending.length ≤ w.pending.length := by
  have hle := Feed.read_pending_le w.feed (w.capacity - w.unread.length)
  unfold fill
  split
  · rename_i hr
    rw [hr] at hle
    simp only [pending, List.length_append] at hle ⊢
    omega
  · rename_i bytes feed hr
    have hp := congrArg List.length (Feed.read_ok hr)
    simp only [pending, List.length_append] at hp ⊢
    omega

theorem refill_ok {w w' : Window} (h : w.refill = (.ok (), w')) :
    w'.pending = w.pending ∧
      w'.feed.source.pending.length < w.feed.source.pending.length := by
  unfold refill at h
  split at h
  · cases h
  · cases h
  · rename_i n w'' hf
    cases h
    obtain ⟨h1, h2⟩ := fill_ok hf
    exact ⟨h1, by omega⟩

theorem refill_pending_le (w : Window) : w.refill.2.pending.length ≤ w.pending.length := by
  have := fill_pending_le w
  unfold refill
  split <;> (rename_i h; rw [h] at this; exact this)

/-! ## Content -/

/-- Passes `count` bytes of the window. -/
def pass (w : Window) (count : Nat) : Window :=
  { w with unread := w.unread.drop count }

/-- Hands out content before the next delimiter, at most `room` bytes. None are handed out when the
delimiter is next. -/
def take (w : Window) (room : Nat) : Except Error Bytes × Window :=
  if room = 0 then (.ok [], w)
  else match w.available with
    | (count + 1, _) =>
      (.ok (w.unread.take (min (count + 1) room)), w.pass (min (count + 1) room))
    | (0, true) => (.ok [], w)
    | (0, false) =>
      match h : w.refill with
      | (.error e, w') => (.error e, w')
      | (.ok (), w') =>
        have := (refill_ok h).2
        take w' room
termination_by w.feed.source.pending.length

/-- Drops content up to the next delimiter, and adds its length to `count`. -/
def discardFrom (count : Nat) (w : Window) : Except Error Nat × Window :=
  match w.available with
  | (free, true) => (.ok (count + free), w.pass free)
  | (free, false) =>
    match h : (w.pass free).refill with
    | (.error e, w') => (.error e, w')
    | (.ok (), w') =>
      have : w'.feed.source.pending.length < w.feed.source.pending.length := (refill_ok h).2
      discardFrom (count + free) w'
termination_by w.feed.source.pending.length

/-- Drops content up to the next delimiter, and tells how much. -/
def discard (w : Window) : Except Error Nat × Window :=
  w.discardFrom 0

/-- Hands out one byte, whatever it is. -/
def readByte (w : Window) : Except Error UInt8 × Window :=
  match w.unread with
  | b :: rest => (.ok b, { w with unread := rest })
  | [] =>
    match w.fill with
    | (.error e, w) => (.error e, w)
    | (.ok _, w) =>
      match w.unread with
      | b :: rest => (.ok b, { w with unread := rest })
      | [] => (.error (.malformed .noMoreData), w)

/-! ## Delimiters -/

/-- Reads the delimiter that is next and the two bytes after it: a line break if a part follows,
two dashes if the body is closed. -/
def readDelimiter (w : Window) : Except Error Bool × Window :=
  if w.pattern.isPrefixOf w.unread then
    match (w.pass w.pattern.length).readByte with
    | (.error e, w) => (.error e, w)
    | (.ok first, w) =>
      match w.readByte with
      | (.error e, w) => (.error e, w)
      | (.ok second, w) =>
        if first = Bytes.cr ∧ second = Bytes.lf then (.ok true, { w with isClosed := false })
        else if first = Bytes.dash ∧ second = Bytes.dash then
          (.ok false, { w with isClosed := true })
        else (.error (.malformed .afterBoundary), w)
  else (.error (.malformed .noBoundaryHere), w)

/-- Passes what comes before the first delimiter, and reads that. -/
def findFirst (w : Window) : Except Error Bool × Window :=
  match ({ w with atStart := true } : Window).discard with
  | (.error (.malformed _), w) =>
    (.error (.malformed (.boundaryNotFound w.boundary)), { w with atStart := false })
  | (.error e, w) => (.error e, { w with atStart := false })
  | (.ok _, w) =>
    let (r, w) := w.readDelimiter
    (r, { w with atStart := false })

/-! ## What is pending only shrinks -/

theorem pass_pending_le (w : Window) (count : Nat) :
    (w.pass count).pending.length ≤ w.pending.length := by
  simp [pass, pending]

theorem take_pending_le (w : Window) (room : Nat) :
    (w.take room).2.pending.length ≤ w.pending.length := by
  fun_induction take w room with
  | case1 => exact Nat.le_refl _
  | case2 => exact pass_pending_le _ _
  | case3 => exact Nat.le_refl _
  | case4 w _ _ e w' h =>
    have := refill_pending_le w
    rwa [h] at this
  | case5 w _ _ w' h _ ih =>
    have := refill_pending_le w
    rw [h] at this
    exact Nat.le_trans ih this

/-- A read that hands something out takes exactly that off what is pending. -/
theorem take_ok {w w' : Window} {room : Nat} {bytes : Bytes} (h : w.take room = (.ok bytes, w')) :
    w.pending = bytes ++ w'.pending := by
  fun_induction take w room with
  | case1 => cases h; rfl
  | case2 =>
    cases h
    simp [pending, pass, ← List.append_assoc]
  | case3 => cases h; rfl
  | case4 => cases h
  | case5 w _ _ w'' hr _ ih =>
    rw [← (refill_ok hr).1]
    exact ih h

theorem discardFrom_pending_le (count : Nat) (w : Window) :
    (w.discardFrom count).2.pending.length ≤ w.pending.length := by
  fun_induction discardFrom count w with
  | case1 => exact pass_pending_le _ _
  | case2 count w free _ e w' h =>
    have := refill_pending_le (w.pass free)
    rw [h] at this
    exact Nat.le_trans this (pass_pending_le _ _)
  | case3 count w free _ w' h _ ih =>
    have := refill_pending_le (w.pass free)
    rw [h] at this
    exact Nat.le_trans ih (Nat.le_trans this (pass_pending_le _ _))

theorem discard_pending_le (w : Window) : w.discard.2.pending.length ≤ w.pending.length :=
  discardFrom_pending_le 0 w

theorem readByte_ok {w w' : Window} {b : UInt8} (h : w.readByte = (.ok b, w')) :
    w.pending = b :: w'.pending := by
  unfold readByte at h
  split at h
  · rename_i hu
    cases h
    simp [pending, hu]
  · split at h
    · cases h
    · rename_i n w'' hf
      have hp := (fill_ok hf).1
      split at h
      · rename_i hu
        cases h
        rw [← hp]
        simp [pending, hu]
      · cases h

theorem readByte_pending_le (w : Window) : w.readByte.2.pending.length ≤ w.pending.length := by
  have hf := fill_pending_le w
  unfold readByte
  split
  · rename_i hu
    simp [pending, hu]
  · split
    · rename_i h
      rwa [h] at hf
    · rename_i h
      rw [h] at hf
      refine Nat.le_trans ?_ hf
      split
      · rename_i hu
        simp [pending, hu]
      · exact Nat.le_refl _

/-- Reading a delimiter takes at least the two bytes after it. -/
theorem readDelimiter_ok_lt {w w' : Window} {more : Bool}
    (h : w.readDelimiter = (.ok more, w')) : w'.pending.length < w.pending.length := by
  unfold readDelimiter at h
  split at h
  · have h0 := pass_pending_le w w.pattern.length
    split at h
    · cases h
    · rename_i b w1 hr
      have h1 := congrArg List.length (readByte_ok hr)
      have h2 := readByte_pending_le w1
      simp only [List.length_cons] at h1
      split at h
      · cases h
      · rename_i hr'
        rw [hr'] at h2
        have h2' : w'.pending.length ≤ w1.pending.length := by
          refine Nat.le_trans ?_ h2
          split at h
          · cases h; exact Nat.le_refl _
          · split at h
            · cases h; exact Nat.le_refl _
            · cases h
        omega
  · cases h

theorem findFirst_ok_lt {w w' : Window} {more : Bool} (h : w.findFirst = (.ok more, w')) :
    w'.pending.length < w.pending.length := by
  have h1 : _ ≤ w.pending.length := discard_pending_le { w with atStart := true }
  unfold findFirst at h
  split at h
  · cases h
  · cases h
  · rename_i n w1 hd
    rw [hd] at h1
    cases hr : w1.readDelimiter with
    | mk r w2 =>
      rw [hr] at h
      simp only [Prod.mk.injEq] at h
      obtain ⟨rfl, rfl⟩ := h
      have hlt : w2.pending.length < w1.pending.length := readDelimiter_ok_lt hr
      exact Nat.lt_of_lt_of_le hlt h1

theorem setBoundary_pending (w : Window) (boundary : Bytes) :
    (w.setBoundary boundary).2.pending = w.pending := by
  unfold setBoundary
  split <;> rfl

end Window

end FormData
