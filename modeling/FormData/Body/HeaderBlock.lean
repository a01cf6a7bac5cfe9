/-
The raw header block of a part: the bytes from behind a delimiter to the blank line that ends it.
The line break of the delimiter counts towards that blank line, so a part without headers has a
block of one line break.
-/
import FormData.Body.Window

namespace FormData.Window

/-- How much of a line break followed by a blank line has been read. -/
inductive Ending where
  | none
  | cr
  | crlf
  | crlfcr
  | complete
  deriving DecidableEq, Repr

/-- One more byte. A byte that does not fit starts over, a carriage return with itself. -/
def Ending.next (ending : Ending) (b : UInt8) : Ending :=
  match ending with
  | .crlf => if b = Bytes.cr then .crlfcr else .none
  | .cr => if b = Bytes.lf then .crlf else if b = Bytes.cr then .cr else .none
  | .crlfcr => if b = Bytes.lf then .complete else if b = Bytes.cr then .cr else .none
  | .none => if b = Bytes.cr then .cr else .none
  | .complete => .complete

/-- The rest of a block of which `count` bytes, last first in `block`, were read. -/
def readBlockFrom (limit : Nat) (ending : Ending) (count : Nat) (block : Bytes) (w : Window) :
    Except Error Bytes × Window :=
  if ending = .complete then (.ok block.reverse, w)
  else
    match h : w.readByte with
    | (.error e, w') => (.error e, w')
    | (.ok b, w') =>
      have : w'.pending.length < w.pending.length := by
        rw [readByte_ok h]; exact Nat.lt_succ_self _
      if limit ≤ count then (.error (.headerSize limit (count + 1)), w')
      else readBlockFrom limit (ending.next b) (count + 1) (b :: block) w'
termination_by w.pending.length

/-- Reads the header block of a part whose delimiter was just read. -/
def readHeaderBlock (w : Window) (limit : Nat) : Except Error Bytes × Window :=
  w.readBlockFrom limit .crlf 0 []

theorem readBlockFrom_pending_le (limit : Nat) (ending : Ending) (count : Nat) (block : Bytes)
    (w : Window) :
    (w.readBlockFrom limit ending count block).2.pending.length ≤ w.pending.length := by
  fun_induction readBlockFrom limit ending count block w with
  | case1 => exact Nat.le_refl _
  | case2 _ _ _ w _ e w' h =>
    have := readByte_pending_le w
    rwa [h] at this
  | case3 _ _ _ _ _ _ _ _ h => exact Nat.le_of_lt h
  | case4 _ _ _ _ _ _ _ _ h _ ih => exact Nat.le_trans ih (Nat.le_of_lt h)

theorem readHeaderBlock_pending_le (w : Window) (limit : Nat) :
    (w.readHeaderBlock limit).2.pending.length ≤ w.pending.length :=
  readBlockFrom_pending_le limit .crlf 0 [] w

end FormData.Window
