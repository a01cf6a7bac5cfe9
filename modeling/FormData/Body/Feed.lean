/-
A source whose reads are counted. Every byte pulled counts against the request limit, every part
located against the part limit, and each count is reported as progress. A read that passes the
request limit is lost, and no later one reaches the source.
-/
import FormData.Body.Source

namespace FormData

/-- How far a session has come. -/
structure Progress where
  bytesRead : Nat
  contentLength : Option Nat
  parts : Nat
  deriving DecidableEq, Repr

structure Account where
  bytesRead : Nat := 0
  parts : Nat := 0
  contentLength : Option Nat := none
  maxRequestSize : Option Nat := none
  maxParts : Option Nat := none
  /-- The limit passed and the count that passed it. -/
  overrun : Option (Nat × Nat) := none
  listening : Bool := false
  /-- What the listener was told, the last report first. -/
  reports : List Progress := []
  deriving DecidableEq, Repr

namespace Account

def progress (a : Account) : Progress :=
  ⟨a.bytesRead, a.contentLength, a.parts⟩

def report (a : Account) : Account :=
  if a.listening then { a with reports := a.progress :: a.reports } else a

/-- Refuses a body whose declared length passes the limit. -/
def open? (contentLength maxRequestSize maxParts : Option Nat) (listening : Bool) :
    Except Error Account :=
  let account : Account := { contentLength, maxRequestSize, maxParts, listening }
  match maxRequestSize, contentLength with
  | some limit, some declared =>
    if limit < declared then .error (.requestSize limit declared) else .ok account
  | _, _ => .ok account

/-- Counts bytes pulled from the source. -/
def countBytes (a : Account) (count : Nat) : Except Error Unit × Account :=
  let a := { a with bytesRead := a.bytesRead + count }
  match a.maxRequestSize with
  | some limit =>
    if limit < a.bytesRead then
      (.error (.requestSize limit a.bytesRead), { a with overrun := some (limit, a.bytesRead) })
    else (.ok (), a.report)
  | none => (.ok (), a.report)

/-- Counts a part located. -/
def countPart (a : Account) : Except Error Unit × Account :=
  let a := { a with parts := a.parts + 1 }
  match a.maxParts with
  | some limit =>
    if limit < a.parts then (.error (.partCount limit), a) else (.ok (), a.report)
  | none => (.ok (), a.report)

end Account

structure Feed where
  source : Source
  account : Account := {}
  deriving DecidableEq, Repr

namespace Feed

/-- One counted read. -/
def read (f : Feed) (room : Nat) : Except Error Bytes × Feed :=
  match f.account.overrun with
  | some (limit, actual) => (.error (.requestSize limit actual), f)
  | none =>
    match f.source.read room with
    | (.error e, source) => (.error (.ofIo e), { f with source })
    | (.ok bytes, source) =>
      if bytes.isEmpty then (.ok [], { f with source })
      else match f.account.countBytes bytes.length with
        | (.error e, account) => (.error e, ⟨source, account⟩)
        | (.ok (), account) => (.ok bytes, ⟨source, account⟩)

/-- What a successful read hands out was pending, in front. -/
theorem read_ok {f f' : Feed} {room : Nat} {bytes : Bytes} (h : f.read room = (.ok bytes, f')) :
    f.source.pending = bytes ++ f'.source.pending := by
  unfold read at h
  split at h
  · cases h
  · have hp := Source.read_pending f.source room
    split at h
    · cases h
    · rename_i bs source hr
      rw [hr] at hp
      simp only [Source.delivered] at hp
      split at h
      · rename_i he
        simp only [List.isEmpty_iff] at he
        cases h
        simpa [he] using hp
      · split at h
        · cases h
        · cases h
          exact hp

/-- No read adds to what is pending. -/
theorem read_pending_le (f : Feed) (room : Nat) :
    (f.read room).2.source.pending.length ≤ f.source.pending.length := by
  have hp := congrArg List.length (Source.read_pending f.source room)
  rw [List.length_append] at hp
  unfold read
  split
  · exact Nat.le_refl _
  · split
    · rename_i hr
      rw [hr] at hp
      simp only at hp ⊢
      omega
    · rename_i hr
      rw [hr] at hp
      simp only at hp
      split
      · simp only; omega
      · split <;> (simp only; omega)

end Feed

end FormData
