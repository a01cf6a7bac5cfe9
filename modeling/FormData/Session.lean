/-
A session takes one body apart, part after part. Only `hasNext` and `nextPart` move from one part
to the next, and they pass whatever was left unread. A form field whose content is itself a
`multipart/mixed` body is entered as a set: the files in it are handed out under the name of the
field, and the set itself is not.

A session ends in `exhausted` behind the closing delimiter, or in `failed` after a fatal error.
What is left of it shrinks with every part that is handed out (`nextPart_left_lt`), so loops over
the parts end.
-/
import FormData.Body.HeaderBlock
import FormData.Header.Block
import FormData.Header.Disposition
import FormData.Settings

namespace FormData

/-- What is known of a part before its content is read. -/
structure PartHead where
  headers : Headers
  /-- The field's name, inside a set that of the set. -/
  field : Option String
  rawFileName : Option FileName.Raw
  deriving DecidableEq, Repr

inductive Phase where
  /-- Before the first delimiter. -/
  | start
  /-- The next part is located and not handed out. -/
  | located (head : PartHead)
  /-- Inside the content of the part handed out last, or at its end. -/
  | reading
  /-- Behind the closing delimiter. -/
  | exhausted
  | failed
  deriving DecidableEq, Repr

structure Session where
  window : Window
  /-- The boundary of the whole body. -/
  boundary : Bytes
  /-- The name of the field whose set of files is being read. -/
  enclosing : Option String := none
  /-- Whether anything may come before the next delimiter. -/
  preamble : Bool := true
  phase : Phase := .start
  settings : Settings

namespace Session

/-! ## Opening -/

/-- Opens a session on a body with this boundary. -/
def open? (source : Source) (boundary : Bytes) (settings : Settings) : Except Error Session := do
  let account ← Account.open? source.declared settings.maxRequestSize settings.maxParts
    settings.listening
  let window ← Window.open? { source, account } boundary settings.windowSize
  pure { window, boundary, settings }

/-- Opens a session on a body of this content type. -/
def ofContentType? (source : Source) (contentType : String) (settings : Settings) :
    Except Error Session :=
  match boundaryOf contentType with
  | .error fault => .error (.contentType fault)
  | .ok boundary => open? source boundary settings

def progress (s : Session) : Progress :=
  s.window.feed.account.progress

/-! ## Sets of files -/

/-- The field name and inner boundary of a part that holds a set of files. -/
def setOf (headers : Headers) : Except Error (Option (String × Bytes)) :=
  match headers.contentType? with
  | none => .ok none
  | some contentType =>
    if "multipart/mixed".toList.isPrefixOf (Text.lower (Text.trimStart contentType.toList)) then
      match headers.fieldName? with
      | none => .ok none
      | some field =>
        match boundaryOf contentType with
        | .ok boundary => .ok (some (field, boundary))
        | .error _ => .error (.malformed (.setWithoutBoundary field))
    else .ok none

/-! ## From part to part -/

/-- The outcome of one delimiter. -/
inductive Turn where
  /-- No part to hand out yet. -/
  | again
  /-- A part is located, the body is closed, or an error stops the search. -/
  | stop (result : Except Error Bool)

/-- Reads on behind a closing delimiter: the end of the body, or of a set within it. -/
def leaveBody (s : Session) : Turn × Session :=
  match s.enclosing with
  | none => (.stop (.ok false), { s with phase := .exhausted })
  | some _ =>
    match s.window.setBoundary s.boundary with
    | (.error e, window) => (.stop (.error e), { s with window, enclosing := none })
    | (.ok (), window) =>
      match window.discard with
      | (.error e, window) => (.stop (.error e), { s with window, enclosing := none })
      | (.ok _, window) => (.again, { s with window, enclosing := none })

/-- Hands a part with these headers to the caller, or passes it: parts of a set count only when
they carry a file. -/
def locatePart (s : Session) (headers : Headers) : Turn × Session :=
  let rawFileName := headers.rawFileName?
  if s.enclosing.isSome ∧ rawFileName.isNone then
    match s.window.discard with
    | (.error e, window) => (.stop (.error e), { s with window })
    | (.ok _, window) => (.again, { s with window })
  else
    let field := s.enclosing <|> headers.fieldName?
    match s.window.feed.account.countPart with
    | (.error e, account) =>
      (.stop (.error e), { s with window := { s.window with feed := { s.window.feed with account } } })
    | (.ok (), account) =>
      (.stop (.ok true),
        { s with
          window := { s.window with feed := { s.window.feed with account } }
          phase := .located ⟨headers, field, rawFileName⟩ })

/-- Enters the set that a part with these headers holds, or goes on with the part. -/
def enterPart (s : Session) (headers : Headers) : Turn × Session :=
  match if s.enclosing.isNone then setOf headers else .ok none with
  | .error e => (.stop (.error e), s)
  | .ok (some (field, boundary)) =>
    match s.window.setBoundary boundary with
    | (.error e, window) => (.stop (.error e), { s with window })
    | (.ok (), window) => (.again, { s with window, enclosing := some field, preamble := true })
  | .ok none => s.locatePart headers

/-- Reads the headers behind a delimiter. -/
def openPart (s : Session) : Turn × Session :=
  match s.window.readHeaderBlock s.settings.maxHeaderSize with
  | (.error e, window) => (.stop (.error e), { s with window })
  | (.ok block, window) => ({ s with window } : Session).enterPart (Headers.ofBlock block)

/-- The delimiter that is next, or the first one of a body. -/
def nextDelimiter (s : Session) : Except Error Bool × Window :=
  if s.preamble then s.window.findFirst else s.window.readDelimiter

/-- Reads one delimiter and what belongs to it. -/
def turn (s : Session) : Turn × Session :=
  match s.nextDelimiter with
  | (.error e, window) => (.stop (.error e), { s with window, preamble := false })
  | (.ok false, window) => ({ s with window, preamble := false } : Session).leaveBody
  | (.ok true, window) => ({ s with window, preamble := false } : Session).openPart

/-- The bytes pending. -/
def pending (s : Session) : Bytes :=
  s.window.pending

theorem leaveBody_pending_le (s : Session) :
    s.leaveBody.2.pending.length ≤ s.pending.length := by
  have h1 := Window.setBoundary_pending s.window s.boundary
  unfold leaveBody
  split
  · exact Nat.le_refl _
  · split
    · rename_i h
      rw [h] at h1
      exact Nat.le_of_eq (congrArg _ h1)
    · rename_i window h
      rw [h] at h1
      have h2 : _ ≤ window.pending.length := Window.discard_pending_le window
      have h3 : window.pending.length = s.window.pending.length := congrArg _ h1
      split
      · rename_i h'
        rw [h'] at h2
        exact Nat.le_trans h2 (Nat.le_of_eq h3)
      · rename_i h'
        rw [h'] at h2
        exact Nat.le_trans h2 (Nat.le_of_eq h3)

theorem locatePart_pending_le (s : Session) (headers : Headers) :
    (s.locatePart headers).2.pending.length ≤ s.pending.length := by
  have h1 : _ ≤ s.window.pending.length := Window.discard_pending_le s.window
  unfold locatePart
  simp only
  split
  · split
    · rename_i h; rw [h] at h1; exact h1
    · rename_i h; rw [h] at h1; exact h1
  · split <;> exact Nat.le_refl _

theorem enterPart_pending_le (s : Session) (headers : Headers) :
    (s.enterPart headers).2.pending.length ≤ s.pending.length := by
  unfold enterPart
  split
  · exact Nat.le_refl _
  · rename_i field boundary _
    have h1 := Window.setBoundary_pending s.window boundary
    split
    · rename_i h
      rw [h] at h1
      exact Nat.le_of_eq (congrArg _ h1)
    · rename_i h
      rw [h] at h1
      exact Nat.le_of_eq (congrArg _ h1)
  · exact locatePart_pending_le s headers

theorem openPart_pending_le (s : Session) : s.openPart.2.pending.length ≤ s.pending.length := by
  have h1 : _ ≤ s.window.pending.length :=
    Window.readHeaderBlock_pending_le s.window s.settings.maxHeaderSize
  unfold openPart
  split
  · rename_i h; rw [h] at h1; exact h1
  · rename_i block window h
    rw [h] at h1
    exact Nat.le_trans (enterPart_pending_le { s with window } _) h1

theorem nextDelimiter_ok_lt {s : Session} {more : Bool} {window : Window}
    (h : s.nextDelimiter = (.ok more, window)) : window.pending.length < s.pending.length := by
  unfold nextDelimiter at h
  split at h
  · exact Window.findFirst_ok_lt h
  · exact Window.readDelimiter_ok_lt h

/-- A delimiter that was read is no longer pending. -/
theorem turn_lt {s s' : Session} {t : Turn} (h : s.turn = (t, s'))
    (ht : ∀ e, t ≠ .stop (.error e)) : s'.pending.length < s.pending.length := by
  unfold turn at h
  split at h
  · cases h
    exact absurd rfl (ht _)
  · rename_i window hd
    have h1 := leaveBody_pending_le { s with window, preamble := false }
    rw [h] at h1
    exact Nat.lt_of_le_of_lt h1 (nextDelimiter_ok_lt hd)
  · rename_i window hd
    have h1 := openPart_pending_le { s with window, preamble := false }
    rw [h] at h1
    exact Nat.lt_of_le_of_lt h1 (nextDelimiter_ok_lt hd)

/-- Goes from delimiter to delimiter until a part is located or the body ends. -/
def locate (s : Session) : Except Error Bool × Session :=
  match h : s.turn with
  | (.stop r, s') => (r, s')
  | (.again, s') =>
    have : s'.pending.length < s.pending.length := turn_lt h nofun
    s'.locate
termination_by s.pending.length

/-- Passes what was left unread of the last part, and goes on to the next. -/
def advance (s : Session) : Except Error Bool × Session :=
  match s.phase with
  | .reading =>
    match s.window.discard with
    | (.error e, window) => (.error e, { s with window })
    | (.ok _, window) => ({ s with window } : Session).locate
  | _ => s.locate

/-- The error of every call on a failed session: the request limit passed, if that was the cause. -/
def refusal (s : Session) : Error :=
  match s.window.feed.account.overrun with
  | some (limit, actual) => .requestSize limit actual
  | none => .aborted

/-- Ends the session if the error is fatal. -/
def afterError (s : Session) (e : Error) : Session :=
  if e.isFatal then { s with phase := .failed } else s

/-- Whether another part follows. Locates it, passing what was left unread of the last one. -/
def hasNext (s : Session) : Except Error Bool × Session :=
  match s.phase with
  | .located _ => (.ok true, s)
  | .exhausted => (.ok false, s)
  | .failed => (.error s.refusal, s)
  | .start | .reading =>
    match s.advance with
    | (.error e, s') => (.error e, s'.afterError e)
    | (.ok more, s') => (.ok more, s')

end Session

/-- A part that was handed out, together with the session it belongs to. -/
structure OpenPart where
  session : Session
  head : PartHead
  /-- Content bytes handed out. -/
  bytesRead : Nat := 0
  /-- Nothing is left to read. -/
  isFinished : Bool := false

namespace Session

/-- Hands out the next part. -/
def nextPart (s : Session) : Except (Error × Session) OpenPart :=
  match s.hasNext with
  | (.error e, s') => .error (e, s')
  | (.ok false, s') => .error (.exhausted, s')
  | (.ok true, s') =>
    match s'.phase with
    | .located head => .ok { session := { s' with phase := .reading }, head }
    | _ => .error (.exhausted, s')

/-- What a caller comes to who asks whether another part follows, and has it handed out. -/
inductive Next where
  | part (p : OpenPart)
  | ended (s : Session)
  | failed (e : Error) (s : Session)

/-- Asks for the part that follows, as loops over all parts do. -/
def next (s : Session) : Next :=
  match s.hasNext with
  | (.error e, s') => .failed e s'
  | (.ok false, s') => .ended s'
  | (.ok true, s') =>
    match s'.nextPart with
    | .error (e, s'') => .failed e s''
    | .ok p => .part p

end Session

/-! ## Reading a part -/

namespace OpenPart

/-- Plain form fields carry no file name. -/
def isFormField (p : OpenPart) : Bool :=
  p.head.rawFileName.isNone

/-- The decoded file name, none for form fields. -/
def fileName (p : OpenPart) : Except Error (Option String) :=
  match p.head.rawFileName with
  | none => .ok none
  | some raw => (p.session.settings.decoder.decode raw).map some

def sizeError (p : OpenPart) (limit actual : Nat) : Error :=
  .fileSize p.head.field (p.head.rawFileName.map (·.value)) limit actual

/-- Passes what is left of the content, and tells how much that was. -/
def discardRest (p : OpenPart) : Except Error Nat × OpenPart :=
  match p.session.window.discard with
  | (.error e, window) =>
    (.error e, { p with session := ({ p.session with window } : Session).afterError e })
  | (.ok count, window) =>
    (.ok count, { p with session := { p.session with window }, isFinished := true })

/-- Ends a part above the limit; `actual` tells its size from the count of bytes passed now. -/
def refuseSize (p : OpenPart) (limit : Nat) (actual : Nat → Nat) : Except Error Bytes × OpenPart :=
  match p.discardRest with
  | (.error e, p') => (.error e, p')
  | (.ok rest, p') => (.error (p'.sizeError limit (actual rest)), p')

/-- A declared content length above the limit, looked at until something was read. -/
def declaredAbove? (p : OpenPart) : Option (Nat × Nat) :=
  match p.session.settings.maxFileSize, p.head.headers.contentLength? with
  | some limit, some declared =>
    if p.bytesRead = 0 ∧ limit < declared then some (limit, declared) else none
  | _, _ => none

/-- Hands out the next stretch of content, at most `room` bytes. -/
def readContent (p : OpenPart) (room : Nat) : Except Error Bytes × OpenPart :=
  match p.session.window.take room with
  | (.error e, window) =>
    (.error e, { p with session := ({ p.session with window } : Session).afterError e })
  | (.ok bytes, window) =>
    let p := { p with session := { p.session with window } }
    if bytes.isEmpty then (.ok [], { p with isFinished := true })
    else
      let total := p.bytesRead + bytes.length
      match p.session.settings.maxFileSize with
      | some limit =>
        if limit < total then p.refuseSize limit (total + ·)
        else (.ok bytes, { p with bytesRead := total })
      | none => (.ok bytes, { p with bytesRead := total })

/-- Reads content, at most `room` bytes; none once the part is finished. A part above the file size
limit is passed to its end before the error is raised. -/
def read (p : OpenPart) (room : Nat) : Except Error Bytes × OpenPart :=
  match p.session.phase with
  | .failed => (.error p.session.refusal, p)
  | _ =>
    if p.isFinished then (.ok [], p)
    else match p.declaredAbove? with
      | some (limit, declared) => p.refuseSize limit fun _ => declared
      | none => p.readContent room

/-- Passes the unread content, and tells how much that was. -/
def skip (p : OpenPart) : Except Error Nat × OpenPart :=
  if p.isFinished then (.ok 0, p) else p.discardRest

end OpenPart

/-! ## Sessions come to an end -/

namespace Session

/-- A measure of what is left: the bytes pending, and a part located but not handed out. -/
def left (s : Session) : Nat :=
  2 * s.pending.length + match s.phase with
    | .located _ => 1
    | _ => 0

theorem left_afterError_le (s : Session) (e : Error) : (s.afterError e).left ≤ s.left := by
  unfold afterError
  split
  · simp only [left, pending]; omega
  · exact Nat.le_refl _

theorem left_le_of_phase {s s' : Session} (hp : s'.pending.length ≤ s.pending.length)
    (h : s'.phase = s.phase) : s'.left ≤ s.left := by
  simp only [left, h]
  omega

theorem locate_ok_lt {s s' : Session} {more : Bool} (h : s.locate = (.ok more, s')) :
    s'.pending.length < s.pending.length := by
  fun_induction locate s with
  | case1 s r s'' ht =>
    cases h
    exact turn_lt ht nofun
  | case2 s s'' _ hlt ih => exact Nat.lt_trans (ih h) hlt

theorem advance_ok_lt {s s' : Session} {more : Bool} (h : s.advance = (.ok more, s')) :
    s'.pending.length < s.pending.length := by
  unfold advance at h
  split at h
  · have h1 : _ ≤ s.window.pending.length := Window.discard_pending_le s.window
    split at h
    · cases h
    · rename_i hd
      rw [hd] at h1
      exact Nat.lt_of_lt_of_le (locate_ok_lt h) h1
  · exact locate_ok_lt h

/-- Locating a part takes at least as much as the part located is worth. -/
theorem hasNext_left_le {s s' : Session} (h : s.hasNext = (.ok true, s')) : s'.left ≤ s.left := by
  unfold hasNext at h
  split at h
  · cases h
    exact Nat.le_refl _
  · cases h
  · cases h
  all_goals
    split at h
    · cases h
    · rename_i ha
      cases h
      have := advance_ok_lt ha
      simp only [left, pending] at this ⊢
      split <;> omega

/-- Each part handed out leaves less to go. -/
theorem nextPart_left_lt {s : Session} {p : OpenPart} (h : s.nextPart = .ok p) :
    p.session.left < s.left := by
  unfold nextPart at h
  split at h
  · cases h
  · cases h
  · rename_i s' hn
    split at h
    · cases h
      rename_i head hl
      refine Nat.lt_of_lt_of_le ?_ (hasNext_left_le hn)
      simp only [left, pending, hl]
      omega
    · cases h

theorem next_left_lt {s : Session} {p : OpenPart} (h : s.next = .part p) :
    p.session.left < s.left := by
  unfold next at h
  split at h
  · cases h
  · cases h
  · rename_i hn
    split at h
    · cases h
    · rename_i hp
      cases h
      exact Nat.lt_of_lt_of_le (nextPart_left_lt hp) (hasNext_left_le hn)

end Session

namespace OpenPart

theorem left_discardRest_le (p : OpenPart) : p.discardRest.2.session.left ≤ p.session.left := by
  have h1 : _ ≤ p.session.window.pending.length := Window.discard_pending_le p.session.window
  unfold discardRest
  split
  · rename_i window h
    rw [h] at h1
    refine Nat.le_trans (Session.left_afterError_le _ _) ?_
    exact Session.left_le_of_phase h1 rfl
  · rename_i h
    rw [h] at h1
    exact Session.left_le_of_phase h1 rfl

theorem left_refuseSize_le (p : OpenPart) (limit : Nat) (actual : Nat → Nat) :
    (p.refuseSize limit actual).2.session.left ≤ p.session.left := by
  have := left_discardRest_le p
  unfold refuseSize
  split <;> (rename_i h; rw [h] at this; exact this)

theorem left_readContent_le (p : OpenPart) (room : Nat) :
    (p.readContent room).2.session.left ≤ p.session.left := by
  have h1 : _ ≤ p.session.window.pending.length := Window.take_pending_le p.session.window room
  unfold readContent
  split
  · rename_i h
    rw [h] at h1
    refine Nat.le_trans (Session.left_afterError_le _ _) ?_
    exact Session.left_le_of_phase h1 rfl
  · rename_i bytes window h
    rw [h] at h1
    have h2 : ({ p.session with window } : Session).left ≤ p.session.left :=
      Session.left_le_of_phase h1 rfl
    simp only
    split
    · exact h2
    · split
      · split
        · exact Nat.le_trans (left_refuseSize_le _ _ _) h2
        · exact h2
      · exact h2

theorem left_read_le (p : OpenPart) (room : Nat) :
    (p.read room).2.session.left ≤ p.session.left := by
  unfold read
  split
  · exact Nat.le_refl _
  · split
    · exact Nat.le_refl _
    · split
      · exact left_refuseSize_le _ _ _
      · exact left_readContent_le _ _

theorem left_skip_le (p : OpenPart) : p.skip.2.session.left ≤ p.session.left := by
  unfold skip
  split
  · exact Nat.le_refl _
  · exact left_discardRest_le p

theorem refuseSize_ne_ok (p : OpenPart) (limit : Nat) (actual : Nat → Nat) (bytes : Bytes)
    (p' : OpenPart) : p.refuseSize limit actual ≠ (.ok bytes, p') := by
  unfold refuseSize
  split <;> nofun

/-- A read that hands something out leaves less to go. -/
theorem read_left_lt {p p' : OpenPart} {room : Nat} {b : UInt8} {bytes : Bytes}
    (h : p.read room = (.ok (b :: bytes), p')) : p'.session.left < p.session.left := by
  unfold read at h
  split at h
  · cases h
  · split at h
    · cases h
    · split at h
      · exact absurd h (refuseSize_ne_ok _ _ _ _ _)
      · unfold readContent at h
        split at h
        · cases h
        · rename_i bs window hr
          have hp := congrArg List.length (Window.take_ok hr)
          simp only at h
          split at h
          · cases h
          · rename_i hne
            have hpos : 0 < bs.length := by
              cases bs with
              | nil => exact absurd rfl hne
              | cons => exact Nat.succ_pos _
            rw [List.length_append] at hp
            split at h
            · split at h
              · exact absurd h (refuseSize_ne_ok _ _ _ _ _)
              · cases h
                simp only [Session.left, Session.pending]
                omega
            · cases h
              simp only [Session.left, Session.pending]
              omega

end OpenPart

end FormData
