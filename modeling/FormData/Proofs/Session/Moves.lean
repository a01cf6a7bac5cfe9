/-
Sessions and parts go by the steps of their windows, whatever is called on them (`Standing.act_moves`,
`Standing.after_moves`).
-/
import FormData.Item
import FormData.Proofs.Body.Moves

namespace FormData

/-! ## Sessions -/

namespace Session

/-- What a session is that was just opened. -/
theorem open?_ok {source : Source} {boundary : Bytes} {settings : Settings} {s : Session}
    (h : open? source boundary settings = .ok s) :
    Window.checkBoundary boundary settings.windowSize = .ok () ∧
      s = {
        window := {
          feed := {
            source
            account := {
              contentLength := source.declared
              maxRequestSize := settings.maxRequestSize
              maxParts := settings.maxParts
              listening := settings.listening } }
          capacity := settings.windowSize
          boundary }
        boundary
        settings } := by
  unfold open? at h
  rcases ha : Account.open? source.declared settings.maxRequestSize settings.maxParts
    settings.listening with e | account <;> rw [ha] at h
  · cases h
  · have haccount : account = {
        contentLength := source.declared
        maxRequestSize := settings.maxRequestSize
        maxParts := settings.maxParts
        listening := settings.listening } := by
      unfold Account.open? at ha
      simp only at ha
      split at ha
      · split at ha
        · cases ha
        · exact (Except.ok.inj ha).symm
      · exact (Except.ok.inj ha).symm
    simp only [bind, Except.bind, Window.open?] at h
    rcases hb : Window.checkBoundary boundary settings.windowSize with e | ⟨⟩ <;> rw [hb] at h
    · cases h
    · cases h
      exact ⟨rfl, by rw [haccount]⟩

/-- The window of a session moves. -/
def Moves (s t : Session) : Prop :=
  s.window.Moves t.window

variable {s t u : Session}

theorem Moves.trans (h1 : s.Moves t) (h2 : t.Moves u) : s.Moves u :=
  Relation.ReflTransGen.trans h1 h2

theorem leaveBody_moves (s : Session) : s.Moves s.leaveBody.2 := by
  unfold leaveBody
  split
  · exact .refl
  · have h1 := s.window.setBoundary_moves s.boundary
    rcases hb : s.window.setBoundary s.boundary with ⟨e | ⟨⟩, w⟩ <;> rw [hb] at h1
    · exact h1
    · have h2 := w.discard_advances.moves
      simp only
      rcases hd : w.discard with ⟨e | n, w'⟩ <;> rw [hd] at h2
      · exact h1.trans h2
      · exact h1.trans h2

theorem locatePart_moves (s : Session) (headers : Headers) : s.Moves (s.locatePart headers).2 := by
  unfold locatePart
  simp only
  split
  · have h := s.window.discard_advances.moves
    rcases hd : s.window.discard with ⟨e | n, w⟩ <;> rw [hd] at h <;> exact h
  · have h : s.window.Moves s.window.countPart := .single (.countPart _)
    unfold Window.countPart at h
    rcases hc : s.window.feed.account.countPart with ⟨e | ⟨⟩, account⟩ <;> rw [hc] at h <;> exact h

theorem enterPart_moves (s : Session) (headers : Headers) : s.Moves (s.enterPart headers).2 := by
  unfold enterPart
  split
  · exact .refl
  · rename_i field boundary _
    have h := s.window.setBoundary_moves boundary
    rcases hb : s.window.setBoundary boundary with ⟨e | ⟨⟩, w⟩ <;> rw [hb] at h <;> exact h
  · exact s.locatePart_moves headers

theorem openPart_moves (s : Session) : s.Moves s.openPart.2 := by
  have h := (s.window.readHeaderBlock_advances s.settings.maxHeaderSize).moves
  unfold openPart
  rcases hr : s.window.readHeaderBlock s.settings.maxHeaderSize with ⟨e | block, w⟩ <;> rw [hr] at h
  · exact h
  · exact h.trans (enterPart_moves { s with window := w } _)

theorem nextDelimiter_advances (s : Session) : s.window.Advances s.nextDelimiter.2 := by
  unfold nextDelimiter
  split
  · exact s.window.findFirst_advances
  · exact s.window.readDelimiter_advances

theorem turn_moves (s : Session) : s.Moves s.turn.2 := by
  have h := s.nextDelimiter_advances.moves
  unfold turn
  rcases hn : s.nextDelimiter with ⟨e | _ | _, w⟩ <;> rw [hn] at h
  · exact h
  · exact h.trans (leaveBody_moves { s with window := w, preamble := false })
  · exact h.trans (openPart_moves { s with window := w, preamble := false })

theorem locate_moves (s : Session) : s.Moves s.locate.2 := by
  fun_induction locate s with
  | case1 s r s' ht =>
    have h := s.turn_moves
    rwa [ht] at h
  | case2 s s' ht _ ih =>
    have h := s.turn_moves
    rw [ht] at h
    exact h.trans ih

theorem advance_moves (s : Session) : s.Moves s.advance.2 := by
  unfold advance
  split
  · have h := s.window.discard_advances.moves
    rcases hd : s.window.discard with ⟨e | n, w⟩ <;> rw [hd] at h
    · exact h
    · exact h.trans (locate_moves { s with window := w })
  · exact s.locate_moves

@[simp] theorem afterError_window (s : Session) (e : Error) :
    (s.afterError e).window = s.window := by
  unfold afterError
  split <;> rfl

/-- Whatever becomes of a session, its source has no more errors to raise than before. -/
theorem Moves.failures (h : s.Moves t) : t.window.failures ⊆ s.window.failures :=
  Window.Moves.failures h

theorem afterError_moves (h : s.Moves t) (e : Error) : s.Moves (t.afterError e) := by
  rw [Moves, afterError_window]
  exact h

/-- `hasNext` where no part is located and the body goes on. -/
def search (s : Session) : Except Error Bool × Session :=
  match s.advance with
  | (.error e, s') => (.error e, s'.afterError e)
  | (.ok more, s') => (.ok more, s')

theorem hasNext_eq (s : Session) :
    s.hasNext = match s.phase with
      | .located _ => (.ok true, s)
      | .exhausted => (.ok false, s)
      | .failed => (.error s.refusal, s)
      | .start | .reading => s.search := rfl

theorem search_moves (s : Session) : s.Moves s.search.2 := by
  have h := s.advance_moves
  unfold search
  rcases ha : s.advance with ⟨e | more, s'⟩ <;> rw [ha] at h
  · exact afterError_moves h e
  · exact h

theorem hasNext_moves (s : Session) : s.Moves s.hasNext.2 := by
  have h := s.search_moves
  rw [hasNext_eq]
  rcases s.phase with _ | head | _ | _ | _
  case start | reading => exact h
  all_goals exact .refl

theorem nextPart_moves (s : Session) :
    match s.nextPart with
    | .ok p => s.Moves p.session
    | .error (_, s') => s.Moves s' := by
  have h := s.hasNext_moves
  unfold nextPart
  rcases hn : s.hasNext with ⟨e | _ | _, s'⟩ <;> rw [hn] at h
  · exact h
  · exact h
  · simp only
    rcases s'.phase with _ | head | _ | _ | _ <;> exact h

end Session

/-! ## Searches that fail -/

theorem Account.countPart_error_eq {a a' : Account} {e : Error} (h : a.countPart = (.error e, a')) :
    ∃ limit, e = .partCount limit := by
  unfold countPart at h
  simp only at h
  split at h
  · split at h
    · cases h
      exact ⟨_, rfl⟩
    · cases h
  · cases h

namespace Session

theorem setOf_error_eq {headers : Headers} {e : Error} (h : setOf headers = .error e) :
    ∃ field, e = .malformed (.setWithoutBoundary field) := by
  unfold setOf at h
  split at h
  · cases h
  · split at h
    · split at h
      · cases h
      · split at h
        · cases h
        · cases h
          exact ⟨_, rfl⟩
    · cases h

variable {s t s' : Session} {e : Error}

/-- What stops a search for the next part: an error of the source, or one that ends the session. The search
itself leaves the session in its phase. -/
structure Stopped (s : Session) (e : Error) (s' : Session) : Prop where
  phase : s'.phase = s.phase
  cause : e ∈ s.window.failures ∨ e.isFatal = true

theorem Stopped.after (h : t.Stopped e s') (hm : s.Moves t) (hphase : t.phase = s.phase) :
    s.Stopped e s' where
  phase := h.phase.trans hphase
  cause := h.cause.imp_left fun he => hm.failures he

theorem cause_of_scanned {α : Type} {w v : Window}
    (h : w.Scanned ((.error e, v) : Except Error α × Window)) : e ∈ w.failures ∨ e.isFatal = true :=
  (h.cause e rfl).imp_right Error.IsOfScan.isFatal

/-- What one turn of a search leaves, unless it answers. -/
def Turned (s : Session) : Turn × Session → Prop
  | (.again, s') => s'.phase = s.phase
  | (.stop (.ok _), _) => True
  | (.stop (.error e), s') => s.Stopped e s'

theorem Turned.after {x : Turn × Session} (h : t.Turned x) (hm : s.Moves t) (hphase : t.phase = s.phase) :
    s.Turned x := by
  obtain ⟨_ | ⟨_ | _⟩, s'⟩ := x
  · exact Eq.trans h hphase
  · exact Stopped.after h hm hphase
  · trivial

theorem leaveBody_turned (s : Session) : s.Turned s.leaveBody := by
  unfold leaveBody
  split
  · trivial
  · have hm := s.window.setBoundary_moves s.boundary
    obtain hset | ⟨fault, hset⟩ := s.window.setBoundary_cases s.boundary <;> rw [hset] at hm ⊢
    · have hscanned := ({ s.window with boundary := s.boundary } : Window).discard_scanned
      simp only
      rcases hd : ({ s.window with boundary := s.boundary } : Window).discard with ⟨e | n, w⟩ <;>
        rw [hd] at hscanned
      · exact ⟨rfl, (cause_of_scanned hscanned).imp_left fun he => Window.Moves.failures hm he⟩
      · exact rfl
    · exact ⟨rfl, .inr rfl⟩

theorem locatePart_turned (s : Session) (headers : Headers) : s.Turned (s.locatePart headers) := by
  unfold locatePart
  simp only
  split
  · have hscanned := s.window.discard_scanned
    rcases hd : s.window.discard with ⟨e | n, w⟩ <;> rw [hd] at hscanned
    · exact ⟨rfl, cause_of_scanned hscanned⟩
    · exact rfl
  · rcases hc : s.window.feed.account.countPart with ⟨e | ⟨⟩, account⟩
    · obtain ⟨limit, rfl⟩ := Account.countPart_error_eq hc
      exact ⟨rfl, .inr rfl⟩
    · trivial

theorem enterPart_turned (s : Session) (headers : Headers) : s.Turned (s.enterPart headers) := by
  unfold enterPart
  split
  · rename_i e hset
    split at hset
    · obtain ⟨field, rfl⟩ := setOf_error_eq hset
      exact ⟨rfl, .inr rfl⟩
    · cases hset
  · rename_i field boundary _
    obtain hset | ⟨fault, hset⟩ := s.window.setBoundary_cases boundary <;> rw [hset]
    · exact rfl
    · exact ⟨rfl, .inr rfl⟩
  · exact s.locatePart_turned headers

theorem nextDelimiter_scanned (s : Session) : s.window.Scanned s.nextDelimiter := by
  unfold nextDelimiter
  split
  · exact s.window.findFirst_scanned
  · exact s.window.readDelimiter_scanned

theorem turn_turned (s : Session) : s.Turned s.turn := by
  have hscanned := s.nextDelimiter_scanned
  unfold turn
  rcases hn : s.nextDelimiter with ⟨e | _ | _, w⟩ <;> rw [hn] at hscanned
  · exact ⟨rfl, cause_of_scanned hscanned⟩
  · exact (leaveBody_turned _).after hscanned.moves rfl
  · have hblock := w.readHeaderBlock_scanned s.settings.maxHeaderSize
    unfold openPart
    simp only
    rcases hr : w.readHeaderBlock s.settings.maxHeaderSize with ⟨e | block, v⟩ <;> rw [hr] at hblock
    · exact ⟨rfl, (cause_of_scanned hblock).imp_left fun he => hscanned.moves.failures he⟩
    · exact (enterPart_turned _ _).after (hscanned.moves.trans hblock.moves) rfl

theorem locate_error (h : s.locate = (.error e, s')) : s.Stopped e s' := by
  fun_induction locate s with
  | case1 s r s'' ht =>
    cases h
    have hturned := s.turn_turned
    rwa [ht] at hturned
  | case2 s s'' ht _ ih =>
    have hturned := s.turn_turned
    have hm := s.turn_moves
    rw [ht] at hturned hm
    exact (ih h).after hm hturned

theorem advance_error (h : s.advance = (.error e, s')) : s.Stopped e s' := by
  unfold advance at h
  split at h
  · have hscanned := s.window.discard_scanned
    rcases hd : s.window.discard with ⟨e' | n, w⟩ <;> rw [hd] at hscanned h
    · cases h
      exact ⟨rfl, cause_of_scanned hscanned⟩
    · exact (locate_error h).after hscanned.moves rfl
  · exact locate_error h

theorem refusal_isFatal (s : Session) : s.refusal.isFatal = true := by
  unfold refusal
  split <;> rfl

/-- Where `hasNext` fails the body is not at its end, whatever error the source raised. -/
theorem hasNext_error (h : s.hasNext = (.error e, s')) :
    s'.phase ≠ .exhausted ∧ (e ∈ s.window.failures ∨ e.isFatal = true) := by
  have hsearch (hne : s.phase ≠ .exhausted) (h : s.search = (.error e, s')) :
      s'.phase ≠ .exhausted ∧ (e ∈ s.window.failures ∨ e.isFatal = true) := by
    unfold search at h
    rcases ha : s.advance with ⟨e' | more, t⟩ <;> rw [ha] at h
    · cases h
      refine ⟨?_, (advance_error ha).cause⟩
      unfold afterError
      split
      · nofun
      · rw [(advance_error ha).phase]
        exact hne
    · cases h
  rw [hasNext_eq] at h
  rcases hphase : s.phase with _ | head | _ | _ | _ <;> rw [hphase] at h
  case start | reading => exact hsearch (by rw [hphase]; nofun) h
  case located | exhausted => cases h
  case failed =>
    cases h
    exact ⟨by rw [hphase]; nofun, .inr s.refusal_isFatal⟩

end Session

/-! ## Parts -/

/-- The error of a call on a failed session is none of its own. -/
theorem Session.refusal_ne_partCount (s : Session) (limit : Nat) : s.refusal ≠ .partCount limit := by
  unfold refusal
  split <;> nofun

/-- A spool is refused bytes by the depot only. -/
theorem Spool.write_error {s : Spool} {d d' : Depot} {bytes : Bytes} {e : Error}
    (h : s.write d bytes = (.error e, d')) : e = .repositoryClosed ∨ ∃ error, e = .io error := by
  unfold write at h
  split at h
  · split at h
    · rename_i hnew
      cases h
      unfold Depot.newTemp at hnew
      split at hnew
      · cases hnew
        exact .inl rfl
      · split at hnew
        · cases hnew
          exact .inr ⟨_, rfl⟩
        · cases hnew
    · cases h
  · cases h

namespace OpenPart

/-- The window around a part moves. -/
def Moves (p q : OpenPart) : Prop :=
  p.session.Moves q.session

variable {p q : OpenPart}

/-- An operation on a part scans its window, leaves the session in its phase or failed, and only fails
for the number of parts where the source does. -/
structure Scanned {α : Type} (p : OpenPart) (x : Except Error α × OpenPart) : Prop where
  scans : p.session.window.Scans x.2.session.window
  phase : x.2.session.phase = p.session.phase ∨ x.2.session.phase = .failed
  cause : ∀ limit, x.1 = .error (.partCount limit) → .partCount limit ∈ p.session.window.failures

namespace Scanned

variable {α β : Type} {x : Except Error α × OpenPart}

theorem moves (h : p.Scanned x) : p.Moves x.2 := h.scans.advances.moves

theorem done {a : α} (hs : p.session.window.Scans q.session.window)
    (hphase : q.session.phase = p.session.phase ∨ q.session.phase = .failed) :
    p.Scanned ((.ok a, q) : Except Error α × OpenPart) :=
  ⟨hs, hphase, nofun⟩

theorem failed {e : Error} (h : p.Scanned ((.error e, q) : Except Error α × OpenPart)) :
    p.Scanned ((.error e, q) : Except Error β × OpenPart) :=
  ⟨h.scans, h.phase, fun limit he => h.cause limit (congrArg Except.error (Except.error.inj he))⟩

/-- An operation that goes on from where another came to. -/
theorem after (h : q.Scanned x) (hs : p.session.window.Scans q.session.window)
    (hphase : q.session.phase = p.session.phase ∨ q.session.phase = .failed) : p.Scanned x := by
  refine ⟨hs.trans h.scans, ?_, fun limit he => hs.advances.moves.failures (h.cause limit he)⟩
  obtain hsame | hfailed := h.phase
  · rw [hsame]
    exact hphase
  · exact .inr hfailed

end Scanned

/-- The part after an error of its content, which left this window. -/
def brokenOff (p : OpenPart) (w : Window) (e : Error) : OpenPart :=
  { p with session := ({ p.session with window := w } : Session).afterError e }

@[simp] theorem brokenOff_window (p : OpenPart) (w : Window) (e : Error) :
    (p.brokenOff w e).session.window = w :=
  Session.afterError_window _ e

theorem brokenOff_scanned {α β : Type} {w : Window} {e : Error}
    (h : p.session.window.Scanned ((.error e, w) : Except Error α × Window)) :
    p.Scanned ((.error e, p.brokenOff w e) : Except Error β × OpenPart) := by
  refine ⟨?_, ?_, fun limit he => (h.failed.cause _ he).resolve_right id⟩
  · rw [brokenOff_window]
    exact h.scans
  · unfold brokenOff Session.afterError
    split
    · exact .inr rfl
    · exact .inl rfl

theorem discardRest_scanned (p : OpenPart) : p.Scanned p.discardRest := by
  have h := p.session.window.discard_scanned
  unfold discardRest
  rcases hd : p.session.window.discard with ⟨e | n, w⟩ <;> rw [hd] at h
  · exact brokenOff_scanned h
  · exact .done h.scans (.inl rfl)

theorem refuseSize_scanned (p : OpenPart) (limit : Nat) (actual : Nat → Nat) :
    p.Scanned (p.refuseSize limit actual) := by
  have h := p.discardRest_scanned
  unfold refuseSize
  rcases hd : p.discardRest with ⟨e | n, p'⟩ <;> rw [hd] at h
  · exact h.failed
  · exact ⟨h.scans, h.phase, nofun⟩

/-- What a read does once it took some bytes from the window, which then is `w`. -/
def took (p : OpenPart) (bytes : Bytes) (w : Window) : Except Error Bytes × OpenPart :=
  let p := { p with session := { p.session with window := w } }
  if bytes.isEmpty then (.ok [], { p with isFinished := true })
  else
    let total := p.bytesRead + bytes.length
    match p.session.settings.maxFileSize with
    | some limit =>
      if limit < total then p.refuseSize limit (total + ·)
      else (.ok bytes, { p with bytesRead := total })
    | none => (.ok bytes, { p with bytesRead := total })

theorem readContent_eq (p : OpenPart) (room : Nat) :
    p.readContent room = match p.session.window.take room with
      | (.error e, w) => (.error e, p.brokenOff w e)
      | (.ok bytes, w) => p.took bytes w := rfl

theorem took_scanned (p : OpenPart) (bytes : Bytes) (w : Window) :
    ({ p with session := { p.session with window := w } } : OpenPart).Scanned (p.took bytes w) := by
  unfold took
  simp only
  split
  · exact .done .refl (.inl rfl)
  · split
    · split
      · exact refuseSize_scanned { p with session := { p.session with window := w } } _ _
      · exact .done .refl (.inl rfl)
    · exact .done .refl (.inl rfl)

theorem readContent_scanned (p : OpenPart) (room : Nat) : p.Scanned (p.readContent room) := by
  have h := p.session.window.take_scanned room
  rw [readContent_eq]
  rcases ht : p.session.window.take room with ⟨e | bytes, w⟩ <;> rw [ht] at h
  · exact brokenOff_scanned h
  · exact (p.took_scanned bytes w).after h.scans (.inl rfl)

theorem read_scanned (p : OpenPart) (room : Nat) : p.Scanned (p.read room) := by
  unfold read
  split
  · refine ⟨.refl, .inl rfl, fun limit he => ?_⟩
    exact absurd (Except.error.inj he) (p.session.refusal_ne_partCount limit)
  · split
    · exact .done .refl (.inl rfl)
    · split
      · exact p.refuseSize_scanned _ _
      · exact p.readContent_scanned room

theorem skip_scanned (p : OpenPart) : p.Scanned p.skip := by
  unfold skip
  split
  · exact .done .refl (.inl rfl)
  · exact p.discardRest_scanned

theorem spool_scanned (p : OpenPart) (d : Depot) (s : Spool) :
    p.Scanned ((p.spool d s).1, (p.spool d s).2.1) := by
  fun_induction spool p d s with
  | case1 p d s e p' hr =>
    have h := p.read_scanned stretch
    rw [hr] at h
    exact h.failed
  | case2 p d s p' hr =>
    have h := p.read_scanned stretch
    rw [hr] at h
    exact .done h.scans h.phase
  | case3 p d s b bytes p' hr e d' hw =>
    have h := p.read_scanned stretch
    rw [hr] at h
    refine ⟨h.scans, h.phase, fun limit he => ?_⟩
    cases he
    rcases Spool.write_error hw with hclosed | ⟨error, hio⟩
    · cases hclosed
    · cases hio
  | case4 p d s b bytes p' hr s' d' _ _ ih =>
    have h := p.read_scanned stretch
    rw [hr] at h
    exact ih.after h.scans h.phase

theorem fileName_cause {e : Error} (h : p.fileName = .error e) (limit : Nat) : e ≠ .partCount limit := by
  unfold fileName at h
  split at h
  · cases h
  · rename_i raw hraw
    unfold FileName.Decoder.decode at h
    split at h
    · cases h
      nofun
    · split at h
      · cases h
        nofun
      · cases h

theorem keep_scanned (p : OpenPart) (d : Depot) : p.Scanned ((p.keep d).1, (p.keep d).2.1) := by
  have h := p.spool_scanned d {}
  unfold keep
  split
  · rename_i e hname
    exact ⟨.refl, .inl rfl, fun limit he =>
      absurd (Except.error.inj he) (p.fileName_cause hname limit)⟩
  · rcases hs : p.spool d {} with ⟨e | s, p', d'⟩ <;> rw [hs] at h
    · exact h.failed
    · exact .done h.scans h.phase

theorem took_moves (p : OpenPart) (bytes : Bytes) (w : Window) :
    w.Moves (p.took bytes w).2.session.window :=
  (p.took_scanned bytes w).moves

theorem read_moves (p : OpenPart) (room : Nat) : p.Moves (p.read room).2 :=
  (p.read_scanned room).moves

theorem spool_moves (p : OpenPart) (d : Depot) (s : Spool) : p.Moves (p.spool d s).2.1 :=
  (p.spool_scanned d s).moves

theorem keep_moves (p : OpenPart) (d : Depot) : p.Moves (p.keep d).2.1 :=
  (p.keep_scanned d).moves

end OpenPart

/-! ## Calls in any order -/

/-- Where a caller stands: between the parts of a session, or within one that it was handed. -/
inductive Standing where
  | between (s : Session)
  | within (p : OpenPart)

inductive Call where
  | hasNext
  | nextPart
  | read (room : Nat)
  | skip
  /-- Keeping the part as an item of a depot. -/
  | keep (depot : Depot)
  deriving DecidableEq, Repr

/-- What a call says, apart from what it hands out. -/
inductive Answer where
  | done
  | failed (e : Error)
  /-- There is no part that the call could be made on. -/
  | noPart
  deriving DecidableEq, Repr

def Answer.of {α : Type} : Except Error α → Answer
  | .ok _ => .done
  | .error e => .failed e

/-- What a call hands out. -/
inductive Reply where
  | more (result : Except Error Bool)
  | part (result : Except Error PartHead)
  | content (result : Except Error Bytes)
  | skipped (result : Except Error Nat)
  /-- The item, and the depot after the call. -/
  | kept (result : Except Error Item) (depot : Depot)
  /-- There is no part that the call could be made on. -/
  | noPart

def Reply.answer : Reply → Answer
  | more result => .of result
  | part result => .of result
  | content result => .of result
  | skipped result => .of result
  | kept result _ => .of result
  | noPart => .noPart

/-- What a caller sees after a call: its reply, how far the session has come, what the listener was
told so far, and how much was read of the part at hand. -/
structure Observation where
  reply : Reply
  progress : Progress
  reports : List Progress
  bytesRead : Option Nat

namespace Standing

def session : Standing → Session
  | between s => s
  | within p => p.session

/-- One call. Those on the session drop the part. -/
def call (g : Standing) : Call → Answer × Standing
  | .hasNext => (.of g.session.hasNext.1, .between g.session.hasNext.2)
  | .nextPart =>
    match g.session.nextPart with
    | .error (e, s) => (.failed e, .between s)
    | .ok p => (.done, .within p)
  | .read room =>
    match g with
    | .between s => (.noPart, .between s)
    | .within p => (.of (p.read room).1, .within (p.read room).2)
  | .skip =>
    match g with
    | .between s => (.noPart, .between s)
    | .within p => (.of p.skip.1, .within p.skip.2)
  | .keep depot =>
    match g with
    | .between s => (.noPart, .between s)
    | .within p => (.of (p.keep depot).1, .within (p.keep depot).2.1)

/-- One call after the other. -/
def after (g : Standing) (calls : List Call) : Standing :=
  calls.foldl (fun g c => (g.call c).2) g

/-- One call, with all it hands out. -/
def act (g : Standing) : Call → Reply × Standing
  | .hasNext => (.more g.session.hasNext.1, .between g.session.hasNext.2)
  | .nextPart =>
    match g.session.nextPart with
    | .error (e, s) => (.part (.error e), .between s)
    | .ok p => (.part (.ok p.head), .within p)
  | .read room =>
    match g with
    | .between s => (.noPart, .between s)
    | .within p => (.content (p.read room).1, .within (p.read room).2)
  | .skip =>
    match g with
    | .between s => (.noPart, .between s)
    | .within p => (.skipped p.skip.1, .within p.skip.2)
  | .keep depot =>
    match g with
    | .between s => (.noPart, .between s)
    | .within p => (.kept (p.keep depot).1 (p.keep depot).2.2, .within (p.keep depot).2.1)

theorem call_eq_act (g : Standing) (c : Call) : g.call c = ((g.act c).1.answer, (g.act c).2) := by
  cases c with
  | hasNext => rfl
  | nextPart =>
    simp only [call, act]
    rcases g.session.nextPart with ⟨e, s⟩ | p <;> rfl
  | read room => cases g <;> rfl
  | skip => cases g <;> rfl
  | keep depot => cases g <;> rfl

theorem after_nil (g : Standing) : g.after [] = g := rfl

theorem after_cons (g : Standing) (c : Call) (calls : List Call) :
    g.after (c :: calls) = (g.act c).2.after calls :=
  congrArg (fun x : Answer × Standing => x.2.after calls) (g.call_eq_act c)

theorem after_append (g : Standing) (calls later : List Call) :
    g.after (calls ++ later) = (g.after calls).after later :=
  List.foldl_append

theorem after_concat (g : Standing) (calls : List Call) (c : Call) :
    g.after (calls ++ [c]) = ((g.after calls).act c).2 := by
  rw [after_append, after_cons, after_nil]

def bytesRead? : Standing → Option Nat
  | between _ => none
  | within p => some p.bytesRead

/-- What a caller sees of these calls. -/
def observe (g : Standing) : List Call → List Observation
  | [] => []
  | c :: calls =>
    { reply := (g.act c).1
      progress := (g.act c).2.session.progress
      reports := (g.act c).2.session.window.feed.account.reports
      bytesRead := (g.act c).2.bytesRead? } :: (g.act c).2.observe calls

/-- The bytes pulled from the source so far. -/
def pulled (g : Standing) : Nat :=
  g.session.window.pulled

theorem act_moves (g : Standing) (c : Call) : g.session.Moves (g.act c).2.session := by
  cases c with
  | hasNext => exact g.session.hasNext_moves
  | nextPart =>
    have h := g.session.nextPart_moves
    simp only [act]
    rcases hn : g.session.nextPart with ⟨e, s⟩ | p <;> rw [hn] at h <;> exact h
  | read room =>
    cases g with
    | between s => exact .refl
    | within p => exact p.read_moves room
  | skip =>
    cases g with
    | between s => exact .refl
    | within p => exact p.skip_scanned.moves
  | keep depot =>
    cases g with
    | between s => exact .refl
    | within p => exact p.keep_moves depot

/-- By induction on the calls. -/
theorem after_moves (g : Standing) (calls : List Call) : g.session.Moves (g.after calls).session := by
  induction calls generalizing g with
  | nil => exact .refl
  | cons c calls ih =>
    rw [after_cons]
    exact (g.act_moves c).trans (ih _)

end Standing

end FormData
