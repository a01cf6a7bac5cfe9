/-
Where delimiters are read. A session that goes on without looking for a first delimiter reads the next one
where its window stands, so it must have come to one. It has: before it reads on it discarded up to a
delimiter, that of the set it is in or, outside of any set, that of the body, and every error on the way ended
the session (`Session.turn_leads`). So whatever is called on a session and its parts, each delimiter that is
not a first one is in the window as a whole when it is read, and no call ever misses it
(`delimiters_read_in_place`).
-/
import FormData.Proofs.Session.Granularity
import FormData.Proofs.Session.SetEntry
import FormData.Proofs.Session.Skipping

namespace FormData

/-! ## Errors -/

/-- The error ends the session that meets it, and is not that of missing a delimiter. -/
structure Error.EndsSearch (e : Error) : Prop where
  fatal : e.isFatal = true
  notMissing : e ≠ .malformed .noBoundaryHere

/-- What succeeds does not end a search. -/
theorem ok_endsSearch {α : Type} {a : α} : ∀ e, (.ok a : Except Error α) = .error e → e.EndsSearch :=
  nofun

namespace Window

variable {w w' : Window} {e : Error}

/-- Whatever the source raises ends the search that meets it. -/
def Decisive (w : Window) : Prop :=
  ∀ e ∈ w.failures, e.EndsSearch

theorem Decisive.moves (h : w.Decisive) (hm : w.Moves w') : w'.Decisive :=
  fun e he => h e (hm.failures he)

theorem Decisive.reading_endsSearch (h : w.Decisive) (he : e.IsOfReading w.failures) : e.EndsSearch := by
  cases he with
  | raised he => exact h e he
  | requestSize limit actual => exact ⟨rfl, nofun⟩
  | ended => exact ⟨rfl, nofun⟩

theorem Decisive.readByte_error (hw : w.Decisive) (h : w.readByte = (.error e, w')) : e.EndsSearch := by
  unfold readByte at h
  split at h
  · cases h
  · split at h
    · rename_i hfill
      cases h
      obtain hraised | ⟨limit, actual, rfl⟩ := fill_error_cases hfill
      · exact hw e hraised
      · exact ⟨rfl, nofun⟩
    · split at h
      · cases h
      · cases h
        exact ⟨rfl, nofun⟩

theorem Decisive.afterFirst_error {first : UInt8} (hw : w.Decisive) (h : w.afterFirst first = (.error e, w')) :
    e.EndsSearch := by
  unfold afterFirst at h
  split at h
  · rename_i hread
    cases h
    exact hw.readByte_error hread
  · split at h
    · cases h
    · split at h
      · cases h
      · cases h
        exact ⟨rfl, nofun⟩

/-- Where the window stands on a delimiter that is not missed. -/
theorem Decisive.readDelimiter_error (hw : w.Decisive) (hat : w.AtDelimiter)
    (h : w.readDelimiter = (.error e, w')) : e.EndsSearch := by
  rw [readDelimiter_eq, if_pos (List.isPrefixOf_iff_prefix.2 hat)] at h
  have hpassed : (w.pass w.pattern.length).Decisive := hw
  have hm := (w.pass w.pattern.length).readByte_scanned.moves
  rcases hr : (w.pass w.pattern.length).readByte with ⟨e' | first, v⟩ <;> rw [hr] at h hm
  · cases h
    exact hpassed.readByte_error hr
  · exact (hpassed.moves hm).afterFirst_error h

/-- A first delimiter is read only once it was found. -/
theorem Decisive.findFirst_error (hw : w.Decisive) (h : w.findFirst = (.error e, w')) : e.EndsSearch := by
  have hstart : ({ w with atStart := true } : Window).Decisive := hw
  have hm := ({ w with atStart := true } : Window).discard_advances.moves
  unfold findFirst at h
  split at h
  · cases h
    exact ⟨rfl, nofun⟩
  · rename_i hd
    cases h
    exact hstart.reading_endsSearch (discard_error_isOfReading hd)
  · rename_i v hd
    rcases hr : v.readDelimiter with ⟨r, u⟩
    rw [hd] at hm
    rw [hr] at h
    cases h
    exact (hstart.moves hm).readDelimiter_error (discard_atDelimiter hd) hr

theorem Decisive.readBlockFrom_error {limit count : Nat} {ending : Ending} {block : Bytes} (hw : w.Decisive)
    (h : w.readBlockFrom limit ending count block = (.error e, w')) : e.EndsSearch := by
  fun_induction readBlockFrom limit ending count block w with
  | case1 => cases h
  | case2 _ _ _ w _ e' w'' hr =>
    cases h
    exact hw.readByte_error hr
  | case3 =>
    cases h
    exact ⟨rfl, Error.noConfusion⟩
  | case4 _ _ _ w _ b w'' hr _ _ ih =>
    have hm := w.readByte_scanned.moves
    rw [hr] at hm
    exact ih (hw.moves hm) h

end Window

namespace Session

/-! ## The delimiters of a run -/

/-- The delimiters that a search from here comes to, one after the other, each as the session before it. -/
def delimiters (s : Session) : List Session :=
  match h : s.turn with
  | (.stop _, _) => [s]
  | (.again, s') =>
    have : s'.pending.length < s.pending.length := turn_lt h nofun
    s :: s'.delimiters
termination_by s.pending.length

/-- The delimiters that `hasNext` comes to, and `nextPart` with it. -/
def searched (s : Session) : List Session :=
  match s.phase with
  | .start => s.delimiters
  | .reading =>
    match s.window.discard with
    | (.error _, _) => []
    | (.ok _, window) => ({ s with window } : Session).delimiters
  | .located _ | .exhausted | .failed => []

end Session

namespace Standing

/-- The delimiters that a call comes to. -/
def searched (g : Standing) : Call → List Session
  | .hasNext | .nextPart => g.session.searched
  | .read _ | .skip | .keep _ => []

/-- All the delimiters that a run of calls comes to. -/
def delimiters (g : Standing) : List Call → List Session
  | [] => []
  | c :: calls => g.searched c ++ (g.act c).2.delimiters calls

end Standing

namespace Session

/-- The boundary of the set that a part with these headers holds, within the body outside of any set. -/
def innerBoundary? (headers : Headers) : Option Bytes :=
  match setOf headers with
  | .ok (some (_, inner)) => some inner
  | _ => none

/-- The boundary of the set that a session is in behind the headers of a part. Within a set no other is
entered. -/
def setEntered (inner : Option Bytes) (headers : Headers) : Option Bytes :=
  inner <|> innerBoundary? headers

/-- The boundary of the set that a session is in behind a delimiter, with `inner` that of the set before
it. A closing delimiter ends the set. -/
def setBehind (inner : Option Bytes) (t : Session) : Option Bytes :=
  match t.nextDelimiter with
  | (.error _, _) => inner
  | (.ok false, _) => none
  | (.ok true, window) =>
    match window.readHeaderBlock t.settings.maxHeaderSize with
    | (.error _, _) => inner
    | (.ok block, _) => setEntered inner (Headers.ofBlock block)

/-- The boundary of the set that a session is in once it has passed these delimiters, with `inner` that of
the set before them. -/
def setAfter (inner : Option Bytes) (passed : List Session) : Option Bytes :=
  passed.foldl setBehind inner

variable {s s' t : Session} {outer : Bytes} {inner : Option Bytes}

/-! ## In front of a delimiter -/

/-- The session is in a set with this boundary, or in none. -/
def InSet (s : Session) : Option Bytes → Prop
  | none => s.enclosing = none
  | some inner => s.enclosing.isSome = true ∧ s.window.boundary = inner

theorem InSet.moved (h : s.InSet inner) {w : Window} (hw : w.boundary = s.window.boundary) (preamble : Bool)
    (phase : Phase) : ({ s with window := w, preamble, phase } : Session).InSet inner := by
  cases inner with
  | none => exact h
  | some inner => exact ⟨h.1, hw.trans h.2⟩

theorem InSet.isSome_enclosing (h : s.InSet inner) : s.enclosing.isSome = inner.isSome := by
  cases inner with
  | none => exact congrArg Option.isSome h
  | some inner => exact h.1

/-- Where one turn of a search leads, with this boundary of the set behind it: to the front of the next
delimiter, or to an answer. Every error ends the session. -/
def Leads (inner : Option Bytes) : Turn × Session → Prop
  | (.again, s) => s.InSet inner ∧ s.Ready
  | (.stop (.ok _), s) => s.InSet inner ∧ s.phase ≠ .start
  | (.stop (.error e), _) => e.EndsSearch

/-- Behind the end of a set what comes before the next delimiter of the body is passed. -/
theorem leaveBody_leads (hw : s.window.Decisive) : Leads none s.leaveBody := by
  unfold leaveBody
  split
  · rename_i hnone
    exact ⟨hnone, nofun⟩
  · obtain hset | ⟨fault, hset⟩ := s.window.setBoundary_cases s.boundary <;> simp only [hset]
    · have hback : ({ s.window with boundary := s.boundary } : Window).Decisive := hw
      rcases hd : ({ s.window with boundary := s.boundary } : Window).discard with ⟨e | count, v⟩
      · exact hback.reading_endsSearch (Window.discard_error_isOfReading hd)
      · exact ⟨rfl, .inr (Window.discard_atDelimiter hd)⟩
    · exact ⟨rfl, Error.noConfusion⟩

theorem locatePart_leads (h : s.InSet inner) (hw : s.window.Decisive) (headers : Headers) :
    Leads inner (s.locatePart headers) := by
  unfold locatePart
  simp only
  split
  · have ha := s.window.discard_advances
    rcases hd : s.window.discard with ⟨e | count, v⟩ <;> rw [hd] at ha
    · exact hw.reading_endsSearch (Window.discard_error_isOfReading hd)
    · exact ⟨h.moved ha.boundary s.preamble s.phase, .inr (Window.discard_atDelimiter hd)⟩
  · rcases hc : s.window.feed.account.countPart with ⟨e | ⟨⟩, account⟩
    · obtain ⟨limit, rfl⟩ := Account.countPart_error_eq hc
      exact ⟨rfl, Error.noConfusion⟩
    · exact ⟨h.moved rfl s.preamble _, nofun⟩

theorem enterPart_leads (h : s.InSet inner) (hw : s.window.Decisive) (headers : Headers) :
    Leads (setEntered inner headers) (s.enterPart headers) := by
  cases inner with
  | some inner =>
    -- within a set the headers are not asked for another
    have hinside : s.enclosing.isNone = false := by
      rw [← Option.not_isSome, h.1]
      rfl
    unfold enterPart
    simp only [hinside, Bool.false_eq_true, if_false]
    exact locatePart_leads h hw headers
  | none =>
    rw [enterPart_outside h]
    unfold setEntered innerBoundary?
    rcases hset : setOf headers with e | _ | ⟨field, inner⟩
    · obtain ⟨field, rfl⟩ := setOf_error_eq hset
      exact ⟨rfl, nofun⟩
    · exact locatePart_leads h hw headers
    · simp only
      obtain hboundary | ⟨fault, hboundary⟩ := s.window.setBoundary_cases inner <;> simp only [hboundary]
      · exact ⟨⟨rfl, rfl⟩, .inl rfl⟩
      · exact ⟨rfl, Error.noConfusion⟩

/-- One turn of a search, from the front of a delimiter to that of the next one. -/
theorem turn_leads (h : s.InSet inner) (hr : s.Ready) (hw : s.window.Decisive) :
    Leads (setBehind inner s) s.turn := by
  have ha := s.nextDelimiter_advances
  unfold turn setBehind
  rcases hn : s.nextDelimiter with ⟨e | _ | _, w⟩ <;> rw [hn] at ha
  · unfold nextDelimiter at hn
    split at hn
    · exact hw.findFirst_error hn
    · rename_i hpreamble
      exact hw.readDelimiter_error (hr.resolve_left hpreamble) hn
  · exact leaveBody_leads (hw.moves ha.moves)
  · have hb := w.readHeaderBlock_advances s.settings.maxHeaderSize
    unfold openPart
    simp only
    rcases hread : w.readHeaderBlock s.settings.maxHeaderSize with ⟨e | block, v⟩ <;> rw [hread] at hb
    · exact (hw.moves ha.moves).readBlockFrom_error hread
    · exact enterPart_leads (h.moved (hb.boundary.trans ha.boundary) false s.phase)
        ((hw.moves ha.moves).moves hb.moves) _

/-! ## Searches -/

/-- The session is in front of a delimiter of this set, or of the body outside of any. -/
structure InPlace (s : Session) (outer : Bytes) (inner : Option Bytes) : Prop where
  framed : s.Framed outer
  decisive : s.window.Decisive
  inside : s.InSet inner
  ready : s.Ready

/-- The delimiter that is not looked for is in the window. -/
theorem InPlace.delimiter (h : s.InPlace outer inner) (hp : s.preamble = false) :
    Window.delimiter (inner.getD outer) <+: s.window.unread := by
  have hat : s.window.AtDelimiter := h.ready.resolve_left (by rw [hp]; exact Bool.false_ne_true)
  have hlooked : s.window.boundary = inner.getD outer := by
    cases inner with
    | none => exact h.framed.outermost h.inside
    | some inner => exact h.inside.2
  rw [Window.AtDelimiter, h.framed.reached.pattern_eq, hlooked] at hat
  exact hat

/-- Each of these delimiters is read in its place, the first one with this boundary of the set. -/
def AllInPlace (outer : Bytes) : Option Bytes → List Session → Prop
  | _, [] => True
  | inner, t :: later => t.InPlace outer inner ∧ AllInPlace outer (setBehind inner t) later

theorem AllInPlace.append {passed later : List Session} (h : AllInPlace outer inner passed)
    (hl : AllInPlace outer (setAfter inner passed) later) : AllInPlace outer inner (passed ++ later) := by
  induction passed generalizing inner with
  | nil => exact hl
  | cons t passed ih => exact ⟨h.1, ih h.2 hl⟩

theorem AllInPlace.at {passed later : List Session} (h : AllInPlace outer inner (passed ++ t :: later)) :
    t.InPlace outer (setAfter inner passed) := by
  induction passed generalizing inner with
  | nil => exact h.1
  | cons _ passed ih => exact ih h.2

theorem delimiters_of_stop {r : Except Error Bool} (h : s.turn = (.stop r, s')) : s.delimiters = [s] := by
  rw [delimiters]
  split
  · rfl
  · rename_i h'
    cases h.symm.trans h'

theorem delimiters_of_again (h : s.turn = (.again, s')) : s.delimiters = s :: s'.delimiters := by
  rw [delimiters]
  split
  · rename_i h'
    cases h.symm.trans h'
  · rename_i h'
    cases h.symm.trans h'
    rfl

/-- How a search ends, behind these delimiters. -/
def SearchLeads (inner : Option Bytes) : Except Error Bool × Session → Prop
  | (.ok _, s) => s.InSet inner ∧ s.phase ≠ .start
  | (.error e, _) => e.EndsSearch

/-- By induction on the delimiters. -/
theorem locate_leads (h : s.InPlace outer inner) :
    AllInPlace outer inner s.delimiters ∧ SearchLeads (setAfter inner s.delimiters) s.locate := by
  have hturn := turn_leads h.inside h.ready h.decisive
  fun_induction locate s generalizing inner with
  | case1 s r s' ht =>
    rw [ht] at hturn
    rw [delimiters_of_stop ht]
    refine ⟨⟨h, trivial⟩, ?_⟩
    rcases r with e | more <;> exact hturn
  | case2 s s' ht _ ih =>
    have hchanges := s.turn_changes
    have hmoves := s.turn_moves
    rw [ht] at hturn hchanges hmoves
    rw [delimiters_of_again ht]
    have hnext : s'.InPlace outer (setBehind inner s) :=
      ⟨h.framed.changes hchanges, h.decisive.moves hmoves, hturn.1, hturn.2⟩
    obtain ⟨hall, hleads⟩ := ih hnext (turn_leads hnext.inside hnext.ready hnext.decisive)
    exact ⟨⟨h, hall⟩, hleads⟩

/-- Between calls the session has not looked for its first delimiter, or is in this set or in none. Nothing
is read after a failure. -/
structure OnCourse (s : Session) (outer : Bytes) (inner : Option Bytes) : Prop where
  framed : s.Framed outer
  decisive : s.window.Decisive
  inside : s.phase ≠ .failed → s.InSet inner
  start : s.phase = .start → s.preamble = true

theorem advance_leads (h : s.OnCourse outer inner) (hphase : s.phase = .start ∨ s.phase = .reading) :
    AllInPlace outer inner s.searched ∧ SearchLeads (setAfter inner s.searched) s.advance := by
  unfold advance searched
  rcases hphase with hphase | hphase
  · simp only [hphase]
    exact locate_leads ⟨h.framed, h.decisive, h.inside (by rw [hphase]; decide), .inl (h.start hphase)⟩
  · have ha := s.window.discard_advances
    have hchanges := s.discard_changes
    simp only [hphase] at hchanges ⊢
    rcases hd : s.window.discard with ⟨e | count, w⟩ <;> rw [hd] at ha hchanges
    · exact ⟨trivial, h.decisive.reading_endsSearch (Window.discard_error_isOfReading hd)⟩
    · have hinside := (h.inside (by rw [hphase]; decide)).moved ha.boundary s.preamble .reading
      exact locate_leads ⟨h.framed.changes hchanges, h.decisive.moves ha.moves, hinside,
        .inr (Window.discard_atDelimiter hd)⟩

theorem refusal_endsSearch (s : Session) : s.refusal.EndsSearch := by
  unfold refusal
  split <;> exact ⟨rfl, Error.noConfusion⟩

theorem search_onCourse (h : s.OnCourse outer inner) (hphase : s.phase = .start ∨ s.phase = .reading) :
    s.search.2.OnCourse outer (setAfter inner s.searched) ∧ ∀ e, s.search.1 = .error e → e.EndsSearch := by
  have hleads := (advance_leads h hphase).2
  have hchanges := s.advance_changes
  have hmoves := s.advance_moves
  unfold search
  rcases ha : s.advance with ⟨e | more, s'⟩ <;> rw [ha] at hleads hchanges hmoves
  · have hfailed : (s'.afterError e).phase = .failed := by
      rw [afterError, if_pos hleads.fatal]
    refine ⟨⟨h.framed.changes (hchanges.afterError e), h.decisive.moves (afterError_moves hmoves e),
      fun hne => absurd hfailed hne, fun hs => ?_⟩, ?_⟩
    · cases hs.symm.trans hfailed
    · rintro _ ⟨⟩
      exact hleads
  · exact ⟨⟨h.framed.changes hchanges, h.decisive.moves hmoves, fun _ => hleads.1,
      fun hs => absurd hs hleads.2⟩, ok_endsSearch⟩

theorem hasNext_onCourse (h : s.OnCourse outer inner) :
    AllInPlace outer inner s.searched ∧ s.hasNext.2.OnCourse outer (setAfter inner s.searched) ∧
      ∀ e, s.hasNext.1 = .error e → e.EndsSearch := by
  have hidle (hsearched : s.searched = []) : AllInPlace outer inner s.searched ∧
      s.OnCourse outer (setAfter inner s.searched) := by
    rw [hsearched]
    exact ⟨trivial, h⟩
  rw [hasNext_eq]
  cases hphase : s.phase with
  | start => exact ⟨(advance_leads h (.inl hphase)).1, search_onCourse h (.inl hphase)⟩
  | reading => exact ⟨(advance_leads h (.inr hphase)).1, search_onCourse h (.inr hphase)⟩
  | located head =>
    obtain ⟨hall, hs⟩ := hidle (by rw [searched, hphase])
    exact ⟨hall, hs, ok_endsSearch⟩
  | exhausted =>
    obtain ⟨hall, hs⟩ := hidle (by rw [searched, hphase])
    exact ⟨hall, hs, ok_endsSearch⟩
  | failed =>
    obtain ⟨hall, hs⟩ := hidle (by rw [searched, hphase])
    refine ⟨hall, hs, ?_⟩
    rintro _ ⟨⟩
    exact s.refusal_endsSearch

theorem nextPart_onCourse (h : s.OnCourse outer inner) :
    match s.nextPart with
    | .ok p => p.session.OnCourse outer (setAfter inner s.searched)
    | .error (e, s') => s'.OnCourse outer (setAfter inner s.searched) ∧
        (e.EndsSearch ∨ e = .exhausted ∧ s.hasNext = (.ok false, s')) := by
  obtain ⟨-, hcourse, hends⟩ := hasNext_onCourse h
  rcases hn : s.hasNext with ⟨e | _ | _, s'⟩ <;> rw [hn] at hcourse hends
  · rw [nextPart_of_hasNext_error hn]
    exact ⟨hcourse, .inl (hends e rfl)⟩
  · have hnone : s.nextPart = .error (.exhausted, s') := by
      unfold nextPart
      rw [hn]
    rw [hnone]
    exact ⟨hcourse, .inr ⟨rfl, rfl⟩⟩
  · obtain ⟨p, hp, hsession⟩ := nextPart_of_hasNext hn
    obtain ⟨head, hphase⟩ := hasNext_answered hn
    rw [hp]
    simp only
    rw [hsession]
    exact ⟨hcourse.framed.changes (Changes.move .refl (.refl s'.window) s'.preamble .reading),
      hcourse.decisive, fun _ => hcourse.inside (by rw [hphase]; nofun), nofun⟩

end Session

/-! ## Parts -/

namespace OpenPart

/-- An operation on a part leaves its session in the set it is in, and misses no delimiter. -/
structure Stays {α : Type} (p : OpenPart) (x : Except Error α × OpenPart) : Prop where
  enclosing : x.2.session.enclosing = p.session.enclosing
  preamble : x.2.session.preamble = p.session.preamble
  notMissing : x.1 ≠ .error (.malformed .noBoundaryHere)

variable {p q : OpenPart}

namespace Stays

variable {α β : Type} {x : Except Error α × OpenPart}

theorem succeeded {a : α} (henclosing : q.session.enclosing = p.session.enclosing)
    (hpreamble : q.session.preamble = p.session.preamble) : p.Stays (.ok a, q) :=
  ⟨henclosing, hpreamble, nofun⟩

theorem failed {e : Error} (h : p.Stays ((.error e, q) : Except Error α × OpenPart)) :
    p.Stays ((.error e, q) : Except Error β × OpenPart) :=
  ⟨h.enclosing, h.preamble, fun he => h.notMissing (congrArg Except.error (Except.error.inj he))⟩

/-- An operation that goes on from where another came to. -/
theorem after {y : Except Error β × OpenPart} (h : y.2.Stays x) (hp : p.Stays y) : p.Stays x :=
  ⟨h.enclosing.trans hp.enclosing, h.preamble.trans hp.preamble, h.notMissing⟩

end Stays

theorem brokenOff_stays {α : Type} (p : OpenPart) (w : Window) {e : Error} (he : e.EndsSearch) :
    p.Stays ((.error e, p.brokenOff w e) : Except Error α × OpenPart) := by
  have hne : (.error e : Except Error α) ≠ .error (.malformed .noBoundaryHere) :=
    fun h => he.notMissing (Except.error.inj h)
  unfold brokenOff Session.afterError
  split <;> exact ⟨rfl, rfl, hne⟩

theorem discardRest_stays (hw : p.session.window.Decisive) : p.Stays p.discardRest := by
  unfold discardRest
  rcases hd : p.session.window.discard with ⟨e | count, w⟩
  · exact p.brokenOff_stays w (hw.reading_endsSearch (Window.discard_error_isOfReading hd))
  · exact .succeeded rfl rfl

theorem refuseSize_stays (hw : p.session.window.Decisive) (limit : Nat) (actual : Nat → Nat) :
    p.Stays (p.refuseSize limit actual) := by
  have h := p.discardRest_stays hw
  unfold refuseSize
  rcases hd : p.discardRest with ⟨e | count, p'⟩ <;> rw [hd] at h
  · exact h.failed
  · exact ⟨h.enclosing, h.preamble, nofun⟩

theorem took_stays (p : OpenPart) (bytes : Bytes) {w : Window} (hw : w.Decisive) :
    p.Stays (p.took bytes w) := by
  unfold took
  simp only
  split
  · exact .succeeded rfl rfl
  · split
    · split
      · have h := refuseSize_stays (p := { p with session := { p.session with window := w } }) hw
        exact ⟨(h _ _).enclosing, (h _ _).preamble, (h _ _).notMissing⟩
      · exact .succeeded rfl rfl
    · exact .succeeded rfl rfl

theorem readContent_stays (hw : p.session.window.Decisive) (room : Nat) : p.Stays (p.readContent room) := by
  have hm := (p.session.window.take_advances room).moves
  rw [readContent_eq]
  rcases ht : p.session.window.take room with ⟨e | bytes, w⟩ <;> rw [ht] at hm
  · exact p.brokenOff_stays w (hw.reading_endsSearch (Window.take_error_isOfReading ht))
  · exact p.took_stays bytes (hw.moves hm)

theorem read_stays (hw : p.session.window.Decisive) (room : Nat) : p.Stays (p.read room) := by
  unfold read
  split
  · exact ⟨rfl, rfl, fun he => p.session.refusal_endsSearch.notMissing (Except.error.inj he)⟩
  · split
    · exact .succeeded rfl rfl
    · split
      · exact p.refuseSize_stays hw _ _
      · exact p.readContent_stays hw room

theorem skip_stays (hw : p.session.window.Decisive) : p.Stays p.skip := by
  unfold skip
  split
  · exact .succeeded rfl rfl
  · exact p.discardRest_stays hw

theorem spool_stays (hw : p.session.window.Decisive) (d : Depot) (s : Spool) :
    p.Stays ((p.spool d s).1, (p.spool d s).2.1) := by
  fun_induction spool p d s with
  | case1 p d s e p' hr =>
    have h := p.read_stays hw stretch
    rw [hr] at h
    exact h.failed
  | case2 p d s p' hr =>
    have h := p.read_stays hw stretch
    rw [hr] at h
    exact .succeeded h.enclosing h.preamble
  | case3 p d s b bytes p' hr e d' hw =>
    have h := p.read_stays hw stretch
    rw [hr] at h
    refine ⟨h.enclosing, h.preamble, fun he => ?_⟩
    cases he
    rcases Spool.write_error hw with hclosed | ⟨error, hio⟩
    · cases hclosed
    · cases hio
  | case4 p d s b bytes p' hr s' d' _ _ ih =>
    have h := p.read_stays hw stretch
    have hm := p.read_moves stretch
    rw [hr] at h hm
    exact (ih (hw.moves hm)).after h

theorem keep_stays (hw : p.session.window.Decisive) (d : Depot) :
    p.Stays ((p.keep d).1, (p.keep d).2.1) := by
  have h := p.spool_stays hw d {}
  unfold keep
  split
  · rename_i e hname
    refine ⟨rfl, rfl, ?_⟩
    rintro ⟨⟩
    cases fileName_error_not_fatal hname
  · rcases hs : p.spool d {} with ⟨e | s, p', d'⟩ <;> rw [hs] at h
    · exact h.failed
    · exact .succeeded h.enclosing h.preamble

/-- What an operation on a part leaves between calls. -/
theorem Stays.onCourse {α : Type} {x : Except Error α × OpenPart} (h : p.Stays x) (hs : p.Scanned x)
    (hc : p.session.Changes x.2.session) {outer : Bytes} {inner : Option Bytes}
    (hp : p.session.OnCourse outer inner) : x.2.session.OnCourse outer inner where
  framed := hp.framed.changes hc
  decisive := hp.decisive.moves hs.moves
  inside hlive := by
    have hphase : x.2.session.phase = p.session.phase := hs.phase.resolve_right hlive
    have hinside := hp.inside (hphase ▸ hlive)
    cases inner with
    | none => exact h.enclosing.trans hinside
    | some inner => exact ⟨h.enclosing ▸ hinside.1, hs.scans.advances.boundary.trans hinside.2⟩
  start hstart := by
    have hphase : x.2.session.phase = p.session.phase :=
      hs.phase.resolve_right (by rw [hstart]; nofun)
    rw [h.preamble]
    exact hp.start (hphase.symm.trans hstart)

end OpenPart

/-! ## Calls in any order -/

namespace Standing

open Session (AllInPlace setAfter)

variable {g : Standing} {outer : Bytes} {inner : Option Bytes}

theorem answer_ne_missing {α : Type} {result : Except Error α}
    (h : result ≠ .error (.malformed .noBoundaryHere)) :
    Answer.of result ≠ .failed (.malformed .noBoundaryHere) := by
  cases result with
  | ok a => nofun
  | error e => exact fun he => h (congrArg Except.error (Answer.failed.inj he))

/-- One call comes to delimiters in their places only, and misses none. -/
theorem act_onCourse (h : g.session.OnCourse outer inner) (c : Call) :
    AllInPlace outer inner (g.searched c) ∧
      (g.act c).2.session.OnCourse outer (setAfter inner (g.searched c)) ∧
      (g.act c).1.answer ≠ .failed (.malformed .noBoundaryHere) := by
  cases c with
  | hasNext =>
    obtain ⟨hall, hcourse, hends⟩ := Session.hasNext_onCourse h
    exact ⟨hall, hcourse, answer_ne_missing fun he => (hends _ he).notMissing rfl⟩
  | nextPart =>
    have hall := (Session.hasNext_onCourse h).1
    have hn := Session.nextPart_onCourse h
    simp only [act]
    rcases hnext : g.session.nextPart with ⟨e, s⟩ | p <;> rw [hnext] at hn
    · refine ⟨hall, hn.1, fun he => ?_⟩
      cases Answer.failed.inj he
      rcases hn.2 with hends | ⟨hexhausted, -⟩
      · exact hends.notMissing rfl
      · cases hexhausted
    · exact ⟨hall, hn, Answer.noConfusion⟩
  | read room =>
    cases g with
    | between s => exact ⟨trivial, h, Answer.noConfusion⟩
    | within p =>
      have hstays := p.read_stays h.decisive room
      exact ⟨trivial, hstays.onCourse (p.read_scanned room) (p.read_changes room) h,
        answer_ne_missing hstays.notMissing⟩
  | skip =>
    cases g with
    | between s => exact ⟨trivial, h, Answer.noConfusion⟩
    | within p =>
      have hstays := p.skip_stays h.decisive
      exact ⟨trivial, hstays.onCourse p.skip_scanned p.skip_changes h, answer_ne_missing hstays.notMissing⟩
  | keep depot =>
    cases g with
    | between s => exact ⟨trivial, h, Answer.noConfusion⟩
    | within p =>
      have hstays := p.keep_stays h.decisive depot
      exact ⟨trivial, hstays.onCourse (p.keep_scanned depot) (p.keep_changes depot) h,
        answer_ne_missing hstays.notMissing⟩

/-- By induction on the calls. -/
theorem after_onCourse (h : g.session.OnCourse outer inner) (calls : List Call) :
    AllInPlace outer inner (g.delimiters calls) ∧
      (g.after calls).session.OnCourse outer (setAfter inner (g.delimiters calls)) := by
  induction calls generalizing g inner with
  | nil => exact ⟨trivial, h⟩
  | cons c calls ih =>
    obtain ⟨hall, hcourse, -⟩ := act_onCourse h c
    obtain ⟨hlater, hafter⟩ := ih hcourse
    rw [after_cons]
    unfold delimiters setAfter
    rw [List.foldl_append]
    exact ⟨hall.append hlater, hafter⟩

end Standing

namespace Session

variable {s : Session} {source : Source} {boundary : Bytes} {settings : Settings}

theorem open?_onCourse (h : open? source boundary settings = .ok s)
    (hends : ∀ e ∈ source.failures, e.EndsSearch) : s.OnCourse boundary none := by
  have hframed := open?_framed h
  obtain ⟨-, rfl⟩ := open?_ok h
  exact ⟨hframed, hends, fun _ => rfl, fun _ => rfl⟩

/-- A body from a source that fails before it hands out anything. -/
def failingFirst (error : IoError) : Source where
  transport := { segments := [.failure error, .data (Utf8.encode "--B\r\n\r\nabc\r\n--B--")] }

-- An error of another body that comes through the source may let the session go on. Met in front of the body,
-- it leaves the session where no first delimiter is looked for any more, and none is in the window.
example :
    (open? (failingFirst (.carrying .other (.fileSize none none 2 3))) [66] {}).toOption.map (fun s =>
      [s.hasNext.1, s.hasNext.2.hasNext.1]) =
        some [.error (.fileSize none none 2 3), .error (.malformed .noBoundaryHere)] := by
  decide +kernel

end Session

end FormData
