/-
The boundary that a session looks for: that of the body, but for the time it spends within a set. Its
window moves on, enters a set or leaves one (`Session.Change`), and whatever is called on the session or
on its parts comes to such changes (`Standing.after_changes`). None of them lets it look for anything
else than the boundary of the body where it is outside of a set, and that with its line break
(`Session.Framed`).
-/
import FormData.Proofs.Body.Runs
import FormData.Proofs.Session.Provenance

namespace FormData

namespace Session

variable {s t : Session} {boundary : Bytes}

/-! ## Changes -/

/-- What happens to the window of a session, and to the set it is in. -/
inductive Change : Session → Session → Prop
  | move (s : Session) {w : Window} (hs : s.window.SameSearch w) (preamble : Bool) (phase : Phase) :
    Change s { s with window := w, preamble, phase }
  /-- Looking for the first delimiter. -/
  | find (s : Session) (preamble : Bool) : Change s { s with window := s.window.findFirst.2, preamble }
  | enter (s : Session) (field : String) (inner : Bytes) :
    Change s { s with
      window := (s.window.setBoundary inner).2
      enclosing := some field
      preamble := true }
  | leave (s : Session) :
    Change s { s with window := (s.window.setBoundary s.boundary).2, enclosing := none }

/-- One change after the other. -/
abbrev Changes : Session → Session → Prop :=
  Relation.ReflTransGen Change

theorem Changes.move (h : s.Changes t) {w : Window} (hs : t.window.SameSearch w) (preamble : Bool)
    (phase : Phase) : s.Changes { t with window := w, preamble, phase } :=
  h.tail (.move t hs preamble phase)

theorem leaveBody_changes (s : Session) : s.Changes s.leaveBody.2 := by
  unfold leaveBody
  split
  · exact Changes.move .refl (.refl s.window) s.preamble .exhausted
  · have hback : s.Changes { s with
        window := (s.window.setBoundary s.boundary).2
        enclosing := none } := .single (.leave s)
    rcases hset : s.window.setBoundary s.boundary with ⟨e | ⟨⟩, w⟩ <;> rw [hset] at hback
    · exact hback
    · have hsame : w.SameSearch w.discard.2 := Window.discardFrom_sameSearch 0 w
      simp only
      rcases hw : w.discard with ⟨e | count, v⟩ <;> rw [hw] at hsame
      · exact hback.move hsame s.preamble s.phase
      · exact hback.move hsame s.preamble s.phase

theorem locatePart_changes (s : Session) (headers : Headers) : s.Changes (s.locatePart headers).2 := by
  unfold locatePart
  simp only
  split
  · have hsame : s.window.SameSearch s.window.discard.2 := Window.discardFrom_sameSearch 0 s.window
    rcases hw : s.window.discard with ⟨e | count, v⟩ <;> rw [hw] at hsame
    · exact Changes.move .refl hsame s.preamble s.phase
    · exact Changes.move .refl hsame s.preamble s.phase
  · -- counting a part touches the account alone
    have hcounted (account : Account) :
        s.window.SameSearch { s.window with feed := { s.window.feed with account } } := ⟨rfl, rfl, rfl⟩
    split
    · exact Changes.move .refl (hcounted _) s.preamble s.phase
    · exact Changes.move .refl (hcounted _) s.preamble _

theorem enterPart_changes (s : Session) (headers : Headers) : s.Changes (s.enterPart headers).2 := by
  unfold enterPart
  split
  · exact .refl
  · rename_i field inner _
    have henter := Change.enter s field inner
    have hsame : (s.window.setBoundary inner).1 ≠ .ok () → (s.window.setBoundary inner).2 = s.window := by
      unfold Window.setBoundary
      rcases Window.checkBoundary inner s.window.capacity with e | ⟨⟩
      · exact fun _ => rfl
      · exact fun hne => absurd rfl hne
    rcases hset : s.window.setBoundary inner with ⟨e | ⟨⟩, w⟩ <;> rw [hset] at henter hsame
    · -- a boundary that does not fit is not looked for
      obtain rfl : w = s.window := hsame nofun
      exact .refl
    · exact .single henter
  · exact s.locatePart_changes headers

theorem openPart_changes (s : Session) : s.Changes s.openPart.2 := by
  have hsame : s.window.SameSearch (s.window.readHeaderBlock s.settings.maxHeaderSize).2 :=
    Window.readBlockFrom_sameSearch _ .crlf 0 [] s.window
  unfold openPart
  rcases hr : s.window.readHeaderBlock s.settings.maxHeaderSize with ⟨e | block, w⟩ <;> rw [hr] at hsame
  · exact Changes.move .refl hsame s.preamble s.phase
  · exact (Changes.move .refl hsame s.preamble s.phase).trans (enterPart_changes _ _)

theorem nextDelimiter_changes (s : Session) (preamble : Bool) :
    s.Changes { s with window := s.nextDelimiter.2, preamble } := by
  unfold nextDelimiter
  split
  · exact .single (.find s preamble)
  · exact Changes.move .refl s.window.readDelimiter_sameSearch preamble s.phase

theorem turn_changes (s : Session) : s.Changes s.turn.2 := by
  have hnext := s.nextDelimiter_changes false
  unfold turn
  rcases hn : s.nextDelimiter with ⟨e | _ | _, w⟩ <;> rw [hn] at hnext
  · exact hnext
  · exact hnext.trans (leaveBody_changes _)
  · exact hnext.trans (openPart_changes _)

/-- By induction on the delimiters. -/
theorem locate_changes (s : Session) : s.Changes s.locate.2 := by
  have hturn := s.turn_changes
  fun_induction locate s with
  | case1 s r s' ht => rwa [ht] at hturn
  | case2 s s' ht _ ih =>
    rw [ht] at hturn
    exact hturn.trans (ih s'.turn_changes)

theorem discard_changes (s : Session) : s.Changes { s with window := s.window.discard.2 } :=
  Changes.move .refl (Window.discardFrom_sameSearch 0 s.window) s.preamble s.phase

theorem advance_changes (s : Session) : s.Changes s.advance.2 := by
  have hd := s.discard_changes
  unfold advance
  split
  · rcases hw : s.window.discard with ⟨e | count, w⟩ <;> rw [hw] at hd
    · exact hd
    · exact hd.trans (locate_changes _)
  · exact s.locate_changes

theorem Changes.afterError (h : s.Changes t) (e : Error) : s.Changes (t.afterError e) := by
  unfold Session.afterError
  split
  · exact h.move (.refl t.window) t.preamble .failed
  · exact h

theorem hasNext_changes (s : Session) : s.Changes s.hasNext.2 := by
  have hsearch : s.Changes s.search.2 := by
    have ha := s.advance_changes
    unfold search
    rcases hadv : s.advance with ⟨e | more, s'⟩ <;> rw [hadv] at ha
    · exact ha.afterError e
    · exact ha
  rw [hasNext_eq]
  cases s.phase with
  | start => exact hsearch
  | reading => exact hsearch
  | _ => exact .refl

theorem nextPart_changes (s : Session) :
    match s.nextPart with
    | .ok p => s.Changes p.session
    | .error (_, s') => s.Changes s' := by
  have hn := s.hasNext_changes
  unfold nextPart
  rcases hnext : s.hasNext with ⟨e | _ | _, s'⟩ <;> rw [hnext] at hn
  · exact hn
  · exact hn
  · simp only
    cases s'.phase with
    | located head => exact hn.move (.refl s'.window) s'.preamble .reading
    | _ => exact hn

end Session

namespace OpenPart

theorem discardRest_changes (p : OpenPart) : p.session.Changes p.discardRest.2.session := by
  have hd := p.session.discard_changes
  unfold discardRest
  rcases hw : p.session.window.discard with ⟨e | count, w⟩ <;> rw [hw] at hd
  · exact hd.afterError e
  · exact hd

theorem refuseSize_changes (p : OpenPart) (limit : Nat) (actual : Nat → Nat) :
    p.session.Changes (p.refuseSize limit actual).2.session := by
  have hd := p.discardRest_changes
  unfold refuseSize
  rcases hr : p.discardRest with ⟨e | count, p'⟩ <;> rw [hr] at hd <;> exact hd

theorem readContent_changes (p : OpenPart) (room : Nat) :
    p.session.Changes (p.readContent room).2.session := by
  have ht : p.session.Changes { p.session with window := (p.session.window.take room).2 } :=
    Session.Changes.move .refl (p.session.window.take_sameSearch room) p.session.preamble p.session.phase
  rw [readContent_eq]
  rcases htake : p.session.window.take room with ⟨e | bytes, w⟩ <;> rw [htake] at ht
  · exact ht.afterError e
  · simp only [took]
    split
    · exact ht
    · split
      · split
        · exact ht.trans (refuseSize_changes { p with session := { p.session with window := w } } _ _)
        · exact ht
      · exact ht

theorem read_changes (p : OpenPart) (room : Nat) : p.session.Changes (p.read room).2.session := by
  unfold read
  split
  · exact .refl
  · split
    · exact .refl
    · split
      · exact p.refuseSize_changes _ _
      · exact p.readContent_changes room

theorem skip_changes (p : OpenPart) : p.session.Changes p.skip.2.session := by
  unfold skip
  split
  · exact .refl
  · exact p.discardRest_changes

theorem keep_changes (p : OpenPart) (d : Depot) : p.session.Changes (p.keep d).2.1.session := by
  have hspool : p.session.Changes (p.spool d {}).2.1.session := by
    fun_induction spool p d {} with
    | case1 p d s e p' hr =>
      have h := p.read_changes stretch
      rwa [hr] at h
    | case2 p d s p' hr =>
      have h := p.read_changes stretch
      rwa [hr] at h
    | case3 p d s b bytes p' hr e d' hw =>
      have h := p.read_changes stretch
      rwa [hr] at h
    | case4 p d s b bytes p' hr s' d' _ _ ih =>
      have h := p.read_changes stretch
      rw [hr] at h
      exact h.trans ih
  unfold keep
  split
  · exact .refl
  · rcases hs : p.spool d {} with ⟨e | s, p', d'⟩ <;> rw [hs] at hspool <;> exact hspool

end OpenPart

namespace Standing

theorem act_changes (g : Standing) (c : Call) : g.session.Changes (g.act c).2.session := by
  cases c with
  | hasNext => exact g.session.hasNext_changes
  | nextPart =>
    have hn := g.session.nextPart_changes
    simp only [act]
    rcases hnext : g.session.nextPart with ⟨e, s⟩ | p <;> rw [hnext] at hn <;> exact hn
  | read room =>
    cases g with
    | between s => exact .refl
    | within p => exact p.read_changes room
  | skip =>
    cases g with
    | between s => exact .refl
    | within p => exact p.skip_changes
  | keep depot =>
    cases g with
    | between s => exact .refl
    | within p => exact p.keep_changes depot

/-- By induction on the calls. -/
theorem after_changes (g : Standing) (calls : List Call) : g.session.Changes (g.after calls).session := by
  induction calls generalizing g with
  | nil => exact .refl
  | cons c calls ih =>
    rw [after_cons]
    exact (g.act_changes c).trans (ih _)

end Standing

/-! ## The boundary looked for -/

theorem Window.setBoundary_capacity (w : Window) (boundary : Bytes) :
    (w.setBoundary boundary).2.capacity = w.capacity := by
  unfold setBoundary
  split <;> rfl

namespace Session

/-- The session reads a body with this boundary, for which its window has room, and looks for that
boundary wherever it is not within a set. -/
structure Framed (boundary : Bytes) (s : Session) : Prop where
  delimited : s.boundary = boundary
  fits : Window.checkBoundary boundary s.window.capacity = .ok ()
  reached : s.window.Reached
  outermost : s.enclosing = none → s.window.boundary = boundary

variable {s t : Session} {boundary : Bytes}

theorem Change.capacity_eq (h : Change s t) : t.window.capacity = s.window.capacity := by
  cases h with
  | move hs => exact hs.capacity
  | find => exact s.window.findFirst_advances.moves.capacity_eq
  | enter field inner => exact s.window.setBoundary_capacity inner
  | leave => exact s.window.setBoundary_capacity s.boundary

theorem Change.reached (h : Change s t) (hs : s.window.Reached) : t.window.Reached := by
  cases h with
  | move hsame => exact hs.sameSearch hsame
  | find => exact hs.findFirst
  | enter field inner => exact hs.setBoundary inner
  | leave => exact hs.setBoundary s.boundary

theorem Framed.change (h : s.Framed boundary) (hc : Change s t) : t.Framed boundary where
  delimited := by
    cases hc <;> exact h.delimited
  fits := by
    rw [hc.capacity_eq]
    exact h.fits
  reached := hc.reached h.reached
  outermost := by
    cases hc with
    | move hs => exact fun hnone => hs.boundary.trans (h.outermost hnone)
    | find => exact fun hnone => s.window.findFirst_advances.boundary.trans (h.outermost hnone)
    | enter => nofun
    | leave =>
      -- the boundary of the body fits, so it is looked for again
      intro _
      show (Window.setBoundary _ _).2.boundary = _
      unfold Window.setBoundary
      rw [h.delimited, h.fits]

/-- By induction on the changes. -/
theorem Framed.changes (h : s.Framed boundary) (hc : s.Changes t) : t.Framed boundary := by
  induction hc with
  | refl => exact h
  | tail _ hc ih => exact ih.change hc

theorem open?_framed {source : Source} {settings : Settings}
    (h : open? source boundary settings = .ok s) : s.Framed boundary := by
  obtain ⟨hfits, rfl⟩ := open?_ok h
  exact ⟨rfl, hfits, ⟨(Window.checkBoundary_ok_iff.1 hfits).2, rfl⟩, fun _ => rfl⟩

/-- Whatever is called on a session and its parts, it is framed by the boundary of its body. -/
theorem framed_after {source : Source} {settings : Settings}
    (hopen : open? source boundary settings = .ok s) (calls : List Call) :
    ((Standing.between s).after calls).session.Framed boundary :=
  (open?_framed hopen).changes ((Standing.between s).after_changes calls)

end Session

end FormData
