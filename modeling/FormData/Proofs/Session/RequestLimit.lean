/-
Sessions under a limit of the request, compared with the same sessions without it. Operation by
operation, the two do the same as long as no more is pulled from the source than the limit allows, and
the one under the limit fails where more is pulled (`*_capped`). So a caller notices the limit only in
the first call that passes it, and in every call after that (`LimitHolds`); and all that was handed out
before lies within the limit, by what is known of the session without it (`Standing.act_traced`).
-/
import FormData.Proofs.Body.RequestLimit
import FormData.Proofs.Session.Provenance
import FormData.Proofs.Session.Skipping
import FormData.Proofs.Session.Transcript

namespace FormData

/-! ## From part to part -/

/-- The session under this limit. -/
def Session.limited (limit : Nat) (s : Session) : Session :=
  { s with
    window := s.window.limited limit
    settings := { s.settings with maxRequestSize := some limit } }

def OpenPart.limited (limit : Nat) (p : OpenPart) : OpenPart :=
  { p with session := p.session.limited limit }

instance : Counted Session := ⟨fun s => s.window.feed.account, Session.limited⟩

instance : Counted OpenPart := ⟨fun p => p.session.window.feed.account, OpenPart.limited⟩

namespace Session

/-- The outcome of a delimiter that is refused. -/
def Turn.refuse (e : Error) : Turn :=
  .stop (.error e)

variable {s : Session} {limit : Nat}

theorem leaveBody_capped (h : s.window.Under limit) :
    Capped Turn.refuse limit s.leaveBody (s.limited limit).leaveBody := by
  unfold leaveBody
  rw [show (s.limited limit).enclosing = s.enclosing from rfl]
  rcases s.enclosing with _ | field
  · exact .within h.within
  · have hm := s.window.setBoundary_moves s.boundary
    rw [show (s.limited limit).window.setBoundary (s.limited limit).boundary =
      (s.window.limited limit).setBoundary s.boundary from rfl]
    obtain ⟨hle, hy⟩ | ⟨hlt, actual, v, hy, ho⟩ := Window.setBoundary_capped h s.boundary
    · rw [hy]
      rcases hb : s.window.setBoundary s.boundary with ⟨e | ⟨⟩, w⟩ <;> rw [hb] at hle hm
      · exact .within hle
      · simp only [Counted.limited]
        obtain ⟨hle', hy'⟩ | ⟨hlt, actual, v, hy', ho⟩ := Window.discard_capped (h.moves hm hle)
        · rw [hy']
          rcases hd : w.discard with ⟨e | n, w'⟩ <;> rw [hd] at hle' <;> exact .within hle'
        · rw [hy']
          rcases hd : w.discard with ⟨e | n, w'⟩ <;> rw [hd] at hlt <;> exact .passed hlt ho
    · rw [hy]
      rcases hb : s.window.setBoundary s.boundary with ⟨e | ⟨⟩, w⟩ <;> rw [hb] at hlt
      · exact .passed hlt ho
      · have hlt' := Nat.lt_of_lt_of_le hlt w.discard_advances.moves.pulled_le
        simp only
        rcases hd : w.discard with ⟨e | n, w'⟩ <;> rw [hd] at hlt' <;> exact .passed hlt' ho

theorem locatePart_capped (h : s.window.Under limit) (headers : Headers) :
    Capped Turn.refuse limit (s.locatePart headers) ((s.limited limit).locatePart headers) := by
  unfold locatePart
  rw [show (s.limited limit).enclosing = s.enclosing from rfl]
  simp only
  split
  · rw [show (s.limited limit).window = s.window.limited limit from rfl]
    obtain ⟨hle, hy⟩ | ⟨hlt, actual, v, hy, ho⟩ := Window.discard_capped h
    · rw [hy]
      rcases hd : s.window.discard with ⟨e | n, w⟩ <;> rw [hd] at hle <;> exact .within hle
    · rw [hy]
      rcases hd : s.window.discard with ⟨e | n, w⟩ <;> rw [hd] at hlt <;> exact .passed hlt ho
  · have hb := s.window.feed.account.countPart_keeps.1
    rw [show (s.limited limit).window.feed.account = s.window.feed.account.limited limit from rfl,
      Account.limited_countPart]
    rcases hc : s.window.feed.account.countPart with ⟨e | ⟨⟩, account⟩ <;> rw [hc] at hb
    · exact .within (Nat.le_trans (Nat.le_of_eq hb) h.within)
    · exact .within (Nat.le_trans (Nat.le_of_eq hb) h.within)

theorem enterPart_capped (h : s.window.Under limit) (headers : Headers) :
    Capped Turn.refuse limit (s.enterPart headers) ((s.limited limit).enterPart headers) := by
  have hlocate := locatePart_capped h headers
  unfold enterPart
  rw [show (s.limited limit).enclosing = s.enclosing from rfl]
  rcases if s.enclosing.isNone then setOf headers else .ok none with e | _ | ⟨field, boundary⟩
  · exact .within h.within
  · exact hlocate
  · simp only
    rw [show (s.limited limit).window = s.window.limited limit from rfl]
    obtain ⟨hle, hy⟩ | ⟨hlt, actual, v, hy, ho⟩ := Window.setBoundary_capped h boundary
    · rw [hy]
      rcases hb : s.window.setBoundary boundary with ⟨e | ⟨⟩, w⟩ <;> rw [hb] at hle <;>
        exact .within hle
    · rw [hy]
      rcases hb : s.window.setBoundary boundary with ⟨e | ⟨⟩, w⟩ <;> rw [hb] at hlt <;>
        exact .passed hlt ho

theorem openPart_capped (h : s.window.Under limit) :
    Capped Turn.refuse limit s.openPart (s.limited limit).openPart := by
  have hm := (s.window.readHeaderBlock_advances s.settings.maxHeaderSize).moves
  unfold openPart
  rw [show (s.limited limit).window.readHeaderBlock (s.limited limit).settings.maxHeaderSize =
    (s.window.limited limit).readHeaderBlock s.settings.maxHeaderSize from rfl]
  obtain ⟨hle, hy⟩ | ⟨hlt, actual, v, hy, ho⟩ :=
    Window.readHeaderBlock_capped h s.settings.maxHeaderSize
  · rw [hy]
    rcases hr : s.window.readHeaderBlock s.settings.maxHeaderSize with ⟨e | block, w⟩ <;>
      rw [hr] at hle hm
    · exact .within hle
    · exact enterPart_capped (s := { s with window := w }) (h.moves hm hle) _
  · rw [hy]
    rcases hr : s.window.readHeaderBlock s.settings.maxHeaderSize with ⟨e | block, w⟩ <;>
      rw [hr] at hlt
    · exact .passed hlt ho
    · have hmoves := enterPart_moves { s with window := w } (Headers.ofBlock block)
      exact .passed (Nat.lt_of_lt_of_le hlt hmoves.pulled_le) ho

theorem nextDelimiter_capped (h : s.window.Under limit) :
    Capped .error limit s.nextDelimiter (s.limited limit).nextDelimiter := by
  unfold nextDelimiter
  rw [show (s.limited limit).preamble = s.preamble from rfl]
  split
  · exact Window.findFirst_capped h
  · exact Window.readDelimiter_capped h

theorem turn_capped (h : s.window.Under limit) :
    Capped Turn.refuse limit s.turn (s.limited limit).turn := by
  have hm := s.nextDelimiter_advances.moves
  unfold turn
  obtain ⟨hle, hy⟩ | ⟨hlt, actual, v, hy, ho⟩ := nextDelimiter_capped h
  · rw [hy]
    rcases hn : s.nextDelimiter with ⟨e | _ | _, w⟩ <;> rw [hn] at hle hm
    · exact .within hle
    · exact leaveBody_capped (s := { s with window := w, preamble := false }) (h.moves hm hle)
    · exact openPart_capped (s := { s with window := w, preamble := false }) (h.moves hm hle)
  · rw [hy]
    rcases hn : s.nextDelimiter with ⟨e | _ | _, w⟩ <;> rw [hn] at hlt
    · exact .passed hlt ho
    · have hmoves := leaveBody_moves { s with window := w, preamble := false }
      exact .passed (Nat.lt_of_lt_of_le hlt hmoves.pulled_le) ho
    · have hmoves := openPart_moves { s with window := w, preamble := false }
      exact .passed (Nat.lt_of_lt_of_le hlt hmoves.pulled_le) ho

theorem locate_capped (h : s.window.Under limit) :
    Capped .error limit s.locate (s.limited limit).locate := by
  fun_induction locate s with
  | case1 s r s' ht =>
    obtain ⟨hle, hy⟩ | ⟨hlt, actual, v, hy, ho⟩ := turn_capped h
    · rw [ht] at hle hy
      rw [locate_of_stop hy]
      exact .within hle
    · rw [ht] at hlt
      rw [locate_of_stop hy]
      exact .passed hlt ho
  | case2 s s' ht _ ih =>
    have hm := s.turn_moves
    rw [ht] at hm
    obtain ⟨hle, hy⟩ | ⟨hlt, actual, v, hy, ho⟩ := turn_capped h
    · rw [ht] at hle hy
      rw [locate_of_again hy]
      exact ih (h.moves hm hle)
    · rw [ht] at hlt
      rw [locate_of_stop hy]
      exact .passed (Nat.lt_of_lt_of_le hlt s'.locate_moves.pulled_le) ho

theorem advance_capped (h : s.window.Under limit) :
    Capped .error limit s.advance (s.limited limit).advance := by
  have hm := s.window.discard_advances.moves
  have hlocate := locate_capped h
  unfold advance
  rw [show (s.limited limit).phase = s.phase from rfl]
  split
  · rw [show (s.limited limit).window = s.window.limited limit from rfl]
    obtain ⟨hle, hy⟩ | ⟨hlt, actual, v, hy, ho⟩ := Window.discard_capped h
    · rw [hy]
      rcases hd : s.window.discard with ⟨e | n, w⟩ <;> rw [hd] at hle hm
      · exact .within hle
      · exact locate_capped (s := { s with window := w }) (h.moves hm hle)
    · rw [hy]
      rcases hd : s.window.discard with ⟨e | n, w⟩ <;> rw [hd] at hlt
      · exact .passed hlt ho
      · have hmoves := locate_moves { s with window := w }
        exact .passed (Nat.lt_of_lt_of_le hlt hmoves.pulled_le) ho
  · exact hlocate

theorem afterError_limited (s : Session) (e : Error) :
    (s.limited limit).afterError e = (s.afterError e).limited limit := by
  unfold afterError
  split <;> rfl

theorem search_capped (h : s.window.Under limit) :
    Capped .error limit s.search (s.limited limit).search := by
  unfold search
  obtain ⟨hle, hy⟩ | ⟨hlt, actual, v, hy, ho⟩ := advance_capped h
  · rw [hy]
    rcases ha : s.advance with ⟨e | more, s'⟩ <;> rw [ha] at hle
    · refine .inl ⟨?_, ?_⟩
      · show (s'.afterError e).window.pulled ≤ limit
        rw [afterError_window]
        exact hle
      · exact congrArg (Prod.mk _) (s'.afterError_limited e)
    · exact .within hle
  · rw [hy]
    have ho' : (v.afterError (.requestSize limit actual)).window.feed.account.overrun =
        some (limit, actual) := by
      rw [afterError_window]
      exact ho
    rcases ha : s.advance with ⟨e | more, s'⟩ <;> rw [ha] at hlt
    · refine .passed ?_ ho'
      show limit < (s'.afterError e).window.pulled
      rw [afterError_window]
      exact hlt
    · exact .passed hlt ho'

theorem refusal_limited (s : Session) : (s.limited limit).refusal = s.refusal := rfl

theorem hasNext_capped (h : s.window.Under limit) :
    Capped .error limit s.hasNext (s.limited limit).hasNext := by
  have hsearch := search_capped h
  rw [hasNext_eq, hasNext_eq, show (s.limited limit).phase = s.phase from rfl, refusal_limited]
  rcases s.phase with _ | head | _ | _ | _
  case start | reading => exact hsearch
  all_goals exact .within h.within

end Session

/-! ## Parts -/

namespace OpenPart

variable {p : OpenPart} {limit : Nat}

theorem brokenOff_within {α : Type} (p : OpenPart) {w : Window} (hle : w.pulled ≤ limit) (e : Error) :
    Capped .error limit ((.error e, p.brokenOff w e) : Except Error α × OpenPart)
      (.error e, (p.limited limit).brokenOff (w.limited limit) e) := by
  refine .inl ⟨?_, ?_⟩
  · show (p.brokenOff w e).session.window.pulled ≤ limit
    rw [brokenOff_window]
    exact hle
  · exact congrArg (fun s => ((.error e : Except Error α), ({ p with session := s } : OpenPart)))
      (Session.afterError_limited { p.session with window := w } e)

theorem brokenOff_passed {α : Type} {r : Except Error α} {q : OpenPart} {v : Window} {actual : Nat}
    (hlt : limit < q.session.window.pulled) (ho : v.feed.account.overrun = some (limit, actual)) :
    Capped .error limit (r, q)
      (.error (.requestSize limit actual), p.brokenOff v (.requestSize limit actual)) := by
  refine .passed hlt ?_
  show (p.brokenOff v _).session.window.feed.account.overrun = _
  rw [brokenOff_window]
  exact ho

theorem discardRest_capped (h : p.session.window.Under limit) :
    Capped .error limit p.discardRest (p.limited limit).discardRest := by
  unfold discardRest
  rw [show (p.limited limit).session.window = p.session.window.limited limit from rfl]
  obtain ⟨hle, hy⟩ | ⟨hlt, actual, v, hy, ho⟩ := Window.discard_capped h
  · rw [hy]
    rcases hd : p.session.window.discard with ⟨e | n, w⟩ <;> rw [hd] at hle
    · exact p.brokenOff_within hle e
    · exact .within hle
  · rw [hy]
    rcases hd : p.session.window.discard with ⟨e | n, w⟩ <;> rw [hd] at hlt
    · exact brokenOff_passed (q := p.brokenOff w e) (by rw [brokenOff_window]; exact hlt) ho
    · exact brokenOff_passed hlt ho

theorem refuseSize_capped (h : p.session.window.Under limit) (most : Nat) (actual : Nat → Nat) :
    Capped .error limit (p.refuseSize most actual) ((p.limited limit).refuseSize most actual) := by
  unfold refuseSize
  obtain ⟨hle, hy⟩ | ⟨hlt, actual', q, hy, ho⟩ := discardRest_capped h
  · rw [hy]
    rcases hd : p.discardRest with ⟨e | n, p'⟩ <;> rw [hd] at hle <;> exact .within hle
  · rw [hy]
    rcases hd : p.discardRest with ⟨e | n, p'⟩ <;> rw [hd] at hlt <;> exact .passed hlt ho

theorem took_capped {w : Window} (h : w.Under limit) (bytes : Bytes) :
    Capped .error limit (p.took bytes w) ((p.limited limit).took bytes (w.limited limit)) := by
  have hrefuse := fun most actual =>
    refuseSize_capped (p := { p with session := { p.session with window := w } }) h most actual
  unfold took
  simp only
  rw [show (p.limited limit).session.settings.maxFileSize = p.session.settings.maxFileSize from rfl,
    show (p.limited limit).bytesRead = p.bytesRead from rfl]
  split
  · exact .within h.within
  · split
    · split
      · exact hrefuse _ _
      · exact .within h.within
    · exact .within h.within

theorem readContent_capped (h : p.session.window.Under limit) (room : Nat) :
    Capped .error limit (p.readContent room) ((p.limited limit).readContent room) := by
  have hm := (p.session.window.take_advances room).moves
  rw [readContent_eq, readContent_eq,
    show (p.limited limit).session.window = p.session.window.limited limit from rfl]
  obtain ⟨hle, hy⟩ | ⟨hlt, actual, v, hy, ho⟩ := Window.take_capped h room
  · rw [hy]
    rcases ht : p.session.window.take room with ⟨e | bytes, w⟩ <;> rw [ht] at hle hm
    · exact p.brokenOff_within hle e
    · exact took_capped (h.moves hm hle) bytes
  · rw [hy]
    rcases ht : p.session.window.take room with ⟨e | bytes, w⟩ <;> rw [ht] at hlt
    · exact brokenOff_passed (q := p.brokenOff w e) (by rw [brokenOff_window]; exact hlt) ho
    · exact brokenOff_passed (Nat.lt_of_lt_of_le hlt (p.took_moves bytes w).pulled_le) ho

theorem read_capped (h : p.session.window.Under limit) (room : Nat) :
    Capped .error limit (p.read room) ((p.limited limit).read room) := by
  have hcontent := readContent_capped h room
  unfold read
  rw [show (p.limited limit).session.phase = p.session.phase from rfl,
    show (p.limited limit).isFinished = p.isFinished from rfl,
    show (p.limited limit).declaredAbove? = p.declaredAbove? from rfl]
  split
  · exact .within h.within
  · split
    · exact .within h.within
    · split
      · exact refuseSize_capped h _ _
      · exact hcontent

theorem skip_capped (h : p.session.window.Under limit) :
    Capped .error limit p.skip (p.limited limit).skip := by
  unfold skip
  rw [show (p.limited limit).isFinished = p.isFinished from rfl]
  split
  · exact .within h.within
  · exact discardRest_capped h

/-! ### Keeping a part -/

instance : Counted (OpenPart × Depot) :=
  ⟨fun x => x.1.session.window.feed.account, fun limit x => (x.1.limited limit, x.2)⟩

theorem spool_failed {p' : OpenPart} {e : Error} (hr : p.read stretch = (.error e, p')) (d : Depot)
    (s : Spool) : p.spool d s = (.error e, p', s.abandon d) := by
  rw [spool]
  split
  · rename_i hr'
    cases hr.symm.trans hr'
    rfl
  · rename_i hr'
    cases hr.symm.trans hr'
  · rename_i hr'
    cases hr.symm.trans hr'

theorem spool_ended {p' : OpenPart} (hr : p.read stretch = (.ok [], p')) (d : Depot) (s : Spool) :
    p.spool d s = (.ok s, p', d) := by
  rw [spool]
  split
  · rename_i hr'
    cases hr.symm.trans hr'
  · rename_i hr'
    cases hr.symm.trans hr'
    rfl
  · rename_i hr'
    cases hr.symm.trans hr'

theorem spool_stretch {p' : OpenPart} {b : UInt8} {bytes : Bytes}
    (hr : p.read stretch = (.ok (b :: bytes), p')) (d : Depot) (s : Spool) :
    p.spool d s = match s.write d (b :: bytes) with
      | (.error e, d') => (.error e, p', s.abandon d')
      | (.ok s', d') => p'.spool d' s' := by
  rw [spool]
  split
  · rename_i hr'
    cases hr.symm.trans hr'
  · rename_i hr'
    cases hr.symm.trans hr'
  · rename_i hr'
    cases hr.symm.trans hr'
    rfl

theorem spool_capped (h : p.session.window.Under limit) (d : Depot) (s : Spool) :
    Capped .error limit (p.spool d s) ((p.limited limit).spool d s) := by
  have hread := read_capped h stretch
  fun_induction spool p d s with
  | case1 p d s e p' hr =>
    rw [hr] at hread
    obtain ⟨hle, hy⟩ | ⟨hlt, actual, q, hy, ho⟩ := hread
    · rw [spool_failed hy]
      exact .within hle
    · rw [spool_failed hy]
      exact .passed hlt ho
  | case2 p d s p' hr =>
    rw [hr] at hread
    obtain ⟨hle, hy⟩ | ⟨hlt, actual, q, hy, ho⟩ := hread
    · rw [spool_ended hy]
      exact .within hle
    · rw [spool_failed hy]
      exact .passed hlt ho
  | case3 p d s b bytes p' hr e d' hw =>
    rw [hr] at hread
    obtain ⟨hle, hy⟩ | ⟨hlt, actual, q, hy, ho⟩ := hread
    · rw [spool_stretch hy, hw]
      exact .within hle
    · rw [spool_failed hy]
      exact .passed hlt ho
  | case4 p d s b bytes p' hr s' d' hw _ ih =>
    have hm := p.read_moves stretch
    rw [hr] at hread hm
    obtain ⟨hle, hy⟩ | ⟨hlt, actual, q, hy, ho⟩ := hread
    · rw [spool_stretch hy, hw]
      exact ih (h.moves hm hle) (read_capped (h.moves hm hle) stretch)
    · rw [spool_failed hy]
      exact .passed (Nat.lt_of_lt_of_le hlt (p'.spool_moves d' s').pulled_le) ho

theorem keep_capped (h : p.session.window.Under limit) (d : Depot) :
    Capped .error limit (p.keep d) ((p.limited limit).keep d) := by
  unfold keep
  rw [show (p.limited limit).fileName = p.fileName from rfl]
  split
  · exact .within h.within
  · obtain ⟨hle, hy⟩ | ⟨hlt, actual, q, hy, ho⟩ := spool_capped h d {}
    · rw [hy]
      rcases hs : p.spool d {} with ⟨e | s, p', d'⟩ <;> rw [hs] at hle <;> exact .within hle
    · rw [hy]
      rcases hs : p.spool d {} with ⟨e | s, p', d'⟩ <;> rw [hs] at hlt <;> exact .passed hlt ho

end OpenPart

/-! ## Calls in any order -/

namespace Standing

/-- The same place in the session under this limit. -/
def limited (limit : Nat) : Standing → Standing
  | between s => .between (s.limited limit)
  | within p => .within (p.limited limit)

variable {g : Standing} {limit actual : Nat}

@[simp] theorem limited_session (g : Standing) (limit : Nat) :
    (g.limited limit).session = g.session.limited limit := by
  cases g <;> rfl

@[simp] theorem limited_bytesRead? (g : Standing) (limit : Nat) :
    (g.limited limit).bytesRead? = g.bytesRead? := by
  cases g <;> rfl

theorem act_nextPart (g : Standing) :
    g.act .nextPart = match g.session.hasNext with
      | (.error e, s) => (.part (.error e), .between s)
      | (.ok false, s) => (.part (.error .exhausted), .between s)
      | (.ok true, s) =>
        match s.phase with
        | .located head => (.part (.ok head), .within { session := { s with phase := .reading }, head })
        | _ => (.part (.error .exhausted), .between s) := by
  simp only [act, Session.nextPart]
  rcases g.session.hasNext with ⟨e | _ | _, s⟩
  · rfl
  · rfl
  · simp only
    rcases s.phase with _ | head | _ | _ | _ <;> rfl

theorem act_nextPart_session (g : Standing) :
    (g.act .nextPart).2.session.window = g.session.hasNext.2.window := by
  rw [act_nextPart]
  rcases g.session.hasNext with ⟨e | _ | _, s⟩
  · rfl
  · rfl
  · simp only
    rcases s.phase with _ | head | _ | _ | _ <;> rfl

/-- One call under the limit, compared with the same call without it. -/
theorem act_capped (h : g.session.window.Under limit) (c : Call) :
    ((g.act c).2.pulled ≤ limit ∧
      (g.limited limit).act c = ((g.act c).1, (g.act c).2.limited limit)) ∨
    (limit < (g.act c).2.pulled ∧ ∃ actual,
      ((g.limited limit).act c).1.answer = .failed (.requestSize limit actual) ∧
      ((g.limited limit).act c).2.session.window.feed.account.overrun = some (limit, actual)) := by
  cases c with
  | hasNext =>
    simp only [act, limited_session]
    obtain ⟨hle, hy⟩ | ⟨hlt, actual, v, hy, ho⟩ := Session.hasNext_capped h
    · exact .inl ⟨hle, by rw [hy]; rfl⟩
    · exact .inr ⟨hlt, actual, by rw [hy]; exact ⟨rfl, ho⟩⟩
  | nextPart =>
    rw [pulled, act_nextPart_session, act_nextPart, act_nextPart, limited_session]
    obtain ⟨hle, hy⟩ | ⟨hlt, actual, v, hy, ho⟩ := Session.hasNext_capped h
    · refine .inl ⟨hle, ?_⟩
      rw [hy]
      rcases g.session.hasNext with ⟨e | _ | _, s⟩
      · rfl
      · rfl
      · simp only [Counted.limited, show (s.limited limit).phase = s.phase from rfl]
        rcases s.phase with _ | head | _ | _ | _ <;> rfl
    · exact .inr ⟨hlt, actual, by rw [hy]; exact ⟨rfl, ho⟩⟩
  | read room =>
    cases g with
    | between s => exact .inl ⟨h.within, rfl⟩
    | within p =>
      simp only [act, limited]
      obtain ⟨hle, hy⟩ | ⟨hlt, actual, v, hy, ho⟩ := OpenPart.read_capped h room
      · exact .inl ⟨hle, by rw [hy]; rfl⟩
      · exact .inr ⟨hlt, actual, by rw [hy]; exact ⟨rfl, ho⟩⟩
  | skip =>
    cases g with
    | between s => exact .inl ⟨h.within, rfl⟩
    | within p =>
      simp only [act, limited]
      obtain ⟨hle, hy⟩ | ⟨hlt, actual, v, hy, ho⟩ := OpenPart.skip_capped h
      · exact .inl ⟨hle, by rw [hy]; rfl⟩
      · exact .inr ⟨hlt, actual, by rw [hy]; exact ⟨rfl, ho⟩⟩
  | keep depot =>
    cases g with
    | between s => exact .inl ⟨h.within, rfl⟩
    | within p =>
      simp only [act, limited]
      obtain ⟨hle, hy⟩ | ⟨hlt, actual, v, hy, ho⟩ := OpenPart.keep_capped h depot
      · exact .inl ⟨hle, by rw [hy]; rfl⟩
      · exact .inr ⟨hlt, actual, by rw [hy]; exact ⟨rfl, ho⟩⟩

/-- Every call is refused with this error, and leaves the session and with it the source as they are. -/
structure Refused (e : Error) (g : Standing) : Prop where
  unchanged : ∀ c, (g.call c).2.session = g.session
  hasNext : (g.call .hasNext).1 = .failed e
  nextPart : (g.call .nextPart).1 = .failed e
  read : ∀ p room, g = .within p → (g.call (.read room)).1 = .failed e
  skip : ∀ p, g = .within p → (g.call .skip).1 = .failed e
  /-- A part whose name cannot be decoded is refused for that. -/
  keep : ∀ p depot name, g = .within p → p.fileName = .ok name → (g.call (.keep depot)).1 = .failed e

/-! ### Past the limit -/

/-- The session failed when it passed this limit. -/
structure Overrun (limit actual : Nat) (g : Standing) : Prop where
  sound : g.session.Sound
  held : g.Held
  latched : g.session.Latched (.requestSize limit actual)

theorem call_eq_noPart {c : Call} (h : (g.call c).1 = .noPart) :
    (∃ s, g = .between s) ∧ c ≠ .hasNext ∧ c ≠ .nextPart := by
  cases c with
  | hasNext =>
    simp only [call, Answer.of] at h
    split at h <;> cases h
  | nextPart =>
    simp only [call] at h
    split at h <;> cases h
  | _ =>
    cases g with
    | between s => exact ⟨⟨s, rfl⟩, by rintro ⟨⟩, by rintro ⟨⟩⟩
    | within p =>
      simp only [call, Answer.of] at h
      split at h <;> cases h

namespace Overrun

/-- A call is refused with the limit, wherever there is a part for it and a name. -/
theorem call_failed (h : g.Overrun limit actual) {c : Call}
    (hpart : (∃ p, g = .within p) ∨ c = .hasNext ∨ c = .nextPart)
    (hname : ∀ p depot, g = .within p → c = .keep depot → ∃ name, p.fileName = .ok name) :
    (g.call c).1 = .failed (.requestSize limit actual) := by
  obtain hfailed | hnone | ⟨p, depot, f, hg, hc, hf⟩ := (call_overrun h.held h.latched c).2
  · exact hfailed
  · obtain ⟨⟨s, rfl⟩, hnext, hnextPart⟩ := call_eq_noPart hnone
    obtain ⟨p, hp⟩ | hc | hc := hpart
    · cases hp
    · exact absurd hc hnext
    · exact absurd hc hnextPart
  · obtain ⟨name, hok⟩ := hname p depot hg hc
    cases hok.symm.trans hf

theorem refused (h : g.Overrun limit actual) : g.Refused (.requestSize limit actual) where
  unchanged c := (call_overrun h.held h.latched c).1
  hasNext := h.call_failed (.inr (.inl rfl)) fun _ _ _ hc => nomatch hc
  nextPart := h.call_failed (.inr (.inr rfl)) fun _ _ _ hc => nomatch hc
  read p _ hg := h.call_failed (.inl ⟨p, hg⟩) fun _ _ _ hc => nomatch hc
  skip p hg := h.call_failed (.inl ⟨p, hg⟩) fun _ _ _ hc => nomatch hc
  keep p depot name hg hname := by
    refine h.call_failed (.inl ⟨p, hg⟩) ?_
    rintro q _ hq -
    cases hg.symm.trans hq
    exact ⟨name, hname⟩

/-- No call hands out anything. -/
theorem answer_ne_done (h : g.Overrun limit actual) (c : Call) : (g.act c).1.answer ≠ .done := by
  have hcall : (g.call c).1 = (g.act c).1.answer := congrArg Prod.fst (g.call_eq_act c)
  obtain hfailed | hnone | ⟨p, d, f, rfl, rfl, hname⟩ := (call_overrun h.held h.latched c).2
  · rw [← hcall, hfailed]
    rintro ⟨⟩
  · rw [← hcall, hnone]
    rintro ⟨⟩
  · simp only [act, OpenPart.keep, hname, Reply.answer, Answer.of]
    rintro ⟨⟩

theorem after (h : g.Overrun limit actual) (later : List Call) :
    (g.after later).session = g.session ∧ (g.after later).Overrun limit actual := by
  have hsame := after_overrun h.sound h.held h.latched later
  exact ⟨hsame, after_sound h.sound later, after_held h.sound h.held later, hsame ▸ h.latched⟩

end Overrun

/-- Under the limit, it is the account that tells whether the limit was passed. -/
theorem overrun_of_account (h : g.session.window.Under limit) {c : Call}
    (ho : ((g.limited limit).act c).2.session.window.feed.account.overrun = some (limit, actual)) :
    ((g.limited limit).act c).2.Overrun limit actual := by
  have hunspent : (g.limited limit).session.Unspent := by
    rw [limited_session]
    exact h.unspent
  have hheld : (g.limited limit).Held := by
    cases g with
    | between s => trivial
    | within p => exact .of_unspent hunspent
  have hsound := call_sound hunspent.sound c
  have hheld' := call_held hunspent.sound hheld c
  rw [call_eq_act] at hsound hheld'
  refine ⟨hsound, hheld', ?_, Account.refusal_eq_requestSize_iff.2 ho⟩
  -- a session that did not fail would not have passed the limit
  by_contra hlive
  cases ho.symm.trans (hsound hlive)

/-- The call that passes the limit. -/
theorem act_exceeded {boundary body : Bytes} (h : g.session.window.Under limit)
    (ht : g.Traced boundary body) {c : Call} (hlt : limit < (g.act c).2.pulled) :
    ∃ actual, ((g.limited limit).call c).1 = .failed (.requestSize limit actual) ∧
      actual = ((g.limited limit).act c).2.pulled ∧
      actual + ((g.limited limit).act c).2.session.window.feed.source.pending.length = body.length ∧
      limit < actual ∧ actual ≤ limit + g.session.window.capacity ∧
      ((g.limited limit).act c).2.Overrun limit actual := by
  obtain ⟨hle, -⟩ | ⟨-, actual, hfailed, ho⟩ := act_capped h c
  · omega
  have hm := (g.limited limit).act_moves c
  rw [limited_session] at hm
  have hplaced : (g.session.limited limit).window.Placed body :=
    ⟨ht.session.placed.pulled, ht.session.placed.pending⟩
  have hall := (hplaced.moves hm).pulled
  obtain ⟨-, hactual, hover, hbound⟩ := (h.metered.moves hm).spent limit actual ho
  rw [hm.capacity_eq] at hbound
  refine ⟨actual, ?_, hactual, ?_, hover, hbound, overrun_of_account h ho⟩
  · rw [call_eq_act]
    exact hfailed
  · rw [hactual]
    exact hall

/-! ### Whole runs -/

/-- Calls under the limit, compared with the same calls without it. By induction on the calls: up to
the one that passes the limit both go the same way, and from then on nothing changes. -/
theorem after_capped (h : g.session.window.Under limit) (calls : List Call) :
    ((g.after calls).pulled ≤ limit ∧
      (g.limited limit).after calls = (g.after calls).limited limit ∧
      (g.limited limit).observe calls = g.observe calls) ∨
    (limit < (g.after calls).pulled ∧ ∃ actual, ((g.limited limit).after calls).Overrun limit actual) := by
  induction calls generalizing g with
  | nil => exact .inl ⟨h.within, rfl, rfl⟩
  | cons c calls ih =>
    rw [after_cons, after_cons]
    obtain ⟨hle, hact⟩ | ⟨hlt, actual, -, ho⟩ := act_capped h c
    · have hobserve : (g.limited limit).observe (c :: calls) = {
          reply := (g.act c).1
          progress := (g.act c).2.session.progress
          reports := (g.act c).2.session.window.feed.account.reports
          bytesRead := (g.act c).2.bytesRead? } :: ((g.act c).2.limited limit).observe calls := by
        rw [observe, hact, limited_session, limited_bytesRead?]
        rfl
      rw [hobserve, hact]
      obtain ⟨hwithin, hafter, hsame⟩ | hpassed := ih (h.moves (g.act_moves c) hle)
      · exact .inl ⟨hwithin, hafter, by rw [hsame, observe]⟩
      · exact .inr hpassed
    · refine .inr ⟨Nat.lt_of_lt_of_le hlt (after_moves _ calls).pulled_le, actual, ?_⟩
      exact ((overrun_of_account h ho).after calls).2

/-- A call behind others replies the same, and all is within the limit by then, or it fails. -/
theorem reply_capped (h : g.session.window.Under limit) (calls : List Call) (c : Call) :
    ((g.after (calls ++ [c])).pulled ≤ limit ∧
      (((g.limited limit).after calls).act c).1 = ((g.after calls).act c).1) ∨
    (((g.limited limit).after calls).act c).1.answer ≠ .done := by
  obtain ⟨hle, hafter, -⟩ | ⟨-, actual, hover⟩ := after_capped h calls
  · rw [hafter, after_concat]
    obtain ⟨hle', hact⟩ | ⟨-, actual, hfailed, -⟩ := act_capped (h.moves (g.after_moves calls) hle) c
    · exact .inl ⟨hle', by rw [hact]⟩
    · right
      rw [hfailed]
      nofun
  · exact .inr (hover.answer_ne_done c)

end Standing

/-! ## What a limit of the request means -/

/-- How a session with a window of this size goes under a limit of the request, `t`, compared with the
same session `s` on this body without it. -/
structure LimitHolds (limit windowSize : Nat) (boundary body : Bytes) (s t : Session) : Prop where
  /-- As long as no more is pulled than the limit allows, a caller sees the same. -/
  transparent : ∀ calls, ((Standing.between s).after calls).pulled ≤ limit →
    (Standing.between t).observe calls = (Standing.between s).observe calls
  /-- The first call that pulls more is refused, and tells all that was pulled with it, which is no
  more than one window past the limit; and every later call is refused the same and pulls nothing. -/
  exceeded : ∀ calls c, ((Standing.between s).after calls).pulled ≤ limit →
    limit < ((Standing.between s).after (calls ++ [c])).pulled →
    ∃ actual, (((Standing.between t).after calls).call c).1 = .failed (.requestSize limit actual) ∧
      actual = ((Standing.between t).after (calls ++ [c])).pulled ∧
      actual + ((Standing.between t).after
        (calls ++ [c])).session.window.feed.source.pending.length = body.length ∧
      limit < actual ∧ actual ≤ limit + windowSize ∧
      ∀ later,
        ((Standing.between t).after (calls ++ [c] ++ later)).session =
          ((Standing.between t).after (calls ++ [c])).session ∧
        ((Standing.between t).after (calls ++ [c] ++ later)).Refused (.requestSize limit actual)
  /-- All that is ever handed out lies within the limit. -/
  origin : ∀ calls c, (((Standing.between t).after calls).act c).1.From (body.take limit)
  /-- On a body that is no longer than the limit it changes nothing. -/
  unnoticed : body.length ≤ limit → ∀ calls,
    (Standing.between t).observe calls = (Standing.between s).observe calls
  /-- The end of the body is told only where it is told without the limit, behind a closing delimiter
  that lies within the limit. -/
  closed : ∀ calls c, (((Standing.between t).after calls).act c).1 = .more (.ok false) →
    (((Standing.between s).after calls).act c).1 = .more (.ok false) ∧
    ∃ front, front ++ Window.closing boundary ++
        ((Standing.between s).after (calls ++ [c])).session.pending = body ∧
      (front ++ Window.closing boundary).length ≤ limit

namespace Session

variable {s : Session} {limit : Nat} {boundary body : Bytes}

theorem limitHolds (h : s.Traced boundary body) (hunder : s.window.Under limit) :
    LimitHolds limit s.window.capacity boundary body s (s.limited limit) := by
  have hcapped := fun calls => Standing.after_capped (g := .between s) hunder calls
  have hreply := fun calls c => Standing.reply_capped (g := .between s) hunder calls c
  have htraced := fun calls => Standing.after_traced (g := .between s) h calls
  have hmoves := fun calls => Standing.after_moves (.between s) calls
  have htransparent : ∀ calls, ((Standing.between s).after calls).pulled ≤ limit →
      (Standing.between (s.limited limit)).observe calls = (Standing.between s).observe calls := by
    intro calls hle
    obtain ⟨-, -, hsame⟩ | ⟨hlt, -⟩ := hcapped calls
    · exact hsame
    · omega
  refine {
    transparent := htransparent
    exceeded := ?_
    origin := ?_
    unnoticed := ?_
    closed := ?_ }
  · intro calls c hle hlt
    obtain ⟨-, hafter, -⟩ | ⟨hlt', -⟩ := hcapped calls
    · have hcapacity : _ = s.window.capacity := (hmoves calls).capacity_eq
      rw [Standing.after_concat] at hlt
      obtain ⟨actual, hfailed, hactual, hrest, hover, hbound, hpast⟩ :=
        Standing.act_exceeded (hunder.moves (hmoves calls) hle) (htraced calls) hlt
      rw [← hafter] at hfailed hactual hrest hpast
      rw [hcapacity] at hbound
      simp only [Standing.after_append _ (calls ++ [c]), Standing.after_concat]
      refine ⟨actual, hfailed, hactual, hrest, hover, hbound, fun later => ?_⟩
      exact ⟨(hpast.after later).1, (hpast.after later).2.refused⟩
    · omega
  · intro calls c
    obtain ⟨hle, hsame⟩ | hfailed := hreply calls c
    · have hfrom := (Standing.act_traced (htraced calls) c).2
      rw [Standing.after_concat] at hle
      exact hsame ▸ hfrom.mono hle
    · exact .of_not_done hfailed _
  · intro hshort calls
    refine htransparent calls ?_
    have hall := (htraced calls).session.placed.pulled
    unfold Standing.pulled
    omega
  · intro calls c hend
    obtain ⟨hle, hsame⟩ | hfailed := hreply calls c
    · have hend' := hsame.symm.trans hend
      refine ⟨hend', ?_⟩
      have hplaced := (htraced (calls ++ [c])).session.placed
      rw [Standing.after_concat] at hle hplaced ⊢
      obtain ⟨front, hfront⟩ := Standing.act_closed (htraced calls) hend'
      exact ⟨front, hfront, Nat.le_trans (hplaced.length_le hfront) hle⟩
    · exact absurd (congrArg Reply.answer hend) hfailed

theorem open?_limited {source : Source} {settings : Settings}
    (hunlimited : settings.maxRequestSize = none)
    (hdeclared : ∀ declared, source.declared = some declared → declared ≤ limit) :
    open? source boundary { settings with maxRequestSize := some limit } =
      (open? source boundary settings).map (·.limited limit) := by
  unfold open? Account.open? Window.open?
  rw [hunlimited]
  rcases hd : source.declared with _ | declared
  · simp only [bind, Except.bind]
    rcases Window.checkBoundary boundary settings.windowSize with e | ⟨⟩ <;> rfl
  · have hle := hdeclared declared hd
    simp only [bind, Except.bind, if_neg (Nat.not_lt.2 hle)]
    rcases Window.checkBoundary boundary settings.windowSize with e | ⟨⟩ <;> rfl

end Session

/-- A limit of the request, set on a session whose source declares no length above it: opening the
session fails as without it, or the limit holds. -/
theorem requestLimit_holds {source : Source} {settings : Settings} {limit : Nat}
    (hunlimited : settings.maxRequestSize = none)
    (hdeclared : ∀ declared, source.declared = some declared → declared ≤ limit) (boundary : Bytes) :
    match Session.open? source boundary settings with
    | .error e =>
      Session.open? source boundary { settings with maxRequestSize := some limit } = .error e
    | .ok s => ∃ t, Session.open? source boundary { settings with maxRequestSize := some limit } = .ok t ∧
      LimitHolds limit settings.windowSize boundary source.pending s t := by
  rw [Session.open?_limited hunlimited hdeclared]
  rcases hopen : Session.open? source boundary settings with e | s
  · rfl
  · have htraced := Session.open?_traced hopen hunlimited
    obtain ⟨-, rfl⟩ := Session.open?_ok hopen
    exact ⟨_, rfl, Session.limitHolds htraced ⟨htraced.unmetered, Nat.zero_le _⟩⟩

/-- A source that declares less than it delivers passes the limit within the content of its part. -/
theorem requestLimit_holds_longContent :
    ∃ s t, Session.open? { longContent with declared := some 9 } [66] {} = .ok s ∧
      Session.open? { longContent with declared := some 9 } [66] { maxRequestSize := some 12 } = .ok t ∧
      LimitHolds 12 Window.defaultCapacity [66] longContent.pending s t ∧
      ((Standing.between s).after [.nextPart]).pulled ≤ 12 ∧
      12 < ((Standing.between s).after [.nextPart, .read 8]).pulled := by
  have hdeclared : ∀ declared,
      ({ longContent with declared := some 9 } : Source).declared = some declared → declared ≤ 12 := by
    rintro _ ⟨⟩
    decide
  have hunlimited : ({} : Settings).maxRequestSize = none := rfl
  obtain ⟨t, ht, hlimit⟩ := requestLimit_holds hunlimited hdeclared [66]
  exact ⟨_, t, rfl, ht, hlimit, by decide +kernel, by decide +kernel⟩

end FormData
