/-
Where what a session hands out comes from. Every header block and every stretch of content is a piece
of the body, in front of what was pulled from the source by then; and behind the last part the session
stands right behind a closing delimiter (`Session.Traced`, `Standing.act_traced`).
-/
import FormData.Proofs.Body.Reading
import FormData.Proofs.Session.Consumption
import FormData.Proofs.Session.Moves

namespace FormData

/-! ## Pieces of a body -/

theorem infix_take_mono {piece body : Bytes} {n m : Nat} (h : piece <:+: body.take n) (hle : n ≤ m) :
    piece <:+: body.take m :=
  h.trans (List.take_prefix_take_left hle).isInfix

namespace Window

variable {w w' : Window} {body piece : Bytes}

/-- The window stands right behind this piece of the body. -/
def Behind (body piece : Bytes) (w : Window) : Prop :=
  ∃ front, front ++ piece ++ w.pending = body

theorem Placed.behind (h : w.Placed body) (hu : w.feed.account.overrun = none)
    (hp : w.pending = piece ++ w'.pending) : w'.Behind body piece := by
  obtain ⟨front, hfront⟩ := h.pending hu
  exact ⟨front, by rw [← hfront, hp, List.append_assoc]⟩

/-- What a window stands behind was pulled. -/
theorem Placed.length_le (h : w.Placed body) {front : Bytes} (hfront : front ++ w.pending = body) :
    front.length ≤ w.pulled := by
  have hall := h.pulled
  have hlen := congrArg List.length hfront
  simp only [Window.pending, List.length_append] at hlen
  omega

theorem Behind.isInfix (hb : w.Behind body piece) (h : w.Placed body) :
    piece <:+: body.take w.pulled := by
  obtain ⟨front, hfront⟩ := hb
  have hle := h.length_le hfront
  refine ⟨front, w.pending.take (w.pulled - (front ++ piece).length), ?_⟩
  rw [← hfront, List.take_append, List.take_of_length_le hle]

/-- The delimiter behind the last part, without the line break before it. -/
def closing (boundary : Bytes) : Bytes :=
  dashed boundary ++ [Bytes.dash, Bytes.dash]

/-- The pattern of a window is the boundary behind two dashes, if not behind a line break as well. -/
theorem dashed_suffix_pattern (w : Window) : dashed w.boundary <:+ w.pattern := by
  unfold pattern
  split
  · exact List.suffix_rfl
  · exact ⟨[Bytes.cr, Bytes.lf], rfl⟩

/-- The two bytes behind a delimiter: a line break if a part follows, two dashes if none does. -/
def delimiterEnd (more : Bool) : Bytes :=
  if more then [Bytes.cr, Bytes.lf] else [Bytes.dash, Bytes.dash]

theorem afterFirst_ok {first : UInt8} {more : Bool} (h : w.afterFirst first = (.ok more, w')) :
    first :: w.pending = delimiterEnd more ++ w'.pending := by
  unfold afterFirst at h
  split at h
  · cases h
  · rename_i second v hr
    rw [readByte_ok hr]
    split at h
    · rename_i hline
      cases h
      rw [hline.1, hline.2]
      rfl
    · split at h
      · rename_i hdashes
        cases h
        rw [hdashes.1, hdashes.2]
        rfl
      · cases h

theorem readDelimiter_ok {more : Bool} (h : w.readDelimiter = (.ok more, w')) :
    w.pending = w.pattern ++ delimiterEnd more ++ w'.pending := by
  rw [readDelimiter_eq] at h
  split at h
  · rename_i hpattern
    obtain ⟨rest, hrest⟩ := List.isPrefixOf_iff_prefix.1 hpattern
    split at h
    · cases h
    · rename_i first v hr
      have hpass : w.pending = w.pattern ++ (w.pass w.pattern.length).pending := by
        simp only [pending, pass]
        rw [← List.append_assoc, ← hrest, List.drop_left]
      rw [hpass, readByte_ok hr, afterFirst_ok h, List.append_assoc]
  · cases h

theorem readDelimiter_behind (h : w.Placed body) (hu : w.feed.account.overrun = none)
    (hr : w.readDelimiter = (.ok false, w')) :
    w'.Behind body (closing w.boundary) := by
  obtain ⟨lead, hlead⟩ := w.dashed_suffix_pattern
  obtain ⟨front, hfront⟩ := h.behind hu (readDelimiter_ok hr)
  refine ⟨front ++ lead, ?_⟩
  rw [← hfront, ← hlead]
  simp only [closing, List.append_assoc]
  rfl

theorem findFirst_behind (h : w.Placed body) (hu : w.Unmetered)
    (hr : w.findFirst = (.ok false, w')) :
    w'.Behind body (closing w.boundary) := by
  have hstart := w.look_advances true w.isClosed
  have hd := discard_advances { w with atStart := true }
  unfold findFirst at hr
  split at hr
  · cases hr
  · cases hr
  · rename_i n v hdiscard
    rw [hdiscard] at hd
    have hv := hstart.trans hd
    rcases hread : v.readDelimiter with ⟨e | more, v'⟩ <;> rw [hread] at hr
    · cases hr
    · cases hr
      have hb := readDelimiter_behind (h.moves hv.moves) (hu.moves hv.moves).unspent hread
      rwa [hv.boundary] at hb

end Window

/-! ## Parts and their headers -/

/-- These are the headers of a block in the front of a body. -/
def Headers.From (front : Bytes) (headers : Headers) : Prop :=
  ∃ block, block <:+: front ∧ headers = ofBlock block

theorem Headers.From.mono {body : Bytes} {n m : Nat} {headers : Headers}
    (h : headers.From (body.take n)) (hle : n ≤ m) : headers.From (body.take m) := by
  obtain ⟨block, hblock, hheaders⟩ := h
  exact ⟨block, infix_take_mono hblock hle, hheaders⟩

/-- What is known of the part comes from its own headers, and its field for a file of a set from those
of the set. -/
def PartHead.From (front : Bytes) (head : PartHead) : Prop :=
  head.headers.From front ∧ head.rawFileName = head.headers.rawFileName? ∧
    (head.field = head.headers.fieldName? ∨
      ∃ outer : Headers, outer.From front ∧ head.field = outer.fieldName?)

theorem PartHead.From.mono {body : Bytes} {n m : Nat} {head : PartHead}
    (h : head.From (body.take n)) (hle : n ≤ m) : head.From (body.take m) := by
  obtain ⟨hheaders, hname, hfield⟩ := h
  refine ⟨hheaders.mono hle, hname, ?_⟩
  rcases hfield with hown | ⟨outer, houter, hset⟩
  · exact .inl hown
  · exact .inr ⟨outer, houter.mono hle, hset⟩

namespace Session

/-- No part is at hand that was not handed out, and the body has not ended. -/
def Underway (s : Session) : Prop :=
  (∀ head, s.phase ≠ .located head) ∧ s.phase ≠ .exhausted

/-- What a session holds comes from what was pulled of the body, and behind the last part it stands
behind the closing delimiter. -/
structure Traced (boundary body : Bytes) (s : Session) : Prop where
  delimited : s.boundary = boundary
  placed : s.window.Placed body
  unmetered : s.window.Unmetered
  checked : Window.checkBoundary boundary s.window.capacity = .ok ()
  outermost : s.enclosing = none → s.window.boundary = boundary
  enclosing : ∀ field, s.enclosing = some field →
    ∃ outer : Headers, outer.From (body.take s.window.pulled) ∧ outer.fieldName? = some field
  located : ∀ head, s.phase = .located head → head.From (body.take s.window.pulled)
  closed : s.phase = .exhausted → s.window.Behind body (Window.closing boundary)

variable {s s' : Session} {boundary body : Bytes}

/-- What was pulled stays so while the window moves on. -/
theorem Traced.advanced (h : s.Traced boundary body) (hs : s.Underway) {w : Window}
    (ha : s.window.Advances w) (preamble : Bool) :
    ({ s with window := w, preamble } : Session).Traced boundary body where
  delimited := h.delimited
  placed := h.placed.moves ha.moves
  unmetered := h.unmetered.moves ha.moves
  checked := by
    show Window.checkBoundary boundary w.capacity = .ok ()
    rw [ha.moves.capacity_eq]
    exact h.checked
  outermost hnone := ha.boundary.trans (h.outermost hnone)
  enclosing field hfield := by
    obtain ⟨outer, houter, hname⟩ := h.enclosing field hfield
    exact ⟨outer, houter.mono ha.moves.pulled_le, hname⟩
  located head hphase := absurd hphase (hs.1 head)
  closed hphase := absurd hphase hs.2

theorem Traced.atPhase (h : s.Traced boundary body) {phase : Phase}
    (hl : ∀ head, phase = .located head → head.From (body.take s.window.pulled))
    (hc : phase = .exhausted → s.window.Behind body (Window.closing boundary)) :
    ({ s with phase } : Session).Traced boundary body :=
  { h with located := hl, closed := hc }

/-- A search leaves the session traced, and underway unless it comes to a part or to the end. -/
def TurnTraced (boundary body : Bytes) : Turn × Session → Prop
  | (.stop (.ok _), s) => s.Traced boundary body
  | (_, s) => s.Traced boundary body ∧ s.Underway

theorem leaveBody_traced (h : s.Traced boundary body) (hs : s.Underway)
    (hclosed : s.window.Behind body (Window.closing s.window.boundary)) :
    TurnTraced boundary body s.leaveBody := by
  unfold leaveBody
  split
  · rename_i hnone
    rw [h.outermost hnone] at hclosed
    exact h.atPhase nofun fun _ => hclosed
  · have hset : s.window.setBoundary s.boundary = (.ok (), { s.window with boundary }) := by
      unfold Window.setBoundary
      rw [h.delimited, h.checked]
    rw [hset]
    simp only
    have hback : ({ s with
        window := { s.window with boundary }
        enclosing := none } : Session).Traced boundary body :=
      { delimited := h.delimited
        placed := ⟨h.placed.pulled, h.placed.pending⟩
        unmetered := ⟨h.unmetered.unlimited, h.unmetered.unspent⟩
        checked := h.checked
        outermost := fun _ => rfl
        enclosing := nofun
        located := h.located
        closed := fun hphase => absurd hphase hs.2 }
    have hd := Window.discard_advances { s.window with boundary }
    rcases hw : ({ s.window with boundary } : Window).discard with ⟨e | n, w⟩ <;>
      rw [hw] at hd
    · exact ⟨hback.advanced hs hd s.preamble, hs⟩
    · exact ⟨hback.advanced hs hd s.preamble, hs⟩

theorem locatePart_traced (h : s.Traced boundary body) (hs : s.Underway) {headers : Headers}
    (hheaders : headers.From (body.take s.window.pulled)) :
    TurnTraced boundary body (s.locatePart headers) := by
  unfold locatePart
  simp only
  split
  · have hd := s.window.discard_advances
    rcases hw : s.window.discard with ⟨e | n, w⟩ <;> rw [hw] at hd
    · exact ⟨h.advanced hs hd s.preamble, hs⟩
    · exact ⟨h.advanced hs hd s.preamble, hs⟩
  · have hcount : s.window.Advances s.window.countPart := ⟨.single (.countPart _), rfl⟩
    have hpulled : s.window.countPart.pulled = s.window.pulled :=
      s.window.feed.account.countPart_keeps.1
    have ht := h.advanced hs hcount s.preamble
    unfold Window.countPart at ht hpulled
    rcases hc : s.window.feed.account.countPart with ⟨e | ⟨⟩, account⟩ <;> rw [hc] at ht hpulled
    · exact ⟨ht, hs⟩
    · refine ht.atPhase ?_ nofun
      rintro _ ⟨⟩
      show PartHead.From (body.take (Window.pulled _)) _
      rw [hpulled]
      refine ⟨hheaders, rfl, ?_⟩
      -- the field is that of the set, if there is one
      rcases henc : s.enclosing with _ | field
      · exact .inl rfl
      · obtain ⟨outer, houter, hname⟩ := h.enclosing field henc
        exact .inr ⟨outer, houter, hname.symm⟩

theorem setOf_field {headers : Headers} {field : String} {boundary : Bytes}
    (h : setOf headers = .ok (some (field, boundary))) : headers.fieldName? = some field := by
  unfold setOf at h
  split at h
  · cases h
  · split at h
    · split at h
      · cases h
      · rename_i hname
        split at h
        · cases h
          exact hname
        · cases h
    · cases h

theorem enterPart_traced (h : s.Traced boundary body) (hs : s.Underway) {headers : Headers}
    (hheaders : headers.From (body.take s.window.pulled)) :
    TurnTraced boundary body (s.enterPart headers) := by
  unfold enterPart
  split
  · exact ⟨h, hs⟩
  · rename_i field inner hset
    have hfield : headers.fieldName? = some field := by
      split at hset
      · exact setOf_field hset
      · cases hset
    unfold Window.setBoundary
    rcases Window.checkBoundary inner s.window.capacity with e | ⟨⟩
    · exact ⟨h, hs⟩
    · refine ⟨?_, hs⟩
      exact {
        delimited := h.delimited
        placed := ⟨h.placed.pulled, h.placed.pending⟩
        unmetered := ⟨h.unmetered.unlimited, h.unmetered.unspent⟩
        checked := h.checked
        outermost := nofun
        enclosing := fun _ hsome => ⟨headers, hheaders, hfield.trans hsome⟩
        located := h.located
        closed := fun hphase => absurd hphase hs.2 }
  · exact locatePart_traced h hs hheaders

theorem openPart_traced (h : s.Traced boundary body) (hs : s.Underway) : TurnTraced boundary body s.openPart := by
  have ha := s.window.readHeaderBlock_advances s.settings.maxHeaderSize
  unfold openPart
  rcases hr : s.window.readHeaderBlock s.settings.maxHeaderSize with ⟨e | block, w⟩ <;> rw [hr] at ha
  · exact ⟨h.advanced hs ha s.preamble, hs⟩
  · have hbehind := h.placed.behind h.unmetered.unspent (Window.readHeaderBlock_ok hr)
    exact enterPart_traced (h.advanced hs ha s.preamble) hs
      ⟨block, hbehind.isInfix (h.placed.moves ha.moves), rfl⟩

theorem turn_traced (h : s.Traced boundary body) (hs : s.Underway) : TurnTraced boundary body s.turn := by
  have ha := s.nextDelimiter_advances
  unfold turn
  rcases hn : s.nextDelimiter with ⟨e | _ | _, w⟩ <;> rw [hn] at ha
  · exact ⟨h.advanced hs ha false, hs⟩
  · refine leaveBody_traced (h.advanced hs ha false) hs ?_
    show w.Behind body (Window.closing w.boundary)
    rw [ha.boundary]
    unfold nextDelimiter at hn
    split at hn
    · exact Window.findFirst_behind h.placed h.unmetered hn
    · exact Window.readDelimiter_behind h.placed h.unmetered.unspent hn
  · exact openPart_traced (h.advanced hs ha false) hs

/-- The same for whole searches. -/
def SearchTraced (boundary body : Bytes) : Except Error Bool × Session → Prop
  | (.ok _, s) => s.Traced boundary body
  | (.error _, s) => s.Traced boundary body ∧ s.Underway

theorem locate_traced (h : s.Traced boundary body) (hs : s.Underway) : SearchTraced boundary body s.locate := by
  have hturn := turn_traced h hs
  fun_induction locate s with
  | case1 s r s' ht =>
    rw [ht] at hturn
    rcases r with e | more <;> exact hturn
  | case2 s s' ht _ ih =>
    rw [ht] at hturn
    exact ih hturn.1 hturn.2 (turn_traced hturn.1 hturn.2)

theorem advance_traced (h : s.Traced boundary body) (hs : s.Underway) : SearchTraced boundary body s.advance := by
  have ha := s.window.discard_advances
  unfold advance
  split
  · rcases hd : s.window.discard with ⟨e | n, w⟩ <;> rw [hd] at ha
    · exact ⟨h.advanced hs ha s.preamble, hs⟩
    · exact locate_traced (h.advanced hs ha s.preamble) hs
  · exact locate_traced h hs

theorem Traced.afterError (h : s.Traced boundary body) (hs : s.Underway) (e : Error) :
    (s.afterError e).Traced boundary body ∧ (s.afterError e).Underway := by
  unfold Session.afterError
  split
  · exact ⟨h.atPhase nofun nofun, nofun, nofun⟩
  · exact ⟨h, hs⟩

theorem search_traced (h : s.Traced boundary body) (hs : s.Underway) :
    s.search.2.Traced boundary body := by
  have ha := advance_traced h hs
  unfold search
  rcases hadv : s.advance with ⟨e | more, s'⟩ <;> rw [hadv] at ha
  · exact (ha.1.afterError ha.2 e).1
  · exact ha

theorem hasNext_traced (h : s.Traced boundary body) : s.hasNext.2.Traced boundary body := by
  rw [hasNext_eq]
  cases hphase : s.phase with
  | start => exact search_traced h ⟨by rw [hphase]; nofun, by rw [hphase]; nofun⟩
  | reading => exact search_traced h ⟨by rw [hphase]; nofun, by rw [hphase]; nofun⟩
  | _ => exact h

end Session

/-! ## Parts and their content -/

/-- The session of a part is traced, and what is known of the part comes from its headers. -/
structure OpenPart.Traced (boundary body : Bytes) (p : OpenPart) : Prop where
  session : p.session.Traced boundary body
  underway : p.session.Underway
  head : p.head.From (body.take p.session.window.pulled)

theorem Session.nextPart_traced {s : Session} {boundary body : Bytes} (h : s.Traced boundary body) :
    match s.nextPart with
    | .ok p => p.Traced boundary body
    | .error (_, s') => s'.Traced boundary body := by
  have hn := hasNext_traced h
  unfold nextPart
  rcases hnext : s.hasNext with ⟨e | _ | _, s'⟩ <;> rw [hnext] at hn
  · exact hn
  · exact hn
  · simp only
    cases hphase : s'.phase with
    | located head =>
      exact ⟨hn.atPhase nofun nofun, ⟨nofun, nofun⟩, hn.located head hphase⟩
    | _ => exact hn

namespace OpenPart

variable {p q : OpenPart} {boundary body bytes : Bytes}

theorem Traced.advanced (h : p.Traced boundary body) {w : Window} (ha : p.session.window.Advances w) :
    ({ p with session := { p.session with window := w } } : OpenPart).Traced boundary body :=
  ⟨h.session.advanced h.underway ha _, h.underway, h.head.mono ha.moves.pulled_le⟩

theorem Traced.brokenOff (h : p.Traced boundary body) {w : Window}
    (ha : p.session.window.Advances w) (e : Error) : (p.brokenOff w e).Traced boundary body := by
  have hw := h.advanced ha
  obtain ⟨hsession, hunderway⟩ := hw.session.afterError hw.underway e
  refine ⟨hsession, hunderway, ?_⟩
  rw [brokenOff_window]
  exact hw.head

theorem discardRest_traced (h : p.Traced boundary body) : p.discardRest.2.Traced boundary body := by
  have ha := p.session.window.discard_advances
  unfold discardRest
  rcases hd : p.session.window.discard with ⟨e | n, w⟩ <;> rw [hd] at ha
  · exact h.brokenOff ha e
  · have hw := h.advanced ha
    exact ⟨hw.session, hw.underway, hw.head⟩

theorem refuseSize_traced (h : p.Traced boundary body) (limit : Nat) (actual : Nat → Nat) :
    (p.refuseSize limit actual).2.Traced boundary body := by
  have hd := discardRest_traced h
  unfold refuseSize
  rcases hr : p.discardRest with ⟨e | n, p'⟩ <;> rw [hr] at hd <;> exact hd

theorem readContent_traced (h : p.Traced boundary body) (room : Nat) :
    (p.readContent room).2.Traced boundary body := by
  have ha := p.session.window.take_advances room
  rw [readContent_eq]
  rcases ht : p.session.window.take room with ⟨e | bytes, w⟩ <;> rw [ht] at ha
  · exact h.brokenOff ha e
  · have hw := h.advanced ha
    simp only [took]
    split
    · exact ⟨hw.session, hw.underway, hw.head⟩
    · split
      · split
        · exact refuseSize_traced hw _ _
        · exact ⟨hw.session, hw.underway, hw.head⟩
      · exact ⟨hw.session, hw.underway, hw.head⟩

theorem read_traced (h : p.Traced boundary body) (room : Nat) :
    (p.read room).2.Traced boundary body := by
  unfold read
  split
  · exact h
  · split
    · exact h
    · split
      · exact refuseSize_traced h _ _
      · exact readContent_traced h room

theorem skip_traced (h : p.Traced boundary body) : p.skip.2.Traced boundary body := by
  unfold skip
  split
  · exact h
  · exact discardRest_traced h

/-- What a read hands out was pending, in front. -/
theorem read_ok_pending {room : Nat} (h : p.read room = (.ok bytes, q)) :
    p.session.window.pending = bytes ++ q.session.window.pending := by
  unfold read at h
  split at h
  · cases h
  · split at h
    · cases h
      rfl
    · split at h
      · exact absurd h (refuseSize_ne_ok _ _ _ _ _)
      · rw [readContent_eq] at h
        rcases ht : p.session.window.take room with ⟨e | taken, w⟩ <;> rw [ht] at h
        · cases h
        · rw [Window.take_ok ht]
          simp only [took] at h
          split at h
          · rename_i hempty
            cases h
            rw [List.isEmpty_iff.1 hempty]
          · split at h
            · split at h
              · exact absurd h (refuseSize_ne_ok _ _ _ _ _)
              · cases h
                rfl
            · cases h
              rfl

theorem Traced.handedOut (h : p.Traced boundary body) (hq : q.Traced boundary body)
    (hp : p.session.window.pending = bytes ++ q.session.window.pending) :
    bytes <:+: body.take q.session.window.pulled :=
  (h.session.placed.behind h.session.unmetered.unspent hp).isInfix hq.session.placed

/-! ### Kept content -/

theorem spool_traced (h : p.Traced boundary body) (d : Depot) (s : Spool) :
    (p.spool d s).2.1.Traced boundary body := by
  have hread := read_traced h stretch
  fun_induction spool p d s with
  | case1 p d s e p' hr => rwa [hr] at hread
  | case2 p d s p' hr => rwa [hr] at hread
  | case3 p d s b bytes p' hr e d' _ => rwa [hr] at hread
  | case4 p d s b bytes p' hr s' d' _ _ ih =>
    rw [hr] at hread
    exact ih hread (read_traced hread stretch)

theorem keep_traced (h : p.Traced boundary body) (d : Depot) :
    (p.keep d).2.1.Traced boundary body := by
  have hspool := spool_traced h d {}
  unfold keep
  split
  · exact h
  · rcases hs : p.spool d {} with ⟨e | s, p', d'⟩ <;> rw [hs] at hspool <;> exact hspool

end OpenPart

theorem Spool.write_content {s s' : Spool} {d d' : Depot} {bytes : Bytes}
    (h : s.write d bytes = (.ok s', d')) :
    s'.content = s.content ++ bytes ∧ s'.written = s.written + bytes.length := by
  have hadd : (s.add bytes).content = s.content ++ bytes ∧
      (s.add bytes).written = s.written + bytes.length := by
    simp [content, add]
  unfold write at h
  split at h
  · split at h
    · cases h
    · cases h
      exact hadd
  · cases h
    exact hadd

theorem Depot.temp?_putTemp (d : Depot) (id : Nat) (content : Bytes) :
    (d.putTemp id content).temp? id = some content := by
  have hgone : (d.temps.filter (·.1 != id)).lookup id = none := by
    rw [List.lookup_eq_none_iff]
    intro t ht
    have hne := (List.mem_filter.1 ht).2
    simp only [bne_iff_ne, ne_eq] at hne
    simpa using Ne.symm hne
  unfold temp? putTemp
  rw [List.lookup_append, hgone]
  simp

namespace OpenPart

variable {p q : OpenPart}

/-- What a spool takes up is what a part hands out until its end. -/
theorem spool_content {d d' : Depot} {s s' : Spool} (h : p.spool d s = (.ok s', q, d')) :
    ∃ content, s'.content = s.content ++ content ∧ s'.written = s.written + content.length ∧
      p.session.window.pending = content ++ q.session.window.pending := by
  fun_induction spool p d s with
  | case1 => cases h
  | case2 p d s p' hr =>
    cases h
    exact ⟨[], (List.append_nil _).symm, rfl, read_ok_pending hr⟩
  | case3 => cases h
  | case4 p d s b bytes p' hr s'' d'' hw _ ih =>
    obtain ⟨content, hcontent, hwritten, hp⟩ := ih h
    obtain ⟨hcontent', hwritten'⟩ := Spool.write_content hw
    refine ⟨b :: bytes ++ content, ?_, ?_, ?_⟩
    · rw [hcontent, hcontent', List.append_assoc]
    · rw [hwritten, hwritten', List.length_append, Nat.add_assoc]
    · rw [read_ok_pending hr, hp, List.append_assoc]

/-- An item has what is known of its part, and what the part handed out as its content, of the size it
tells. -/
theorem keep_ok {d d' : Depot} {item : Item} (h : p.keep d = (.ok item, q, d')) :
    item.headers = p.head.headers ∧ item.field = p.head.field ∧ p.fileName = .ok item.fileName ∧
      ∃ content, item.content d' = .ok content ∧ item.size = content.length ∧
        p.session.window.pending = content ++ q.session.window.pending := by
  unfold keep at h
  split at h
  · cases h
  · rename_i name hname
    split at h
    · cases h
    · rename_i s p' d'' hs
      obtain ⟨content, hcontent, hwritten, hp⟩ := spool_content hs
      cases h
      refine ⟨rfl, rfl, hname, content, ?_, hwritten.trans (Nat.zero_add _), hp⟩
      rw [Spool.content] at hcontent
      unfold Item.content
      rcases s.temp with _ | id
      · exact congrArg Except.ok hcontent
      · simp only [Depot.temp?_putTemp]
        exact congrArg Except.ok hcontent

end OpenPart

/-! ## Calls in any order -/

/-- What an item tells and holds comes from the front of a body. -/
def Item.From (front : Bytes) (item : Item) (depot : Depot) : Prop :=
  ∃ p : OpenPart, p.head.From front ∧ item.headers = p.head.headers ∧ item.field = p.head.field ∧
    p.fileName = .ok item.fileName ∧ ∃ content, item.content depot = .ok content ∧ content <:+: front

/-- What a call hands out comes from the front of a body. -/
def Reply.From (front : Bytes) : Reply → Prop
  | part (.ok head) => head.From front
  | content (.ok bytes) => bytes <:+: front
  | kept (.ok item) depot => item.From front depot
  | _ => True

theorem Reply.From.mono {reply : Reply} {body : Bytes} {n m : Nat} (h : reply.From (body.take n))
    (hle : n ≤ m) : reply.From (body.take m) := by
  rcases reply with _ | (_ | head) | (_ | bytes) | _ | ⟨_ | item, depot⟩ | _
  case part.ok => exact PartHead.From.mono h hle
  case content.ok => exact infix_take_mono h hle
  case kept.ok =>
    obtain ⟨p, hhead, hheaders, hfield, hname, content, hcontent, hpiece⟩ := h
    exact ⟨p, hhead.mono hle, hheaders, hfield, hname, content, hcontent, infix_take_mono hpiece hle⟩
  all_goals trivial

/-- A call that fails hands out nothing. -/
theorem Reply.From.of_not_done {reply : Reply} (h : reply.answer ≠ .done) (front : Bytes) :
    reply.From front := by
  rcases reply with _ | (_ | head) | (_ | bytes) | _ | ⟨_ | item, depot⟩ | _
  case part.ok | content.ok | kept.ok => exact absurd rfl h
  all_goals trivial

namespace Standing

/-- What a caller holds comes from what was pulled of the body. -/
def Traced (boundary body : Bytes) : Standing → Prop
  | between s => s.Traced boundary body
  | within p => p.Traced boundary body

variable {boundary body : Bytes} {g : Standing}

theorem Traced.session (h : g.Traced boundary body) : g.session.Traced boundary body := by
  cases g with
  | between s => exact h
  | within p => exact OpenPart.Traced.session h

theorem act_traced (h : g.Traced boundary body) (c : Call) :
    (g.act c).2.Traced boundary body ∧ (g.act c).1.From (body.take (g.act c).2.pulled) := by
  cases c with
  | hasNext => exact ⟨Session.hasNext_traced h.session, trivial⟩
  | nextPart =>
    have hn := Session.nextPart_traced h.session
    simp only [act]
    rcases hr : g.session.nextPart with ⟨e, s⟩ | p <;> rw [hr] at hn
    · exact ⟨hn, trivial⟩
    · exact ⟨hn, hn.head⟩
  | read room =>
    cases g with
    | between s => exact ⟨h, trivial⟩
    | within p =>
      have hread := OpenPart.read_traced h room
      refine ⟨hread, ?_⟩
      simp only [act]
      rcases hr : p.read room with ⟨e | bytes, q⟩ <;> rw [hr] at hread
      · trivial
      · exact OpenPart.Traced.handedOut h hread (OpenPart.read_ok_pending hr)
  | skip =>
    cases g with
    | between s => exact ⟨h, trivial⟩
    | within p => exact ⟨OpenPart.skip_traced h, trivial⟩
  | keep depot =>
    cases g with
    | between s => exact ⟨h, trivial⟩
    | within p =>
      have hkeep := OpenPart.keep_traced h depot
      refine ⟨hkeep, ?_⟩
      simp only [act]
      rcases hk : p.keep depot with ⟨e | item, q, depot'⟩ <;> rw [hk] at hkeep
      · trivial
      · obtain ⟨hheaders, hfield, hname, content, hcontent, -, hp⟩ := OpenPart.keep_ok hk
        have hmoves := p.keep_moves depot
        rw [hk] at hmoves
        exact ⟨p, (OpenPart.Traced.head h).mono hmoves.pulled_le, hheaders, hfield, hname, content,
          hcontent, OpenPart.Traced.handedOut h hkeep hp⟩

/-- By induction on the calls. -/
theorem after_traced (h : g.Traced boundary body) (calls : List Call) :
    (g.after calls).Traced boundary body := by
  induction calls generalizing g with
  | nil => exact h
  | cons c calls ih =>
    rw [after_cons]
    exact ih (act_traced h c).1

/-- The end of a body is told right behind its closing delimiter. -/
theorem act_closed (h : g.Traced boundary body) {c : Call} (hc : (g.act c).1 = .more (.ok false)) :
    (g.act c).2.session.window.Behind body (Window.closing boundary) := by
  cases c with
  | hasNext =>
    rcases hn : g.session.hasNext with ⟨e | more, s⟩ <;> simp only [act, hn] at hc ⊢
    · cases hc
    · cases hc
      have hs := Session.hasNext_traced h.session
      rw [hn] at hs
      exact hs.closed (Session.hasNext_answered hn)
  | nextPart =>
    simp only [act] at hc
    rcases hr : g.session.nextPart with ⟨e, s⟩ | p <;> rw [hr] at hc <;> cases hc
  | _ => cases g <;> cases hc

end Standing

/-! ## Opened sessions -/

namespace Session

variable {s : Session} {source : Source} {boundary : Bytes} {settings : Settings}

theorem open?_traced (h : open? source boundary settings = .ok s)
    (hunlimited : settings.maxRequestSize = none) : s.Traced boundary source.pending := by
  obtain ⟨hboundary, rfl⟩ := open?_ok h
  exact {
    delimited := rfl
    placed := ⟨Nat.zero_add _, fun _ => List.suffix_rfl⟩
    unmetered := ⟨hunlimited, rfl⟩
    checked := hboundary
    outermost := fun _ => rfl
    enclosing := nofun
    located := nofun
    closed := nofun }

end Session

end FormData
