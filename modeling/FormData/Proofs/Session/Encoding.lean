/-
Bodies as they are written, and what a session makes of them: exactly the parts that were written,
each with its headers and its content (`transcript_encodeBody`). A content may hold any bytes but a
delimiter, even all of one but its last, since the line break that begins a delimiter occurs in it
only once.
-/
import FormData.Proofs.Header.Lines
import FormData.Proofs.Session.Transcript

namespace FormData

/-! ## Writing -/

/-- A part to be written. -/
structure Outgoing where
  headers : List (String × String)
  content : Bytes

namespace Outgoing

/-- What is known of the part when it is read, before its content is. -/
def head (p : Outgoing) : PartHead :=
  let headers := Headers.ofList p.headers
  ⟨headers, headers.fieldName?, headers.rawFileName?⟩

/-- The part with the delimiter line before it and the line break behind it. -/
def encode (boundary : Bytes) (p : Outgoing) : Bytes :=
  Window.dashed boundary ++ [Bytes.cr, Bytes.lf] ++ Utf8.encode (Headers.render p.headers) ++
    p.content ++ [Bytes.cr, Bytes.lf]

/-- A part that can be told from what surrounds it and is no set of files. -/
structure IsSendable (p : Outgoing) (boundary : Bytes) (maxHeaderSize : Nat) : Prop where
  headers : ∀ pair ∈ p.headers, Headers.IsSendable pair
  size : (Utf8.encode (Headers.render p.headers)).length ≤ maxHeaderSize
  single : ∀ field contentType, p.head.field = some field →
    p.head.headers.contentType? = some contentType →
    ¬ "multipart/mixed".toList <+: Text.lower (Text.trimStart contentType.toList)
  content : ¬ Window.delimiter boundary <:+: p.content

end Outgoing

/-- A body of these parts, with something before the first delimiter and behind the last. -/
def encodeBody (preamble boundary : Bytes) (parts : List Outgoing) (epilogue : Bytes) : Bytes :=
  preamble ++ parts.flatMap (Outgoing.encode boundary) ++ Window.dashed boundary ++
    [Bytes.dash, Bytes.dash] ++ epilogue

/-- What comes behind the delimiter that is before these parts. -/
def following (boundary epilogue : Bytes) : List Outgoing → Bytes
  | [] => Bytes.dash :: Bytes.dash :: epilogue
  | p :: ps =>
    Bytes.cr :: Bytes.lf :: (Utf8.encode (Headers.render p.headers) ++
      (p.content ++ (Window.delimiter boundary ++ following boundary epilogue ps)))

theorem encodeBody_eq (preamble boundary : Bytes) (parts : List Outgoing) (epilogue : Bytes) :
    encodeBody preamble boundary parts epilogue =
      preamble ++ (Window.dashed boundary ++ following boundary epilogue parts) := by
  unfold encodeBody
  simp only [List.append_assoc]
  congr 1
  induction parts with
  | nil => rfl
  | cons p ps ih =>
    rw [List.flatMap_cons, List.append_assoc, ih, following, Outgoing.encode, Window.delimiter]
    simp

/-! ## A session before a delimiter -/

theorem Headers.setOf_single {p : Outgoing} {boundary : Bytes} {maxHeaderSize : Nat}
    (h : p.IsSendable boundary maxHeaderSize) :
    Session.setOf (Headers.ofList p.headers) = .ok none := by
  unfold Session.setOf
  split
  · rfl
  · rename_i contentType htype
    split
    · rename_i hmixed
      split
      · rfl
      · rename_i field hfield
        exact absurd (List.isPrefixOf_iff_prefix.1 hmixed) (h.single field contentType hfield htype)
    · rfl

theorem Window.before_delimiter {boundary content : Bytes} (hcr : Bytes.cr ∉ boundary)
    (hcontent : ¬ delimiter boundary <:+: content) (rest : Bytes) :
    Bytes.before (delimiter boundary) (content ++ (delimiter boundary ++ rest)) =
      (content.length, true) := by
  -- the carriage return at the head of the delimiter is its only one
  have htail : Bytes.cr ∉ Bytes.lf :: dashed boundary := by
    unfold dashed
    simp only [List.mem_cons, not_or]
    exact ⟨by decide, by decide, by decide, hcr⟩
  exact Bytes.before_eq_true_iff.2 (Bytes.locate?_append_self htail hcontent rest)

namespace Window

variable {w : Window} {boundary content rest : Bytes}

theorem pattern_of_boundary (hstart : w.atStart = false) (hboundary : w.boundary = boundary) :
    w.pattern = delimiter boundary := by
  rw [pattern, hstart, hboundary]
  rfl

theorem ahead_content (hpattern : w.pattern = delimiter boundary) (hcr : Bytes.cr ∉ boundary)
    (hcontent : ¬ delimiter boundary <:+: content)
    (hpending : w.pending = content ++ (delimiter boundary ++ rest)) : w.ahead = (content.length, true) := by
  rw [ahead, hpattern, hpending]
  exact before_delimiter hcr hcontent rest

/-- Passing content leaves the delimiter behind it to be read. -/
theorem discard_content (h : w.Steady) (hpattern : w.pattern = delimiter boundary)
    (hcr : Bytes.cr ∉ boundary) (hcontent : ¬ delimiter boundary <:+: content)
    (hpending : w.pending = content ++ (delimiter boundary ++ rest)) :
    ∃ v, w.discard = (.ok content.length, v) ∧ w.Onward v ∧
      v.Reads v.readDelimiter (afterDelimiter rest) := by
  have hdiscard := discard_reads h
  rw [ahead_content hpattern hcr hcontent hpending, hpending] at hdiscard
  obtain ⟨v, hv, hpv, ho⟩ := hdiscard
  rw [List.drop_left] at hpv
  have hread := readDelimiter_reads ho.steady (discard_atDelimiter hv)
  rw [ho.pattern, hpattern, hpv, List.drop_left] at hread
  exact ⟨v, hv, ho, hread⟩

/-- The first delimiter may begin anywhere, so it is looked for without its line break. -/
theorem findFirst_preamble (h : w.Steady) (hstart : w.atStart = false) (hboundary : w.boundary = boundary)
    {preamble : Bytes}
    (hlocate : Bytes.locate? (dashed boundary) (preamble ++ dashed boundary) = some preamble.length)
    (hpending : w.pending = preamble ++ (dashed boundary ++ rest)) :
    w.Reads w.findFirst (afterDelimiter rest) := by
  have hbefore : Bytes.before (dashed w.boundary) w.pending = (preamble.length, true) := by
    rw [hboundary, hpending, ← List.append_assoc]
    exact Bytes.before_append (Bytes.before_eq_true_iff.2 hlocate) rest
  have hfind := findFirst_reads h hstart
  rw [hbefore, hboundary, hpending] at hfind
  simp only at hfind
  rw [← List.append_assoc, ← List.length_append, List.drop_left] at hfind
  exact hfind

end Window

/-- Reading the content of a part to its end leads before the delimiter behind it. -/
theorem OpenPart.Fresh.drain_content {q : OpenPart} (hq : q.Fresh) {boundary content rest : Bytes}
    (hpattern : q.session.window.pattern = Window.delimiter boundary) (hcr : Bytes.cr ∉ boundary)
    (hcontent : ¬ Window.delimiter boundary <:+: content)
    (hpending : q.session.pending = content ++ (Window.delimiter boundary ++ rest))
    {rooms : Nat → Nat} (hrooms : ∀ i, 0 < rooms i) :
    ∃ q' w, q.drain rooms 0 = ((content, none), q') ∧
      q'.session = { q.session with window := w } ∧ w.pending = Window.delimiter boundary ++ rest ∧
      q.session.window.Onward w := by
  have hdrain := OpenPart.drain_reads hrooms 0 hq
  rw [Window.ahead_content hpattern hcr hcontent hpending, hpending] at hdrain
  obtain ⟨q', w, hd, hsession, hpw, ho, -⟩ := hdrain
  rw [List.take_left] at hd
  rw [List.drop_left] at hpw
  exact ⟨q', w, hd, hsession, hpw, ho⟩

namespace Session

/-- Behind the delimiter of a part its headers are read. -/
theorem turn_headers {s : Session} {pairs : List (String × String)} {rest : Bytes}
    (hd : s.window.Reads s.nextDelimiter (.ok (true, Utf8.encode (Headers.render pairs) ++ rest)))
    (hpairs : ∀ pair ∈ pairs, Headers.IsSendable pair)
    (hsize : (Utf8.encode (Headers.render pairs)).length ≤ s.settings.maxHeaderSize) :
    ∃ v, s.turn =
        ({ s with window := v, preamble := false } : Session).enterPart (Headers.ofList pairs) ∧
      v.pending = rest ∧ s.window.Onward v := by
  obtain ⟨w, hnext, hpw, how⟩ := hd
  have hblock := Window.readHeaderBlock_reads how.steady s.settings.maxHeaderSize
  rw [hpw, Headers.blockOf_render hpairs hsize] at hblock
  obtain ⟨v, hread, hpv, hov⟩ := hblock
  refine ⟨v, ?_, hpv, how.trans hov⟩
  unfold turn openPart
  simp only [hnext, hread, Headers.ofBlock_render hpairs]

/-- A part that is handed out is counted. -/
theorem locatePart_counted {s : Session} {headers : Headers}
    (hroom : s.window.feed.account.HasRoom)
    (hout : ¬ (s.enclosing.isSome ∧ headers.rawFileName?.isNone)) :
    s.locatePart headers = (.stop (.ok true), { s with
      window := { s.window with feed := { s.window.feed with account :=
        ({ s.window.feed.account with parts := s.window.feed.account.parts + 1 } : Account).report } }
      phase := .located ⟨headers, s.enclosing <|> headers.fieldName?, headers.rawFileName?⟩ }) := by
  unfold locatePart
  simp only [if_neg hout, hroom.countPart]

/-- A steady session outside of any set, with no limit on the parts. -/
structure Plain (s : Session) (boundary : Bytes) : Prop where
  steady : s.Steady
  window : s.window.boundary = boundary
  enclosing : s.enclosing = none
  unlimited : s.window.feed.account.maxParts = none

theorem Plain.onward {s : Session} {boundary : Bytes} (h : s.Plain boundary) {w : Window}
    (ho : s.window.Onward w) : ({ s with window := w } : Session).Plain boundary :=
  ⟨h.steady.onward ho, ho.boundary.trans h.window, h.enclosing,
    ho.sameParts.maxParts.trans h.unlimited⟩

theorem Plain.placed {s : Session} {boundary : Bytes} (h : s.Plain boundary) (preamble : Bool)
    (phase : Phase) : ({ s with preamble, phase } : Session).Plain boundary :=
  ⟨h.steady.placed preamble phase, h.window, h.enclosing, h.unlimited⟩

/-- The session comes to a delimiter next, and `rest` is behind it. -/
structure Before (s : Session) (boundary rest : Bytes) : Prop extends s.Plain boundary where
  place : (s.phase = .start ∧ s.preamble = true ∧ ∃ preamble,
      Bytes.locate? (Window.dashed boundary) (preamble ++ Window.dashed boundary) =
        some preamble.length ∧
      s.pending = preamble ++ (Window.dashed boundary ++ rest)) ∨
    (s.phase = .reading ∧ s.preamble = false ∧ s.pending = Window.delimiter boundary ++ rest)

theorem Before.waiting {s : Session} {boundary rest : Bytes} (h : s.Before boundary rest) :
    s.Waiting := by
  rcases h.place with ⟨hphase, hpreamble, -⟩ | ⟨hphase, -⟩
  · exact .inl ⟨hphase, hpreamble⟩
  · exact .inr hphase

/-- Passing what is before the delimiter leaves it to be read, with `rest` behind it. -/
theorem Before.advance_eq {s : Session} {boundary rest : Bytes} (h : s.Before boundary rest)
    (hcr : Bytes.cr ∉ boundary) :
    ∃ w, s.advance = ({ s with window := w } : Session).locate ∧ s.window.Onward w ∧
      w.Reads ({ s with window := w } : Session).nextDelimiter (Window.afterDelimiter rest) := by
  have hsteady := h.steady.window
  rcases h.place with ⟨hphase, hpreamble, preamble, hlocate, hpending⟩ | ⟨hphase, hpreamble, hpending⟩
  · refine ⟨s.window, ?_, .refl hsteady, ?_⟩
    · show s.advance = s.locate
      unfold advance
      simp only [hphase]
    · unfold nextDelimiter
      rw [if_pos hpreamble]
      exact Window.findFirst_preamble hsteady h.steady.atStart h.window hlocate hpending
  · -- nothing is left of the part that was read, so nothing is discarded
    have hempty : ¬ Window.delimiter boundary <:+: [] :=
      fun hin => absurd (List.infix_nil.1 hin) (List.cons_ne_nil _ _)
    obtain ⟨w, hw, ho, hread⟩ := Window.discard_content hsteady
      (Window.pattern_of_boundary h.steady.atStart h.window) hcr hempty hpending
    refine ⟨w, ?_, ho, ?_⟩
    · unfold advance
      simp only [hphase, hw]
    · unfold nextDelimiter
      rw [if_neg (by rw [hpreamble]; exact Bool.false_ne_true)]
      exact hread

/-! ## Reading back -/

section

variable {s : Session} {boundary rest : Bytes} {p : Outgoing}

theorem Plain.locatePart_eq (h : s.Plain boundary) (headers : Headers) :
    ∃ s', s.locatePart headers = (.stop (.ok true), s') ∧ s'.Plain boundary ∧
      s'.phase = .located ⟨headers, headers.fieldName?, headers.rawFileName?⟩ ∧
      s'.preamble = s.preamble ∧ s'.settings = s.settings ∧ s'.pending = s.pending := by
  have houtside : ¬ (s.enclosing.isSome ∧ headers.rawFileName?.isNone) := by
    rw [h.enclosing]
    exact fun hc => absurd hc.1 nofun
  have hroom := Account.hasRoom_of_unlimited h.unlimited
  refine ⟨_, locatePart_counted hroom houtside, ⟨⟨h.steady.window.counted _, h.steady.atStart,
    h.steady.boundary, h.steady.room, h.steady.unlimited⟩, h.window, h.enclosing, ?_⟩, ?_, rfl, rfl, rfl⟩
  · exact (Account.report_maxParts _).trans h.unlimited
  · simp only [h.enclosing]
    rfl

/-- The delimiter of a part locates it. -/
theorem Plain.turn_part (h : s.Plain boundary)
    (hp : p.IsSendable boundary s.settings.maxHeaderSize)
    (hd : s.window.Reads s.nextDelimiter
      (.ok (true, Utf8.encode (Headers.render p.headers) ++ rest))) :
    ∃ s', s.turn = (.stop (.ok true), s') ∧ s'.Plain boundary ∧ s'.phase = .located p.head ∧
      s'.preamble = false ∧ s'.settings = s.settings ∧ s'.pending = rest := by
  obtain ⟨v, hturn, hpv, ho⟩ := turn_headers hd hp.headers hp.size
  have hplain : ({ s with window := v, preamble := false } : Session).Plain boundary :=
    (h.onward ho).placed false s.phase
  have hlocated : s.turn =
      ({ s with window := v, preamble := false } : Session).locatePart (Headers.ofList p.headers) := by
    rw [hturn]
    unfold enterPart
    simp only [h.enclosing, Headers.setOf_single hp]
    rfl
  obtain ⟨s', hs', hplain', hphase, hpreamble, hsettings, hpending⟩ :=
    hplain.locatePart_eq (Headers.ofList p.headers)
  exact ⟨s', hlocated.trans hs', hplain', hphase, hpreamble, hsettings, hpending.trans hpv⟩

/-- The delimiter behind the last part ends the body. -/
theorem Plain.turn_end (h : s.Plain boundary)
    (hd : s.window.Reads s.nextDelimiter (.ok (false, rest))) :
    ∃ s', s.turn = (.stop (.ok false), s') ∧ s'.phase = .exhausted := by
  obtain ⟨w, hnext, -, -⟩ := hd
  unfold turn leaveBody
  simp only [hnext, h.enclosing]
  exact ⟨_, rfl, rfl⟩

/-- A part is handed out with its content ahead. -/
theorem Before.nextPart_part (h : s.Before boundary
      (Bytes.cr :: Bytes.lf :: (Utf8.encode (Headers.render p.headers) ++ rest)))
    (hcr : Bytes.cr ∉ boundary) (hp : p.IsSendable boundary s.settings.maxHeaderSize) :
    ∃ q, s.nextPart = .ok q ∧ q.Fresh ∧ q.head = p.head ∧ q.session.Plain boundary ∧
      q.session.preamble = false ∧ q.session.settings = s.settings ∧ q.session.pending = rest := by
  obtain ⟨w, hadvance, ho, hreads⟩ := h.advance_eq hcr
  obtain ⟨s', hturn, hplain, hphase, hpreamble, hsettings, hpending⟩ :=
    (h.toPlain.onward ho).turn_part hp hreads
  have hnext : s.hasNext = (.ok true, s') :=
    h.waiting.hasNext_ok (hadvance.trans (locate_of_stop hturn))
  have hplain' : ({ s' with phase := .reading } : Session).Plain boundary :=
    hplain.placed s'.preamble .reading
  refine ⟨{ session := { s' with phase := .reading }, head := p.head }, ?_,
    ⟨hplain'.steady, rfl, rfl⟩, rfl, hplain', hpreamble, hsettings, hpending⟩
  unfold nextPart
  simp only [hnext, hphase]

/-- Behind the last part there is none. -/
theorem Before.nextPart_end (h : s.Before boundary (Bytes.dash :: Bytes.dash :: rest))
    (hcr : Bytes.cr ∉ boundary) :
    ∃ s', s.nextPart = .error (.exhausted, s') ∧ s'.phase = .exhausted := by
  obtain ⟨w, hadvance, ho, hreads⟩ := h.advance_eq hcr
  obtain ⟨s', hturn, hphase⟩ := (h.toPlain.onward ho).turn_end hreads
  have hnext : s.hasNext = (.ok false, s') :=
    h.waiting.hasNext_ok (hadvance.trans (locate_of_stop hturn))
  refine ⟨s', ?_, hphase⟩
  unfold nextPart
  simp only [hnext]

/-- Reading the content to its end leads before the next delimiter. -/
theorem Plain.drain_content {q : OpenPart} (h : q.session.Plain boundary) (hq : q.Fresh)
    (hpreamble : q.session.preamble = false) (hcr : Bytes.cr ∉ boundary) {content : Bytes}
    (hcontent : ¬ Window.delimiter boundary <:+: content)
    (hpending : q.session.pending = content ++ (Window.delimiter boundary ++ rest))
    {rooms : Nat → Nat} (hrooms : ∀ i, 0 < rooms i) :
    ∃ q', q.drain rooms 0 = ((content, none), q') ∧ q'.session.Before boundary rest ∧
      q'.session.settings = q.session.settings := by
  obtain ⟨q', w, hd, hsession, hpw, ho⟩ := hq.drain_content
    (Window.pattern_of_boundary h.steady.atStart h.window) hcr hcontent hpending hrooms
  refine ⟨q', hd, ?_, by rw [hsession]⟩
  rw [hsession]
  exact ⟨h.onward ho, .inr ⟨hq.reading, hpreamble, hpw⟩⟩

/-- By induction on the parts, each of which leads before the delimiter of the next. -/
theorem Before.transcriptFrom_following {epilogue : Bytes} {parts : List Outgoing}
    (h : s.Before boundary (following boundary epilogue parts)) (hcr : Bytes.cr ∉ boundary)
    (hparts : ∀ p ∈ parts, p.IsSendable boundary s.settings.maxHeaderSize)
    {rooms : Nat → Nat → Nat} (hrooms : ∀ n i, 0 < rooms n i) (count : Nat) :
    ∃ s', s.transcriptFrom rooms count =
        ({ parts := parts.map fun p => (p.head, p.content), error := .exhausted }, s') ∧
      s'.phase = .exhausted := by
  induction parts generalizing s count with
  | nil =>
    obtain ⟨s', hnext, hphase⟩ := h.nextPart_end hcr
    exact ⟨s', transcriptFrom_error hnext, hphase⟩
  | cons p ps ih =>
    have hp := hparts p (List.mem_cons_self ..)
    obtain ⟨q, hnext, hq, hhead, hplain, hpreamble, hsettings, hpending⟩ := h.nextPart_part hcr hp
    obtain ⟨q', hd, hbefore, hsettings'⟩ :=
      hplain.drain_content hq hpreamble hcr hp.content hpending (hrooms count)
    rw [← hsettings, ← hsettings'] at hparts
    obtain ⟨s', hs', hphase⟩ := ih hbefore (fun p hmem => hparts p (List.mem_cons_of_mem _ hmem)) (count + 1)
    refine ⟨s', ?_, hphase⟩
    rw [transcriptFrom_part hnext hd, hs', hhead]
    rfl

end

end Session

/-- Reading a body back gives exactly the parts it was written from, and behind the last of them the
session is at its end and stays there, whatever comes before the first delimiter and behind the
last. -/
theorem transcript_encodeBody {a : Approach} {preamble boundary epilogue : Bytes}
    {parts : List Outgoing} (ha : a.Suits (encodeBody preamble boundary parts epilogue) boundary)
    (hlimit : a.settings.maxParts = none) (hcr : Bytes.cr ∉ boundary)
    (hpreamble : Bytes.locate? (Window.dashed boundary) (preamble ++ Window.dashed boundary) =
      some preamble.length)
    (hparts : ∀ p ∈ parts, p.IsSendable boundary a.settings.maxHeaderSize) :
    ∃ s, a.run boundary =
        .ok ({ parts := parts.map fun p => (p.head, p.content), error := .exhausted }, s) ∧
      s.hasNext = (.ok false, s) ∧ s.nextPart = .error (.exhausted, s) := by
  have hbefore : (a.opened boundary).Before boundary (following boundary epilogue parts) :=
    ⟨⟨ha.steady, rfl, rfl, hlimit⟩,
      .inl ⟨rfl, rfl, preamble, hpreamble, ha.opened_pending.trans (encodeBody_eq ..)⟩⟩
  obtain ⟨s, hs, hphase⟩ := hbefore.transcriptFrom_following hcr hparts ha.rooms 0
  have hnext : s.hasNext = (.ok false, s) := by
    unfold Session.hasNext
    simp only [hphase]
  refine ⟨s, by rw [ha.run_eq, hs], hnext, ?_⟩
  unfold Session.nextPart
  simp only [hnext]

/-- A content that is all of a delimiter but its last byte, and a part with nothing in it. -/
def nearDelimiters : List Outgoing :=
  [⟨[("Content-Disposition", "form-data; name=\"ü\""), ("X-Note", "")], [13, 10, 45, 45, 65]⟩, ⟨[], []⟩]

/-- Those parts behind most of a delimiter and before a whole one, byte by byte. -/
def nearDelimitersByByte : Approach where
  source := {
    transport := {
      segments := (encodeBody [45, 45, 65] [65, 66] nearDelimiters [45, 45, 65, 66]).map fun b =>
        .data [b] } }
  settings := { windowSize := 7 }
  rooms := fun _ _ => 1

theorem transcript_encodeBody_nearDelimiters :
    ∃ s, nearDelimitersByByte.run [65, 66] =
        .ok ({ parts := nearDelimiters.map fun p => (p.head, p.content), error := .exhausted }, s) ∧
      s.hasNext = (.ok false, s) ∧ s.nextPart = .error (.exhausted, s) := by
  have hsuits : nearDelimitersByByte.Suits
      (encodeBody [45, 45, 65] [65, 66] nearDelimiters [45, 45, 65, 66]) [65, 66] := by
    refine ⟨⟨fun g hg => ?_, nofun, rfl⟩, by decide +kernel, nofun, by decide, rfl, rfl,
      fun _ _ => Nat.one_pos⟩
    obtain ⟨b, -, rfl⟩ := List.mem_map.1 hg
    exact nofun
  have htidy : ∀ part ∈ nearDelimiters, ∀ pair ∈ part.headers, Headers.IsSendable pair := by
    decide +kernel
  have hplain : ∀ part ∈ nearDelimiters, part.head.headers.contentType? = none := by
    decide +kernel
  have hsize : ∀ part ∈ nearDelimiters, (Utf8.encode (Headers.render part.headers)).length ≤ 10240 := by
    decide +kernel
  have hcontent : ∀ part ∈ nearDelimiters, ¬ Window.delimiter [65, 66] <:+: part.content := by
    decide +kernel
  refine transcript_encodeBody hsuits rfl (by decide) (by decide +kernel) fun part hpart =>
    ⟨htidy part hpart, hsize part hpart, fun field contentType _ htype => ?_, hcontent part hpart⟩
  rw [hplain part hpart] at htype
  cases htype

end FormData
