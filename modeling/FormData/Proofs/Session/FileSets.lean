/-
Bodies with sets of files among their parts. A set is written as a part whose content is a body of its
own, and read back it gives its files under the name of its field, and nothing else
(`transcript_fileSets`). The boundary of a set may be any that can be named, even that of the body
around it or one that goes on from that: within a set only its own delimiters are looked for, and
behind it only those of the body.
-/
import FormData.Proofs.Header.Parameters
import FormData.Proofs.Session.Encoding
import FormData.Proofs.Session.Progress

namespace FormData

/-! ## Writing -/

/-- A part of a set, which can be told from what surrounds it. -/
structure Outgoing.IsEnclosable (p : Outgoing) (boundary : Bytes) (maxHeaderSize : Nat) : Prop where
  headers : ∀ pair ∈ p.headers, Headers.IsSendable pair
  size : (Utf8.encode (Headers.render p.headers)).length ≤ maxHeaderSize
  content : ¬ Window.delimiter boundary <:+: p.content

/-- What is handed out of these parts of a set: those with a file name, under the name of the field. -/
def filesOf (field : String) (parts : List Outgoing) : List (PartHead × Bytes) :=
  (parts.filter fun p => p.head.rawFileName.isSome).map fun p =>
    ({ p.head with field := some field }, p.content)

/-- A set of files, to be written as the part of a field. -/
structure FileSet where
  /-- The headers of the part that holds the set. -/
  headers : List (String × String)
  field : String
  boundary : String
  /-- Whether the boundary stands between quotes. -/
  quoted : Bool
  preamble : Bytes
  parts : List Outgoing
  epilogue : Bytes

namespace FileSet

def inner (set : FileSet) : Bytes :=
  Utf8.encode set.boundary

/-- The part that holds the set. -/
def outgoing (set : FileSet) : Outgoing :=
  ⟨set.headers, encodeBody set.preamble set.inner set.parts set.epilogue⟩

/-- A set whose part names its field and its boundary. Nothing before its first delimiter is taken for
that, and nothing behind its last for a delimiter of the body. -/
structure IsSendable (set : FileSet) (outer : Bytes) (settings : Settings) : Prop where
  headers : ∀ pair ∈ set.headers, Headers.IsSendable pair
  size : (Utf8.encode (Headers.render set.headers)).length ≤ settings.maxHeaderSize
  field : (Headers.ofList set.headers).fieldName? = some set.field
  type : (Headers.ofList set.headers).contentType? = some (mixedType set.quoted set.boundary)
  nonempty : set.boundary ≠ ""
  boundary : Parameters.IsWritable set.quoted set.boundary
  noReturn : '\r' ∉ set.boundary.toList
  room : set.inner.length + 4 < settings.windowSize
  preamble : Bytes.locate? (Window.dashed set.inner) (set.preamble ++ Window.dashed set.inner) =
    some set.preamble.length
  parts : ∀ p ∈ set.parts, p.IsEnclosable set.inner settings.maxHeaderSize
  epilogue : ¬ Window.delimiter outer <:+: set.epilogue

end FileSet

/-- What stands between two delimiters of a body. -/
inductive Entry where
  | part (p : Outgoing)
  | set (files : FileSet)

namespace Entry

def outgoing : Entry → Outgoing
  | part p => p
  | set files => files.outgoing

def IsSendable (boundary : Bytes) (settings : Settings) : Entry → Prop
  | part p => p.IsSendable boundary settings.maxHeaderSize
  | set files => files.IsSendable boundary settings

/-- What is handed out of it. -/
def handed : Entry → List (PartHead × Bytes)
  | part p => [(p.head, p.content)]
  | set files => filesOf files.field files.parts

end Entry

theorem following_append (boundary epilogue more : Bytes) (parts : List Outgoing) :
    following boundary epilogue parts ++ more = following boundary (epilogue ++ more) parts := by
  induction parts with
  | nil => rfl
  | cons p ps ih => simp only [following, List.cons_append, List.append_assoc, ih]

/-! ## Places in a body -/

/-- What does not change while a body is read. -/
structure Frame where
  outer : Bytes
  settings : Settings

/-- The boundary looked for, outside of any set or inside that of a field. -/
def Frame.boundary (f : Frame) : Option (String × Bytes) → Bytes
  | none => f.outer
  | some (_, inner) => inner

namespace Session

/-- A steady session at this place, `count` parts being handed out. -/
structure At (s : Session) (f : Frame) (place : Option (String × Bytes)) (count : Nat) : Prop where
  steady : s.Steady
  outer : s.boundary = f.outer
  settings : s.settings = f.settings
  capacity : s.window.capacity = f.settings.windowSize
  enclosing : s.enclosing = place.map Prod.fst
  boundary : s.window.boundary = f.boundary place
  unlimited : s.window.feed.account.maxParts = none
  counted : s.window.parts = count

/-- The session comes to a delimiter next, and `rest` is behind it. -/
structure Poised (s : Session) (f : Frame) (place : Option (String × Bytes)) (count : Nat) (rest : Bytes) :
    Prop extends s.At f place count where
  reads : s.window.Reads s.nextDelimiter (Window.afterDelimiter rest)

variable {f : Frame} {place : Option (String × Bytes)} {n : Nat} {s t : Session} {p : Outgoing}
  {field : String} {inner content rest epilogue : Bytes} {parts : List Outgoing}
  {rooms : Nat → Nat → Nat} {count : Nat}

theorem At.pattern (h : s.At f place n) : s.window.pattern = Window.delimiter (f.boundary place) :=
  Window.pattern_of_boundary h.steady.atStart h.boundary

theorem At.onward (h : s.At f place n) {w : Window} (ho : s.window.Onward w) (preamble : Bool)
    (phase : Phase) : ({ s with window := w, preamble, phase } : Session).At f place n where
  steady := (h.steady.onward ho).placed preamble phase
  outer := h.outer
  settings := h.settings
  capacity := ho.capacity.trans h.capacity
  enclosing := h.enclosing
  boundary := ho.boundary.trans h.boundary
  unlimited := ho.sameParts.maxParts.trans h.unlimited
  counted := ho.sameParts.parts.trans h.counted

/-- Entering a set or leaving it, where the window holds the boundary there. -/
theorem At.moved (h : s.At f place n) (there : Option (String × Bytes))
    (hroom : (f.boundary there).length + 4 < f.settings.windowSize) (preamble : Bool) :
    ({ s with
      window := { s.window with boundary := f.boundary there }
      enclosing := there.map Prod.fst
      preamble } : Session).At f there n where
  steady := ⟨⟨h.steady.window.feed, by rw [← h.capacity] at hroom; exact hroom⟩, h.steady.atStart,
    h.steady.boundary, h.steady.room, h.steady.unlimited⟩
  outer := h.outer
  settings := h.settings
  capacity := h.capacity
  enclosing := rfl
  boundary := rfl
  unlimited := h.unlimited
  counted := h.counted

/-- Passing content leads before the delimiter behind it. -/
theorem At.discard (h : s.At f place n) (hpreamble : s.preamble = false)
    (hcr : Bytes.cr ∉ f.boundary place) (hcontent : ¬ Window.delimiter (f.boundary place) <:+: content)
    (hpending : s.pending = content ++ (Window.delimiter (f.boundary place) ++ rest)) :
    ∃ v, s.window.discard = (.ok content.length, v) ∧
      ({ s with window := v } : Session).Poised f place n rest := by
  obtain ⟨v, hv, ho, hread⟩ :=
    Window.discard_content h.steady.window h.pattern hcr hcontent hpending
  refine ⟨v, hv, h.onward ho s.preamble s.phase, ?_⟩
  unfold nextDelimiter
  rw [if_neg (by rw [hpreamble]; exact Bool.false_ne_true)]
  exact hread

/-! ## Delimiters -/

/-- The delimiter of a part that is handed out. -/
theorem Poised.turn_handed
    (h : s.Poised f place n (Bytes.cr :: Bytes.lf :: (Utf8.encode (Headers.render p.headers) ++ rest)))
    (hheaders : ∀ pair ∈ p.headers, Headers.IsSendable pair)
    (hsize : (Utf8.encode (Headers.render p.headers)).length ≤ f.settings.maxHeaderSize)
    (hm : MakesPart (place.map Prod.fst) (Headers.ofList p.headers)) :
    ∃ s', s.turn = (.stop (.ok true), s') ∧ s'.At f place (n + 1) ∧
      s'.phase = .located { p.head with field := place.map Prod.fst <|> p.head.field } ∧
      s'.preamble = false ∧ s'.pending = rest := by
  rw [← h.settings] at hsize
  obtain ⟨v, hturn, hpv, ho⟩ := turn_headers h.reads hheaders hsize
  have hat := h.onward ho false s.phase
  rw [← hat.enclosing] at hm
  rw [hm.enterPart, locatePart_counted (Account.hasRoom_of_unlimited hat.unlimited) hm.out] at hturn
  refine ⟨_, hturn, ?_, ?_, rfl, hpv⟩
  · exact {
      steady := ⟨hat.steady.window.counted _, hat.steady.atStart, hat.steady.boundary, hat.steady.room,
        hat.steady.unlimited⟩
      outer := hat.outer
      settings := hat.settings
      capacity := hat.capacity
      enclosing := hat.enclosing
      boundary := hat.boundary
      unlimited := (Account.report_maxParts _).trans hat.unlimited
      counted := (Account.report_parts _).trans (congrArg (· + 1) hat.counted) }
  · simp only [h.enclosing]
    rfl

/-- The delimiter of a part of a set that carries no file. -/
theorem Poised.turn_passed
    (h : s.Poised f (some (field, inner)) n (Bytes.cr :: Bytes.lf ::
      (Utf8.encode (Headers.render p.headers) ++ (p.content ++ (Window.delimiter inner ++ rest)))))
    (hp : p.IsEnclosable inner f.settings.maxHeaderSize) (hcr : Bytes.cr ∉ inner)
    (hname : p.head.rawFileName.isSome = false) :
    ∃ s', s.turn = (.again, s') ∧ s'.Poised f (some (field, inner)) n rest := by
  have hsize := hp.size
  rw [← h.settings] at hsize
  obtain ⟨v, hturn, hpv, ho⟩ := turn_headers h.reads hp.headers hsize
  have hat := h.onward ho false s.phase
  obtain ⟨w, hw, hpoised⟩ := hat.discard rfl hcr hp.content hpv
  refine ⟨_, ?_, hpoised⟩
  have hraw : (Headers.ofList p.headers).rawFileName? = none := by
    rw [← Option.not_isSome_iff_eq_none, show (Headers.ofList p.headers).rawFileName?.isSome = false from hname]
    exact Bool.false_ne_true
  rw [hturn]
  unfold enterPart locatePart
  simp only [h.enclosing, hraw, hw, Option.map_some, Option.isSome_some, Option.isNone_some,
    Option.isNone_none, Bool.false_eq_true, if_false, and_self, if_true]

/-- The delimiter of a part that holds a set leads to the first one of the set. -/
theorem Poised.turn_entered {set : FileSet}
    (h : s.Poised f none n (Bytes.cr :: Bytes.lf ::
      (Utf8.encode (Headers.render set.headers) ++ (set.preamble ++ (Window.dashed set.inner ++ rest)))))
    (hset : set.IsSendable f.outer f.settings) :
    ∃ s', s.turn = (.again, s') ∧ s'.Poised f (some (set.field, set.inner)) n rest := by
  have hsize := hset.size
  rw [← h.settings] at hsize
  obtain ⟨v, hturn, hpv, ho⟩ := turn_headers h.reads hset.headers hsize
  have hat := (h.onward ho false s.phase).moved (some (set.field, set.inner)) hset.room true
  have hnonempty : set.inner ≠ [] := Utf8.encode_ne_nil hset.nonempty
  have hcapacity : v.capacity = f.settings.windowSize := ho.capacity.trans h.capacity
  have hlook : v.setBoundary (Utf8.encode set.boundary) = (.ok (), { v with boundary := set.inner }) :=
    Window.setBoundary_ok hnonempty (hcapacity ▸ hset.room)
  refine ⟨_, ?_, hat, ?_⟩
  · rw [hturn]
    unfold enterPart
    simp only [h.enclosing, Option.map_none, Option.isNone_none, if_true, hlook,
      setOf_mixed hset.field hset.type hset.nonempty hset.boundary]
    rfl
  · unfold nextDelimiter
    rw [if_pos rfl]
    exact Window.findFirst_preamble hat.steady.window hat.steady.atStart rfl hset.preamble hpv

/-- The last delimiter of a set leads to the next one of the body. -/
theorem Poised.turn_left
    (h : s.Poised f (some (field, inner)) n
      (Bytes.dash :: Bytes.dash :: (epilogue ++ (Window.delimiter f.outer ++ rest))))
    (hcr : Bytes.cr ∉ f.outer) (hepilogue : ¬ Window.delimiter f.outer <:+: epilogue) :
    ∃ s', s.turn = (.again, s') ∧ s'.Poised f none n rest := by
  obtain ⟨w, hnext, hpw, ho⟩ := h.reads
  have hroom : f.outer.length + 4 < f.settings.windowSize := by
    have hroom := h.steady.room
    rwa [h.outer, h.capacity] at hroom
  have hat := (h.onward ho false s.phase).moved none hroom false
  obtain ⟨v, hv, hpoised⟩ := hat.discard rfl hcr hepilogue hpw
  have hcapacity : w.capacity = f.settings.windowSize := ho.capacity.trans h.capacity
  have hlook : w.setBoundary s.boundary = (.ok (), { w with boundary := f.boundary none }) := by
    rw [Window.setBoundary_ok h.steady.boundary (by rw [h.outer, hcapacity]; exact hroom), h.outer]
    rfl
  refine ⟨_, ?_, hpoised⟩
  unfold turn leaveBody
  simp only [hnext, h.enclosing, Option.map_some, hlook, hv]
  rfl

/-- The last delimiter of a body. -/
theorem Poised.turn_ended (h : s.Poised f none n (Bytes.dash :: Bytes.dash :: rest)) :
    ∃ s', s.turn = (.stop (.ok false), s') ∧ s'.phase = .exhausted ∧ s'.window.parts = n := by
  obtain ⟨w, hnext, -, ho⟩ := h.reads
  have hat := h.onward ho false s.phase
  unfold turn leaveBody
  simp only [hnext, h.enclosing]
  exact ⟨_, rfl, rfl, hat.counted⟩

/-! ## Searches -/

/-- The search for the next part goes on from `t`. -/
structure Seeks (s t : Session) : Prop where
  waiting : s.Waiting
  advance : s.advance = t.locate

theorem Seeks.again (h : s.Seeks t) {t' : Session} (ht : t.turn = (.again, t')) : s.Seeks t' :=
  ⟨h.waiting, h.advance.trans (locate_of_again ht)⟩

/-- Reading everything from `s` on gives these parts, and then what reading everything from `s'` on
gives. -/
def Hands (rooms : Nat → Nat → Nat) (count : Nat) (s : Session) (parts : List (PartHead × Bytes))
    (s' : Session) : Prop :=
  s.transcriptFrom rooms count =
    ({ (s'.transcriptFrom rooms (count + parts.length)).1 with
        parts := parts ++ (s'.transcriptFrom rooms (count + parts.length)).1.parts },
      (s'.transcriptFrom rooms (count + parts.length)).2)

theorem Hands.refl (rooms : Nat → Nat → Nat) (count : Nat) (s : Session) : s.Hands rooms count [] s := rfl

theorem Hands.trans {ps qs : List (PartHead × Bytes)} {s' s'' : Session}
    (h : s.Hands rooms count ps s') (h' : s'.Hands rooms (count + ps.length) qs s'') :
    s.Hands rooms count (ps ++ qs) s'' := by
  unfold Hands at h h' ⊢
  rw [h, h', List.length_append, ← Nat.add_assoc]
  simp only [List.append_assoc]

/-- A part is handed out and read to its end. -/
theorem Seeks.handed (hs : s.Seeks t)
    (h : t.Poised f place n (Bytes.cr :: Bytes.lf :: (Utf8.encode (Headers.render p.headers) ++
      (p.content ++ (Window.delimiter (f.boundary place) ++ rest)))))
    (hp : p.IsEnclosable (f.boundary place) f.settings.maxHeaderSize) (hcr : Bytes.cr ∉ f.boundary place)
    (hm : MakesPart (place.map Prod.fst) (Headers.ofList p.headers)) (hrooms : ∀ n i, 0 < rooms n i)
    (count : Nat) :
    ∃ s' t', s.Hands rooms count
        [({ p.head with field := place.map Prod.fst <|> p.head.field }, p.content)] s' ∧
      s'.Seeks t' ∧ t'.Poised f place (n + 1) rest := by
  obtain ⟨t₁, hturn, hat, hphase, hpreamble, hpending⟩ := h.turn_handed hp.headers hp.size hm
  have hnext : s.hasNext = (.ok true, t₁) :=
    hs.waiting.hasNext_ok (hs.advance.trans (locate_of_stop hturn))
  let q : OpenPart := {
    session := { t₁ with phase := .reading }
    head := { p.head with field := place.map Prod.fst <|> p.head.field } }
  have hpart : s.nextPart = .ok q := by
    unfold nextPart
    simp only [hnext, hphase]
    rfl
  have hopen : q.session.At f place (n + 1) :=
    hat.onward (.refl hat.steady.window) t₁.preamble .reading
  have hfresh : q.Fresh := ⟨hopen.steady, rfl, rfl⟩
  obtain ⟨q', w, hdrain, hsession, hpw, ho⟩ :=
    hfresh.drain_content hopen.pattern hcr hp.content hpending (hrooms count)
  -- the window stands before the delimiter, so there is nothing more to pass
  have hread := hopen.onward ho t₁.preamble .reading
  have hempty : ¬ Window.delimiter (f.boundary place) <:+: [] :=
    fun hin => absurd (List.infix_nil.1 hin) (List.cons_ne_nil _ _)
  have hahead : w.pending = [] ++ (Window.delimiter (f.boundary place) ++ rest) := hpw
  obtain ⟨v, hv, hpoised⟩ := hread.discard hpreamble hcr hempty hahead
  have hadvance : q'.session.advance = ({ q'.session with window := v } : Session).locate := by
    rw [hsession]
    show Session.advance { t₁ with window := w, phase := .reading } = _
    unfold Session.advance
    simp only [hv]
    rfl
  refine ⟨q'.session, { q'.session with window := v }, transcriptFrom_part hpart hdrain,
    ⟨?_, hadvance⟩, ?_⟩
  · rw [hsession]
    exact .inr rfl
  · rw [hsession]
    exact hpoised

/-- Only the files of a set are handed out, by induction on its parts. -/
theorem Seeks.inside (hs : s.Seeks t)
    (h : t.Poised f (some (field, inner)) n
      (following inner (epilogue ++ (Window.delimiter f.outer ++ rest)) parts))
    (hparts : ∀ p ∈ parts, p.IsEnclosable inner f.settings.maxHeaderSize) (hcr : Bytes.cr ∉ inner)
    (houter : Bytes.cr ∉ f.outer) (hepilogue : ¬ Window.delimiter f.outer <:+: epilogue)
    (hrooms : ∀ n i, 0 < rooms n i) (count : Nat) :
    ∃ s' t', s.Hands rooms count (filesOf field parts) s' ∧ s'.Seeks t' ∧
      t'.Poised f none (n + (filesOf field parts).length) rest := by
  induction parts generalizing s t n count with
  | nil =>
    obtain ⟨t', hturn, hpoised⟩ := h.turn_left houter hepilogue
    exact ⟨s, t', .refl rooms count s, hs.again hturn, hpoised⟩
  | cons p ps ih =>
    have hp := hparts p List.mem_cons_self
    have hrest : ∀ q ∈ ps, q.IsEnclosable inner f.settings.maxHeaderSize :=
      fun q hq => hparts q (List.mem_cons_of_mem _ hq)
    cases hname : p.head.rawFileName.isSome with
    | false =>
      have hfiles : filesOf field (p :: ps) = filesOf field ps := by
        simp only [filesOf, List.filter_cons, hname, Bool.false_eq_true, if_false]
      obtain ⟨t', hturn, hpoised⟩ := h.turn_passed hp hcr hname
      rw [hfiles]
      exact ih (hs.again hturn) hpoised hrest count
    | true =>
      have hfiles : filesOf field (p :: ps) =
          ({ p.head with field := some field }, p.content) :: filesOf field ps := by
        simp only [filesOf, List.filter_cons, hname, if_true, List.map_cons]
      obtain ⟨s₁, t₁, hhands, hseeks, hpoised⟩ := hs.handed h hp hcr hname hrooms count
      obtain ⟨s', t', hhands', hseeks', hpoised'⟩ := ih hseeks hpoised hrest (count + 1)
      refine ⟨s', t', ?_, hseeks', ?_⟩
      · rw [hfiles]
        exact hhands.trans hhands'
      · rw [hfiles, List.length_cons, ← Nat.add_assoc, Nat.add_right_comm]
        exact hpoised'

/-- By induction on what stands between the delimiters of the body. -/
theorem Seeks.outside {entries : List Entry} (hs : s.Seeks t)
    (h : t.Poised f none n (following f.outer epilogue (entries.map Entry.outgoing)))
    (hentries : ∀ e ∈ entries, e.IsSendable f.outer f.settings) (hcr : Bytes.cr ∉ f.outer)
    (hrooms : ∀ n i, 0 < rooms n i) (count : Nat) :
    ∃ s', s.transcriptFrom rooms count =
        ({ parts := entries.flatMap Entry.handed, error := .exhausted }, s') ∧
      s'.phase = .exhausted ∧ s'.window.parts = n + (entries.flatMap Entry.handed).length := by
  induction entries generalizing s t n count with
  | nil =>
    obtain ⟨t', hturn, hphase, hcount⟩ := h.turn_ended
    have hnext : s.hasNext = (.ok false, t') :=
      hs.waiting.hasNext_ok (hs.advance.trans (locate_of_stop hturn))
    refine ⟨t', transcriptFrom_error ?_, hphase, hcount⟩
    unfold nextPart
    simp only [hnext]
  | cons e es ih =>
    have hrest : ∀ e ∈ es, e.IsSendable f.outer f.settings :=
      fun e he => hentries e (List.mem_cons_of_mem _ he)
    -- what is handed out of the first entry, and then the rest
    have hfirst : ∃ s₁ t₁, s.Hands rooms count e.handed s₁ ∧ s₁.Seeks t₁ ∧
        t₁.Poised f none (n + e.handed.length) (following f.outer epilogue (es.map Entry.outgoing)) := by
      cases e with
      | part p =>
        have hp : p.IsSendable f.outer f.settings.maxHeaderSize := hentries _ List.mem_cons_self
        exact hs.handed h ⟨hp.headers, hp.size, hp.content⟩ hcr (Headers.setOf_single hp) hrooms count
      | set files =>
        have hset : files.IsSendable f.outer f.settings := hentries _ List.mem_cons_self
        have hbehind : following f.outer epilogue ((Entry.set files :: es).map Entry.outgoing) =
            Bytes.cr :: Bytes.lf :: (Utf8.encode (Headers.render files.headers) ++ (files.preamble ++
              (Window.dashed files.inner ++ following files.inner (files.epilogue ++
                (Window.delimiter f.outer ++ following f.outer epilogue (es.map Entry.outgoing)))
                files.parts))) := by
          simp only [List.map_cons, following, Entry.outgoing, FileSet.outgoing, encodeBody_eq,
            List.append_assoc, following_append]
        rw [hbehind] at h
        obtain ⟨t', hturn, hpoised⟩ := h.turn_entered hset
        exact (hs.again hturn).inside hpoised hset.parts (Utf8.cr_notMem_encode hset.noReturn) hcr
          hset.epilogue hrooms count
    obtain ⟨s₁, t₁, hhands, hseeks, hpoised⟩ := hfirst
    obtain ⟨s', hs', hphase, hcount⟩ := ih hseeks hpoised hrest (count + e.handed.length)
    refine ⟨s', ?_, hphase, ?_⟩
    · rw [hhands, hs', List.flatMap_cons]
    · rw [hcount, List.flatMap_cons, List.length_append, Nat.add_assoc]

end Session

/-! ## Reading back -/

/-- Reading a body back gives the parts it was written from in their order, and in place of each set the
files of it under the name of its field. Neither the set itself nor what it holds besides is handed
out or counted. -/
theorem transcript_fileSets {a : Approach} {preamble boundary epilogue : Bytes} {entries : List Entry}
    (ha : a.Suits (encodeBody preamble boundary (entries.map Entry.outgoing) epilogue) boundary)
    (hlimit : a.settings.maxParts = none) (hcr : Bytes.cr ∉ boundary)
    (hpreamble : Bytes.locate? (Window.dashed boundary) (preamble ++ Window.dashed boundary) =
      some preamble.length)
    (hentries : ∀ e ∈ entries, e.IsSendable boundary a.settings) :
    ∃ s, a.run boundary =
        .ok ({ parts := entries.flatMap Entry.handed, error := .exhausted }, s) ∧
      s.progress.parts = (entries.flatMap Entry.handed).length ∧ s.hasNext = (.ok false, s) := by
  let f : Frame := ⟨boundary, a.settings⟩
  have hpoised : (a.opened boundary).Poised f none 0
      (following boundary epilogue (entries.map Entry.outgoing)) := {
    steady := ha.steady
    outer := rfl
    settings := rfl
    capacity := rfl
    enclosing := rfl
    boundary := rfl
    unlimited := hlimit
    counted := rfl
    reads := Window.findFirst_preamble ha.steady.window rfl rfl hpreamble
      (ha.opened_pending.trans (encodeBody_eq ..)) }
  have hseeks : (a.opened boundary).Seeks (a.opened boundary) := ⟨.inl ⟨rfl, rfl⟩, rfl⟩
  obtain ⟨s, hs, hphase, hcount⟩ := hseeks.outside hpoised hentries hcr ha.rooms 0
  refine ⟨s, by rw [ha.run_eq, hs], ?_, ?_⟩
  · rw [Nat.zero_add] at hcount
    exact hcount
  · unfold Session.hasNext
    simp only [hphase]

/-- A set whose boundary goes on from that of the body, with most of a delimiter before its first and a
delimiter of the body within a file. -/
def pictures : FileSet where
  headers := [("Content-Disposition", "form-data; name=pictures"),
    ("Content-Type", "multipart/mixed; boundary=\"A;\"")]
  field := "pictures"
  boundary := "A;"
  quoted := true
  preamble := [45, 45, 65]
  parts := [⟨[("Content-Disposition", "attachment; filename=x")], [13, 10, 45, 45, 65, 13, 10]⟩, ⟨[], [49]⟩]
  epilogue := [45, 45]

/-- A set of nothing with the boundary of the body. -/
def noPictures : FileSet where
  headers := [("content-type", "multipart/mixed; boundary=A"),
    ("content-disposition", "form-data; name=none")]
  field := "none"
  boundary := "A"
  quoted := false
  preamble := []
  parts := []
  epilogue := [13, 10, 45]

def entries : List Entry :=
  [.set pictures, .part ⟨[("Content-Disposition", "form-data; name=title")], [50]⟩, .set noPictures]

/-- Both sets and a part between them, byte by byte. -/
def entriesByByte : Approach where
  source := {
    transport := {
      segments := (encodeBody [] [65] (entries.map Entry.outgoing) []).map fun b => .data [b] } }
  settings := { windowSize := 7 }
  rooms := fun _ _ => 1

theorem transcript_fileSets_entries :
    ∃ s, entriesByByte.run [65] =
        .ok ({ parts := entries.flatMap Entry.handed, error := .exhausted }, s) ∧
      s.progress.parts = 2 ∧
      (entries.flatMap Entry.handed).map (fun part => (part.1.field, part.2)) =
        [(some "pictures", [13, 10, 45, 45, 65, 13, 10]), (some "title", [50])] := by
  have hsuits : entriesByByte.Suits (encodeBody [] [65] (entries.map Entry.outgoing) []) [65] := by
    refine ⟨⟨fun g hg => ?_, nofun, rfl⟩, by decide +kernel, nofun, by decide, rfl, rfl,
      fun _ _ => Nat.one_pos⟩
    obtain ⟨b, -, rfl⟩ := List.mem_map.1 hg
    exact nofun
  have hpictures : pictures.IsSendable [65] { windowSize := 7 } := {
    headers := by decide +kernel
    size := by decide +kernel
    field := by decide +kernel
    type := by decide +kernel
    nonempty := by decide
    boundary := by decide
    noReturn := by decide
    room := by decide +kernel
    preamble := by decide +kernel
    parts := by
      have hheaders : ∀ p ∈ pictures.parts, ∀ pair ∈ p.headers, Headers.IsSendable pair := by
        decide +kernel
      have hsize : ∀ p ∈ pictures.parts, (Utf8.encode (Headers.render p.headers)).length ≤ 10240 := by
        decide +kernel
      have hcontent : ∀ p ∈ pictures.parts, ¬ Window.delimiter pictures.inner <:+: p.content := by
        decide +kernel
      exact fun p hp => ⟨hheaders p hp, hsize p hp, hcontent p hp⟩
    epilogue := by decide +kernel }
  have hnone : noPictures.IsSendable [65] { windowSize := 7 } := {
    headers := by decide +kernel
    size := by decide +kernel
    field := by decide +kernel
    type := by decide +kernel
    nonempty := by decide
    boundary := by decide
    noReturn := by decide
    room := by decide +kernel
    preamble := by decide +kernel
    parts := nofun
    epilogue := by decide +kernel }
  have htitle : (⟨[("Content-Disposition", "form-data; name=title")], [50]⟩ : Outgoing).IsSendable [65]
      10240 := by
    refine ⟨by decide +kernel, by decide +kernel, ?_, by decide +kernel⟩
    intro field contentType _ htype
    cases htype
  have hentries : ∀ e ∈ entries, e.IsSendable [65] { windowSize := 7 } := by
    intro e he
    obtain rfl | rfl | rfl : e = _ ∨ e = _ ∨ e = _ := by
      simpa only [entries, List.mem_cons, List.not_mem_nil, or_false] using he
    · exact hpictures
    · exact htitle
    · exact hnone
  obtain ⟨s, hs, hparts, -⟩ := transcript_fileSets hsuits rfl (by decide) (by decide) hentries
  exact ⟨s, hs, hparts, by decide +kernel⟩

end FormData
