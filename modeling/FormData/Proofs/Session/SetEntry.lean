/-
Which parts of a body are entered as sets of files. On its way to the next part a session comes to the
delimiters of the body one after the other (`Session.ComesTo`). A part there is taken for a set if it
looks like one by its headers, and handed out with its own content if it does not (`sets_taken_iff`).
-/
import Mathlib.Control.Monad.Basic
import FormData.Proofs.Header.MediaTypes
import FormData.Proofs.Session.Boundaries
import FormData.Proofs.Session.Encoding

namespace FormData

namespace Session

variable {s t behind : Session} {headers : Headers} {boundary : Bytes}

/-! ## Delimiters on the way -/

/-- In its search for the next part the session `s` comes to a delimiter, and is this one before it. -/
inductive ComesTo (s : Session) : Session → Prop
  | first (hphase : s.phase = .start) : ComesTo s s
  /-- What was left unread of the last part is passed. -/
  | next {count : Nat} {w : Window} (hphase : s.phase = .reading) (hd : s.window.discard = (.ok count, w)) :
    ComesTo s { s with window := w }
  | further {t u : Session} (h : ComesTo s t) (ht : t.turn = (.again, u)) : ComesTo s u

theorem ComesTo.advance_eq (h : s.ComesTo t) : s.advance = t.locate := by
  induction h with
  | first hphase =>
    unfold advance
    simp only [hphase]
  | next hphase hd =>
    unfold advance
    simp only [hphase, hd]
  | further _ ht ih => rw [ih, locate_of_again ht]

theorem ComesTo.searching (h : s.ComesTo t) : s.phase = .start ∨ s.phase = .reading := by
  induction h with
  | first hphase => exact .inl hphase
  | next hphase _ => exact .inr hphase
  | further _ _ ih => exact ih

/-- Where a search stops is what the session tells and goes on from. -/
theorem ComesTo.hasNext_ok (h : s.ComesTo t) {more : Bool} (ht : t.turn = (.stop (.ok more), behind)) :
    s.hasNext = (.ok more, behind) := by
  have hadvance : s.advance = (.ok more, behind) := h.advance_eq.trans (locate_of_stop ht)
  unfold hasNext
  rcases h.searching with hphase | hphase
  · simp only [hphase, hadvance]
  · simp only [hphase, hadvance]

/-- In its search the session `s` comes to a part of the body that is not within a set. It is `t` before
the delimiter of the part, and `behind` behind its headers. -/
structure Meets (s t : Session) (headers : Headers) (behind : Session) : Prop where
  comes : s.ComesTo t
  outside : t.enclosing = none
  opens : ∃ w block v, t.nextDelimiter = (.ok true, w) ∧
    w.readHeaderBlock t.settings.maxHeaderSize = (.ok block, v) ∧ headers = Headers.ofBlock block ∧
    behind = { t with window := v, preamble := false }

/-- The first part of a body is met without passing another. -/
theorem Meets.start {w v : Window} {block : Bytes} (hphase : s.phase = .start) (hout : s.enclosing = none)
    (hd : s.nextDelimiter = (.ok true, w))
    (hb : w.readHeaderBlock s.settings.maxHeaderSize = (.ok block, v)) :
    s.Meets s (Headers.ofBlock block) { s with window := v, preamble := false } :=
  ⟨.first hphase, hout, w, block, v, hd, hb, rfl, rfl⟩

theorem Meets.turn_eq (h : s.Meets t headers behind) : t.turn = behind.enterPart headers := by
  obtain ⟨w, block, v, hd, hb, rfl, rfl⟩ := h.opens
  unfold turn openPart
  simp only [hd, hb]

theorem Meets.behind_outside (h : s.Meets t headers behind) : behind.enclosing = none := by
  obtain ⟨w, block, v, -, -, -, rfl⟩ := h.opens
  exact h.outside

/-! ## Taken for a set -/

/-- The session in the set of a field, which has this boundary. -/
def inside (s : Session) (field : String) (inner : Bytes) : Session :=
  { s with
    window := { s.window with boundary := inner }
    enclosing := some field
    preamble := true }

/-- The part is taken for a set: its set is entered, if its content type names a boundary and that fits,
and otherwise the search ends with the error that says what is wrong with the set. -/
def Takes (t : Session) (headers : Headers) (behind : Session) : Prop :=
  ∃ field contentType, headers.fieldName? = some field ∧ headers.contentType? = some contentType ∧
    match boundaryOf contentType with
    | .error _ => t.turn = (.stop (.error (.malformed (.setWithoutBoundary field))), behind)
    | .ok inner =>
      if inner.length + 4 < behind.window.capacity then t.turn = (.again, behind.inside field inner)
      else t.turn = (.stop (.error
        (.settings (.smallWindow behind.window.capacity (inner.length + 4)))), behind)

theorem boundaryOf_ne_nil {contentType : String} {inner : Bytes} (h : boundaryOf contentType = .ok inner) :
    inner ≠ [] := by
  unfold boundaryOf at h
  simp only at h
  split at h
  · split at h
    · split at h
      · cases h
      · rename_i hne
        cases h
        exact Utf8.encode_ne_nil (by simpa using hne)
    · cases h
  · cases h

theorem setBoundary_small {w : Window} {inner : Bytes} (hne : inner ≠ [])
    (hsmall : ¬ inner.length + 4 < w.capacity) :
    w.setBoundary inner = (.error (.settings (.smallWindow w.capacity (inner.length + 4))), w) := by
  have hempty : inner.isEmpty = false := by simpa using hne
  unfold Window.setBoundary Window.checkBoundary
  rw [hempty, if_neg Bool.false_ne_true, if_pos (Nat.le_of_not_lt hsmall)]

/-- Outside of a set the headers alone decide what a part is. -/
theorem enterPart_outside (h : s.enclosing = none) (headers : Headers) :
    s.enterPart headers = match setOf headers with
      | .error e => (.stop (.error e), s)
      | .ok (some (field, inner)) =>
        match s.window.setBoundary inner with
        | (.error e, window) => (.stop (.error e), { s with window })
        | (.ok (), window) => (.again, { s with window, enclosing := some field, preamble := true })
      | .ok none => s.locatePart headers := by
  have hout : s.enclosing.isNone = true := by
    rw [h]
    rfl
  unfold enterPart
  rcases setOf headers with e | _ | ⟨field, inner⟩
  · simp only [hout, if_true]
  · simp only [hout, if_true]
  · rcases hwindow : s.window.setBoundary inner with ⟨e | ⟨⟩, window⟩ <;>
      simp only [hout, if_true, hwindow]

theorem Meets.takes (h : s.Meets t headers behind) (hr : headers.ResemblesSet) : t.Takes headers behind := by
  obtain ⟨field, hfield⟩ := Option.isSome_iff_exists.1 hr.field
  obtain ⟨contentType, htype, hbegins⟩ := hr.type
  have hset := setOf_resembling hfield htype hbegins
  refine ⟨field, contentType, hfield, htype, ?_⟩
  rw [h.turn_eq, enterPart_outside h.behind_outside, hset]
  rcases hb : boundaryOf contentType with fault | inner
  · rfl
  · have hne := boundaryOf_ne_nil hb
    simp only
    split
    · rename_i hroom
      rw [Window.setBoundary_ok hne hroom]
      rfl
    · rename_i hsmall
      rw [setBoundary_small hne hsmall]

end Session

/-! ## Handed out -/

/-- The content of the part is what this text holds before the first delimiter: if its session is given
all of that, reads of any sizes hand out the content and find its end. -/
structure OpenPart.Holds (p : OpenPart) (boundary text : Bytes) : Prop where
  pending : p.session.pending = text
  content : ∀ offset, Bytes.FirstAt (Window.delimiter boundary) text offset →
    p.session.window.feed.Steady → p.session.settings.maxFileSize = none →
    ∀ rooms : Nat → Nat, (∀ i, 0 < rooms i) → ∃ q, p.drain rooms 0 = ((text.take offset, none), q)

/-- A part that was just handed out holds what is pending, if its session is outside of any set. -/
theorem OpenPart.holds {p : OpenPart} {boundary : Bytes} (hs : p.session.Framed boundary)
    (hout : p.session.enclosing = none) (hreading : p.session.phase = .reading)
    (hunfinished : p.isFinished = false) : p.Holds boundary p.session.pending := by
  refine ⟨rfl, fun offset hfirst hfeed hfile rooms hrooms => ?_⟩
  obtain ⟨hne, hroom⟩ := Window.checkBoundary_ok_iff.1 hs.fits
  have hsteady : p.session.Steady := {
    window := ⟨hfeed, hs.reached.room⟩
    atStart := hs.reached.atStart
    boundary := hs.delimited ▸ hne
    room := by rwa [hs.delimited]
    unlimited := hfile }
  have hahead : p.session.window.ahead = (offset, true) := by
    rw [hs.reached.ahead_eq, hs.outermost hout]
    exact hfirst.before_eq nofun
  have hdrain := OpenPart.drain_reads hrooms 0 ⟨hsteady, hreading, hunfinished⟩
  rw [hahead] at hdrain
  obtain ⟨q, -, hd, -⟩ := hdrain
  exact ⟨q, hd⟩

namespace Session

variable {s t behind : Session} {headers : Headers} {boundary : Bytes}

/-- The part is handed out by itself, and holds what comes behind its headers, unless it is one part too
many. -/
def HandsOver (s t : Session) (headers : Headers) (behind : Session) (boundary : Bytes) : Prop :=
  (behind.window.feed.account.HasRoom ∧ ∃ u p, t.turn = (.stop (.ok true), u) ∧ s.nextPart = .ok p ∧
    p.head = ⟨headers, headers.fieldName?, headers.rawFileName?⟩ ∧ p.session.enclosing = none ∧
    p.Holds boundary behind.pending) ∨
  ∃ limit u, behind.window.feed.account.maxParts = some limit ∧
    limit ≤ behind.window.feed.account.parts ∧ t.turn = (.stop (.error (.partCount limit)), u)

theorem Meets.handsOver (h : s.Meets t headers behind) (hs : s.Framed boundary)
    (hr : ¬ headers.ResemblesSet) : s.HandsOver t headers behind boundary := by
  have hout := h.behind_outside
  have hnot : ¬ (behind.enclosing.isSome ∧ headers.rawFileName?.isNone) := by
    rintro ⟨hsome, -⟩
    rw [hout] at hsome
    cases hsome
  have hturn : t.turn = behind.locatePart headers := by
    rw [h.turn_eq, enterPart_outside hout, setOf_eq_none_iff.2 hr]
  by_cases hroom : behind.window.feed.account.HasRoom
  · left
    rw [locatePart_counted hroom hnot] at hturn
    have hnext := h.comes.hasNext_ok hturn
    have hpart := s.nextPart_changes
    unfold nextPart at hpart ⊢
    simp only [hnext] at hpart ⊢
    refine ⟨hroom, _, _, hturn, rfl, ?_, hout, ?_⟩
    · rw [hout]
      rfl
    · exact OpenPart.holds (hs.changes hpart) hout rfl rfl
  · right
    obtain ⟨limit, hm, hle⟩ := Account.not_hasRoom_iff.1 hroom
    unfold locatePart at hturn
    simp only [if_neg hnot, Account.countPart_error hm hle] at hturn
    exact ⟨limit, _, hm, hle, hturn⟩

/-! ## One or the other -/

/-- A part that is taken for a set is not handed out. -/
theorem Takes.not_handsOver (h : t.Takes headers behind) : ¬ s.HandsOver t headers behind boundary := by
  obtain ⟨field, contentType, -, -, houtcome⟩ := h
  rintro (⟨-, u, p, hturn, -⟩ | ⟨limit, u, -, -, hturn⟩)
  all_goals
    split at houtcome
    · cases hturn.symm.trans houtcome
    · split at houtcome
      · cases hturn.symm.trans houtcome
      · cases hturn.symm.trans houtcome

/-- Whatever was done before, a part of the body that is not within a set is taken for a set if its
headers name a field and its media type begins with `multipart/mixed`, and every other one is handed out
with its own content. So the parts taken for sets are those of fields with that very media type, as
long as no media type goes on behind it. -/
theorem sets_taken_iff {source : Source} {settings : Settings} {s₀ : Session}
    (hopen : open? source boundary settings = .ok s₀) (calls : List Call)
    (hcalls : ((Standing.between s₀).after calls).session = s) (h : s.Meets t headers behind) :
    (t.Takes headers behind ↔ headers.ResemblesSet) ∧
    (s.HandsOver t headers behind boundary ↔ ¬ headers.ResemblesSet) ∧
    ((t.Takes headers behind ↔ headers.IsSet) ↔ ¬ headers.OutgrowsSet) := by
  have hframed : s.Framed boundary := hcalls ▸ framed_after hopen calls
  have htakes : t.Takes headers behind ↔ headers.ResemblesSet := by
    constructor
    · intro ht
      refine Decidable.byContradiction fun hr => ?_
      exact ht.not_handsOver (h.handsOver hframed hr)
    · exact h.takes
  refine ⟨htakes, ?_, ?_⟩
  · constructor
    · intro ho hr
      exact (h.takes hr).not_handsOver ho
    · exact h.handsOver hframed
  · rw [htakes, Headers.resemblesSet_iff]
    constructor
    · intro hsame hout
      exact (hsame.1 (.inr hout)).not_outgrowsSet hout
    · intro hnot
      exact ⟨fun hr => hr.resolve_right hnot, .inl⟩

/-- A body whose one part has this content type and this content. -/
def partOfType (contentType content : String) : Source where
  transport := { segments := [.data (Utf8.encode ("--B\r\nContent-Disposition: form-data; name=a\r\n" ++
    "Content-Type: " ++ contentType ++ "\r\n\r\n" ++ content ++ "\r\n--B--"))] }

/-- The headers of that part. -/
def typeHeaders (contentType : String) : Headers :=
  Headers.ofList [("Content-Disposition", "form-data; name=a"), ("Content-Type", contentType)]

/-- A session that was just opened meets the part, if its headers are read. -/
theorem meets_partOfType {source : Source} {settings : Settings} {headers : Headers}
    (hopen : open? source boundary settings = .ok s)
    (hd : s.nextDelimiter.1 = .ok true)
    (hb : (s.nextDelimiter.2.readHeaderBlock s.settings.maxHeaderSize).1.map Headers.ofBlock =
      .ok headers) : ∃ behind, s.Meets s headers behind := by
  have hstart : s.phase = .start ∧ s.enclosing = none := by
    obtain ⟨-, rfl⟩ := open?_ok hopen
    exact ⟨rfl, rfl⟩
  rcases hr : s.nextDelimiter.2.readHeaderBlock s.settings.maxHeaderSize with ⟨e | block, v⟩ <;> rw [hr] at hb
  · cases hb
  · cases hb
    exact ⟨_, .start hstart.1 hstart.2 (Prod.ext hd rfl) hr⟩

/-- A part that is a body of its own, but no set. -/
theorem sets_taken_iff_related :
    ∃ s behind, open? (partOfType "multipart/related; boundary=C" "--C\r\n\r\nb\r\n--C--") [66] {} = .ok s ∧
      s.Meets s (typeHeaders "multipart/related; boundary=C") behind ∧
      s.HandsOver s (typeHeaders "multipart/related; boundary=C") behind [66] ∧
      ¬ s.Takes (typeHeaders "multipart/related; boundary=C") behind := by
  obtain ⟨s, hopen⟩ : ∃ s, open? (partOfType "multipart/related; boundary=C" "--C\r\n\r\nb\r\n--C--") [66] {} =
    .ok s := ⟨_, rfl⟩
  obtain ⟨behind, hmeets⟩ : ∃ behind, s.Meets s (typeHeaders "multipart/related; boundary=C") behind := by
    refine meets_partOfType hopen ?_ ?_
    · cases hopen
      decide +kernel
    · cases hopen
      decide +kernel
  have hplain : ¬ (typeHeaders "multipart/related; boundary=C").ResemblesSet := by decide +kernel
  obtain ⟨htakes, hhands, -⟩ := sets_taken_iff hopen [] rfl hmeets
  exact ⟨s, behind, hopen, hmeets, hhands.2 hplain, fun ht => hplain (htakes.1 ht)⟩

/-- A part whose media type only begins with that of sets is taken for one, and not handed out: nothing in
it is a delimiter of a set, so the session ends there. -/
theorem longer_type_taken :
    ∃ s behind, open? (partOfType "multipart/mixedfoo; boundary=C" "abc") [66] {} = .ok s ∧
      s.Meets s (typeHeaders "multipart/mixedfoo; boundary=C") behind ∧
      ¬ (typeHeaders "multipart/mixedfoo; boundary=C").IsSet ∧
      s.Takes (typeHeaders "multipart/mixedfoo; boundary=C") behind ∧
      ((Standing.between s).call .nextPart).1 = .failed (.malformed (.boundaryNotFound [67])) := by
  obtain ⟨s, hopen⟩ : ∃ s, open? (partOfType "multipart/mixedfoo; boundary=C" "abc") [66] {} = .ok s := ⟨_, rfl⟩
  obtain ⟨behind, hmeets⟩ : ∃ behind, s.Meets s (typeHeaders "multipart/mixedfoo; boundary=C") behind := by
    refine meets_partOfType hopen ?_ ?_
    · cases hopen
      decide +kernel
    · cases hopen
      decide +kernel
  refine ⟨s, behind, hopen, hmeets, by decide +kernel, hmeets.takes (by decide +kernel), ?_⟩
  cases hopen
  decide +kernel

end Session

end FormData
