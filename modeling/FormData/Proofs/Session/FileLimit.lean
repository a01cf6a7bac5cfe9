/-
Parts under a limit on files. A caller who reads the parts of a body that decodes without that limit
is handed the same parts under it (`Session.answersFrom_eq`), and the reads of a part answer as the
limit demands (`PartAnswers`): chunks of the content as long as they stay within the limit, then one
refusal that tells the size of the part, and nothing after it.
-/
import FormData.Proofs.Session.Reads
import FormData.Proofs.Session.Transcript

namespace FormData

/-! ## Going from part to part under a limit -/

namespace Session

/-- The session under this limit on files. -/
def withFileLimit (limit : Option Nat) (s : Session) : Session :=
  { s with settings := { s.settings with maxFileSize := limit } }

variable {limit : Option Nat}

@[simp] theorem withFileLimit_window (s : Session) : (s.withFileLimit limit).window = s.window := rfl

@[simp] theorem withFileLimit_phase (s : Session) : (s.withFileLimit limit).phase = s.phase := rfl

@[simp] theorem withFileLimit_enclosing (s : Session) :
    (s.withFileLimit limit).enclosing = s.enclosing := rfl

@[simp] theorem withFileLimit_maxHeaderSize (s : Session) :
    (s.withFileLimit limit).settings.maxHeaderSize = s.settings.maxHeaderSize := rfl

theorem leaveBody_withFileLimit (s : Session) :
    (s.withFileLimit limit).leaveBody = (s.leaveBody.1, s.leaveBody.2.withFileLimit limit) := by
  unfold leaveBody withFileLimit
  rcases s.enclosing with _ | field
  · rfl
  · rcases s.window.setBoundary s.boundary with ⟨e | ⟨⟩, w⟩
    · rfl
    · simp only
      rcases w.discard with ⟨e | n, w⟩ <;> rfl

theorem locatePart_withFileLimit (limit : Option Nat) (s : Session) (headers : Headers) :
    (s.withFileLimit limit).locatePart headers =
      ((s.locatePart headers).1, (s.locatePart headers).2.withFileLimit limit) := by
  unfold locatePart withFileLimit
  simp only
  split
  · rcases s.window.discard with ⟨e | n, w⟩ <;> rfl
  · rcases s.window.feed.account.countPart with ⟨e | ⟨⟩, account⟩ <;> rfl

theorem enterPart_withFileLimit (s : Session) (headers : Headers) :
    (s.withFileLimit limit).enterPart headers =
      ((s.enterPart headers).1, (s.enterPart headers).2.withFileLimit limit) := by
  have hlocate := locatePart_withFileLimit limit s headers
  unfold enterPart
  rw [withFileLimit_enclosing]
  rcases if s.enclosing.isNone then setOf headers else .ok none with e | _ | ⟨field, boundary⟩
  · rfl
  · exact hlocate
  · simp only [withFileLimit]
    rcases s.window.setBoundary boundary with ⟨e | ⟨⟩, w⟩ <;> rfl

theorem openPart_withFileLimit (s : Session) :
    (s.withFileLimit limit).openPart = (s.openPart.1, s.openPart.2.withFileLimit limit) := by
  unfold openPart
  rw [withFileLimit_window, withFileLimit_maxHeaderSize]
  rcases s.window.readHeaderBlock s.settings.maxHeaderSize with ⟨e | block, w⟩
  · rfl
  · exact enterPart_withFileLimit { s with window := w } _

theorem turn_withFileLimit (limit : Option Nat) (s : Session) :
    (s.withFileLimit limit).turn = (s.turn.1, s.turn.2.withFileLimit limit) := by
  unfold turn
  rw [show (s.withFileLimit limit).nextDelimiter = s.nextDelimiter from rfl]
  rcases s.nextDelimiter with ⟨e | _ | _, w⟩
  · rfl
  · exact leaveBody_withFileLimit { s with window := w, preamble := false }
  · exact openPart_withFileLimit { s with window := w, preamble := false }

theorem locate_withFileLimit (s : Session) :
    (s.withFileLimit limit).locate = (s.locate.1, s.locate.2.withFileLimit limit) := by
  have hturn := turn_withFileLimit limit s
  fun_induction locate s with
  | case1 s r s' h =>
    rw [h] at hturn
    exact locate_of_stop hturn
  | case2 s s' h _ ih =>
    rw [h] at hturn
    rw [locate_of_again hturn]
    exact ih (turn_withFileLimit limit s')

theorem advance_withFileLimit (s : Session) :
    (s.withFileLimit limit).advance = (s.advance.1, s.advance.2.withFileLimit limit) := by
  by_cases hs : s.phase = .reading
  · rw [advance_eq_settle hs, advance_eq_settle (s := s.withFileLimit limit) hs,
      withFileLimit_window]
    rcases s.window.settle with ⟨e | ⟨⟩, w⟩
    · rfl
    · exact locate_withFileLimit { s with window := w }
  · rw [advance_eq_locate hs, advance_eq_locate (s := s.withFileLimit limit) hs,
      locate_withFileLimit]

/-- A limit on files does not matter to where the next part is, or to the error on the way there. -/
theorem hasNext_withFileLimit (s : Session) :
    (s.withFileLimit limit).hasNext = (s.hasNext.1, s.hasNext.2.withFileLimit limit) := by
  unfold hasNext
  rw [withFileLimit_phase, advance_withFileLimit]
  rcases s.phase with _ | head | _ | _ | _
  case start | reading =>
    rcases s.advance with ⟨e | more, s'⟩
    · cases he : e.isFatal <;> simp [afterError, he, withFileLimit]
    · rfl
  all_goals rfl

end Session

/-! ## What the limit makes of a part -/

namespace PartHead

/-- The part declares this size: its first `Content-Length` value spells it, blanks around it aside, and it has
64 bits. -/
def Declares (head : PartHead) (declared : Nat) : Prop :=
  ∃ value, head.headers.get? "Content-Length" = some value ∧
    Spells (Text.trim value.toList) declared ∧ declared < UInt64.size

theorem contentLength?_eq_some_iff {head : PartHead} {declared : Nat} :
    head.headers.contentLength? = some declared ↔ head.Declares declared := by
  unfold Headers.contentLength? Declares
  rw [Option.bind_eq_some_iff]
  simp only [number?_eq_some_iff]

/-- The error that refuses the part for this size. -/
def tooLarge (head : PartHead) (limit size : Nat) : Error :=
  .fileSize head.field (head.rawFileName.map (·.value)) limit size

/-- What the limit demands for a part with this content: to be refused for the size it declares, if that is
above the limit, else for that of its content, or not at all. -/
inductive Judged (head : PartHead) (limit : Nat) (content : Bytes) : Option Error → Prop
  | declared (declared : Nat) (h : head.Declares declared) (hlarge : limit < declared) :
    Judged head limit content (some (head.tooLarge limit declared))
  | large (h : ∀ declared, head.Declares declared → declared ≤ limit) (hlarge : limit < content.length) :
    Judged head limit content (some (head.tooLarge limit content.length))
  | fits (h : ∀ declared, head.Declares declared → declared ≤ limit) (hfits : content.length ≤ limit) :
    Judged head limit content none

/-- The size of a part with this content under a limit on files: the one it declares, if that is
above the limit, else that of its content. -/
def size (head : PartHead) (limit : Nat) (content : Bytes) : Nat :=
  match head.headers.contentLength? with
  | some declared => if limit < declared then declared else content.length
  | none => content.length

/-- The error that refuses the part, if it is too large. -/
def refusal? (head : PartHead) (limit : Nat) (content : Bytes) : Option Error :=
  if limit < head.size limit content then some (head.tooLarge limit (head.size limit content)) else none

variable {head : PartHead} {limit : Nat}

theorem size_of_declared {declared : Nat} (h : head.headers.contentLength? = some declared)
    (hlarge : limit < declared) (content : Bytes) : head.size limit content = declared := by
  simp only [size, h, if_pos hlarge]

theorem size_of_content (h : ∀ declared, head.headers.contentLength? = some declared → declared ≤ limit)
    (content : Bytes) : head.size limit content = content.length := by
  unfold size
  split
  · rename_i declared hdeclared
    exact if_neg (by have := h declared hdeclared; omega)
  · rfl

theorem judged (head : PartHead) (limit : Nat) (content : Bytes) :
    head.Judged limit content (head.refusal? limit content) := by
  unfold refusal?
  by_cases hdeclared : ∃ declared, head.headers.contentLength? = some declared ∧ limit < declared
  · obtain ⟨declared, hdeclared, hlarge⟩ := hdeclared
    rw [size_of_declared hdeclared hlarge, if_pos hlarge]
    exact .declared declared (contentLength?_eq_some_iff.1 hdeclared) hlarge
  · have hsmall : ∀ declared, head.headers.contentLength? = some declared → declared ≤ limit :=
      fun declared hd => Nat.le_of_not_lt fun hlt => hdeclared ⟨declared, hd, hlt⟩
    have hdeclares : ∀ declared, head.Declares declared → declared ≤ limit :=
      fun declared hd => hsmall declared (contentLength?_eq_some_iff.2 hd)
    rw [size_of_content hsmall]
    split
    · exact .large hdeclares ‹_›
    · exact .fits hdeclares (Nat.le_of_not_lt ‹_›)

end PartHead

/-- What `count` reads of a part answer when `rest` is left of it, of which they may hand out at most
`allowance` bytes, and the part is refused with this error if it is too large. -/
structure Answers (allowance : Nat) (refusal? : Option Error) (rest : Bytes) (count : Nat)
    (answers : List (Except Error Bytes)) : Prop where
  length : answers.length = count
  /-- What is handed out comes first in the content. -/
  handed : OpenPart.handedOut answers <+: rest
  bounded : (OpenPart.handedOut answers).length ≤ allowance
  /-- All of it is handed out when it fits. -/
  whole : refusal? = none → rest.length ≤ count → OpenPart.handedOut answers = rest
  /-- The read after that tells the end. -/
  told : refusal? = none → rest.length < count → .ok [] ∈ answers
  /-- The end is told only behind the whole content. -/
  ended : ∀ before after, answers = before ++ .ok [] :: after → (∀ e, .error e ∉ before) →
    OpenPart.handedOut before = rest
  /-- The part is refused when it does not fit, for no other reason and with no other error. -/
  refused : ∀ e, refusal? = some e → allowance < count → .error e ∈ answers
  errors : ∀ e, .error e ∈ answers → refusal? = some e
  /-- Nothing comes after the refusal. -/
  silent : ∀ before e after, answers = before ++ .error e :: after → ∀ a ∈ after, a = .ok []

namespace Answers

open OpenPart

variable {allowance count : Nat} {refusal? : Option Error} {rest bytes : Bytes} {e : Error}
  {later : List (Except Error Bytes)}

theorem handedOut_of_silent (h : ∀ a ∈ later, a = .ok []) : handedOut later = [] := by
  induction later with
  | nil => rfl
  | cons a later ih =>
    obtain rfl := h a List.mem_cons_self
    exact ih fun b hb => h b (List.mem_cons_of_mem _ hb)

/-- No reads. -/
theorem nil (allowance : Nat) (refusal? : Option Error) (rest : Bytes) :
    Answers allowance refusal? rest 0 [] where
  length := rfl
  handed := List.nil_prefix
  bounded := Nat.zero_le _
  whole _ hlen := (List.eq_nil_of_length_eq_zero (Nat.le_zero.1 hlen)).symm
  told _ hlt := absurd hlt (Nat.not_lt_zero _)
  ended before after h _ := by cases before <;> cases h
  refused _ _ hlt := absurd hlt (Nat.not_lt_zero _)
  errors _ h := nomatch h
  silent before _ after h := by cases before <;> cases h

/-- A read that tells the end. -/
theorem atEnd (hlater : ∀ a ∈ later, a = .ok []) (hcount : later.length = count) :
    Answers allowance none [] (count + 1) (.ok [] :: later) := by
  have hnone : ∀ a ∈ (.ok [] :: later : List (Except Error Bytes)), a = .ok [] := by
    rintro a (_ | ⟨_, ha⟩)
    · rfl
    · exact hlater a ha
  have hnil := handedOut_of_silent hnone
  refine {
    length := by rw [List.length_cons, hcount]
    handed := by simp only [hnil, List.nil_prefix]
    bounded := by rw [hnil]; exact Nat.zero_le _
    whole := fun _ _ => hnil
    told := fun _ _ => List.mem_cons_self
    ended := ?_
    refused := fun _ h => nomatch h
    errors := fun e h => nomatch hnone _ h
    silent := ?_ }
  · intro before after h _
    exact handedOut_of_silent fun a ha => hnone a (h ▸ List.mem_append_left _ ha)
  · intro before e after h
    exact nomatch hnone (.error e) (h ▸ List.mem_append_right _ List.mem_cons_self)

/-- A read that refuses the part. -/
theorem refusing (hlater : ∀ a ∈ later, a = .ok []) (hcount : later.length = count) :
    Answers allowance (some e) rest (count + 1) (.error e :: later) := by
  have hnil := handedOut_of_silent hlater
  refine {
    length := by rw [List.length_cons, hcount]
    handed := by rw [handedOut_error, hnil]; exact List.nil_prefix
    bounded := by rw [handedOut_error, hnil]; exact Nat.zero_le _
    whole := fun h => nomatch h
    told := fun h => nomatch h
    ended := ?_
    refused := ?_
    errors := ?_
    silent := ?_ }
  · intro before after h hbefore
    cases before with
    | nil => cases h
    | cons a before =>
      cases h
      exact absurd List.mem_cons_self (hbefore e)
  · rintro e' ⟨⟩ -
    exact List.mem_cons_self
  · rintro e' (_ | ⟨_, he'⟩)
    · rfl
    · exact nomatch hlater _ he'
  · intro before e' after h a ha
    cases before with
    | nil =>
      cases h
      exact hlater a ha
    | cons b before =>
      cases h
      exact nomatch hlater (.error e') (List.mem_append_right _ List.mem_cons_self)

/-- A read that hands out the front of what is left, before reads of the rest. -/
theorem chunk (hne : bytes ≠ []) (hle : bytes.length ≤ allowance)
    (h : Answers (allowance - bytes.length) refusal? rest count later) :
    Answers allowance refusal? (bytes ++ rest) (count + 1) (.ok bytes :: later) := by
  have hpos : 0 < bytes.length := List.length_pos_iff.2 hne
  refine {
    length := by rw [List.length_cons, h.length]
    handed := by
      rw [handedOut_ok]
      exact List.prefix_append_right_inj _ |>.2 h.handed
    bounded := ?_
    whole := ?_
    told := ?_
    ended := ?_
    refused := ?_
    errors := ?_
    silent := ?_ }
  · have := h.bounded
    rw [handedOut_ok, List.length_append]
    omega
  · intro hfits hlen
    rw [List.length_append] at hlen
    rw [handedOut_ok, h.whole hfits (by omega)]
  · intro hfits hlt
    rw [List.length_append] at hlt
    exact List.mem_cons_of_mem _ (h.told hfits (by omega))
  · intro before after heq hbefore
    cases before with
    | nil =>
      cases heq
      exact absurd rfl hne
    | cons a before =>
      cases heq
      rw [handedOut_ok, h.ended before after rfl fun e he => hbefore e (List.mem_cons_of_mem _ he)]
  · intro e he hlt
    exact List.mem_cons_of_mem _ (h.refused e he (by omega))
  · rintro e (_ | ⟨_, he⟩)
    exact h.errors e he
  · intro before e after heq
    cases before with
    | nil => cases heq
    | cons a before =>
      cases heq
      exact h.silent before e after rfl

end Answers

/-- What reads of a part answer under a limit on files. -/
structure PartAnswers (limit : Nat) (head : PartHead) (content : Bytes) (rooms : List Nat)
    (answers : List (Except Error Bytes)) : Prop where
  judged : ∃ refusal?, head.Judged limit content refusal? ∧
    Answers limit refusal? content rooms.length answers
  /-- A part that declares a size above the limit is refused by the first read. -/
  declared : ∀ declared, head.Declares declared → limit < declared → rooms ≠ [] →
    answers.head? = some (.error (head.tooLarge limit declared))

/-! ## Reads under the limit -/

namespace OpenPart

/-- Within a part under a limit on files: `rest` is the content left, and what was handed out before
it stayed within the limit. -/
structure Limited (limit : Nat) (rest : Bytes) (p : OpenPart) : Prop where
  reading : p.session.phase = .reading
  limited : p.session.settings.maxFileSize = some limit
  unfinished : p.isFinished = false
  within : p.bytesRead ≤ limit
  /-- A size above the limit is refused before anything is handed out. -/
  undeclared : 0 < p.bytesRead →
    ∀ declared, p.head.headers.contentLength? = some declared → declared ≤ limit
  ahead : rest <+: p.session.window.pending
  ends : ∃ w, p.session.window.discard = (.ok rest.length, w)

namespace Limited

variable {limit room : Nat} {rest : Bytes} {p : OpenPart}

theorem declaredAbove?_cases (h : p.Limited limit rest) :
    (∃ declared, p.declaredAbove? = some (limit, declared) ∧ p.bytesRead = 0 ∧
      p.head.headers.contentLength? = some declared ∧ limit < declared) ∨
    (p.declaredAbove? = none ∧
      ∀ declared, p.head.headers.contentLength? = some declared → declared ≤ limit) := by
  unfold declaredAbove?
  rw [h.limited]
  rcases hd : p.head.headers.contentLength? with _ | declared
  · exact .inr ⟨rfl, nofun⟩
  · by_cases habove : p.bytesRead = 0 ∧ limit < declared
    · exact .inl ⟨declared, if_pos habove, habove.1, rfl, habove.2⟩
    · refine .inr ⟨if_neg habove, ?_⟩
      rintro _ ⟨⟩
      have hundeclared := fun hpos => h.undeclared hpos declared hd
      omega

/-- What one read with room does: it refuses the part, or tells its end, or hands out some of what
is left. -/
theorem read_cases (h : p.Limited limit rest) (hroom : 0 < room) {content : Bytes}
    (hcontent : content.length = p.bytesRead + rest.length) :
    (∃ e q, p.read room = (.error e, q) ∧ q.Spent ∧ p.head.refusal? limit content = some e) ∨
    (∃ q, p.read room = (.ok [], q) ∧ q.Spent ∧ rest = [] ∧ p.head.refusal? limit content = none) ∨
    (∃ bytes rest' q, p.read room = (.ok bytes, q) ∧ bytes ≠ [] ∧ rest = bytes ++ rest' ∧
      q.Limited limit rest' ∧ q.bytesRead = p.bytesRead + bytes.length ∧ q.head = p.head) := by
  have hlive : p.session.phase ≠ .failed := by
    rw [h.reading]
    nofun
  have hread := read_unfinished hlive h.unfinished room
  obtain ⟨v, hd⟩ := h.ends
  obtain ⟨declared, habove, -, hdeclared, hlarge⟩ | ⟨habove, hundeclared⟩ := h.declaredAbove?_cases
  · rw [habove] at hread
    refine .inl ⟨_, _, hread.trans (refuseSize_of_discard hd _ _), ⟨rfl, hlive⟩, ?_⟩
    unfold PartHead.refusal?
    rw [PartHead.size_of_declared hdeclared hlarge, if_pos hlarge]
    rfl
  · rw [habove] at hread
    have hsize := PartHead.size_of_content hundeclared content
    obtain ⟨bytes, w, ht, hlen, hnil, hd'⟩ := Window.take_of_discard hd hroom
    -- what is handed out is the front of what was left
    obtain ⟨rest', rfl⟩ : bytes <+: rest := by
      refine List.prefix_of_prefix_length_le ?_ h.ahead hlen
      exact ⟨w.pending, (Window.take_ok ht).symm⟩
    have hahead : rest' <+: w.pending := by
      have := h.ahead
      rw [Window.take_ok ht] at this
      exact (List.prefix_append_right_inj _).1 this
    rw [List.length_append] at hcontent hd'
    rw [Nat.add_sub_cancel_left] at hd'
    by_cases hb : bytes = []
    · subst hb
      have hrest : rest' = [] := List.eq_nil_of_length_eq_zero (hnil rfl)
      subst hrest
      refine .inr (.inl ⟨_, hread.trans (readContent_nil ht), ⟨rfl, hlive⟩, rfl, ?_⟩)
      have := h.within
      unfold PartHead.refusal?
      rw [hsize, if_neg (by simp at hcontent; omega)]
    · rw [readContent, ht] at hread
      simp only [List.isEmpty_iff, if_neg hb, h.limited] at hread
      by_cases hover : limit < p.bytesRead + bytes.length
      · rw [if_pos hover, refuseSize_of_discard hd'] at hread
        refine .inl ⟨_, _, hread, ⟨rfl, hlive⟩, ?_⟩
        unfold PartHead.refusal?
        rw [hsize, if_pos (by omega), hcontent, ← Nat.add_assoc]
        rfl
      · rw [if_neg hover] at hread
        refine .inr (.inr ⟨bytes, rest', _, hread, hb, rfl, ?_, rfl, rfl⟩)
        exact ⟨h.reading, h.limited, h.unfinished, Nat.le_of_not_lt hover, fun _ => hundeclared,
          hahead, v, hd'⟩

/-- A part that declares a size above the limit is refused by the first read. -/
theorem read_declared (h : p.Limited limit rest) {declared : Nat}
    (hdeclared : p.head.headers.contentLength? = some declared) (hlarge : limit < declared)
    (room : Nat) : (p.read room).1 = .error (p.head.tooLarge limit declared) := by
  have hread : p.read room = p.refuseSize limit fun _ => declared := by
    obtain ⟨_, habove, -, hd, -⟩ | ⟨-, hundeclared⟩ := h.declaredAbove?_cases
    · rw [read_unfinished (by rw [h.reading]; nofun) h.unfinished, habove]
      cases hd.symm.trans hdeclared
      rfl
    · exact absurd (hundeclared declared hdeclared) (Nat.not_le.2 hlarge)
  obtain ⟨w, hd⟩ := h.ends
  rw [hread, refuseSize_of_discard hd]
  rfl

/-- By induction on the reads: each leaves less of the content and of the allowance, until one tells
the end or refuses the part. However far they come, the rest of the part is left to be passed. -/
theorem readAll_answers (h : p.Limited limit rest) {content : Bytes}
    (hcontent : content.length = p.bytesRead + rest.length) {rooms : List Nat}
    (hrooms : ∀ room ∈ rooms, 0 < room) :
    Answers (limit - p.bytesRead) (p.head.refusal? limit content) rest rooms.length
        (p.readAll rooms).1 ∧
      p.session.Leaves (p.readAll rooms).2.session := by
  induction rooms generalizing p rest with
  | nil => exact ⟨.nil _ _ _, .refl _⟩
  | cons room rooms ih =>
    have hout := read_outcome h.reading room
    have hsilent : ∀ a ∈ rooms.map fun _ => (.ok [] : Except Error Bytes), a = .ok [] := by
      intro a ha
      obtain ⟨_, -, rfl⟩ := List.mem_map.1 ha
      rfl
    obtain ⟨e, q, hr, hspent, hrefused⟩ | ⟨q, hr, hspent, rfl, hfits⟩ |
      ⟨bytes, rest', q, hr, hne, rfl, hq, hcount, hhead⟩ :=
        h.read_cases (hrooms room List.mem_cons_self) hcontent
    · rw [readAll_cons hr, hspent.readAll, hrefused]
      rw [hr] at hout
      refine ⟨.refusing hsilent (List.length_map _), ?_⟩
      obtain ⟨-, w, hw⟩ | ⟨-, hleaves⟩ := hout
      · obtain ⟨v, hd⟩ := h.ends
        cases (Window.settle_of_discard hd).symm.trans hw
      · exact hleaves
    · rw [readAll_cons hr, hspent.readAll, hfits]
      rw [hr] at hout
      exact ⟨.atEnd hsilent (List.length_map _), hout⟩
    · rw [List.length_append] at hcontent
      obtain ⟨hanswers, hleaves⟩ := ih hq (by omega) fun r hr => hrooms r (List.mem_cons_of_mem _ hr)
      rw [hcount, hhead, Nat.sub_add_eq] at hanswers
      have hle : bytes.length ≤ limit - p.bytesRead := by
        have := hq.within
        omega
      rw [readAll_cons hr]
      rw [hr] at hout
      exact ⟨.chunk hne hle hanswers, Session.Leaves.trans hout hleaves⟩

theorem readAll_partAnswers {content : Bytes} (h : p.Limited limit content)
    (hunread : p.bytesRead = 0) {rooms : List Nat} (hrooms : ∀ room ∈ rooms, 0 < room) :
    PartAnswers limit p.head content rooms (p.readAll rooms).1 ∧
      p.session.Leaves (p.readAll rooms).2.session := by
  obtain ⟨hanswers, hleaves⟩ := h.readAll_answers (by rw [hunread, Nat.zero_add]) hrooms
  rw [hunread] at hanswers
  refine ⟨⟨⟨_, p.head.judged limit content, hanswers⟩, ?_⟩, hleaves⟩
  intro declared hdeclared hlarge hne
  cases rooms with
  | nil => exact absurd rfl hne
  | cons room rooms =>
    exact congrArg some
      (h.read_declared (PartHead.contentLength?_eq_some_iff.2 hdeclared) hlarge room)

end Limited

/-! ## Reads without the limit -/

namespace Unlimited

variable {p p' : OpenPart} {rooms : Nat → Nat} {count : Nat} {content : Bytes}

/-- A part that was read to its end had its content ahead, up to the next delimiter, and is passed
then. -/
theorem drain_discard (h : p.Unlimited) (hrooms : ∀ i, 0 < rooms i)
    (hd : p.drain rooms count = ((content, none), p')) :
    content <+: p.session.window.pending ∧
      (∃ w, p.session.window.discard = (.ok content.length, w)) ∧
      p.session.Leaves p'.session := by
  fun_induction drain rooms count p generalizing content with
  | case1 => cases hd
  | case2 count p p'' hr =>
    cases hd
    rcases ht : p.session.window.take (rooms count) with ⟨e | _ | ⟨b, bytes⟩, w⟩
    · cases hr.symm.trans (h.read_error ht)
    · cases hr.symm.trans (h.read_nil ht)
      obtain ⟨v, hv⟩ := Window.settle_of_take_nil ht (hrooms count)
      obtain ⟨n, hn⟩ := Window.discard_of_settle ((Window.take_settle ht).symm.trans hv)
      obtain ⟨bytes, w', ht', -, hnil, -⟩ := Window.take_of_discard hn (hrooms count)
      cases ht.symm.trans ht'
      obtain rfl := hnil rfl
      exact ⟨List.nil_prefix, ⟨v, hn⟩, _, rfl, Window.take_settle ht⟩
    · cases hr.symm.trans (h.read_cons ht)
  | case3 count p b bytes p1 hr _ rest failure p2 hd' ih =>
    cases hd
    rcases ht : p.session.window.take (rooms count) with ⟨e | _ | ⟨b', bytes'⟩, w⟩
    · cases hr.symm.trans (h.read_error ht)
    · cases hr.symm.trans (h.read_nil ht)
    · cases hr.symm.trans (h.read_cons ht)
      obtain ⟨hahead, ⟨v, hv⟩, hleaves⟩ := ih (h.read_ok w _) hd'
      have hsettle := (Window.take_settle ht).symm.trans (Window.settle_of_discard hv)
      obtain ⟨n, hn⟩ := Window.discard_of_settle hsettle
      obtain ⟨_, w', ht', hle, -, hv'⟩ := Window.take_of_discard hn (hrooms count)
      cases ht.symm.trans ht'
      have hlen : rest.length = n - (b :: bytes).length :=
        Except.ok.inj (congrArg Prod.fst (hv.symm.trans hv'))
      refine ⟨?_, ⟨v, ?_⟩, Session.Leaves.trans ⟨w, rfl, Window.take_settle ht⟩ hleaves⟩
      · rw [Window.take_ok ht]
        exact (List.prefix_append_right_inj _).2 hahead
      · rw [hn, List.length_append, hlen]
        congr 2
        omega

end Unlimited

end OpenPart

/-! ## From part to part, reading as the caller likes -/

/-- The part under this limit on files. -/
def OpenPart.withFileLimit (limit : Option Nat) (p : OpenPart) : OpenPart :=
  { p with session := p.session.withFileLimit limit }

namespace Session

variable {s t : Session} {limit : Nat}

theorem nextPart_withFileLimit (limit : Option Nat) (s : Session) :
    (s.withFileLimit limit).nextPart = match s.nextPart with
      | .error (e, s') => .error (e, s'.withFileLimit limit)
      | .ok p => .ok (p.withFileLimit limit) := by
  unfold nextPart
  rw [hasNext_withFileLimit]
  rcases s.hasNext with ⟨e | _ | _, s'⟩
  · rfl
  · rfl
  · simp only [withFileLimit_phase]
    rcases s'.phase with _ | head | _ | _ | _ <;> rfl

theorem Leaves.withFileLimit (h : s.Leaves t) (limit : Option Nat) :
    (s.withFileLimit limit).Leaves (t.withFileLimit limit) := by
  obtain ⟨w, rfl, hw⟩ := h
  exact ⟨w, rfl, hw⟩

theorem nextPart_unlimited {p : OpenPart} (h : s.nextPart = .ok p)
    (hs : s.settings.maxFileSize = none) : p.Unlimited := by
  refine ⟨nextPart_reading h, (nextPart_unread h).2, ?_⟩
  have hsame : s.withFileLimit none = s := by
    unfold withFileLimit
    rw [← hs]
  have hnext := nextPart_withFileLimit none s
  rw [hsame, h] at hnext
  exact congrArg (·.session.settings.maxFileSize) (Except.ok.inj hnext)

/-- Every part from here on, with what its reads answer, those of part number `n` having room for the
numbers of bytes `rooms n` lists; and the error in place of a further part. Parts are counted from
`count` on. -/
def answersFrom (rooms : Nat → List Nat) (count : Nat) (s : Session) :
    List (PartHead × List (Except Error Bytes)) × Error :=
  match h : s.nextPart with
  | .error (e, _) => ([], e)
  | .ok p =>
    have : (p.readAll (rooms count)).2.session.left < s.left :=
      Nat.lt_of_le_of_lt (p.left_readAll_le _) (nextPart_left_lt h)
    let (rows, e) := (p.readAll (rooms count)).2.session.answersFrom rooms (count + 1)
    ((p.head, (p.readAll (rooms count)).1) :: rows, e)
termination_by s.left

theorem answersFrom_error {rooms : Nat → List Nat} {count : Nat} {e : Error} {s' : Session}
    (h : s.nextPart = .error (e, s')) : s.answersFrom rooms count = ([], e) := by
  rw [answersFrom]
  split
  · rename_i h'
    cases h.symm.trans h'
    rfl
  · rename_i h'
    cases h.symm.trans h'

theorem answersFrom_part {rooms : Nat → List Nat} {count : Nat} {p : OpenPart}
    (h : s.nextPart = .ok p) :
    s.answersFrom rooms count =
      ((p.head, (p.readAll (rooms count)).1) ::
          ((p.readAll (rooms count)).2.session.answersFrom rooms (count + 1)).1,
        ((p.readAll (rooms count)).2.session.answersFrom rooms (count + 1)).2) := by
  rw [answersFrom]
  split
  · rename_i h'
    cases h.symm.trans h'
  · rename_i h'
    cases h.symm.trans h'
    rfl

/-- By induction on the transcript without the limit: the session under it goes through the same
parts, since what is left of each is passed whatever was read of it. -/
theorem answersFrom_eq (limit : Nat) {rooms₀ : Nat → Nat → Nat} (hrooms₀ : ∀ n i, 0 < rooms₀ n i)
    {rooms : Nat → List Nat} (hrooms : ∀ n, ∀ room ∈ rooms n, 0 < room) (count : Nat)
    (hs : s.settings.maxFileSize = none) (hnext : t.hasNext = (s.withFileLimit limit).hasNext)
    (hend : (s.transcriptFrom rooms₀ count).2.phase = .exhausted) :
    ∃ rows, t.answersFrom rooms count = (rows, .exhausted) ∧
      rows.map Prod.fst = (s.transcriptFrom rooms₀ count).1.parts.map Prod.fst ∧
      ∀ n head content, (s.transcriptFrom rooms₀ count).1.parts[n]? = some (head, content) →
        ∃ answers, rows[n]? = some (head, answers) ∧
          PartAnswers limit head content (rooms (count + n)) answers := by
  have hpart := (nextPart_eq_of_hasNext hnext).trans (nextPart_withFileLimit limit s)
  fun_induction transcriptFrom rooms₀ count s generalizing t with
  | case1 count s e s' h =>
    rw [h] at hpart
    obtain ⟨-, -, rfl⟩ | ⟨-, hne⟩ := nextPart_error_cases h
    · refine ⟨[], answersFrom_error hpart, rfl, fun n head content hget => ?_⟩
      cases hget
    · exact absurd hend hne
  | case2 count s p h content e p' hd => exact absurd hend (phase_of_broken h hd)
  | case3 count s p h content p' hd _ tr s' ht ih =>
    rw [h] at hpart
    have hfree := nextPart_unlimited h hs
    obtain ⟨hahead, hdiscard, hleft⟩ := hfree.drain_discard (hrooms₀ count) hd
    have hlimited : (p.withFileLimit limit).Limited limit content :=
      { reading := hfree.reading
        limited := rfl
        unfinished := hfree.unfinished
        within := (nextPart_unread h).1 ▸ Nat.zero_le _
        undeclared := fun hpos => absurd (nextPart_unread h).1 (Nat.ne_of_gt hpos)
        ahead := hahead
        ends := hdiscard }
    obtain ⟨hanswers, hleaves⟩ :=
      hlimited.readAll_partAnswers (nextPart_unread h).1 (hrooms count)
    have hnext' := (hleaves.hasNext_eq hfree.reading).trans
      ((hleft.withFileLimit limit).hasNext_eq hfree.reading).symm
    rw [ht] at ih
    obtain ⟨rows, hrows, hheads, hall⟩ := ih (hleft.settings_eq ▸ hfree.unlimited) hnext' hend
      ((nextPart_eq_of_hasNext hnext').trans (nextPart_withFileLimit limit _))
    refine ⟨(p.head, ((p.withFileLimit limit).readAll (rooms count)).1) :: rows, ?_, ?_, ?_⟩
    · rw [answersFrom_part hpart, hrows]
      rfl
    · exact congrArg (p.head :: ·) hheads
    · intro n head content' hn
      cases n with
      | zero =>
        cases hn
        exact ⟨_, rfl, hanswers⟩
      | succ n =>
        obtain ⟨answers, hrow, hunder⟩ := hall n head content' hn
        rw [Nat.add_right_comm] at hunder
        exact ⟨answers, hrow, hunder⟩

theorem open?_withFileLimit (source : Source) (boundary : Bytes) (settings : Settings)
    (limit : Option Nat) :
    open? source boundary { settings with maxFileSize := limit } =
      (open? source boundary settings).map (·.withFileLimit limit) := by
  unfold open?
  rcases Account.open? source.declared settings.maxRequestSize settings.maxParts
    settings.listening with e | account
  · rfl
  · simp only [bind, Except.bind]
    rcases Window.open? { source, account } boundary settings.windowSize with e | window <;> rfl

theorem open?_settings {source : Source} {boundary : Bytes} {settings : Settings}
    (h : open? source boundary settings = .ok s) : s.settings = settings := by
  unfold open? at h
  rcases ha : Account.open? source.declared settings.maxRequestSize settings.maxParts
    settings.listening with e | account
  · rw [ha] at h
    cases h
  · rw [ha] at h
    simp only [bind, Except.bind] at h
    rcases hw : Window.open? { source, account } boundary settings.windowSize with e | window
    · rw [hw] at h
      cases h
    · rw [hw] at h
      cases h
      rfl

end Session

/-- A limit on files, set on a session whose body decodes to its end without it: the same parts follow one
another, and of each the reads with room hand out its content as far as the limit allows, and refuse
it if it is larger, or says to be. -/
theorem fileLimit_answers {source : Source} {boundary : Bytes} {settings : Settings}
    (hunlimited : settings.maxFileSize = none) {s : Session}
    (hopen : Session.open? source boundary settings = .ok s) {rooms₀ : Nat → Nat → Nat}
    (hrooms₀ : ∀ n i, 0 < rooms₀ n i) {t : Transcript} {s' : Session}
    (hdecodes : s.transcriptFrom rooms₀ 0 = (t, s')) (hend : s'.phase = .exhausted) (limit : Nat)
    {rooms : Nat → List Nat} (hrooms : ∀ n, ∀ room ∈ rooms n, 0 < room) :
    ∃ u rows, Session.open? source boundary { settings with maxFileSize := some limit } = .ok u ∧
      u.answersFrom rooms 0 = (rows, .exhausted) ∧ rows.map Prod.fst = t.parts.map Prod.fst ∧
      ∀ n head content, t.parts[n]? = some (head, content) →
        ∃ answers, rows[n]? = some (head, answers) ∧
          PartAnswers limit head content (rooms n) answers := by
  have hs : s.settings.maxFileSize = none := by rw [Session.open?_settings hopen, hunlimited]
  obtain ⟨rows, hrows, hheads, hall⟩ := Session.answersFrom_eq limit hrooms₀ hrooms 0 hs rfl
    (by rw [hdecodes]; exact hend)
  rw [hdecodes] at hheads hall
  refine ⟨s.withFileLimit limit, rows, ?_, hrows, hheads, ?_⟩
  · rw [Session.open?_withFileLimit, hopen]
    rfl
  · intro n head content hn
    obtain ⟨answers, hrow, hanswers⟩ := hall n head content hn
    rw [Nat.zero_add] at hanswers
    exact ⟨answers, hrow, hanswers⟩

/-- A body with three parts: one of three bytes, one of seven, and one of a single byte that declares
nine. -/
def threeSizes : Source where
  transport := {
    segments := [
      .data (Utf8.encode "--B\r\n\r\nabc\r\n--B\r\nContent-Disposition: form-data; name=f; filename=g"),
      .data (Utf8.encode "\r\n\r\nabcdefg\r\n--B\r\nContent-Length: 9\r\n\r\nx\r\n--B--")] }

/-- Under a limit of four bytes the second part is refused for its content, and the third for the size that it
declares. -/
theorem fileLimit_answers_threeSizes :
    ∃ s t s' u rows, Session.open? threeSizes [66] {} = .ok s ∧
      s.transcriptFrom (fun _ _ => 8) 0 = (t, s') ∧ s'.phase = .exhausted ∧
      t.parts.map (·.2) = [Utf8.encode "abc", Utf8.encode "abcdefg", Utf8.encode "x"] ∧
      t.parts.map (·.1.headers.get? "Content-Length") = [none, none, some "9"] ∧
      Session.open? threeSizes [66] { maxFileSize := some 4 } = .ok u ∧
      u.answersFrom (fun _ => [2, 2, 2, 2]) 0 = (rows, .exhausted) ∧
      rows.map Prod.fst = t.parts.map Prod.fst ∧
      rows.map Prod.snd = [
        [.ok (Utf8.encode "ab"), .ok (Utf8.encode "c"), .ok [], .ok []],
        [.ok (Utf8.encode "ab"), .ok (Utf8.encode "cd"), .error (.fileSize (some "f") (some "g") 4 7), .ok []],
        [.error (.fileSize none none 4 9), .ok [], .ok [], .ok []]] ∧
      ∀ (n : Nat) (head : PartHead) (content : Bytes), t.parts[n]? = some (head, content) →
        ∃ answers, rows[n]? = some (head, answers) ∧
          PartAnswers 4 head content [2, 2, 2, 2] answers := by
  obtain ⟨s, hs⟩ : ∃ s, Session.open? threeSizes [66] {} = .ok s := ⟨_, rfl⟩
  obtain ⟨t, s', ht⟩ : ∃ t s', s.transcriptFrom (fun _ _ => 8) 0 = (t, s') := ⟨_, _, rfl⟩
  have hend : s'.phase = .exhausted := by
    rw [show s' = (s.transcriptFrom (fun _ _ => 8) 0).2 by rw [ht]]
    cases hs
    decide +kernel
  have hparts : t.parts.map (·.2) = [Utf8.encode "abc", Utf8.encode "abcdefg", Utf8.encode "x"] ∧
      t.parts.map (·.1.headers.get? "Content-Length") = [none, none, some "9"] := by
    rw [show t = (s.transcriptFrom (fun _ _ => 8) 0).1 by rw [ht]]
    cases hs
    decide +kernel
  have hrooms : ∀ n : Nat, ∀ room ∈ (fun _ => [2, 2, 2, 2] : Nat → List Nat) n, 0 < room := by
    intro _
    show ∀ room ∈ [2, 2, 2, 2], 0 < room
    decide
  obtain ⟨u, rows, hopen, hrows, hheads, hall⟩ :=
    fileLimit_answers rfl hs (fun _ _ => by decide) ht hend 4 hrooms
  have hanswers : rows.map Prod.snd = [
      [.ok (Utf8.encode "ab"), .ok (Utf8.encode "c"), .ok [], .ok []],
      [.ok (Utf8.encode "ab"), .ok (Utf8.encode "cd"), .error (.fileSize (some "f") (some "g") 4 7), .ok []],
      [.error (.fileSize none none 4 9), .ok [], .ok [], .ok []]] := by
    rw [show rows = (u.answersFrom (fun _ => [2, 2, 2, 2]) 0).1 by rw [hrows]]
    cases hopen
    decide +kernel
  exact ⟨s, t, s', u, rows, hs, ht, hend, hparts.1, hparts.2, hopen, hrows, hheads, hanswers, hall⟩

end FormData
