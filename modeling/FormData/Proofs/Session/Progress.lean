/-
Progress over a whole session. A part is counted when a search locates it, and nothing else counts one,
so the count is that of the parts handed out, of one that is located, and of one that was one too many
(`Standing.act_tallied`). A search comes to a part, or refuses it as one too many, exactly if the
delimiters ahead lead to one (`Session.finds_iff`).
-/
import FormData.Proofs.Body.Progress
import FormData.Proofs.Session.Latch
import FormData.Proofs.Session.Provenance
import FormData.Proofs.Session.Transcript

namespace FormData

namespace Session

variable {source : Source} {settings : Settings} {n : Nat} {s t : Session}

/-! ## Counting -/

/-- A part that is located and not handed out. -/
def located (s : Session) : Nat :=
  match s.phase with
  | .located _ => 1
  | _ => 0

/-- There is one part more than the limit allows. -/
structure Surplus (source : Source) (settings : Settings) (n : Nat) (e : Error) (s : Session) : Prop where
  logged : ∃ log, s.window.feed.Logged source settings log
  parts : s.window.parts = n + 1
  maxParts : settings.maxParts = some n
  error : e = .partCount n

/-- Its source does not tell of too many parts, only the session itself does. -/
def CountsAlone (s : Session) : Prop :=
  ∀ limit, .partCount limit ∉ s.window.failures

theorem CountsAlone.moves (h : s.CountsAlone) (hm : s.Moves t) : t.CountsAlone :=
  fun limit he => h limit (hm.failures he)

/-- `n` parts were counted so far, and none is located. -/
structure Between (source : Source) (settings : Settings) (n : Nat) (s : Session) : Prop where
  tallied : s.window.Tallied source settings
  parts : s.window.parts = n
  apart : s.located = 0
  alone : s.CountsAlone

/-- How a search leaves a session of which `n` parts were counted before. -/
def Counts (source : Source) (settings : Settings) (n : Nat) : Except Error Bool × Session → Prop
  | (.ok more, s) => s.window.Tallied source settings ∧ s.window.parts = n + more.toNat
  | (.error e, s) => (s.Between source settings n ∧ ∀ limit, e ≠ .partCount limit) ∨
      (s.located = 0 ∧ s.Surplus source settings n e)

/-- The same for one delimiter. -/
def TurnCounts (source : Source) (settings : Settings) (n : Nat) : Turn × Session → Prop
  | (.again, s) => s.Between source settings n
  | (.stop r, s) => Counts source settings n (r, s)

theorem Between.scans (h : s.Between source settings n) {w : Window} (hs : s.window.Scans w)
    (preamble : Bool) (enclosing : Option String) :
    ({ s with window := w, preamble, enclosing } : Session).Between source settings n := by
  obtain ⟨htallied, hparts⟩ := h.tallied.scans hs
  exact ⟨htallied, hparts.trans h.parts, h.apart, h.alone.moves hs.advances.moves⟩

/-- Looking for another boundary counts nothing. -/
theorem Between.looking (h : s.Between source settings n) (boundary : Bytes) (enclosing : Option String)
    (preamble : Bool) :
    ({ s with window := { s.window with boundary }, enclosing, preamble } : Session).Between
      source settings n :=
  ⟨h.tallied, h.parts, h.apart, h.alone⟩

/-- The error of a scan is not that of too many parts. -/
theorem CountsAlone.scan_error_ne (h : s.CountsAlone) {α : Type} {w : Window} {e : Error}
    (hs : s.window.Scanned ((.error e, w) : Except Error α × Window)) (limit : Nat) : e ≠ .partCount limit := by
  rintro rfl
  obtain hraised | hscan := hs.cause _ rfl
  · exact h limit hraised
  · exact hscan

/-- An operation that fails counts nothing. -/
theorem Between.failed (h : s.Between source settings n) {α : Type} {w : Window} {e : Error}
    (hs : s.window.Scanned ((.error e, w) : Except Error α × Window)) (preamble : Bool)
    (enclosing : Option String) :
    Counts source settings n (.error e, { s with window := w, preamble, enclosing }) :=
  .inl ⟨h.scans hs.scans preamble enclosing, h.alone.scan_error_ne hs⟩

theorem leaveBody_counts (h : s.Between source settings n) : TurnCounts source settings n s.leaveBody := by
  unfold leaveBody
  split
  · exact ⟨h.tallied, h.parts⟩
  · obtain hset | ⟨fault, hset⟩ := s.window.setBoundary_cases s.boundary
    · have hback := h.looking s.boundary none s.preamble
      have hd := ({ s.window with boundary := s.boundary } : Window).discard_scanned
      simp only [hset]
      rcases hw : ({ s.window with boundary := s.boundary } : Window).discard with ⟨e | count, w⟩ <;>
        rw [hw] at hd
      · exact hback.failed hd s.preamble none
      · exact hback.scans hd.scans s.preamble none
    · simp only [hset]
      exact .inl ⟨⟨h.tallied, h.parts, h.apart, h.alone⟩, nofun⟩

/-- A part is counted that is handed out, and none that is passed. -/
theorem locatePart_counts (h : s.Between source settings n) (hu : s.Unspent) (headers : Headers) :
    TurnCounts source settings n (s.locatePart headers) := by
  unfold locatePart
  simp only
  split
  · have hd := s.window.discard_scanned
    rcases hw : s.window.discard with ⟨e | count, w⟩ <;> rw [hw] at hd
    · exact h.failed hd s.preamble s.enclosing
    · exact h.scans hd.scans s.preamble s.enclosing
  · obtain ⟨account, hc, htallied, hparts, -⟩ | ⟨limit, account, log, hc, hlog, hparts, hm, hn⟩ :=
      Feed.Tallied.countPart h.tallied hu
    · simp only [hc]
      exact ⟨htallied, hparts.trans (congrArg (· + 1) h.parts)⟩
    · simp only [hc]
      have hlimit : limit = n := hn.symm.trans h.parts
      subst hlimit
      exact .inr ⟨h.apart, ⟨log, hlog⟩, hparts.trans (congrArg (· + 1) h.parts), hm, rfl⟩

theorem enterPart_counts (h : s.Between source settings n) (hu : s.Unspent) (headers : Headers) :
    TurnCounts source settings n (s.enterPart headers) := by
  unfold enterPart
  split
  · rename_i e hset
    split at hset
    · obtain ⟨field, rfl⟩ := setOf_error_eq hset
      exact .inl ⟨h, nofun⟩
    · cases hset
  · rename_i field boundary _
    obtain hset | ⟨fault, hset⟩ := s.window.setBoundary_cases boundary
    · simp only [hset]
      exact h.looking boundary (some field) true
    · simp only [hset]
      exact .inl ⟨h, nofun⟩
  · exact locatePart_counts h hu headers

theorem openPart_counts (h : s.Between source settings n) (hu : s.Unspent) :
    TurnCounts source settings n s.openPart := by
  have hread := s.window.readHeaderBlock_scanned s.settings.maxHeaderSize
  have htells := Window.readHeaderBlock_tells hu s.settings.maxHeaderSize
  unfold openPart
  rcases hr : s.window.readHeaderBlock s.settings.maxHeaderSize with ⟨e | block, w⟩ <;>
    rw [hr] at hread htells
  · exact h.failed hread s.preamble s.enclosing
  · exact enterPart_counts (h.scans hread.scans s.preamble s.enclosing) (htells.overrun_eq.trans hu) _

theorem turn_counts (h : s.Between source settings n) (hu : s.Unspent) :
    TurnCounts source settings n s.turn := by
  have hnext := s.nextDelimiter_scanned
  have htells : s.window.Tells s.nextDelimiter := by
    unfold nextDelimiter
    split
    · exact Window.findFirst_tells hu
    · exact Window.readDelimiter_tells hu
  unfold turn
  rcases hn : s.nextDelimiter with ⟨e | _ | _, w⟩ <;> rw [hn] at hnext htells
  · exact h.failed hnext false s.enclosing
  · exact leaveBody_counts (h.scans hnext.scans false s.enclosing)
  · exact openPart_counts (h.scans hnext.scans false s.enclosing) (htells.overrun_eq.trans hu)

/-- By induction on the delimiters. -/
theorem locate_counts (h : s.Between source settings n) (hu : s.Unspent) :
    Counts source settings n s.locate := by
  have hturn := turn_counts h hu
  have htells := turn_tells hu
  fun_induction locate s with
  | case1 s r s' ht => rwa [ht] at hturn
  | case2 s s' ht _ ih =>
    rw [ht] at hturn htells
    exact ih hturn htells (turn_counts hturn htells) (turn_tells htells)

theorem advance_counts (h : s.Between source settings n) (hu : s.Unspent) :
    Counts source settings n s.advance := by
  unfold advance
  split
  · have hd := s.window.discard_scanned
    have htells := s.window.discard_tells
    rcases hw : s.window.discard with ⟨e | count, w⟩ <;> rw [hw] at hd htells
    · exact h.failed hd s.preamble s.enclosing
    · exact locate_counts (h.scans hd.scans s.preamble s.enclosing) (htells.overrun_eq.trans hu)
  · exact locate_counts h hu

/-! ## Coming to a part -/

/-- These headers make a part that is handed out: outside of a set those of any part that holds none,
and inside those that carry a file name. -/
def MakesPart (enclosing : Option String) (headers : Headers) : Prop :=
  match enclosing with
  | none => setOf headers = .ok none
  | some _ => headers.rawFileName?.isSome = true

/-- The delimiters ahead lead to a part with these headers. -/
inductive Finds : Session → Headers → Prop
  | here {s : Session} {w v : Window} {block : Bytes} (hd : s.nextDelimiter = (.ok true, w))
    (hb : w.readHeaderBlock s.settings.maxHeaderSize = (.ok block, v))
    (hm : MakesPart s.enclosing (Headers.ofBlock block)) : Finds s (Headers.ofBlock block)
  | further {s t : Session} {headers : Headers} (ht : s.turn = (.again, t)) (h : Finds t headers) :
    Finds s headers

/-- A search came to a part, be it one too many. -/
def Came : Except Error Bool → Prop
  | .ok more => more = true
  | .error e => ∃ limit, e = .partCount limit

theorem came_of_countPart (a : Account) : Came (a.countPart.1.map fun _ => true) := by
  by_cases hroom : a.HasRoom
  · rw [hroom.countPart]
    rfl
  · obtain ⟨limit, hm, hle⟩ := Account.not_hasRoom_iff.1 hroom
    rw [Account.countPart_error hm hle]
    exact ⟨limit, rfl⟩

/-- Such a part is not passed. -/
theorem MakesPart.out {enclosing : Option String} {headers : Headers} (hm : MakesPart enclosing headers) :
    ¬ (enclosing.isSome ∧ headers.rawFileName?.isNone) := by
  rintro ⟨hsome, hnone⟩
  obtain ⟨field, rfl⟩ := Option.isSome_iff_exists.1 hsome
  have hname : headers.rawFileName?.isSome = true := hm
  rw [Option.isNone_iff_eq_none.1 hnone] at hname
  cases hname

theorem MakesPart.locatePart {headers : Headers} (hm : MakesPart s.enclosing headers) :
    ∃ r s', s.locatePart headers = (.stop r, s') ∧ Came r := by
  have hcame := came_of_countPart s.window.feed.account
  unfold Session.locatePart
  simp only [if_neg hm.out]
  rcases hc : s.window.feed.account.countPart with ⟨e | ⟨⟩, account⟩ <;> rw [hc] at hcame
  · exact ⟨_, _, rfl, hcame⟩
  · exact ⟨_, _, rfl, hcame⟩

theorem MakesPart.enterPart {headers : Headers} (hm : MakesPart s.enclosing headers) :
    s.enterPart headers = s.locatePart headers := by
  unfold Session.enterPart
  rcases henc : s.enclosing with _ | field
  · rw [henc] at hm
    have hset : setOf headers = .ok none := hm
    simp only [Option.isNone_none, if_true, hset]
  · simp only [Option.isNone_some, Bool.false_eq_true, if_false]

theorem CountsAlone.not_came (h : s.CountsAlone) {α : Type} {w : Window} {e : Error}
    (hs : s.window.Scanned ((.error e, w) : Except Error α × Window)) : ¬ Came (.error e) := by
  rintro ⟨limit, rfl⟩
  exact h.scan_error_ne hs limit rfl

theorem leaveBody_not_came {r : Except Error Bool} (halone : s.CountsAlone) (h : s.leaveBody = (.stop r, t)) :
    ¬ Came r := by
  unfold leaveBody at h
  split at h
  · cases h
    nofun
  · obtain hset | ⟨fault, hset⟩ := s.window.setBoundary_cases s.boundary
    · have hd := ({ s.window with boundary := s.boundary } : Window).discard_scanned
      simp only [hset] at h
      rcases hw : ({ s.window with boundary := s.boundary } : Window).discard with ⟨e | count, w⟩ <;>
        rw [hw] at h hd
      · cases h
        exact CountsAlone.not_came (s := { s with window := { s.window with boundary := s.boundary } }) halone hd
      · cases h
    · simp only [hset] at h
      cases h
      rintro ⟨limit, hlimit⟩
      cases hlimit

theorem makesPart_of_enterPart {headers : Headers} {r : Except Error Bool} (halone : s.CountsAlone)
    (h : s.enterPart headers = (.stop r, t)) (hr : Came r) : MakesPart s.enclosing headers := by
  unfold enterPart at h
  rcases henc : s.enclosing with _ | field
  · -- outside of a set only a part that holds one is none to hand out
    simp only [henc, Option.isNone_none, if_true] at h
    rcases hset : setOf headers with e | _ | ⟨field, boundary⟩ <;> simp only [hset] at h
    · cases h
      obtain ⟨field, rfl⟩ := setOf_error_eq hset
      obtain ⟨limit, hlimit⟩ := hr
      cases hlimit
    · exact hset
    · obtain hb | ⟨fault, hb⟩ := s.window.setBoundary_cases boundary
      · simp only [hb] at h
        cases h
      · simp only [hb] at h
        cases h
        obtain ⟨limit, hlimit⟩ := hr
        cases hlimit
  · simp only [henc, Option.isNone_some, Bool.false_eq_true, if_false] at h
    show headers.rawFileName?.isSome = true
    rcases hname : headers.rawFileName? with _ | raw
    · unfold locatePart at h
      have hd := s.window.discard_scanned
      simp only [henc, hname, Option.isSome_some, Option.isNone_none, and_self, if_true] at h
      rcases hw : s.window.discard with ⟨e | count, w⟩ <;> rw [hw] at h hd
      · cases h
        exact absurd hr (halone.not_came hd)
      · cases h
    · rfl

/-- A delimiter behind which the search comes to a part is one of a part. -/
theorem finds_of_turn {r : Except Error Bool} (halone : s.CountsAlone) (ht : s.turn = (.stop r, t))
    (hr : Came r) : ∃ headers, s.Finds headers := by
  unfold turn at ht
  have hnext := s.nextDelimiter_scanned
  rcases hn : s.nextDelimiter with ⟨e | _ | _, w⟩ <;> rw [hn] at ht hnext
  · cases ht
    exact absurd hr (halone.not_came hnext)
  · have hbehind : ({ s with window := w, preamble := false } : Session).CountsAlone := halone.moves hnext.moves
    exact absurd hr (leaveBody_not_came hbehind ht)
  · have hbehind : ({ s with window := w, preamble := false } : Session).CountsAlone := halone.moves hnext.moves
    simp only [openPart] at ht
    have hread := w.readHeaderBlock_scanned s.settings.maxHeaderSize
    rcases hb : w.readHeaderBlock s.settings.maxHeaderSize with ⟨e | block, v⟩ <;> rw [hb] at ht hread
    · cases ht
      exact absurd hr (hbehind.not_came hread)
    · have hm := makesPart_of_enterPart (s := { s with window := v, preamble := false })
        (hbehind.moves hread.moves) ht hr
      exact ⟨_, .here hn hb hm⟩

/-- A search comes to a part, be it one too many, exactly if the delimiters ahead lead to one. -/
theorem finds_iff (halone : s.CountsAlone) : (∃ headers, s.Finds headers) ↔ Came s.locate.1 := by
  constructor
  · rintro ⟨headers, h⟩
    clear halone
    induction h with
    | @here s w v block hd hb hm =>
      have hopen : MakesPart ({ s with window := v, preamble := false } : Session).enclosing
        (Headers.ofBlock block) := hm
      obtain ⟨r, s', hr, hcame⟩ := hopen.locatePart
      rw [← hopen.enterPart] at hr
      have hturn : s.turn = (.stop r, s') := by
        unfold turn openPart
        simp only [hd, hb]
        exact hr
      rw [locate_of_stop hturn]
      exact hcame
    | further ht _ ih =>
      rw [locate_of_again ht]
      exact ih
  · fun_induction locate s with
    | case1 s r s' ht => exact finds_of_turn halone ht
    | case2 s s' ht _ ih =>
      intro hcame
      have hm := s.turn_moves
      rw [ht] at hm
      obtain ⟨headers, h⟩ := ih (halone.moves hm) hcame
      exact ⟨headers, .further ht h⟩

/-- The next search comes to a part. -/
def FindsPart (s : Session) : Prop :=
  match s.phase with
  | .start => ∃ headers, s.Finds headers
  | .reading => ∃ count w headers, s.window.discard = (.ok count, w) ∧
      ({ s with window := w } : Session).Finds headers
  | _ => False

/-- A session that goes on to look for a part when asked. -/
def Searching (s : Session) : Prop :=
  s.phase = .start ∨ s.phase = .reading

theorem Searching.hasNext_eq (h : s.Searching) : s.hasNext = s.search := by
  rw [Session.hasNext_eq]
  obtain hphase | hphase := h <;> rw [hphase]

theorem FindsPart.searching (h : s.FindsPart) : s.Searching := by
  unfold FindsPart at h
  split at h
  · rename_i hphase
    exact .inl hphase
  · rename_i hphase
    exact .inr hphase
  · exact h.elim

theorem Searching.came_iff (h : s.Searching) (halone : s.CountsAlone) : Came s.hasNext.1 ↔ s.FindsPart := by
  have hadvance : s.hasNext.1 = s.advance.1 := by
    rw [h.hasNext_eq]
    unfold search
    rcases s.advance with ⟨e | more, s'⟩ <;> rfl
  rw [hadvance]
  unfold FindsPart advance
  obtain hphase | hphase := h
  · simp only [hphase]
    exact (finds_iff halone).symm
  · have hd := s.window.discard_scanned
    simp only [hphase]
    rcases hw : s.window.discard with ⟨e | count, w⟩ <;> rw [hw] at hd
    · simp only
      constructor
      · intro hcame
        exact absurd hcame (halone.not_came hd)
      · rintro ⟨count, w', headers, hok, -⟩
        cases hok
    · have hbehind : ({ s with window := w, phase := .reading } : Session).CountsAlone := halone.moves hd.moves
      simp only
      rw [← finds_iff hbehind]
      constructor
      · rintro ⟨headers, hfinds⟩
        exact ⟨count, w, headers, rfl, hfinds⟩
      · rintro ⟨count', w', headers, hok, hfinds⟩
        cases hok
        exact ⟨headers, hfinds⟩

/-! ## Asking for parts -/

/-- The account of a session is right of which `n` parts were handed out. -/
def Tallied (source : Source) (settings : Settings) (n : Nat) (s : Session) : Prop :=
  s.window.Tallied source settings ∧ s.window.parts = n + s.located

/-- How a session is left by a call that asks for the next part. -/
def Asked (source : Source) (settings : Settings) (n : Nat) : Except Error Bool × Session → Prop
  | (.ok _, s) => s.Tallied source settings n
  | (.error e, s) => (s.Tallied source settings n ∧ ∀ limit, e ≠ .partCount limit) ∨
      (s.phase = .failed ∧ s.Surplus source settings n e)

theorem located_of_phase {phase : Phase} (h : s.phase = phase) (hne : ∀ head, phase ≠ .located head) :
    s.located = 0 := by
  unfold located
  split
  · rename_i head hphase
    exact absurd (h.symm.trans hphase) (hne head)
  · rfl

theorem Searching.located (h : s.Searching) : s.located = 0 := by
  obtain hphase | hphase := h
  · exact located_of_phase hphase nofun
  · exact located_of_phase hphase nofun

theorem Searching.unspent (h : s.Searching) (hs : s.Sound) : s.Unspent := by
  apply hs
  obtain hphase | hphase := h
  · rw [hphase]
    nofun
  · rw [hphase]
    nofun

theorem Answered.located {more : Bool} (h : s.Answered more) : s.located = more.toNat := by
  cases more with
  | true =>
    obtain ⟨head, hphase⟩ := h
    unfold Session.located
    rw [hphase]
    rfl
  | false => exact located_of_phase h nofun

theorem afterError_located (h : s.located = 0) (e : Error) : (s.afterError e).located = 0 := by
  unfold afterError
  split
  · rfl
  · exact h

theorem Searching.asked (hsearching : s.Searching) (h : s.Tallied source settings n) (halone : s.CountsAlone)
    (hs : s.Sound) : Asked source settings n s.hasNext := by
  have hadvance := advance_counts ⟨h.1, by rw [h.2, hsearching.located], hsearching.located, halone⟩
    (hsearching.unspent hs)
  have hanswered := @hasNext_answered s
  rw [hsearching.hasNext_eq] at hanswered ⊢
  unfold search at hanswered ⊢
  rcases ha : s.advance with ⟨e | more, s'⟩ <;> rw [ha] at hadvance hanswered
  · obtain ⟨hbetween, hcause⟩ | ⟨-, hsurplus⟩ := hadvance
    · refine .inl ⟨⟨?_, ?_⟩, hcause⟩
      · rw [afterError_window]
        exact hbetween.tallied
      · rw [afterError_window, afterError_located hbetween.apart]
        exact hbetween.parts
    · obtain ⟨hlogged, hparts, hm, rfl⟩ := hsurplus
      exact .inr ⟨rfl, hlogged, hparts, hm, rfl⟩
  · exact ⟨hadvance.1, hadvance.2.trans (congrArg (n + ·) (hanswered rfl).located.symm)⟩

theorem hasNext_asked (h : s.Tallied source settings n) (halone : s.CountsAlone) (hs : s.Sound) :
    Asked source settings n s.hasNext := by
  have heq := s.hasNext_eq
  cases hphase : s.phase with
  | start => exact Searching.asked (.inl hphase) h halone hs
  | reading => exact Searching.asked (.inr hphase) h halone hs
  | located head =>
    rw [heq, hphase]
    exact h
  | exhausted =>
    rw [heq, hphase]
    exact h
  | failed =>
    rw [heq, hphase]
    exact .inl ⟨h, s.refusal_ne_partCount⟩

theorem searching_of_refused {limit : Nat} (h : s.hasNext.1 = .error (.partCount limit)) :
    s.Searching := by
  rw [s.hasNext_eq] at h
  cases hphase : s.phase <;> rw [hphase] at h
  case start => exact .inl hphase
  case reading => exact .inr hphase
  case failed => exact absurd (Except.error.inj h) (s.refusal_ne_partCount limit)
  all_goals cases h

/-- One part too many is refused exactly if a search comes to a part once the limit is reached. -/
theorem hasNext_refuses_iff (h : s.Tallied source settings n) (halone : s.CountsAlone) (hs : s.Sound)
    (limit : Nat) :
    s.hasNext.1 = .error (.partCount limit) ↔
      settings.maxParts = some limit ∧ n = limit ∧ s.FindsPart := by
  have hasked := hasNext_asked h halone hs
  constructor
  · intro hrefused
    have hsearching := searching_of_refused hrefused
    have hcame : Came s.hasNext.1 := by
      rw [hrefused]
      exact ⟨limit, rfl⟩
    have hfinds := (hsearching.came_iff halone).1 hcame
    rcases hn : s.hasNext with ⟨e | more, s'⟩ <;> rw [hn] at hrefused hasked
    · cases hrefused
      obtain ⟨-, hcause⟩ | ⟨-, hsurplus⟩ := hasked
      · exact absurd rfl (hcause limit)
      · cases hsurplus.error
        exact ⟨hsurplus.maxParts, rfl, hfinds⟩
    · cases hrefused
  · rintro ⟨hm, rfl, hfinds⟩
    have hcame := (hfinds.searching.came_iff halone).2 hfinds
    rcases hn : s.hasNext with ⟨e | more, s'⟩ <;> rw [hn] at hcame hasked
    · obtain ⟨limit, rfl⟩ := hcame
      obtain ⟨-, hcause⟩ | ⟨-, hsurplus⟩ := hasked
      · exact absurd rfl (hcause limit)
      · rw [hsurplus.error]
    · -- a part more than the limit is not counted
      have hmore : more = true := hcame
      subst hmore
      have hwithin : s'.window.parts ≤ n := hasked.1.within n hm
      rw [hasked.2, (hasNext_answered hn).located, Bool.toNat_true] at hwithin
      omega

end Session

/-! ## Calls in any order -/

/-- A part was handed out. -/
def Reply.isHandedOut : Reply → Bool
  | part (.ok _) => true
  | _ => false

/-- A part was refused as one too many. -/
def Reply.isRefused (reply : Reply) : Bool :=
  match reply.answer with
  | .failed (.partCount _) => true
  | _ => false

/-- The parts handed out. -/
def handedOf (replies : List Reply) : Nat :=
  replies.countP Reply.isHandedOut

/-- The parts refused. -/
def refusedOf (replies : List Reply) : Nat :=
  replies.countP Reply.isRefused

theorem handedOf_cons (reply : Reply) (replies : List Reply) :
    handedOf (reply :: replies) = reply.isHandedOut.toNat + handedOf replies := by
  rw [handedOf, List.countP_cons, Nat.add_comm]
  cases reply.isHandedOut <;> rfl

theorem refusedOf_cons (reply : Reply) (replies : List Reply) :
    refusedOf (reply :: replies) = reply.isRefused.toNat + refusedOf replies := by
  rw [refusedOf, List.countP_cons, Nat.add_comm]
  cases reply.isRefused <;> rfl

namespace Standing

/-- So many parts were handed out, and so many refused. The account is right, and no part is at hand
that was not handed out; once a part was refused the session has failed. -/
inductive Tallied (source : Source) (settings : Settings) (handed : Nat) : Nat → Standing → Prop
  | between {s : Session} (h : s.Tallied source settings handed) :
    Tallied source settings handed 0 (.between s)
  | within {p : OpenPart} (h : p.session.Tallied source settings handed)
    (apart : p.session.located = 0) : Tallied source settings handed 0 (.within p)
  | refused {s : Session} {e : Error} (phase : s.phase = .failed)
    (surplus : s.Surplus source settings handed e) : Tallied source settings handed 1 (.between s)

variable {source : Source} {settings : Settings} {handed refused : Nat} {g : Standing}

theorem isRefused_iff (reply : Reply) :
    reply.isRefused = true ↔ ∃ limit, reply.answer = .failed (.partCount limit) := by
  unfold Reply.isRefused
  split
  · rename_i limit hanswer
    constructor
    · intro _
      exact ⟨limit, hanswer⟩
    · intro _
      rfl
  · rename_i hne
    constructor
    · intro hfalse
      cases hfalse
    · rintro ⟨limit, hanswer⟩
      exact absurd hanswer (hne limit)

theorem not_isRefused {reply : Reply} (h : ∀ limit, reply.answer ≠ .failed (.partCount limit)) :
    reply.isRefused = false := by
  rw [← Bool.not_eq_true, isRefused_iff]
  rintro ⟨limit, hanswer⟩
  exact h limit hanswer

theorem answer_ne_of_not_isRefused {reply : Reply} (h : reply.isRefused = false) (limit : Nat) :
    reply.answer ≠ .failed (.partCount limit) := by
  intro hanswer
  rw [(isRefused_iff reply).2 ⟨limit, hanswer⟩] at h
  cases h

/-! ### Asking for a part -/

/-- What a call that asks for a part comes to: an error, an answer without a part, or a part handed
out. -/
theorem ask_cases (g : Standing) {c : Call} (hc : c = .hasNext ∨ c = .nextPart) :
    (∃ e s, g.session.hasNext = (.error e, s) ∧ (g.act c).1.answer = .failed e ∧
      (g.act c).1.isHandedOut = false ∧ (g.act c).2 = .between s) ∨
    (∃ more s, g.session.hasNext = (.ok more, s) ∧ (g.act c).1.isRefused = false ∧
      (g.act c).1.isHandedOut = false ∧ (g.act c).2 = .between s) ∨
    (∃ head s, g.session.hasNext = (.ok true, s) ∧ s.phase = .located head ∧
      (g.act c).1 = .part (.ok head) ∧
      (g.act c).2 = .within { session := { s with phase := .reading }, head }) := by
  have hanswered := @Session.hasNext_answered g.session
  obtain rfl | rfl := hc
  · simp only [act]
    rcases hn : g.session.hasNext with ⟨e | more, s⟩
    · exact .inl ⟨e, s, rfl, rfl, rfl, rfl⟩
    · exact .inr (.inl ⟨more, s, rfl, rfl, rfl, rfl⟩)
  · simp only [act, Session.nextPart]
    rcases hn : g.session.hasNext with ⟨e | _ | _, s⟩ <;> rw [hn] at hanswered
    · exact .inl ⟨e, s, rfl, rfl, rfl, rfl⟩
    · exact .inr (.inl ⟨false, s, rfl, rfl, rfl, rfl⟩)
    · obtain ⟨head, hphase⟩ := hanswered rfl
      simp only [hphase]
      exact .inr (.inr ⟨head, s, rfl, hphase, rfl, rfl⟩)

/-- Asking for the next part keeps the tally. -/
theorem ask_tallied (h : g.session.Tallied source settings handed) (halone : g.session.CountsAlone)
    (hs : g.session.Sound) {c : Call} (hc : c = .hasNext ∨ c = .nextPart) :
    (g.act c).2.Tallied source settings (handed + (g.act c).1.isHandedOut.toNat)
      (g.act c).1.isRefused.toNat := by
  have hasked := Session.hasNext_asked h halone hs
  obtain ⟨e, s, hn, hanswer, hhanded, hstanding⟩ | ⟨more, s, hn, hrefused, hhanded, hstanding⟩ |
    ⟨head, s, hn, hphase, hreply, hstanding⟩ := g.ask_cases hc
  · rw [hn] at hasked
    rw [hstanding, hhanded]
    obtain ⟨htallied, hcause⟩ | ⟨hphase, hsurplus⟩ := hasked
    · have hrefused : (g.act c).1.isRefused = false := by
        apply not_isRefused
        intro limit hlimit
        exact hcause limit (Answer.failed.inj (hanswer.symm.trans hlimit))
      rw [hrefused]
      exact .between htallied
    · have hrefused : (g.act c).1.isRefused = true :=
        (isRefused_iff _).2 ⟨handed, hanswer.trans (congrArg _ hsurplus.error)⟩
      rw [hrefused]
      exact .refused hphase hsurplus
  · rw [hn] at hasked
    rw [hstanding, hhanded, hrefused]
    exact .between hasked
  · -- the part that was located is handed out
    rw [hn] at hasked
    rw [hstanding, hreply]
    have hanswered : s.Answered true := ⟨head, hphase⟩
    have hparts := hasked.2
    rw [hanswered.located] at hparts
    exact .within ⟨hasked.1, hparts⟩ rfl

theorem ask_refuses_iff (h : g.session.Tallied source settings handed) (halone : g.session.CountsAlone)
    (hs : g.session.Sound) {c : Call} (hc : c = .hasNext ∨ c = .nextPart) (limit : Nat) :
    (g.act c).1.answer = .failed (.partCount limit) ↔
      settings.maxParts = some limit ∧ handed = limit ∧ g.session.FindsPart := by
  rw [← Session.hasNext_refuses_iff h halone hs limit]
  obtain ⟨e, s, hn, hanswer, -, -⟩ | ⟨more, s, hn, hrefused, -, -⟩ | ⟨head, s, hn, -, hreply, -⟩ :=
    g.ask_cases hc
  · rw [hn, hanswer, Answer.failed.injEq, Except.error.injEq]
  · rw [hn]
    constructor
    · intro hanswer
      exact absurd hanswer (answer_ne_of_not_isRefused hrefused limit)
    · intro hok
      cases hok
  · rw [hn, hreply]
    constructor
    · intro hanswer
      cases hanswer
    · intro hok
      cases hok

/-! ### Reading in a part -/

/-- Calls on a part refuse none. -/
theorem use_not_isRefused (halone : g.session.CountsAlone) {c : Call} (hc : ¬ (c = .hasNext ∨ c = .nextPart)) :
    (g.act c).1.isRefused = false := by
  apply not_isRefused
  intro limit hanswer
  have hcause : ∀ {α : Type} {p : OpenPart} {x : Except Error α × OpenPart}, p.session.CountsAlone →
      p.Scanned x → Answer.of x.1 ≠ .failed (.partCount limit) := by
    rintro α p ⟨e | a, q⟩ hp hx hfailed
    · exact hp limit (hx.cause limit (congrArg _ (Answer.failed.inj hfailed)))
    · cases hfailed
  cases c with
  | hasNext => exact hc (.inl rfl)
  | nextPart => exact hc (.inr rfl)
  | read room =>
    cases g with
    | between s => cases hanswer
    | within p => exact hcause halone (p.read_scanned room) hanswer
  | skip =>
    cases g with
    | between s => cases hanswer
    | within p => exact hcause halone p.skip_scanned hanswer
  | keep depot =>
    cases g with
    | between s => cases hanswer
    | within p => exact hcause halone (p.keep_scanned depot) hanswer

theorem tallied_of_scanned {α : Type} {p : OpenPart} {x : Except Error α × OpenPart}
    (h : p.session.Tallied source settings handed) (hapart : p.session.located = 0)
    (hx : p.Scanned x) : Standing.Tallied source settings handed 0 (.within x.2) := by
  have hlocated : x.2.session.located = 0 := by
    obtain hsame | hfailed := hx.phase
    · unfold Session.located at hapart ⊢
      rw [hsame]
      exact hapart
    · exact Session.located_of_phase hfailed nofun
  obtain ⟨htallied, hparts⟩ := h.1.scans hx.scans
  refine .within ⟨htallied, ?_⟩ hlocated
  rw [hparts, h.2, hapart, hlocated]

/-- Calls on a part keep the tally. -/
theorem use_tallied {p : OpenPart} (h : p.session.Tallied source settings handed)
    (hapart : p.session.located = 0) {c : Call} (hc : ¬ (c = .hasNext ∨ c = .nextPart)) :
    ((within p).act c).1.isHandedOut = false ∧
      ((within p).act c).2.Tallied source settings handed 0 := by
  cases c with
  | hasNext => exact absurd (.inl rfl) hc
  | nextPart => exact absurd (.inr rfl) hc
  | read room => exact ⟨rfl, tallied_of_scanned h hapart (p.read_scanned room)⟩
  | skip => exact ⟨rfl, tallied_of_scanned h hapart p.skip_scanned⟩
  | keep depot => exact ⟨rfl, tallied_of_scanned h hapart (p.keep_scanned depot)⟩

/-! ### Any call -/

/-- A session that has failed stays as it is, and no part is at hand to read in. -/
theorem act_of_failed {s : Session} (hphase : s.phase = .failed) (c : Call) :
    ((between s).act c).2 = between s ∧ ((between s).act c).1.isHandedOut = false ∧
      ((between s).act c).1.isRefused = false := by
  by_cases hc : c = .hasNext ∨ c = .nextPart
  · have hfailed : s.hasNext = (.error s.refusal, s) := by
      rw [s.hasNext_eq, hphase]
    obtain ⟨e, s', hn, hanswer, hhanded, hstanding⟩ | ⟨_, s', hn, -⟩ | ⟨_, s', hn, -⟩ :=
      (between s).ask_cases hc
    · cases hfailed.symm.trans hn
      refine ⟨hstanding, hhanded, not_isRefused ?_⟩
      intro limit hlimit
      exact s.refusal_ne_partCount limit (Answer.failed.inj (hanswer.symm.trans hlimit))
    · cases hfailed.symm.trans hn
    · cases hfailed.symm.trans hn
  · cases c with
    | hasNext => exact absurd (.inl rfl) hc
    | nextPart => exact absurd (.inr rfl) hc
    | _ => exact ⟨rfl, rfl, rfl⟩

/-- One call keeps the tally. -/
theorem act_tallied (h : g.Tallied source settings handed refused) (halone : g.session.CountsAlone)
    (hs : g.session.Sound) (c : Call) :
    (g.act c).2.Tallied source settings (handed + (g.act c).1.isHandedOut.toNat)
      (refused + (g.act c).1.isRefused.toNat) := by
  by_cases hc : c = .hasNext ∨ c = .nextPart
  · cases h with
    | between h =>
      rw [Nat.zero_add]
      exact ask_tallied h halone hs hc
    | within h hapart =>
      rw [Nat.zero_add]
      exact ask_tallied h halone hs hc
    | refused hphase hsurplus =>
      obtain ⟨hstanding, hhanded, hrefused⟩ := act_of_failed hphase c
      rw [hstanding, hhanded, hrefused]
      exact .refused hphase hsurplus
  · rw [use_not_isRefused halone hc]
    cases h with
    | between h =>
      cases c with
      | hasNext => exact absurd (.inl rfl) hc
      | nextPart => exact absurd (.inr rfl) hc
      | _ => exact .between h
    | within h hapart =>
      obtain ⟨hhanded, htallied⟩ := use_tallied h hapart hc
      rw [hhanded]
      exact htallied
    | refused hphase hsurplus =>
      obtain ⟨hstanding, hhanded, -⟩ := act_of_failed hphase c
      rw [hstanding, hhanded]
      exact .refused hphase hsurplus

/-- By induction on the calls. -/
theorem after_tallied (h : g.Tallied source settings handed refused) (halone : g.session.CountsAlone)
    (hs : g.session.Sound) (calls : List Call) :
    (g.after calls).Tallied source settings (handed + handedOf ((g.observe calls).map (·.reply)))
      (refused + refusedOf ((g.observe calls).map (·.reply))) := by
  induction calls generalizing g handed refused with
  | nil => exact h
  | cons c calls ih =>
    have hnext := act_tallied h halone hs c
    have hsound : (g.act c).2.session.Sound := by
      have hcall := call_sound hs c
      rwa [call_eq_act] at hcall
    have hrest := ih hnext (halone.moves (g.act_moves c)) hsound
    rw [after_cons, observe, List.map_cons, handedOf_cons, refusedOf_cons, ← Nat.add_assoc,
      ← Nat.add_assoc]
    exact hrest

/-- A call is refused for the number of parts exactly if it asks for a part more than the limit, and
there is one. -/
theorem act_refuses_iff (h : g.Tallied source settings handed refused) (halone : g.session.CountsAlone)
    (hs : g.session.Sound) (c : Call) (limit : Nat) :
    (g.act c).1.answer = .failed (.partCount limit) ↔
      (c = .hasNext ∨ c = .nextPart) ∧ settings.maxParts = some limit ∧ handed = limit ∧
        g.session.FindsPart := by
  by_cases hc : c = .hasNext ∨ c = .nextPart
  · rw [and_iff_right hc]
    cases h with
    | between h => exact ask_refuses_iff h halone hs hc limit
    | within h hapart => exact ask_refuses_iff h halone hs hc limit
    | @refused s e hphase hsurplus =>
      -- nothing is looked for in a session that has failed
      constructor
      · intro hanswer
        exact absurd hanswer (answer_ne_of_not_isRefused (act_of_failed hphase c).2.2 limit)
      · rintro ⟨-, -, hfinds⟩
        unfold session Session.FindsPart at hfinds
        rw [hphase] at hfinds
        exact hfinds.elim
  · constructor
    · intro hanswer
      exact absurd hanswer (answer_ne_of_not_isRefused (use_not_isRefused halone hc) limit)
    · intro hlimit
      exact absurd hlimit.1 hc

end Standing

/-! ## Progress -/

/-- Nothing was read, and no part counted. -/
def Progress.beginning (source : Source) : Progress :=
  ⟨0, source.declared, 0⟩

/-- What the listener of a session was told, the latest first. -/
def Session.reports (s : Session) : List Progress :=
  s.window.feed.account.reports

/-- What the progress of a session and the reports of it say once these replies were given. -/
structure ProgressHolds (source : Source) (settings : Settings) (replies : List Reply) (g : Standing) :
    Prop where
  /-- The bytes are those the reads of the source gave, and each report goes beyond the one before it,
  or the beginning, by the bytes of one of these reads, or by one part. -/
  reads : ∃ log, source.Reading log g.session.window.feed.source ∧
    g.session.progress.bytesRead = Source.total log ∧
    (g.session.reports ++ [Progress.beginning source]).IsChain (Progress.Follows log)
  parts : g.session.progress.parts =
    handedOf replies + g.session.located + refusedOf replies
  refused_le : refusedOf replies ≤ 1
  contentLength : ∀ report ∈ g.session.reports, report.contentLength = source.declared
  maxRequestSize : ∀ limit, settings.maxRequestSize = some limit →
    ∀ report ∈ g.session.reports, report.bytesRead ≤ limit
  maxParts : ∀ limit, settings.maxParts = some limit →
    handedOf replies ≤ limit ∧ ∀ report ∈ g.session.reports, report.parts ≤ limit
  /-- A listener is told all but what passes a limit. -/
  told : settings.listening = true → g.session.window.feed.account.overrun = none →
    refusedOf replies = 0 →
    (g.session.reports ++ [Progress.beginning source]).head? = some g.session.progress
  /-- The part that is refused is the one after as many as the limit allows. -/
  refuses : ∀ (c : Call) (limit : Nat), (g.act c).1.answer = .failed (.partCount limit) ↔
    (c = .hasNext ∨ c = .nextPart) ∧ settings.maxParts = some limit ∧
      handedOf replies = limit ∧ g.session.FindsPart

namespace Standing

variable {source : Source} {settings : Settings} {handed refused : Nat} {g : Standing}

theorem Tallied.logged (h : g.Tallied source settings handed refused) :
    ∃ log, g.session.window.feed.Logged source settings log := by
  cases h with
  | between h => exact h.1.logged
  | within h => exact h.1.logged
  | refused _ hsurplus => exact hsurplus.logged

theorem Tallied.parts (h : g.Tallied source settings handed refused) :
    g.session.progress.parts = handed + g.session.located + refused := by
  cases h with
  | between h => exact h.2
  | within h => exact h.2
  | refused hphase hsurplus =>
    have hlocated := Session.located_of_phase hphase nofun
    rw [session, hlocated]
    exact hsurplus.parts

theorem Tallied.refused_le (h : g.Tallied source settings handed refused) : refused ≤ 1 := by
  cases h with
  | between | within => exact Nat.zero_le 1
  | refused => exact Nat.le_refl 1

theorem Tallied.handed_le (h : g.Tallied source settings handed refused) {limit : Nat}
    (hm : settings.maxParts = some limit) : handed ≤ limit := by
  have hwithin : ∀ {s : Session}, s.Tallied source settings handed → handed ≤ limit := by
    intro s hs
    have hparts : s.window.feed.account.parts = handed + s.located := hs.2
    have hle := hs.1.within limit hm
    omega
  cases h with
  | between h => exact hwithin h
  | within h => exact hwithin h
  | refused _ hsurplus =>
    cases hsurplus.maxParts.symm.trans hm
    exact Nat.le_refl _

theorem Tallied.current (h : g.Tallied source settings handed refused) (hzero : refused = 0)
    (ho : g.session.window.feed.account.overrun = none) : g.session.window.feed.account.Current := by
  cases h with
  | between h => exact h.1.current ho
  | within h => exact h.1.current ho
  | refused => cases hzero

end Standing

theorem Progress.contentLength_of_isChain {log : List (Except IoError Bytes)} {reports : List Progress}
    {origin : Progress} (h : (reports ++ [origin]).IsChain (Progress.Follows log)) :
    ∀ report ∈ reports, report.contentLength = origin.contentLength := by
  induction reports with
  | nil => nofun
  | cons later reports ih =>
    obtain ⟨hlater, hrest⟩ := List.isChain_cons.1 h
    intro report hreport
    rcases List.mem_cons.1 hreport with rfl | hreport
    · rcases reports with _ | ⟨earlier, reports⟩
      · exact (hlater origin rfl).1
      · exact (hlater earlier rfl).1.trans (ih hrest earlier List.mem_cons_self)
    · exact ih hrest report hreport

/-- Three parts, the last one behind a second read. -/
def threeParts : Source where
  transport := {
    segments := [
      .data (Utf8.encode "--B\r\n\r\na\r\n--B\r\n\r\nb\r\n--"),
      .data (Utf8.encode "B\r\n\r\nc\r\n--B--")] }
  declared := some 35

-- An error of another body that comes through the source may tell of parts that were never counted here.
example :
    let raising : Source := { transport := { segments := [.failure (.carrying .other (.partCount 2))] } }
    (Session.open? raising [66] {}).toOption.map (fun s => (s.hasNext.1, s.hasNext.2.progress.parts)) =
      some (.error (.partCount 2), 0) := by
  decide +kernel

end FormData
