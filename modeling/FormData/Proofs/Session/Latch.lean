/-
Sessions that failed stay failed. An error that ends a session leaves it in one phase with the cause
in its account (`Session.Latched`), whichever call met the error and however far into the body; from
then on every call that goes by the phase is refused with that cause and changes nothing, so nothing
is read or reported any more (`fatal_error_latches`).
-/
import FormData.Proofs.Session.Moves

namespace FormData

namespace Session

/-! ## What a search for the next part leaves -/

/-- No limit of the request was passed. -/
def Unspent (s : Session) : Prop :=
  s.window.feed.account.overrun = none

theorem Unspent.refusal_eq {s : Session} (h : s.Unspent) : s.refusal = .aborted :=
  Account.refusal_eq_aborted_iff.2 h

/-- A search from `s` that succeeds passed no limit, and one that fails leaves its cause. -/
def Tells (s : Session) : Except Error Bool × Session → Prop
  | (.ok _, t) => t.Unspent
  | (.error e, t) => t.window.feed.account.Tells s.window.failures e

/-- The same for one delimiter. -/
def TurnTells (s : Session) : Turn × Session → Prop
  | (.again, t) => t.Unspent
  | (.stop r, t) => s.Tells (r, t)

variable {s t : Session}

theorem TurnTells.after {x : Turn × Session} (h : t.TurnTells x) (hm : s.Moves t) : s.TurnTells x := by
  obtain ⟨_ | e | more, u⟩ := x
  · exact h
  · exact Account.Tells.mono h hm.failures
  · exact h

theorem Tells.after {x : Except Error Bool × Session} (h : t.Tells x) (hm : s.Moves t) : s.Tells x := by
  obtain ⟨e | more, u⟩ := x
  · exact Account.Tells.mono h hm.failures
  · exact h

theorem leaveBody_tells (h : s.Unspent) : s.TurnTells s.leaveBody := by
  unfold leaveBody
  split
  · exact h
  · have hset := Window.setBoundary_tells h s.boundary
    rcases hb : s.window.setBoundary s.boundary with ⟨e | ⟨⟩, w⟩ <;> rw [hb] at hset
    · exact hset.cause e rfl
    · have hd := w.discard_tells.after hset
      simp only
      rcases hw : w.discard with ⟨e | n, w'⟩ <;> rw [hw] at hd
      · exact hd.cause e rfl
      · exact hd.overrun_eq.trans h

theorem locatePart_tells (h : s.Unspent) (headers : Headers) :
    s.TurnTells (s.locatePart headers) := by
  unfold locatePart
  simp only
  split
  · have hd := s.window.discard_tells
    rcases hw : s.window.discard with ⟨e | n, w'⟩ <;> rw [hw] at hd
    · exact hd.cause e rfl
    · exact hd.overrun_eq.trans h
  · have hcount := Account.countPart_tells h
    rcases hc : s.window.feed.account.countPart with ⟨e | ⟨⟩, account⟩ <;> rw [hc] at hcount
    · exact .inl hcount
    · exact hcount

theorem enterPart_tells (h : s.Unspent) (headers : Headers) : s.TurnTells (s.enterPart headers) := by
  unfold enterPart
  split
  · rename_i e hset
    split at hset
    · obtain ⟨field, rfl⟩ := setOf_error_eq hset
      exact .inl h.refusal_eq
    · cases hset
  · rename_i field boundary _
    have hset := Window.setBoundary_tells h boundary
    rcases hb : s.window.setBoundary boundary with ⟨e | ⟨⟩, w⟩ <;> rw [hb] at hset
    · exact hset.cause e rfl
    · exact hset.overrun_eq.trans h
  · exact locatePart_tells h headers

theorem openPart_tells (h : s.Unspent) : s.TurnTells s.openPart := by
  have hread := Window.readHeaderBlock_tells h s.settings.maxHeaderSize
  have hmoves := (s.window.readHeaderBlock_advances s.settings.maxHeaderSize).moves
  unfold openPart
  rcases hr : s.window.readHeaderBlock s.settings.maxHeaderSize with ⟨e | block, w⟩ <;>
    rw [hr] at hread hmoves
  · exact hread.cause e rfl
  · have hw : ({ s with window := w } : Session).Unspent := hread.overrun_eq.trans h
    exact (enterPart_tells hw _).after hmoves

theorem turn_tells (h : s.Unspent) : s.TurnTells s.turn := by
  have hnext : s.window.Tells s.nextDelimiter := by
    unfold nextDelimiter
    split
    · exact Window.findFirst_tells h
    · exact Window.readDelimiter_tells h
  have hmoves := s.nextDelimiter_advances.moves
  unfold turn
  rcases hn : s.nextDelimiter with ⟨e | more, w⟩ <;> rw [hn] at hnext hmoves
  · exact hnext.cause e rfl
  · have hw : ({ s with window := w, preamble := false } : Session).Unspent := hnext.overrun_eq.trans h
    cases more with
    | false => exact (leaveBody_tells hw).after hmoves
    | true => exact (openPart_tells hw).after hmoves

theorem locate_tells (h : s.Unspent) : s.Tells s.locate := by
  fun_induction locate s with
  | case1 s r s' ht =>
    have hturn := turn_tells h
    rw [ht] at hturn
    exact hturn
  | case2 s s' ht _ ih =>
    have hturn := turn_tells h
    have hmoves := s.turn_moves
    rw [ht] at hturn hmoves
    exact (ih hturn).after hmoves

theorem advance_tells (h : s.Unspent) : s.Tells s.advance := by
  unfold advance
  split
  · have hd := s.window.discard_tells
    have hmoves := s.window.discard_advances.moves
    rcases hw : s.window.discard with ⟨e | n, w⟩ <;> rw [hw] at hd hmoves
    · exact hd.cause e rfl
    · have hunspent : ({ s with window := w } : Session).Unspent := hd.overrun_eq.trans h
      exact (locate_tells hunspent).after hmoves
  · exact locate_tells h

/-! ## Sound and latched sessions -/

/-- Only a session that failed has passed the limit of its request. -/
def Sound (s : Session) : Prop :=
  s.phase ≠ .failed → s.Unspent

/-- The session failed with this error. -/
structure Latched (s : Session) (e : Error) : Prop where
  phase : s.phase = .failed
  refusal : s.refusal = e.cause

/-- The session failed with this error, which its account tells unless the source raised it. -/
structure Failed (failures : List Error) (s : Session) (e : Error) : Prop where
  phase : s.phase = .failed
  tells : s.window.feed.account.Tells failures e

theorem Failed.mono {failures more : List Error} {s : Session} {e : Error} (h : s.Failed failures e)
    (hsub : failures ⊆ more) : s.Failed more e :=
  ⟨h.phase, h.tells.mono hsub⟩

theorem Failed.latched {failures : List Error} {s : Session} {e : Error} (h : s.Failed failures e)
    (hplain : ∀ limit actual, .requestSize limit actual ∉ failures) : s.Latched e :=
  ⟨h.phase, h.tells.refusal_eq hplain⟩

/-- How a call on `s` leaves its session: sound, and failed if its error ends sessions. -/
def Ends (s : Session) : Option Error → Session → Prop
  | none, t => t.Sound
  | some e, t => t.Sound ∧ (e.isFatal = true → t.Failed s.window.failures e)

theorem Ends.sound {failure : Option Error} {s t : Session} (h : s.Ends failure t) : t.Sound := by
  cases failure with
  | none => exact h
  | some e => exact h.1

theorem Ends.after {failure : Option Error} {s t u : Session} (h : t.Ends failure u)
    (hm : s.Moves t) : s.Ends failure u := by
  cases failure with
  | none => exact h
  | some e => exact ⟨h.1, fun hfatal => (h.2 hfatal).mono hm.failures⟩

theorem Unspent.sound {s : Session} (h : s.Unspent) : s.Sound := fun _ => h

/-- An error that does not end a session is not that of passing the limit. -/
theorem cause_of_not_fatal {e : Error} (h : e.isFatal = false) : e.cause = .aborted := by
  cases e <;> first | rfl | cases h

theorem afterError_ends {s t : Session} {e : Error}
    (h : t.window.feed.account.Tells s.window.failures e) : s.Ends (some e) (t.afterError e) := by
  unfold afterError
  split
  · exact ⟨fun hne => absurd rfl hne, fun _ => ⟨rfl, h⟩⟩
  · rename_i hfatal
    have haborted : t.window.feed.account.refusal = .aborted :=
      h.elim (·.trans (cause_of_not_fatal (Bool.eq_false_iff.2 hfatal))) And.left
    exact ⟨fun _ => Account.refusal_eq_aborted_iff.1 haborted, fun hf => absurd hf hfatal⟩

theorem failed_ends {s : Session} (h : s.phase = .failed) : s.Ends (some s.refusal) s :=
  ⟨fun hne => absurd h hne, fun _ => ⟨h, .inl (Account.cause_refusal _).symm⟩⟩

theorem hasNext_ends {s : Session} (h : s.Sound) :
    match s.hasNext with
    | (.ok _, s') => s.Ends none s'
    | (.error e, s') => s.Ends (some e) s' := by
  -- from any phase that is no end, it is a search and what its error leaves
  have hgo : s.phase ≠ .failed → match s.advance with
      | (.ok _, s') => s.Ends none s'
      | (.error e, s') => s.Ends (some e) (s'.afterError e) := by
    intro hne
    have ha := advance_tells (h hne)
    rcases hadv : s.advance with ⟨e | more, s'⟩ <;> rw [hadv] at ha
    · exact afterError_ends ha
    · exact Unspent.sound ha
  unfold hasNext
  cases hphase : s.phase with
  | located head => exact h
  | exhausted => exact h
  | failed => exact failed_ends hphase
  | _ =>
    have hgo := hgo (by rw [hphase]; exact nofun)
    simp only
    rcases hadv : s.advance with ⟨e | more, s'⟩ <;> rw [hadv] at hgo
    · exact hgo
    · exact hgo

theorem nextPart_ends {s : Session} (h : s.Sound) :
    match s.nextPart with
    | .ok p => s.Ends none p.session
    | .error (e, s') => s.Ends (some e) s' := by
  have hn := hasNext_ends h
  unfold nextPart
  rcases hnext : s.hasNext with ⟨e | _ | _, s'⟩ <;> rw [hnext] at hn
  · exact hn
  · exact ⟨hn, nofun⟩
  · simp only
    cases hphase : s'.phase with
    | located head => exact fun _ => hn (by rw [hphase]; exact nofun)
    | _ => exact ⟨hn, nofun⟩

end Session

/-! ## Parts -/

namespace OpenPart

/-- How a call on the part `p` leaves its session. -/
def Ends {α : Type} (p : OpenPart) : Except Error α × OpenPart → Prop
  | (.ok _, q) => p.session.Ends none q.session
  | (.error e, q) => p.session.Ends (some e) q.session

variable {p : OpenPart}

theorem discardRest_ends (h : p.session.Sound) : p.Ends p.discardRest := by
  have hd := p.session.window.discard_tells
  unfold discardRest
  rcases hw : p.session.window.discard with ⟨e | n, w⟩ <;> rw [hw] at hd
  · exact Session.afterError_ends (hd.cause e rfl)
  · exact fun hne => hd.overrun_eq.trans (h hne)

theorem refuseSize_ends (h : p.session.Sound) (limit : Nat) (actual : Nat → Nat) :
    p.Ends (p.refuseSize limit actual) := by
  have hd := discardRest_ends h
  unfold refuseSize
  rcases hr : p.discardRest with ⟨e | n, p'⟩ <;> rw [hr] at hd
  · exact hd
  · exact ⟨hd, nofun⟩

theorem Ends.after {α : Type} {p q : OpenPart} {x : Except Error α × OpenPart} (h : q.Ends x)
    (hm : p.Moves q) : p.Ends x := by
  obtain ⟨e | a, q'⟩ := x
  · have hends : q.session.Ends (some e) q'.session := h
    exact hends.after hm
  · exact h

theorem readContent_ends (h : p.session.Sound) (room : Nat) : p.Ends (p.readContent room) := by
  have ht := p.session.window.take_tells room
  have hmoves := (p.session.window.take_advances room).moves
  unfold readContent
  rcases hw : p.session.window.take room with ⟨e | bytes, w⟩ <;> rw [hw] at ht hmoves
  · exact Session.afterError_ends (ht.cause e rfl)
  · have hsound : ({ p.session with window := w } : Session).Sound :=
      fun hne => ht.overrun_eq.trans (h hne)
    simp only
    split
    · exact hsound
    · split
      · split
        · have hrefused := refuseSize_ends (p := { p with session := { p.session with window := w } }) hsound
          exact (hrefused _ _).after hmoves
        · exact hsound
      · exact hsound

theorem read_ends (h : p.session.Sound) (room : Nat) : p.Ends (p.read room) := by
  unfold read
  cases hphase : p.session.phase with
  | failed => exact Session.failed_ends hphase
  | _ =>
    simp only
    split
    · exact h
    · split
      · exact refuseSize_ends h _ _
      · exact readContent_ends h room

theorem skip_ends (h : p.session.Sound) : p.Ends p.skip := by
  unfold skip
  split
  · exact h
  · exact discardRest_ends h

theorem Ends.sound {α : Type} {x : Except Error α × OpenPart} (h : p.Ends x) : x.2.session.Sound := by
  obtain ⟨r, q⟩ := x
  cases r with
  | error e => exact h.1
  | ok a => exact h

theorem spool_sound (h : p.session.Sound) (d : Depot) (s : Spool) :
    (p.spool d s).2.1.session.Sound := by
  fun_induction spool p d s with
  | case1 p d s e p' hr =>
    have hread := read_ends h stretch
    rw [hr] at hread
    exact hread.sound
  | case2 p d s p' hr =>
    have hread := read_ends h stretch
    rw [hr] at hread
    exact hread.sound
  | case3 p d s b bytes p' hr e d' _ =>
    have hread := read_ends h stretch
    rw [hr] at hread
    exact hread.sound
  | case4 p d s b bytes p' hr s' d' _ _ ih =>
    have hread := read_ends h stretch
    rw [hr] at hread
    exact ih hread.sound

theorem keep_sound (h : p.session.Sound) (d : Depot) : (p.keep d).2.1.session.Sound := by
  have hspool := spool_sound h d {}
  unfold keep
  split
  · exact h
  · rcases hs : p.spool d {} with ⟨e | s, p', d'⟩ <;> rw [hs] at hspool
    · exact hspool
    · exact hspool

/-- On a failed session no part can be read. -/
theorem read_failed (h : p.session.phase = .failed) (room : Nat) :
    p.read room = (.error p.session.refusal, p) := by
  unfold read
  simp only [h]

theorem keep_failed (h : p.session.phase = .failed) {name : Option String}
    (hname : p.fileName = .ok name) (d : Depot) :
    ∃ d', p.keep d = (.error p.session.refusal, p, d') := by
  have hspool : p.spool d {} = (.error p.session.refusal, p, Spool.abandon {} d) := by
    rw [spool]
    split
    · rename_i hr
      cases (read_failed h stretch).symm.trans hr
      rfl
    · rename_i hr
      cases (read_failed h stretch).symm.trans hr
    · rename_i hr
      cases (read_failed h stretch).symm.trans hr
  unfold keep
  simp only [hname, hspool]
  exact ⟨_, rfl⟩

end OpenPart

/-! ## Calls in any order -/

namespace Standing

/-- What a call that is no keeping leaves. -/
theorem call_ends {g : Standing} (h : g.session.Sound) {c : Call} (hkeep : ∀ d, c ≠ .keep d) :
    match (g.call c).1 with
    | .failed e => g.session.Ends (some e) (g.call c).2.session
    | _ => g.session.Ends none (g.call c).2.session := by
  cases c with
  | hasNext =>
    have hn := Session.hasNext_ends h
    simp only [call]
    rcases hr : g.session.hasNext with ⟨e | more, s⟩ <;> rw [hr] at hn <;> exact hn
  | nextPart =>
    have hn := Session.nextPart_ends h
    simp only [call]
    rcases hr : g.session.nextPart with ⟨e, s⟩ | p <;> rw [hr] at hn <;> exact hn
  | read room =>
    cases g with
    | between s => exact h
    | within p =>
      have hread := OpenPart.read_ends h room
      simp only [call]
      rcases hr : p.read room with ⟨e | bytes, p'⟩ <;> rw [hr] at hread <;> exact hread
  | skip =>
    cases g with
    | between s => exact h
    | within p =>
      have hskip := OpenPart.skip_ends h
      simp only [call]
      rcases hr : p.skip with ⟨e | count, p'⟩ <;> rw [hr] at hskip <;> exact hskip
  | keep d => exact absurd rfl (hkeep d)

theorem call_sound {g : Standing} (h : g.session.Sound) (c : Call) :
    (g.call c).2.session.Sound := by
  by_cases hkeep : ∃ d, c = .keep d
  · obtain ⟨d, rfl⟩ := hkeep
    cases g with
    | between s => exact h
    | within p => exact OpenPart.keep_sound h d
  · have hends := call_ends h fun d hc => hkeep ⟨d, hc⟩
    split at hends
    · exact hends.sound
    · exact hends

/-- By induction on the calls. -/
theorem after_sound {g : Standing} (h : g.session.Sound) (calls : List Call) :
    (g.after calls).session.Sound := by
  induction calls generalizing g with
  | nil => exact h
  | cons c calls ih => exact ih (call_sound h c)

/-- No call but a skip gets past the phase of a failed session: it is refused with the cause, unless
there is no part to make it on or no name to keep the part under. -/
theorem call_latched {g : Standing} {e : Error} (h : g.session.Latched e) {c : Call}
    (hskip : c ≠ .skip) :
    (g.call c).2.session = g.session ∧
      ((g.call c).1 = .failed e.cause ∨ (g.call c).1 = .noPart ∨
        ∃ p d f, g = .within p ∧ c = .keep d ∧ p.fileName = .error f) := by
  have hnext : g.session.hasNext = (.error e.cause, g.session) := by
    unfold Session.hasNext
    simp only [h.phase, h.refusal]
  cases c with
  | hasNext =>
    simp only [call]
    rw [hnext]
    exact ⟨rfl, .inl rfl⟩
  | nextPart =>
    have hpart : g.session.nextPart = .error (e.cause, g.session) := by
      unfold Session.nextPart
      rw [hnext]
    simp only [call]
    rw [hpart]
    exact ⟨rfl, .inl rfl⟩
  | read room =>
    cases g with
    | between s => exact ⟨rfl, .inr (.inl rfl)⟩
    | within p =>
      have hread : p.read room = (.error e.cause, p) := by
        rw [OpenPart.read_failed h.phase, show p.session.refusal = _ from h.refusal]
      simp only [call]
      rw [hread]
      exact ⟨rfl, .inl rfl⟩
  | skip => exact absurd rfl hskip
  | keep d =>
    cases g with
    | between s => exact ⟨rfl, .inr (.inl rfl)⟩
    | within p =>
      cases hname : p.fileName with
      | error f =>
        have hkeep : p.keep d = (.error f, p, d) := by
          unfold OpenPart.keep
          rw [hname]
        simp only [call]
        rw [hkeep]
        exact ⟨rfl, .inr (.inr ⟨p, d, f, rfl, rfl, hname⟩)⟩
      | ok name =>
        -- keeping fails with the first read, before it has a file
        obtain ⟨d', hkeep⟩ := OpenPart.keep_failed h.phase hname d
        rw [show p.session.refusal = _ from h.refusal] at hkeep
        simp only [call]
        rw [hkeep]
        exact ⟨rfl, .inl rfl⟩

/-- By induction on the calls. -/
theorem after_latched {g : Standing} {e : Error} (h : g.session.Latched e) {calls : List Call}
    (hskip : .skip ∉ calls) : (g.after calls).session = g.session := by
  induction calls generalizing g with
  | nil => rfl
  | cons c calls ih =>
    rw [List.mem_cons, not_or] at hskip
    have hsame := (call_latched h (Ne.symm hskip.1)).1
    exact (ih (g := (g.call c).2) (hsame ▸ h) hskip.2).trans hsame

end Standing

theorem Session.open?_sound {source : Source} {boundary : Bytes} {settings : Settings} {s : Session}
    (h : Session.open? source boundary settings = .ok s) : s.Sound := by
  obtain ⟨-, rfl⟩ := Session.open?_ok h
  exact fun _ => rfl

/-- Once a call has ended in a fatal error, every later call but `skip` fails, in any order and number:
with the limit of the request where passing it was the cause, and as aborted otherwise, unless the source
itself raises errors that look like passing it. The session stays as that error left it, so its source is
not read, nothing is reported and the progress stands. -/
theorem fatal_error_latches {source : Source} {boundary : Bytes} {settings : Settings} {s : Session}
    (hopen : Session.open? source boundary settings = .ok s)
    (hplain : ∀ limit actual, .requestSize limit actual ∉ source.failures)
    {history : List Call} {g g' : Standing} (hhistory : (Standing.between s).after history = g) {c : Call} {e : Error}
    (hfailed : g.call c = (.failed e, g')) (hkeep : ∀ d, c ≠ .keep d) (hfatal : e.isFatal = true)
    {later : List Call} {next : Call} (hskip : .skip ∉ next :: later)
    (hpart : ((g'.after later).call next).1 ≠ .noPart)
    (hname : ∀ p d, g'.after later = .within p → next = .keep d → ∃ name, p.fileName = .ok name) :
    ((g'.after later).call next).1 = .failed e.cause ∧
      ((g'.after later).call next).2.session = g'.session := by
  have hsound : g.session.Sound := hhistory ▸ Standing.after_sound (Session.open?_sound hopen) history
  have hlatched : g'.session.Latched e := by
    have hends := Standing.call_ends hsound hkeep
    have hleft : g.session.window.failures ⊆ source.failures := by
      have hmoves := (Standing.between s).after_moves history
      rw [hhistory] at hmoves
      obtain ⟨-, rfl⟩ := Session.open?_ok hopen
      exact hmoves.failures
    rw [hfailed] at hends
    exact (hends.2 hfatal).latched fun limit actual hmem => hplain limit actual (hleft hmem)
  rw [List.mem_cons, not_or] at hskip
  have hsame := Standing.after_latched hlatched hskip.2
  have hlatched' : (g'.after later).session.Latched e := hsame ▸ hlatched
  obtain ⟨hstands, hanswer⟩ := Standing.call_latched hlatched' (Ne.symm hskip.1)
  refine ⟨?_, hstands.trans hsame⟩
  rcases hanswer with hrefused | hnone | ⟨p, d, f, hp, hd, hf⟩
  · exact hrefused
  · exact absurd hnone hpart
  · obtain ⟨name, hn⟩ := hname p d hp hd
    cases hf.symm.trans hn

/-- A transport that fails within the content of a part, and would go on behind that. -/
def resetWithin : Source where
  transport := {
    segments := [.data (Utf8.encode "--B\r\n\r\nabc"),
      .failure (.described .connectionReset "injected failure"),
      .data (Utf8.encode "\r\n--B--")] }

/-- What a caller may go on with on the part whose content failed. -/
def retries : List Call :=
  [.read 8, .keep { tree := {}, repository := "/tmp", threshold := 0 }, .hasNext]

theorem fatal_error_latches_resetWithin :
    ∃ s g, Session.open? resetWithin [66] {} = .ok s ∧
      ((Standing.between s).after [.nextPart]).call (.read 8) =
        (.failed (.io (.described .connectionReset "injected failure")), g) ∧
      ((g.after retries).call .nextPart).1 = .failed .aborted ∧
      ((g.after retries).call .nextPart).2.session = g.session := by
  obtain ⟨s, hs⟩ : ∃ s, Session.open? resetWithin [66] {} = .ok s := ⟨_, rfl⟩
  have hfailed : (((Standing.between s).after [.nextPart]).call (.read 8)).1 =
      .failed (.io (.described .connectionReset "injected failure")) := by
    cases hs
    decide +kernel
  have hpart : ∀ g : Standing, (g.call .nextPart).1 ≠ .noPart := by
    intro g
    unfold Standing.call
    simp only
    split <;> nofun
  generalize hg : (Standing.between s).after [.nextPart] = g at hfailed ⊢
  obtain ⟨g', hg'⟩ : ∃ g', g.call (.read 8) =
      (.failed (.io (.described .connectionReset "injected failure")), g') := ⟨_, Prod.ext hfailed rfl⟩
  have hskip : Call.skip ∉ .nextPart :: retries := by decide
  have hplain : ∀ limit actual, Error.requestSize limit actual ∉ resetWithin.failures := by
    rintro limit actual hmem
    cases List.mem_singleton.1 hmem
  have hlatch := fatal_error_latches hs hplain hg hg' nofun rfl hskip (hpart _) fun _ _ _ hd => nomatch hd
  exact ⟨s, g', hs, hg ▸ hg', hlatch⟩

end FormData
