/-
Skips on sessions that failed. Reads go by the phase of the session and are refused; a skip goes by
the part alone. It is refused after the limit of a request was passed, since the window then still
waits for a read that the account refuses (`OpenPart.Held`). After any other fatal error it reads on
in the source, so it keeps to the failure exactly when that was the limit (`skip_refused_iff`), unless
the source itself goes on to raise what calls on a failed session are refused with.
-/
import Mathlib.Control.Monad.Basic
import FormData.Proofs.Body.Stalled
import FormData.Proofs.Session.Consumption
import FormData.Proofs.Session.Latch

namespace FormData

namespace OpenPart

variable {p p' : OpenPart}

/-- Once the limit of the request is passed the part is in the middle of its content, and its window
cannot go on. -/
def Held (p : OpenPart) : Prop :=
  p.session.window.feed.account.overrun ≠ none → p.isFinished = false ∧ p.session.window.Stalled

theorem Held.of_unspent (h : p.session.Unspent) : p.Held := fun hne => absurd h hne

/-- Past the limit, discarding leaves a part that failed before as it is. -/
theorem Held.discardRest_overrun (h : p.Held) (hphase : p.session.phase = .failed) {limit actual : Nat}
    (ho : p.session.window.feed.account.overrun = some (limit, actual)) :
    p.discardRest = (.error (.requestSize limit actual), p) := by
  obtain ⟨-, hstalled⟩ := h (by rw [ho]; exact nofun)
  unfold discardRest
  rw [hstalled.discard_overrun ho]
  simp only [Session.afterError, Error.isFatal, if_true]
  rw [← hphase]

theorem discardRest_held (h : p.Held) (hfinished : p.isFinished = false) : p.discardRest.2.Held := by
  have hd := p.session.window.discard_tells
  unfold discardRest
  rcases hw : p.session.window.discard with ⟨e | count, w⟩ <;> rw [hw] at hd
  · intro _
    simp only [Session.afterError_window]
    exact ⟨hfinished, Window.discard_error_stalled hw⟩
  · -- a discard that succeeds finds no limit passed, since behind that it would have been refused
    intro hne
    obtain ⟨⟨limit, actual⟩, ho⟩ :=
      Option.ne_none_iff_exists'.1 fun hnone => hne (hd.overrun_eq.trans hnone)
    obtain ⟨-, hstalled⟩ := h (by rw [ho]; exact nofun)
    cases hw.symm.trans (hstalled.discard_overrun ho)

theorem refuseSize_held (h : p.Held) (hfinished : p.isFinished = false) (limit : Nat)
    (actual : Nat → Nat) : (p.refuseSize limit actual).2.Held := by
  have hd := discardRest_held h hfinished
  unfold refuseSize
  split
  · rename_i hr
    rw [hr] at hd
    exact hd
  · rename_i hr
    rw [hr] at hd
    exact hd

theorem readContent_held (hs : p.session.Unspent) (hfinished : p.isFinished = false) (room : Nat) :
    (p.readContent room).2.Held := by
  have ht := p.session.window.take_tells room
  unfold readContent
  rcases hw : p.session.window.take room with ⟨e | bytes, w⟩ <;> rw [hw] at ht
  · intro _
    simp only [Session.afterError_window]
    exact ⟨hfinished, Window.take_error_stalled hw⟩
  · have hunspent : ({ p.session with window := w } : Session).Unspent := ht.overrun_eq.trans hs
    simp only
    split
    · exact .of_unspent hunspent
    · split
      · split
        · exact refuseSize_held (p := { p with session := { p.session with window := w } })
            (.of_unspent hunspent) hfinished _ _
        · exact .of_unspent hunspent
      · exact .of_unspent hunspent

theorem read_held (hs : p.session.Sound) (h : p.Held) (room : Nat) : (p.read room).2.Held := by
  unfold read
  cases hphase : p.session.phase with
  | failed => exact h
  | _ =>
    have hunspent : p.session.Unspent := hs (by rw [hphase]; exact nofun)
    simp only
    split
    · exact h
    · rename_i hfinished
      rw [Bool.not_eq_true] at hfinished
      split
      · exact refuseSize_held h hfinished _ _
      · exact readContent_held hunspent hfinished room

theorem skip_held (h : p.Held) : p.skip.2.Held := by
  unfold skip
  split
  · exact h
  · rename_i hfinished
    exact discardRest_held h (by rwa [Bool.not_eq_true] at hfinished)

theorem spool_held (hs : p.session.Sound) (h : p.Held) (d : Depot) (s : Spool) :
    (p.spool d s).2.1.Held := by
  fun_induction spool p d s with
  | case1 p d s e p' hr =>
    have hread := read_held hs h stretch
    rwa [hr] at hread
  | case2 p d s p' hr =>
    have hread := read_held hs h stretch
    rwa [hr] at hread
  | case3 p d s b bytes p' hr e d' _ =>
    have hread := read_held hs h stretch
    rwa [hr] at hread
  | case4 p d s b bytes p' hr s' d' _ _ ih =>
    have hsound := (read_ends hs stretch).sound
    have hread := read_held hs h stretch
    rw [hr] at hsound hread
    exact ih hsound hread

theorem keep_held (hs : p.session.Sound) (h : p.Held) (d : Depot) : (p.keep d).2.1.Held := by
  have hspool := spool_held hs h d {}
  unfold keep
  split
  · exact h
  · rcases hx : p.spool d {} with ⟨e | s, p', d'⟩ <;> rw [hx] at hspool
    · exact hspool
    · exact hspool

theorem Held.skip_overrun (h : p.Held) {limit actual : Nat}
    (hl : p.session.Latched (.requestSize limit actual)) :
    p.skip = (.error (.requestSize limit actual), p) := by
  have ho : p.session.window.feed.account.overrun = some (limit, actual) :=
    Account.refusal_eq_requestSize_iff.1 hl.refusal
  obtain ⟨hfinished, -⟩ := h (by rw [ho]; exact nofun)
  unfold skip
  rw [if_neg (by rw [hfinished]; exact Bool.false_ne_true)]
  exact h.discardRest_overrun hl.phase ho

/-! ## Keeping a part that cannot be read -/

theorem read_ok_phase {room : Nat} {bytes : Bytes} (h : p.read room = (.ok bytes, p')) :
    p'.session.phase ≠ .failed := by
  intro hfailed
  have hphase : p'.session.phase = p.session.phase := by
    unfold read at h
    split at h
    · cases h
    · split at h
      · cases h
        rfl
      · split at h
        · exact absurd h (refuseSize_ne_ok _ _ _ _ _)
        · unfold readContent at h
          split at h
          · cases h
          · simp only at h
            split at h
            · cases h
              rfl
            · split at h
              · split at h
                · exact absurd h (refuseSize_ne_ok _ _ _ _ _)
                · cases h
                  rfl
              · cases h
                rfl
  rw [hphase] at hfailed
  cases (read_failed hfailed room).symm.trans h

/-- Where a failed session is what broke off the content, the error tells its cause; an error of the
depot leaves the session as it is. -/
theorem spool_fails (hs : p.session.Sound) {d d' : Depot} {s : Spool} {e : Error}
    (h : p.spool d s = (.error e, p', d')) (hfatal : e.isFatal = true)
    (hphase : p'.session.phase = .failed) : p'.session.Failed p.session.window.failures e := by
  fun_induction spool p d s with
  | case1 p d s e' p'' hr =>
    cases h
    have hends := read_ends hs stretch
    rw [hr] at hends
    exact hends.2 hfatal
  | case2 => cases h
  | case3 p d s b bytes p'' hr e' d'' _ =>
    cases h
    exact absurd hphase (read_ok_phase hr)
  | case4 p d s b bytes p'' hr s' d'' _ _ ih =>
    have hsound := (read_ends hs stretch).sound
    have hmoves := p.read_moves stretch
    rw [hr] at hsound hmoves
    exact (ih hsound h).mono hmoves.failures

theorem fileName_error_not_fatal {e : Error} (h : p.fileName = .error e) : e.isFatal = false := by
  unfold fileName at h
  split at h
  · cases h
  · rename_i raw _
    cases hd : p.session.settings.decoder.decode raw with
    | ok name =>
      rw [hd] at h
      cases h
    | error e' =>
      rw [hd] at h
      cases h
      unfold FileName.Decoder.decode at hd
      split at hd
      · cases hd
        rfl
      · split at hd
        · cases hd
          rfl
        · cases hd

theorem keep_fails (hs : p.session.Sound) {d d' : Depot} {e : Error}
    (h : p.keep d = (.error e, p', d')) (hfatal : e.isFatal = true)
    (hphase : p'.session.phase = .failed) : p'.session.Failed p.session.window.failures e := by
  unfold keep at h
  split at h
  · rename_i hname
    cases h
    cases (fileName_error_not_fatal hname).symm.trans hfatal
  · split at h
    · rename_i hspool
      cases h
      exact spool_fails hs hspool hfatal hphase
    · cases h

/-- A skip only says that the session was ended before where the source says so. -/
theorem skip_ne_aborted (h : .aborted ∉ p.session.window.failures) : p.skip.1 ≠ .error .aborted := by
  unfold skip
  split
  · exact nofun
  · unfold discardRest
    split
    · rename_i hd
      rintro ⟨⟩
      cases Window.discard_error_isOfReading hd with
      | raised hraised => exact h hraised
    · exact nofun

end OpenPart

/-! ## Calls in any order -/

namespace Standing

/-- The part at hand, if there is one, is held. -/
def Held : Standing → Prop
  | between _ => True
  | within p => p.Held

theorem call_held {g : Standing} (hs : g.session.Sound) (h : g.Held) (c : Call) :
    (g.call c).2.Held := by
  cases c with
  | hasNext => trivial
  | nextPart =>
    have hn := Session.nextPart_ends hs
    simp only [call]
    rcases hr : g.session.nextPart with ⟨e, s⟩ | p <;> rw [hr] at hn
    · trivial
    · refine .of_unspent (hn ?_)
      rw [Session.nextPart_reading hr]
      rintro ⟨⟩
  | read room =>
    cases g with
    | between s => trivial
    | within p => exact OpenPart.read_held hs h room
  | skip =>
    cases g with
    | between s => trivial
    | within p => exact OpenPart.skip_held h
  | keep d =>
    cases g with
    | between s => trivial
    | within p => exact OpenPart.keep_held hs h d

/-- By induction on the calls. -/
theorem after_held {g : Standing} (hs : g.session.Sound) (h : g.Held) (calls : List Call) :
    (g.after calls).Held := by
  induction calls generalizing g with
  | nil => exact h
  | cons c calls ih => exact ih (call_sound hs c) (call_held hs h c)

/-- Once the limit of the request was passed every call is refused with it, skips included, unless
there is no part to make it on or no name to keep the part under. -/
theorem call_overrun {g : Standing} (h : g.Held) {limit actual : Nat}
    (hl : g.session.Latched (.requestSize limit actual)) (c : Call) :
    (g.call c).2.session = g.session ∧
      ((g.call c).1 = .failed (.requestSize limit actual) ∨ (g.call c).1 = .noPart ∨
        ∃ p d f, g = .within p ∧ c = .keep d ∧ p.fileName = .error f) := by
  by_cases hskip : c = .skip
  · subst hskip
    cases g with
    | between s => exact ⟨rfl, .inr (.inl rfl)⟩
    | within p =>
      simp only [call]
      rw [OpenPart.Held.skip_overrun h hl]
      exact ⟨rfl, .inl rfl⟩
  · exact call_latched hl hskip

/-- By induction on the calls. -/
theorem after_overrun {g : Standing} (hs : g.session.Sound) (h : g.Held) {limit actual : Nat}
    (hl : g.session.Latched (.requestSize limit actual)) (calls : List Call) :
    (g.after calls).session = g.session := by
  induction calls generalizing g with
  | nil => rfl
  | cons c calls ih =>
    have hsame := (call_overrun h hl c).1
    exact (ih (call_sound hs c) (call_held hs h c) (hsame ▸ hl)).trans hsame

/-- A call on a part that ends in a fatal error leaves the session failed. Keeping may also fail by
the depot, which the session does not notice. -/
theorem call_within_failed {p p' : OpenPart} (hs : p.session.Sound) {c : Call} {e : Error}
    (h : (Standing.within p).call c = (.failed e, .within p')) (hfatal : e.isFatal = true)
    (hkeep : ∀ d, c = .keep d → p'.session.phase = .failed) :
    p'.session.Failed p.session.window.failures e := by
  by_cases hc : ∃ d, c = .keep d
  · obtain ⟨d, rfl⟩ := hc
    simp only [call] at h
    rcases hk : p.keep d with ⟨e' | item, q, d'⟩ <;> rw [hk] at h
    · cases h
      exact OpenPart.keep_fails hs hk hfatal (hkeep d rfl)
    · cases h
  · have hends := call_ends (g := .within p) hs fun d hd => hc ⟨d, hd⟩
    rw [h] at hends
    exact hends.2 hfatal

end Standing

/-- What calls on a failed session are refused with. -/
def Error.IsRefusal : Error → Prop
  | .requestSize .. | .aborted => True
  | _ => False

/-- On a part that a fatal error broke off, a later skip is refused with the cause of that error and
leaves the source alone exactly when the error was that of passing the limit of the request. -/
theorem skip_refused_iff {source : Source} {boundary : Bytes} {settings : Settings} {s : Session}
    (hopen : Session.open? source boundary settings = .ok s)
    (hplain : ∀ f ∈ source.failures, ¬ f.IsRefusal) {history : List Call} {p p' : OpenPart}
    (hhistory : (Standing.between s).after history = .within p) {c : Call} {e : Error}
    (hfailed : (Standing.within p).call c = (.failed e, .within p')) (hfatal : e.isFatal = true)
    (hkeep : ∀ d, c = .keep d → p'.session.phase = .failed) {later : List Call} {q : OpenPart}
    (hlater : (Standing.within p').after later = .within q) :
    (q.skip.1 = .error e.cause ∧ q.skip.2.session.window.feed = q.session.window.feed) ↔
      ∃ limit actual, e = .requestSize limit actual := by
  have hs : (Standing.within p).session.Sound :=
    hhistory ▸ Standing.after_sound (Session.open?_sound hopen) history
  have hheld : (Standing.within p).Held :=
    hhistory ▸ Standing.after_held (Session.open?_sound hopen) (g := .between s) trivial history
  have hleft : p.session.window.failures ⊆ source.failures := by
    have hmoves := (Standing.between s).after_moves history
    rw [hhistory] at hmoves
    obtain ⟨-, rfl⟩ := Session.open?_ok hopen
    exact hmoves.failures
  have hleft' : p'.session.window.failures ⊆ source.failures := by
    have hmoves := (Standing.within p).act_moves c
    rw [Standing.call_eq_act] at hfailed
    rw [congrArg Prod.snd hfailed] at hmoves
    exact List.Subset.trans hmoves.failures hleft
  constructor
  · rintro ⟨hskip, -⟩
    -- any other cause would have to be told as that of an earlier failure
    cases e with
    | requestSize limit actual => exact ⟨limit, actual, rfl⟩
    | _ =>
      have hmoves := (Standing.within p').after_moves later
      rw [hlater] at hmoves
      have haborted : Error.aborted ∉ q.session.window.failures :=
        fun hmem => hplain _ (hleft' (hmoves.failures hmem)) trivial
      exact absurd hskip (q.skip_ne_aborted haborted)
  · rintro ⟨limit, actual, rfl⟩
    have hs' : (Standing.within p').session.Sound := by
      have hsound := Standing.call_sound hs c
      rwa [hfailed] at hsound
    have hheld' : (Standing.within p').Held := by
      have hcall := Standing.call_held hs hheld c
      rwa [hfailed] at hcall
    have hlatched : p'.session.Latched (.requestSize limit actual) :=
      (Standing.call_within_failed hs hfailed hfatal hkeep).latched
        fun _ _ hmem => hplain _ (hleft hmem) trivial
    have hsame := Standing.after_overrun hs' hheld' hlatched later
    have hq := Standing.after_held hs' hheld' later
    rw [hlater] at hsame hq
    have hl : q.session.Latched (.requestSize limit actual) := by
      rw [show q.session = p'.session from hsame]
      exact hlatched
    rw [OpenPart.Held.skip_overrun hq hl]
    exact ⟨rfl, rfl⟩

/-- There is a part at hand, and it passes this test. -/
def Standing.partSatisfies (test : OpenPart → Bool) : Standing → Bool
  | between _ => false
  | within p => test p

theorem Standing.exists_of_partSatisfies {g : Standing} (test : OpenPart → Bool)
    (h : g.partSatisfies test = true) : ∃ p, g = .within p ∧ test p = true := by
  cases g with
  | between s => cases h
  | within p => exact ⟨p, rfl, h⟩

/-- A transport that delivers more than a request may have within the content of its part. -/
def longContent : Source where
  transport := {
    segments := [.data (Utf8.encode "--B\r\n\r\nabc"), .data (Utf8.encode "defg\r\n--B--")] }

theorem skip_refused_iff_longContent :
    ∃ s p p' q, Session.open? longContent [66] { maxRequestSize := some 12 } = .ok s ∧
      (Standing.between s).after [.nextPart] = .within p ∧
      (Standing.within p).call (.read 8) = (.failed (.requestSize 12 21), .within p') ∧
      (Standing.within p').after [.skip, .read 2] = .within q ∧
      q.skip.1 = .error (.requestSize 12 21) ∧
      q.skip.2.session.window.feed = q.session.window.feed := by
  obtain ⟨s, hs⟩ : ∃ s, Session.open? longContent [66] { maxRequestSize := some 12 } = .ok s :=
    ⟨_, rfl⟩
  obtain ⟨p, hp, hread⟩ := Standing.exists_of_partSatisfies
    (g := (Standing.between s).after [.nextPart])
    (fun p => ((Standing.within p).call (.read 8)).1 = .failed (.requestSize 12 21)) (by
      cases hs
      decide +kernel)
  have hfailed : (Standing.within p).call (.read 8) =
      (.failed (.requestSize 12 21), .within (p.read 8).2) := Prod.ext (of_decide_eq_true hread) rfl
  obtain ⟨q, hq⟩ : ∃ q, (Standing.within (p.read 8).2).after [.skip, .read 2] = .within q := ⟨_, rfl⟩
  exact ⟨s, p, _, q, hs, hp, hfailed, hq,
    (skip_refused_iff hs (fun _ hf => nomatch hf) hp hfailed rfl (fun _ hd => nomatch hd) hq).2 ⟨12, 21, rfl⟩⟩

/-- After a transport failed within a content, a skip reads the rest of the content from it and
succeeds. -/
theorem skip_after_reset :
    ∃ s p q, Session.open? resetWithin [66] {} = .ok s ∧
      (Standing.between s).after [.nextPart] = .within p ∧
      (Standing.within p).call (.read 8) =
        (.failed (.io (.described .connectionReset "injected failure")), .within q) ∧
      q.skip.1 = .ok 3 ∧ q.session.progress.bytesRead < q.skip.2.session.progress.bytesRead := by
  obtain ⟨s, hs⟩ : ∃ s, Session.open? resetWithin [66] {} = .ok s := ⟨_, rfl⟩
  obtain ⟨p, hp, hrun⟩ := Standing.exists_of_partSatisfies
    (g := (Standing.between s).after [.nextPart])
    (fun p =>
      ((Standing.within p).call (.read 8)).1 =
          .failed (.io (.described .connectionReset "injected failure")) ∧
        (p.read 8).2.skip.1 = .ok 3 ∧
        (p.read 8).2.session.progress.bytesRead < (p.read 8).2.skip.2.session.progress.bytesRead) (by
      cases hs
      decide +kernel)
  obtain ⟨hfailed, hskip, hpulled⟩ := of_decide_eq_true hrun
  exact ⟨s, p, (p.read 8).2, hs, hp, Prod.ext hfailed rfl, hskip, hpulled⟩

end FormData
