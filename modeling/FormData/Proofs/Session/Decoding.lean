/-
What a body decodes to. A session hands out a list of parts, each with its content up to the next
delimiter, until an error stops it (`Session.Stops`); the body decodes to them if that is the end of the
body (`Session.Decodes`). No limit on files is asked for that: a part above the limit has a content all
the same, and a caller who does not insist on reading it gets past it. The parts are those of the
transcript without the limit, whatever the sizes of the reads (`stops_iff_transcript`).
-/
import FormData.Proofs.Request.AllOrNothing
import FormData.Proofs.Session.FileLimit

namespace FormData

/-! ## Content that was discarded -/

/-- What was discarded came first in what was pending. -/
theorem Window.discardFrom_ok {count total : Nat} {w w' : Window}
    (h : w.discardFrom count = (.ok total, w')) :
    ∃ content, total = count + content.length ∧ w.pending = content ++ w'.pending := by
  fun_induction discardFrom count w with
  | case1 count w n ha =>
    cases h
    refine ⟨w.unread.take n, ?_, ?_⟩
    · rw [List.length_take, Nat.min_eq_left (available_le_length ha)]
    · simp only [pending, pass]
      rw [← List.append_assoc, List.take_append_drop]
  | case2 => cases h
  | case3 count w n ha w'' hf _ ih =>
    obtain ⟨content, htotal, hpending⟩ := ih h
    have hfill := (refill_ok hf).1
    refine ⟨w.unread.take n ++ content, ?_, ?_⟩
    · rw [List.length_append, List.length_take, Nat.min_eq_left (available_le_length ha), htotal]
      omega
    · rw [List.append_assoc, ← hpending, hfill]
      simp only [pending, pass]
      rw [← List.append_assoc, List.take_append_drop]

/-! ## Parts within the limit on files -/

/-- Neither the content of the part nor the length it declares is above the limit on files, if there
is one. -/
def PartHead.Fits (limit : Option Nat) (part : PartHead × Bytes) : Prop :=
  ∀ most ∈ limit, part.2.length ≤ most ∧ ∀ declared ∈ part.1.headers.contentLength?, declared ≤ most

instance (limit : Option Nat) : DecidablePred (PartHead.Fits limit) := fun part => by
  unfold PartHead.Fits
  infer_instance

namespace OpenPart

variable {p q : OpenPart} {content content' : Bytes}

/-- A part has one content. -/
theorem Yields.unique (h : p.Yields content) (h' : p.Yields content') : content = content' := by
  obtain ⟨v, hd⟩ := h.ends
  obtain ⟨v', hd'⟩ := h'.ends
  have hlength : content.length = content'.length :=
    Except.ok.inj (congrArg Prod.fst (hd.symm.trans hd'))
  exact List.IsPrefix.eq_of_length
    (List.prefix_of_prefix_length_le h.ahead h'.ahead (Nat.le_of_eq hlength)) hlength

/-- A part that can be passed has a content. -/
theorem yields_of_settle (hreading : p.session.phase = .reading) (hunfinished : p.isFinished = false)
    {w : Window} (h : p.session.window.settle = (.ok (), w)) :
    ∃ content, (p.withFileLimit none).Yields content := by
  obtain ⟨n, hn⟩ := Window.discard_of_settle h
  obtain ⟨content, hlength, hpending⟩ := Window.discardFrom_ok hn
  rw [Nat.zero_add] at hlength
  exact ⟨content, hreading, hunfinished, rfl, nofun, ⟨_, hpending.symm⟩, w, hlength ▸ hn⟩

theorem Yields.withoutFileLimit (h : p.Yields content) : (p.withFileLimit none).Yields content where
  reading := h.reading
  unfinished := h.unfinished
  undeclared := rfl
  within := nofun
  ahead := h.ahead
  ends := h.ends

/-- The limit lets a part pass that fits, from its first byte on. -/
theorem Yields.withFileLimit (h : (p.withFileLimit none).Yields content) (hunread : p.bytesRead = 0)
    (hfits : PartHead.Fits p.session.settings.maxFileSize (p.head, content)) : p.Yields content where
  reading := h.reading
  unfinished := h.unfinished
  undeclared := by
    unfold declaredAbove?
    rcases hm : p.session.settings.maxFileSize with _ | most
    · rfl
    · rcases hl : p.head.headers.contentLength? with _ | declared
      · rfl
      · have hle := (hfits most hm).2 declared hl
        exact if_neg (by omega)
  within := by
    intro most hm
    have hle := (hfits most hm).1
    right
    simp only at hle
    omega
  ahead := h.ahead
  ends := h.ends

/-- Under the limit only a part that fits yields its content. -/
theorem Yields.fits (h : p.Yields content) (hunread : p.bytesRead = 0) :
    PartHead.Fits p.session.settings.maxFileSize (p.head, content) := by
  intro most hm
  refine ⟨?_, ?_⟩
  · obtain hnil | hle := h.within most hm
    · simp only [hnil, List.length_nil, Nat.zero_le]
    · rwa [hunread, Nat.zero_add] at hle
  · intro declared hl
    have hnone := h.undeclared
    unfold declaredAbove? at hnone
    rw [hm, hl] at hnone
    simp only [hunread, true_and, ite_eq_right_iff, reduceCtorEq, imp_false, Nat.not_lt] at hnone
    exact hnone

end OpenPart

/-! ## The parts of a body -/

namespace Session

/-- These parts are handed out from here on, if each is passed or read as far as the caller likes, and
then the search for the next one ends with this error, which is `exhausted` only behind the last part. -/
inductive Stops : Session → List (PartHead × Bytes) → Error → Prop
  | stop {s s' : Session} {e : Error} : s.nextPart = .error (e, s') →
    (e = .exhausted → s'.phase = .exhausted) → Stops s [] e
  | part {s t : Session} {p : OpenPart} {content : Bytes} {rest : List (PartHead × Bytes)} {e : Error} :
    s.nextPart = .ok p → (p.withFileLimit none).Yields content → p.session.Leaves t →
    Stops t rest e → Stops s ((p.head, content) :: rest) e

/-- These are the parts of the body. -/
abbrev Decodes (s : Session) (parts : List (PartHead × Bytes)) : Prop :=
  s.Stops parts .exhausted

variable {s t : Session} {p : OpenPart} {content : Bytes} {parts rest : List (PartHead × Bytes)}
  {e : Error}

theorem Stops.congr (h : s.Stops parts e) (hnext : t.nextPart = s.nextPart) : t.Stops parts e := by
  cases h with
  | stop hend hphase => exact .stop (hnext.trans hend) hphase
  | part hpart hyields hleaves hrest => exact .part (hnext.trans hpart) hyields hleaves hrest

/-- What is left of a part does not matter to the parts behind it. -/
theorem Stops.leaves {u : Session} (h : t.Stops parts e) (hreading : u.phase = .reading)
    (ht : u.Leaves t) (hs : u.Leaves s) : s.Stops parts e :=
  h.congr (nextPart_eq_of_hasNext ((hs.hasNext_eq hreading).trans (ht.hasNext_eq hreading).symm))

/-- The first part of a body, and what becomes of the rest. -/
theorem Stops.first {part : PartHead × Bytes} (h : s.Stops (part :: rest) e) :
    ∃ p, s.nextPart = .ok p ∧ p.head = part.1 ∧ (p.withFileLimit none).Yields part.2 ∧
      ∀ t, p.session.Leaves t → t.Stops rest e := by
  cases h with
  | part hpart hyields hleaves hrest =>
    exact ⟨_, hpart, rfl, hyields, fun t ht => hrest.leaves (nextPart_reading hpart) hleaves ht⟩

/-- One list of parts is handed out, up to one error. -/
theorem Stops.unique {parts' : List (PartHead × Bytes)} {e' : Error} (h : s.Stops parts e)
    (h' : s.Stops parts' e') : parts = parts' ∧ e = e' := by
  induction h generalizing parts' with
  | stop hend =>
    cases h' with
    | stop hend' =>
      cases hend.symm.trans hend'
      exact ⟨rfl, rfl⟩
    | part hpart => cases hend.symm.trans hpart
  | part hpart hyields hleaves _ ih =>
    cases h' with
    | stop hend => cases hend.symm.trans hpart
    | part hpart' hyields' hleaves' hrest' =>
      cases hpart.symm.trans hpart'
      obtain ⟨rfl, rfl⟩ := ih (hrest'.leaves (nextPart_reading hpart) hleaves' hleaves)
      exact ⟨by rw [hyields.unique hyields'], rfl⟩

/-! ## Parts of a transcript -/

section

variable {rooms : Nat → Nat → Nat} {count : Nat}

theorem transcriptFrom_congr (hnext : s.nextPart = t.nextPart) :
    s.transcriptFrom rooms count = t.transcriptFrom rooms count := by
  rcases ht : t.nextPart with ⟨e, t'⟩ | p
  · rw [transcriptFrom_error ht, transcriptFrom_error (hnext.trans ht)]
  · rcases hd : p.drain (rooms count) 0 with ⟨⟨content, _ | e⟩, q⟩
    · rw [transcriptFrom_part ht hd, transcriptFrom_part (hnext.trans ht) hd]
    · rw [transcriptFrom_broken ht hd, transcriptFrom_broken (hnext.trans ht) hd]

theorem nextPart_withFileLimit_ok (limit : Option Nat) (h : s.nextPart = .ok p) :
    (s.withFileLimit limit).nextPart = .ok (p.withFileLimit limit) := by
  rw [nextPart_withFileLimit, h]

/-- Without the limit on files, a part with a content comes first in the transcript, however the
session goes on. -/
theorem transcriptFrom_yields (hrooms : ∀ n i, 0 < rooms n i) (hpart : s.nextPart = .ok p)
    (hyields : (p.withFileLimit none).Yields content) (hleaves : p.session.Leaves t) :
    (s.withFileLimit none).transcriptFrom rooms count =
      (((t.withFileLimit none).transcriptFrom rooms (count + 1)).1.cons (p.head, content),
        ((t.withFileLimit none).transcriptFrom rooms (count + 1)).2) := by
  obtain ⟨q, hd, hq⟩ := hyields.drain (hrooms count) 0
  have hreading : (p.withFileLimit none).session.phase = .reading := hyields.reading
  have hsame := (hq.hasNext_eq hreading).trans ((hleaves.withFileLimit none).hasNext_eq hreading).symm
  rw [transcriptFrom_part (nextPart_withFileLimit_ok none hpart) hd,
    transcriptFrom_congr (nextPart_eq_of_hasNext hsame)]
  rfl

theorem Stops.transcript (h : s.Stops parts e) (hrooms : ∀ n i, 0 < rooms n i) (count : Nat) :
    ∃ s', (s.withFileLimit none).transcriptFrom rooms count = ({ parts, error := e }, s') ∧
      (e = .exhausted → s'.phase = .exhausted) := by
  induction h generalizing count with
  | @stop s s' e hend hphase =>
    exact ⟨s'.withFileLimit none, transcriptFrom_error (by rw [nextPart_withFileLimit, hend]), hphase⟩
  | part hpart hyields hleaves _ ih =>
    obtain ⟨s', htranscript, hphase⟩ := ih (count + 1)
    exact ⟨s', by rw [transcriptFrom_yields hrooms hpart hyields hleaves, htranscript]; rfl, hphase⟩

/-- By induction on the transcript: what was read to its end has a content, and is within the limit on
files if there is one. -/
theorem stops_of_transcript (hrooms : ∀ n i, 0 < rooms n i) {s' : Session}
    (h : s.transcriptFrom rooms count = ({ parts, error := e }, s'))
    (hphase : e = .exhausted → s'.phase = .exhausted) :
    s.Stops parts e ∧ ∀ part ∈ parts, PartHead.Fits s.settings.maxFileSize part := by
  fun_induction transcriptFrom rooms count s generalizing parts with
  | case1 count s e s' hs =>
    cases h
    exact ⟨.stop hs hphase, fun part hmem => absurd hmem List.not_mem_nil⟩
  | case2 => cases h
  | case3 count s p hs content p' hd _ u t' hu ih =>
    rcases u with ⟨rest, broken, error⟩
    cases h
    have hreading := nextPart_reading hs
    obtain ⟨hunread, hunfinished⟩ := nextPart_unread hs
    have hyields := OpenPart.yields_of_drain (hrooms count) hreading hunfinished hd
    obtain ⟨q', hd', hq'⟩ := hyields.drain (hrooms count) 0
    cases hd.symm.trans hd'
    obtain ⟨hrest, hfits⟩ := ih hu
    have hsettings := nextPart_settings hs
    refine ⟨.part hs hyields.withoutFileLimit hq' hrest, fun part hmem => ?_⟩
    rcases List.mem_cons.1 hmem with rfl | hmem
    · rw [← hsettings]
      exact hyields.fits hunread
    · rw [← hsettings, ← hq'.settings_eq]
      exact hfits part hmem

/-- By induction on the parts: the limit on files does not matter to a caller who does not insist. -/
theorem Stops.of_withFileLimit {limit : Option Nat} (h : (s.withFileLimit limit).Stops parts e) :
    s.Stops parts e := by
  induction parts generalizing s with
  | nil =>
    cases h with
    | stop hend hphase =>
      rw [nextPart_withFileLimit] at hend
      rcases hs : s.nextPart with ⟨e, s'⟩ | p <;> rw [hs] at hend <;> cases hend
      exact .stop hs hphase
  | cons part rest ih =>
    obtain ⟨head, content⟩ := part
    obtain ⟨q, hq, rfl, hyields, hrest⟩ := h.first
    rw [nextPart_withFileLimit] at hq
    rcases hs : s.nextPart with ⟨e, s'⟩ | p <;> rw [hs] at hq <;> cases hq
    exact .part (p := p) hs hyields (.refl _) (ih (hrest _ (.refl _)))

/-- The parts that are handed out are those a caller finds who reads each to its end without a limit on
files, by reads of any sizes. -/
theorem stops_iff_transcript (hrooms : ∀ n i, 0 < rooms n i) (count : Nat) :
    s.Stops parts e ↔ ∃ s', (s.withFileLimit none).transcriptFrom rooms count =
      ({ parts, error := e }, s') ∧ (e = .exhausted → s'.phase = .exhausted) := by
  constructor
  · exact fun h => h.transcript hrooms count
  · rintro ⟨s', h, hphase⟩
    exact (stops_of_transcript hrooms h hphase).1.of_withFileLimit

end

end Session

theorem Session.ofContentType?_settings {source : Source} {contentType : String} {settings : Settings}
    {s : Session} (h : ofContentType? source contentType settings = .ok s) : s.settings = settings := by
  unfold ofContentType? at h
  split at h
  · cases h
  · exact open?_settings h

theorem Session.ofContentType?_withFileLimit (limit : Option Nat) (source : Source)
    (contentType : String) (settings : Settings) :
    ofContentType? source contentType { settings with maxFileSize := limit } =
      (ofContentType? source contentType settings).map (·.withFileLimit limit) := by
  unfold ofContentType?
  split
  · rfl
  · exact open?_withFileLimit _ _ _ _

/-- A request has these parts without a limit on files when a session on it decodes to them. -/
theorem Request.hasParts_iff_decodes {rooms : Nat → Nat → Nat} (hrooms : ∀ n i, 0 < rooms n i)
    (source : Source) (contentType : String) (settings : Settings) (parts : List (PartHead × Bytes)) :
    HasParts rooms source contentType { settings with maxFileSize := none } parts ↔
      ∃ s, Session.ofContentType? source contentType settings = .ok s ∧ s.Decodes parts := by
  have hopen := Session.ofContentType?_withFileLimit none source contentType settings
  unfold HasParts
  rw [hopen]
  rcases Session.ofContentType? source contentType settings with e | s
  · simp [Except.map]
  · simp only [Except.map, Except.ok.injEq, exists_and_left, exists_eq_left']
    rw [Session.Decodes, Session.stops_iff_transcript hrooms 0]
    simp only [forall_const]

end FormData
