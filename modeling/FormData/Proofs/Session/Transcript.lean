/-
The transcript of a session: `nextPart` in turn with reading the part to its end, until `nextPart`
or a read fails. The sizes of the reads are the caller's choice, read by read; over a steady source
they do not show in the content, which ends at the first delimiter (`drain_reads`).
-/
import FormData.Proofs.Body.Reading
import FormData.Proofs.Session.Consumption

namespace FormData

/-! ## Reading everything -/

/-- Reads a part to its end, the reads having room as `rooms` says from number `count` on: the
content handed out, and the error that broke it off. -/
def OpenPart.drain (rooms : Nat → Nat) (count : Nat) (p : OpenPart) :
    (Bytes × Option Error) × OpenPart :=
  match h : p.read (rooms count) with
  | (.error e, p') => (([], some e), p')
  | (.ok [], p') => (([], none), p')
  | (.ok (b :: bytes), p') =>
    have := read_left_lt h
    match p'.drain rooms (count + 1) with
    | ((content, failure), p'') => ((b :: bytes ++ content, failure), p'')
termination_by p.session.left

theorem OpenPart.left_drain_le (rooms : Nat → Nat) (count : Nat) (p : OpenPart) :
    (p.drain rooms count).2.session.left ≤ p.session.left := by
  fun_induction drain rooms count p with
  | case1 count p e p' h =>
    have := left_read_le p (rooms count)
    rwa [h] at this
  | case2 count p p' h =>
    have := left_read_le p (rooms count)
    rwa [h] at this
  | case3 count p b bytes p' h hlt content failure p'' hd ih =>
    rw [hd] at ih
    exact Nat.le_trans ih (Nat.le_of_lt hlt)

theorem OpenPart.drain_phase (rooms : Nat → Nat) (count : Nat) (p : OpenPart) :
    (p.drain rooms count).2.session.phase = p.session.phase ∨
      (p.drain rooms count).2.session.phase = .failed := by
  fun_induction drain rooms count p with
  | case1 count p e p' h =>
    have := (p.read_scanned (rooms count)).phase
    rwa [h] at this
  | case2 count p p' h =>
    have := (p.read_scanned (rooms count)).phase
    rwa [h] at this
  | case3 count p b bytes p' h _ content failure p'' hd ih =>
    have := (p.read_scanned (rooms count)).phase
    rw [h] at this
    rw [hd] at ih
    obtain hsame | hfailed := ih
    · rw [hsame]
      exact this
    · exact .inr hfailed

theorem OpenPart.drain_moves (rooms : Nat → Nat) (count : Nat) (p : OpenPart) :
    p.Moves (p.drain rooms count).2 := by
  fun_induction drain rooms count p with
  | case1 count p e p' h =>
    have := p.read_moves (rooms count)
    rwa [h] at this
  | case2 count p p' h =>
    have := p.read_moves (rooms count)
    rwa [h] at this
  | case3 count p b bytes p' h _ content failure p'' hd ih =>
    have := p.read_moves (rooms count)
    rw [h] at this
    rw [hd] at ih
    exact this.trans ih

/-- All that a session gives a caller who reads every part. -/
structure Transcript where
  /-- The parts that were read to their end, with their content. -/
  parts : List (PartHead × Bytes)
  /-- The part whose content broke off, with what came of it. -/
  broken : Option (PartHead × Bytes) := none
  /-- `exhausted` behind the last part, else the error met there or within the part that broke off. -/
  error : Error
  deriving DecidableEq

def Transcript.cons (part : PartHead × Bytes) (t : Transcript) : Transcript :=
  { t with parts := part :: t.parts }

namespace Session

/-- The transcript from here on, and the session then. Read number `i` of part number `n` has room
for `rooms n i` bytes, parts being counted from `count` on. -/
def transcriptFrom (rooms : Nat → Nat → Nat) (count : Nat) (s : Session) : Transcript × Session :=
  match h : s.nextPart with
  | .error (e, s') => ({ parts := [], error := e }, s')
  | .ok p =>
    match hd : p.drain (rooms count) 0 with
    | ((content, some e), p') => ({ parts := [], broken := some (p.head, content), error := e }, p'.session)
    | ((content, none), p') =>
      have : p'.session.left < s.left := by
        have h1 := OpenPart.left_drain_le (rooms count) 0 p
        rw [hd] at h1
        exact Nat.lt_of_le_of_lt h1 (nextPart_left_lt h)
      match transcriptFrom rooms (count + 1) p'.session with
      | (t, s') => (t.cons (p.head, content), s')
termination_by s.left

section

variable {rooms : Nat → Nat → Nat} {count : Nat} {s s' : Session} {p p' : OpenPart} {e : Error}
  {content : Bytes}

theorem transcriptFrom_error (h : s.nextPart = .error (e, s')) :
    s.transcriptFrom rooms count = ({ parts := [], error := e }, s') := by
  rw [transcriptFrom]
  split
  · rename_i h'
    cases h.symm.trans h'
    rfl
  · rename_i h'
    cases h.symm.trans h'

theorem transcriptFrom_broken (h : s.nextPart = .ok p)
    (hd : p.drain (rooms count) 0 = ((content, some e), p')) :
    s.transcriptFrom rooms count =
      ({ parts := [], broken := some (p.head, content), error := e }, p'.session) := by
  rw [transcriptFrom]
  split
  · rename_i h'
    cases h.symm.trans h'
  · rename_i h'
    cases h.symm.trans h'
    split
    · rename_i hd'
      cases hd.symm.trans hd'
      rfl
    · rename_i hd'
      cases hd.symm.trans hd'

theorem transcriptFrom_part (h : s.nextPart = .ok p)
    (hd : p.drain (rooms count) 0 = ((content, none), p')) :
    s.transcriptFrom rooms count =
      ((p'.session.transcriptFrom rooms (count + 1)).1.cons (p.head, content),
        (p'.session.transcriptFrom rooms (count + 1)).2) := by
  rw [transcriptFrom]
  split
  · rename_i h'
    cases h.symm.trans h'
  · rename_i h'
    cases h.symm.trans h'
    split
    · rename_i hd'
      cases hd.symm.trans hd'
    · rename_i hd'
      cases hd.symm.trans hd'
      rfl

/-- Where a part breaks off, the session is not at the end of its body. -/
theorem phase_of_broken (h : s.nextPart = .ok p)
    (hd : p.drain (rooms count) 0 = ((content, some e), p')) : p'.session.phase ≠ .exhausted := by
  have hphase := p.drain_phase (rooms count) 0
  rw [hd, nextPart_reading h] at hphase
  obtain hreading | hfailed := hphase
  · rw [hreading]
    nofun
  · rw [hfailed]
    nofun

/-- By induction on the parts: the transcript tells the end only behind the end of the body, unless the source
says so itself. -/
theorem transcriptFrom_ended {parts : List (PartHead × Bytes)} (hplain : .exhausted ∉ s.window.failures)
    (h : s.transcriptFrom rooms count = ({ parts, error := .exhausted }, s')) : s'.phase = .exhausted := by
  fun_induction transcriptFrom rooms count s generalizing parts with
  | case1 count s e t hs =>
    cases h
    obtain ⟨-, hphase, -⟩ | ⟨hn, -⟩ := nextPart_error_cases hs
    · exact hphase
    · obtain hraised | hfatal := (hasNext_error hn).2
      · exact absurd hraised hplain
      · cases hfatal
  | case2 => cases h
  | case3 count s p hs content p' hd _ u t hu ih =>
    obtain ⟨rest, broken, error⟩ := u
    cases h
    have hm := p.drain_moves (rooms count) 0
    rw [hd] at hm
    exact ih (fun he => nextPart_failures hs (P := (· ≠ .exhausted)) (fun e he h => hplain (h ▸ he)) _
      (hm.failures he) rfl) hu

end

/-! ## Searches, delimiter by delimiter -/

theorem locate_of_stop {s s' : Session} {r : Except Error Bool} (h : s.turn = (.stop r, s')) :
    s.locate = (r, s') := by
  rw [locate]
  split
  · rename_i h'
    cases h.symm.trans h'
    rfl
  · rename_i h'
    cases h.symm.trans h'

theorem locate_of_again {s s' : Session} (h : s.turn = (.again, s')) : s.locate = s'.locate := by
  rw [locate]
  split
  · rename_i h'
    cases h.symm.trans h'
  · rename_i h'
    cases h.symm.trans h'
    rfl

/-! ## Steady sessions -/

/-- A session that only its body, the limit of a header block and that of the parts can stop. -/
structure Steady (s : Session) : Prop where
  window : s.window.Steady
  atStart : s.window.atStart = false
  boundary : s.boundary ≠ []
  room : s.boundary.length + 4 < s.window.capacity
  unlimited : s.settings.maxFileSize = none

theorem Steady.onward {s : Session} (h : s.Steady) {w : Window} (ho : s.window.Onward w) :
    ({ s with window := w } : Session).Steady :=
  ⟨ho.steady, ho.atStart.trans h.atStart, h.boundary, ho.capacity ▸ h.room, h.unlimited⟩

/-- Whether a part is at hand does not matter. -/
theorem Steady.placed {s : Session} (h : s.Steady) (preamble : Bool) (phase : Phase) :
    ({ s with preamble, phase } : Session).Steady :=
  ⟨h.window, h.atStart, h.boundary, h.room, h.unlimited⟩

/-- No part is located, and either nothing was read yet or a part was handed out. -/
def Waiting (s : Session) : Prop :=
  s.phase = .start ∧ s.preamble = true ∨ s.phase = .reading

theorem Waiting.hasNext_ok {s s' : Session} (h : s.Waiting) {more : Bool}
    (ha : s.advance = (.ok more, s')) : s.hasNext = (.ok more, s') := by
  unfold hasNext
  rcases h with ⟨hphase, -⟩ | hphase
  · simp only [hphase, ha]
  · simp only [hphase, ha]

theorem Waiting.hasNext_error {s s' : Session} (h : s.Waiting) {e : Error}
    (ha : s.advance = (.error e, s')) : s.hasNext = (.error e, s'.afterError e) := by
  unfold hasNext
  rcases h with ⟨hphase, -⟩ | hphase
  · simp only [hphase, ha]
  · simp only [hphase, ha]

end Session

/-! ## Ways to read a body -/

/-- One way to read a body: where it comes from, under which settings, and by reads of which
sizes. -/
structure Approach where
  source : Source
  settings : Settings
  rooms : Nat → Nat → Nat

namespace Approach

/-- The transcript of a session on a body with this boundary, and the session at its end. -/
def run (a : Approach) (boundary : Bytes) : Except Error (Transcript × Session) :=
  (Session.open? a.source boundary a.settings).map (·.transcriptFrom a.rooms 0)

/-- The whole body is delivered, to a window that holds its boundary, and no limit is set on the body
or on the files in it. -/
structure Suits (a : Approach) (body boundary : Bytes) : Prop where
  source : a.source.Steady
  pending : a.source.pending = body
  nonempty : boundary ≠ []
  room : boundary.length + 4 < a.settings.windowSize
  maxRequestSize : a.settings.maxRequestSize = none
  maxFileSize : a.settings.maxFileSize = none
  rooms : ∀ n i, 0 < a.rooms n i

/-- The session opened on a body with this boundary. -/
def opened (a : Approach) (boundary : Bytes) : Session where
  window := {
    feed := {
      source := a.source
      account := {
        contentLength := a.source.declared
        maxParts := a.settings.maxParts
        listening := a.settings.listening } }
    capacity := a.settings.windowSize
    boundary }
  boundary
  settings := a.settings

namespace Suits

variable {a : Approach} {body boundary : Bytes}

theorem open_eq (h : a.Suits body boundary) :
    Session.open? a.source boundary a.settings = .ok (a.opened boundary) := by
  have hcheck : Window.checkBoundary boundary a.settings.windowSize = .ok () :=
    Window.checkBoundary_eq_ok h.nonempty h.room
  simp only [Session.open?, Account.open?, Window.open?, h.maxRequestSize, hcheck]
  rfl

theorem run_eq (h : a.Suits body boundary) :
    a.run boundary = .ok ((a.opened boundary).transcriptFrom a.rooms 0) := by
  rw [run, h.open_eq]
  rfl

theorem steady (h : a.Suits body boundary) : (a.opened boundary).Steady :=
  ⟨⟨⟨h.source, rfl, rfl⟩, h.room⟩, rfl, h.nonempty, h.room, h.maxFileSize⟩

theorem opened_pending (h : a.Suits body boundary) : (a.opened boundary).pending = body :=
  h.pending

end Suits

end Approach

/-! ## Parts read to their end -/

namespace OpenPart

/-- A part that is not finished, without a limit on files. -/
structure Unlimited (p : OpenPart) : Prop where
  reading : p.session.phase = .reading
  unfinished : p.isFinished = false
  unlimited : p.session.settings.maxFileSize = none

namespace Unlimited

variable {p : OpenPart} {room : Nat} {w : Window}

/-- Without a limit on files, a read is a stretch of content of the window. -/
theorem read_eq (h : p.Unlimited) (room : Nat) : p.read room = p.readContent room := by
  have hdeclared : p.declaredAbove? = none := by
    unfold declaredAbove?
    rw [h.unlimited]
  rw [read_unfinished (by rw [h.reading]; nofun) h.unfinished, hdeclared]

theorem read_error (h : p.Unlimited) {e : Error} (ht : p.session.window.take room = (.error e, w)) :
    p.read room =
      (.error e, { p with session := ({ p.session with window := w } : Session).afterError e }) := by
  rw [h.read_eq, readContent, ht]

theorem read_nil (h : p.Unlimited) (ht : p.session.window.take room = (.ok [], w)) :
    p.read room =
      (.ok [], { p with session := { p.session with window := w }, isFinished := true }) := by
  rw [h.read_eq, readContent_nil ht]

theorem read_cons (h : p.Unlimited) {b : UInt8} {bytes : Bytes}
    (ht : p.session.window.take room = (.ok (b :: bytes), w)) :
    p.read room =
      (.ok (b :: bytes), { p with
        session := { p.session with window := w }
        bytesRead := p.bytesRead + (b :: bytes).length }) := by
  rw [h.read_eq, readContent, ht]
  simp only [List.isEmpty_cons, Bool.false_eq_true, if_false, h.unlimited]

/-- A part stays so while it is read. -/
theorem read_ok (h : p.Unlimited) (w : Window) (bytesRead : Nat) :
    ({ p with session := { p.session with window := w }, bytesRead } : OpenPart).Unlimited :=
  ⟨h.reading, h.unfinished, h.unlimited⟩

end Unlimited

/-- A part just handed out, of a steady session. -/
structure Fresh (p : OpenPart) : Prop where
  steady : p.session.Steady
  reading : p.session.phase = .reading
  unfinished : p.isFinished = false

namespace Fresh

variable {p : OpenPart} {room : Nat}

theorem unlimited (h : p.Fresh) : p.Unlimited := ⟨h.reading, h.unfinished, h.steady.unlimited⟩

/-- The three outcomes of a read with room. -/
theorem read_reads (h : p.Fresh) (hroom : 0 < room) :
    match p.session.window.ahead with
    | (n + 1, _) => ∃ b bytes w, p.read room = (.ok (b :: bytes), { p with
          session := { p.session with window := w }
          bytesRead := p.bytesRead + (b :: bytes).length }) ∧
        p.session.pending = b :: bytes ++ w.pending ∧ bytes.length ≤ n ∧ p.session.window.Onward w
    | (0, true) => ∃ w, p.read room =
          (.ok [], { p with session := { p.session with window := w }, isFinished := true }) ∧
        w.pending = p.session.pending ∧ p.session.window.Onward w ∧ w.AtDelimiter
    | (0, false) => ∃ p', p.read room = (.error (.malformed .endedEarly), p') := by
  have ht := Window.take_reads h.steady.window hroom
  rcases ha : p.session.window.ahead with ⟨_ | n, _ | _⟩ <;> rw [ha] at ht
  · obtain ⟨w, ht, -⟩ := ht
    exact ⟨_, h.unlimited.read_error ht⟩
  · obtain ⟨w, ht, ho⟩ := ht
    exact ⟨w, h.unlimited.read_nil ht, (Window.take_ok ht).symm, ho, Window.take_atDelimiter hroom ht⟩
  all_goals
    obtain ⟨b, bytes, w, ht, hlen, ho⟩ := ht
    exact ⟨b, bytes, w, h.unlimited.read_cons ht, Window.take_ok ht, hlen, ho⟩

end Fresh

/-- Reading to the end gives the content ahead, whatever the sizes of the reads. If a delimiter ends
it, the window stands on that then; else the body has ended. -/
theorem drain_reads {rooms : Nat → Nat} (hrooms : ∀ i, 0 < rooms i) (count : Nat) {p : OpenPart}
    (h : p.Fresh) :
    match p.session.window.ahead with
    | (n, true) => ∃ p' w, p.drain rooms count = ((p.session.pending.take n, none), p') ∧
        p'.session = { p.session with window := w } ∧ w.pending = p.session.pending.drop n ∧
        p.session.window.Onward w ∧ w.AtDelimiter
    | (n, false) => ∃ p', p.drain rooms count =
        ((p.session.pending.take n, some (.malformed .endedEarly)), p') := by
  fun_induction drain rooms count p with
  | case1 count p e p' hr =>
    have hread := h.read_reads (hrooms count)
    rcases ha : p.session.window.ahead with ⟨_ | n, _ | _⟩ <;> rw [ha] at hread
    · obtain ⟨p'', hread⟩ := hread
      cases hr.symm.trans hread
      exact ⟨p', rfl⟩
    · obtain ⟨w, hread, -⟩ := hread
      cases hr.symm.trans hread
    all_goals
      obtain ⟨b, bytes, w, hread, -⟩ := hread
      cases hr.symm.trans hread
  | case2 count p p' hr =>
    have hread := h.read_reads (hrooms count)
    rcases ha : p.session.window.ahead with ⟨_ | n, _ | _⟩ <;> rw [ha] at hread
    · obtain ⟨p'', hread⟩ := hread
      cases hr.symm.trans hread
    · obtain ⟨w, hread, hp, ho, hat⟩ := hread
      cases hr.symm.trans hread
      exact ⟨_, w, rfl, rfl, hp, ho, hat⟩
    all_goals
      obtain ⟨b, bytes, w, hread, -⟩ := hread
      cases hr.symm.trans hread
  | case3 count p b bytes p' hr _ content failure p'' hd ih =>
    have hread := h.read_reads (hrooms count)
    rcases ha : p.session.window.ahead with ⟨_ | n, found⟩ <;> rw [ha] at hread
    · cases found
      · obtain ⟨p'', hread⟩ := hread
        cases hr.symm.trans hread
      · obtain ⟨w, hread, -⟩ := hread
        cases hr.symm.trans hread
    · obtain ⟨b', bytes', w, hread, hp, hlen, ho⟩ := hread
      cases hr.symm.trans hread
      -- what was handed out is the front of the content, and the rest of it is ahead now
      have hahead : w.ahead = (n - bytes.length, found) := by
        have hdrop : w.pending = p.session.window.pending.drop (bytes.length + 1) := by
          rw [show p.session.window.pending = _ from hp]; simp
        rw [Window.ahead, hdrop, ho.pattern, show n - bytes.length = n + 1 - (bytes.length + 1) by omega]
        exact Bytes.before_drop ha (by omega)
      have htake : p.session.pending.take (n + 1) = b :: bytes ++ w.pending.take (n - bytes.length) := by
        rw [hp, List.take_append, List.take_of_length_le (by simp; omega)]
        simp
      have hdrop : p.session.pending.drop (n + 1) = w.pending.drop (n - bytes.length) := by
        rw [hp, List.drop_append, List.drop_of_length_le (by simp; omega)]
        simp
      have ih := ih ⟨h.steady.onward ho, h.reading, h.unfinished⟩
      simp only [hahead] at ih
      cases found with
      | true =>
        obtain ⟨p3, w3, hd3, hs3, hp3, ho3, hat3⟩ := ih
        cases hd.symm.trans hd3
        exact ⟨_, w3, by rw [htake]; rfl, hs3, by rw [hdrop]; exact hp3, ho.trans ho3, hat3⟩
      | false =>
        obtain ⟨p3, hd3⟩ := ih
        cases hd.symm.trans hd3
        exact ⟨_, by rw [htake]; rfl⟩

end OpenPart

end FormData
