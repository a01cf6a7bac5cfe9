/-
What a caller does with a part does not show in what comes after it. Reading, skipping and dropping
a part, or running into the limit on files, all leave the session where passing the rest of the part
leads to one and the same window (`use_leaves`), so the next call of `hasNext` or `nextPart` gives
the same whatever was done before (`Leaves.hasNext_eq`); an error that ends the session on the way is
met by one or the other. What a source carries to the reader may be an error that does not end the
session, and that a caller who goes on would not meet twice, so sources that raise such errors are left
out where runs are compared (`survey_eq`).
-/
import FormData.Proofs.Body.Settling
import FormData.Proofs.Session.Moves

namespace FormData

/-! ## Uses of a part -/

/-- One thing a caller may do with a part. -/
inductive Use where
  | read (room : Nat)
  | skip
  deriving DecidableEq, Repr

namespace OpenPart

/-- One use, for what it does to the part and the error it may end in. -/
def use (p : OpenPart) : Use → Except Error Unit × OpenPart
  | .read room =>
    match p.read room with
    | (.error e, p') => (.error e, p')
    | (.ok _, p') => (.ok (), p')
  | .skip =>
    match p.skip with
    | (.error e, p') => (.error e, p')
    | (.ok _, p') => (.ok (), p')

/-- One use after the other, until an error ends the session. -/
def useAll (p : OpenPart) : List Use → Except Error Unit × OpenPart
  | [] => (.ok (), p)
  | u :: us =>
    match p.use u with
    | (.error e, p') => if e.isFatal then (.error e, p') else p'.useAll us
    | (.ok (), p') => p'.useAll us

theorem left_use_le (p : OpenPart) (u : Use) : (p.use u).2.session.left ≤ p.session.left := by
  cases u with
  | read room =>
    have hle := left_read_le p room
    rcases hr : p.read room with ⟨e | bytes, p'⟩
    all_goals
      rw [hr] at hle
      simp only [use, hr]
      exact hle
  | skip =>
    have hle := left_skip_le p
    rcases hr : p.skip with ⟨e | count, p'⟩
    all_goals
      rw [hr] at hle
      simp only [use, hr]
      exact hle

theorem left_useAll_le (p : OpenPart) (us : List Use) :
    (p.useAll us).2.session.left ≤ p.session.left := by
  induction us generalizing p with
  | nil => exact Nat.le_refl _
  | cons u us ih =>
    have hu := left_use_le p u
    unfold useAll
    split
    · rename_i e p' h
      rw [h] at hu
      split
      · exact hu
      · exact Nat.le_trans (ih p') hu
    · rename_i p' h
      rw [h] at hu
      exact Nat.le_trans (ih p') hu

end OpenPart

/-! ## What is left behind -/

namespace Session

/-- `t` is `s` with more of the part read, and passing the rest of it leads to the same. -/
def Leaves (s t : Session) : Prop :=
  ∃ w, t = { s with window := w } ∧ w.settle = s.window.settle

theorem Leaves.refl (s : Session) : s.Leaves s := ⟨s.window, rfl, rfl⟩

theorem Leaves.trans {s t u : Session} (h1 : s.Leaves t) (h2 : t.Leaves u) : s.Leaves u := by
  obtain ⟨w, rfl, hw⟩ := h1
  obtain ⟨v, rfl, hv⟩ := h2
  exact ⟨v, rfl, hv.trans hw⟩

theorem Leaves.settings_eq {s t : Session} (h : s.Leaves t) : t.settings = s.settings := by
  obtain ⟨w, rfl, -⟩ := h
  rfl

theorem advance_eq_settle {s : Session} (h : s.phase = .reading) :
    s.advance = match s.window.settle with
      | (.error e, window) => (.error e, { s with window })
      | (.ok (), window) => ({ s with window } : Session).locate := by
  unfold advance
  simp only [h]
  split
  · rename_i hd
    rw [Window.settle_of_discard_error hd]
  · rename_i hd
    rw [Window.settle_of_discard hd]

theorem advance_eq_locate {s : Session} (h : s.phase ≠ .reading) : s.advance = s.locate := by
  unfold advance
  split
  · rename_i hphase
    exact absurd hphase h
  · rfl

/-- What comes after the part does not depend on how much of it was read. -/
theorem Leaves.hasNext_eq {s t : Session} (h : s.Leaves t) (hs : s.phase = .reading) :
    t.hasNext = s.hasNext := by
  obtain ⟨w, rfl, hw⟩ := h
  have hadvance : ({ s with window := w } : Session).advance = s.advance := by
    rw [advance_eq_settle hs, advance_eq_settle (s := { s with window := w }) hs, hw]
  unfold hasNext
  rw [hadvance]
  simp only [hs]

/-- An error met while the rest of a part is passed is that of `hasNext`. -/
theorem hasNext_of_settle_error {s : Session} {e : Error} {w : Window} (hs : s.phase = .reading)
    (h : s.window.settle = (.error e, w)) :
    ∃ s', s.hasNext = (.error e, s') := by
  unfold hasNext
  simp only [hs, advance_eq_settle hs, h]
  exact ⟨_, rfl⟩

end Session

namespace OpenPart

/-- A read of a part that is not finished looks at its declared length, then at its content. -/
theorem read_unfinished {p : OpenPart} (hlive : p.session.phase ≠ .failed)
    (hf : p.isFinished = false) (room : Nat) :
    p.read room = match p.declaredAbove? with
      | some (limit, declared) => p.refuseSize limit fun _ => declared
      | none => p.readContent room := by
  unfold read
  split
  · rename_i hphase
    exact absurd hphase hlive
  · exact if_neg (by rw [hf]; exact Bool.false_ne_true)

theorem readContent_nil {p : OpenPart} {room : Nat} {w : Window}
    (ht : p.session.window.take room = (.ok [], w)) :
    p.readContent room =
      (.ok [], { p with session := { p.session with window := w }, isFinished := true }) := by
  rw [readContent, ht]
  rfl

/-- How an operation on a part may end: by an error that passing the rest of the part meets as well,
or with the rest left to be passed. -/
def Outcome {α : Type} (p : OpenPart) : Except Error α × OpenPart → Prop
  | (.error e, p') =>
    (e.IsOfReading p.session.window.failures ∧ ∃ w, p.session.window.settle = (.error e, w)) ∨
      (e.isFatal = false ∧ p.session.Leaves p'.session)
  | (.ok _, p') => p.session.Leaves p'.session

theorem Outcome.after {α : Type} {p q : OpenPart} {x : Except Error α × OpenPart} (h : q.Outcome x)
    (hl : p.session.Leaves q.session) (hm : p.Moves q) : p.Outcome x := by
  have hsettle : q.session.window.settle = p.session.window.settle := by
    obtain ⟨w, hq, hw⟩ := hl
    rw [hq]
    exact hw
  obtain ⟨r, p'⟩ := x
  cases r with
  | error e =>
    rcases h with ⟨hreading, w, hw⟩ | ⟨hfatal, hleaves⟩
    · exact .inl ⟨hreading.mono hm.failures, w, hsettle ▸ hw⟩
    · exact .inr ⟨hfatal, hl.trans hleaves⟩
  | ok a => exact Session.Leaves.trans hl h

theorem discardRest_outcome (p : OpenPart) : p.Outcome p.discardRest := by
  unfold discardRest
  split
  · rename_i hd
    exact .inl ⟨Window.discard_error_isOfReading hd, _, Window.settle_of_discard_error hd⟩
  · rename_i hd
    exact ⟨_, rfl, (Window.settled_of_discardFrom hd).trans (Window.settle_of_discard hd).symm⟩

theorem refuseSize_outcome (p : OpenPart) (limit : Nat) (actual : Nat → Nat) :
    p.Outcome (p.refuseSize limit actual) := by
  have h := p.discardRest_outcome
  unfold refuseSize
  split
  · rename_i hd
    rw [hd] at h
    exact h
  · rename_i hd
    rw [hd] at h
    exact .inr ⟨rfl, h⟩

theorem readContent_outcome (p : OpenPart) (room : Nat) : p.Outcome (p.readContent room) := by
  unfold readContent
  split
  · rename_i ht
    exact .inl ⟨Window.take_error_isOfReading ht, _, Window.settle_of_take_error ht⟩
  · -- a read that runs into the limit on files discards the rest on top of what it took
    rename_i bytes window ht
    have hleaves : p.session.Leaves { p.session with window } := ⟨_, rfl, Window.take_settle ht⟩
    have hmoves : p.session.window.Moves window := by
      have htake := (p.session.window.take_advances room).moves
      rwa [ht] at htake
    simp only
    split
    · exact hleaves
    · split
      · split
        · exact Outcome.after (refuseSize_outcome _ _ _) hleaves hmoves
        · exact hleaves
      · exact hleaves

theorem read_outcome {p : OpenPart} (h : p.session.phase = .reading) (room : Nat) :
    p.Outcome (p.read room) := by
  unfold read
  simp only [h]
  split
  · exact Session.Leaves.refl _
  · split
    · exact refuseSize_outcome _ _ _
    · exact readContent_outcome _ _

theorem skip_outcome (p : OpenPart) : p.Outcome p.skip := by
  unfold skip
  split
  · exact Session.Leaves.refl _
  · exact discardRest_outcome p

theorem use_outcome {p : OpenPart} (h : p.session.phase = .reading) (u : Use) :
    p.Outcome (p.use u) := by
  cases u with
  | read room =>
    have hread := read_outcome h room
    rcases hr : p.read room with ⟨e | bytes, p'⟩
    all_goals
      rw [hr] at hread
      simp only [use, hr]
      exact hread
  | skip =>
    have hskip := skip_outcome p
    rcases hr : p.skip with ⟨e | count, p'⟩
    all_goals
      rw [hr] at hskip
      simp only [use, hr]
      exact hskip

theorem use_moves (p : OpenPart) (u : Use) : p.Moves (p.use u).2 := by
  cases u with
  | read room =>
    have hread := p.read_moves room
    rcases hr : p.read room with ⟨e | bytes, q⟩
    all_goals
      rw [hr] at hread
      simp only [use, hr]
      exact hread
  | skip =>
    have hskip := p.skip_scanned.moves
    rcases hr : p.skip with ⟨e | count, q⟩
    all_goals
      rw [hr] at hskip
      simp only [use, hr]
      exact hskip

theorem useAll_moves (p : OpenPart) (us : List Use) : p.Moves (p.useAll us).2 := by
  induction us generalizing p with
  | nil => exact .refl
  | cons u us ih =>
    have hu := p.use_moves u
    unfold useAll
    rcases hr : p.use u with ⟨e | ⟨⟩, q⟩ <;> rw [hr] at hu
    · simp only
      split
      · exact hu
      · exact hu.trans (ih q)
    · exact hu.trans (ih q)

/-- By induction on the uses: each leaves the answer of `hasNext` as it was, or meets its error. -/
theorem useAll_hasNext {p : OpenPart} (h : p.session.phase = .reading)
    (hends : ∀ e ∈ p.session.window.failures, e.isFatal = true) (us : List Use) :
    match p.useAll us with
    | (.error e, _) => ∃ s, p.session.hasNext = (.error e, s)
    | (.ok (), p') => p'.session.hasNext = p.session.hasNext := by
  induction us generalizing p with
  | nil => rfl
  | cons u us ih =>
    -- a use that ends nothing leaves the rest of the part, and what `hasNext` says of it
    have hgo : ∀ p' : OpenPart, p.session.Leaves p'.session → p.Moves p' →
        match p'.useAll us with
        | (.error e, _) => ∃ s, p.session.hasNext = (.error e, s)
        | (.ok (), p'') => p''.session.hasNext = p.session.hasNext := by
      intro p' hl hm
      have hnext := hl.hasNext_eq h
      obtain ⟨w, hp', -⟩ := hl
      have hrest := ih (p := p') (by rw [hp']; exact h) fun e he => hends e (hm.failures he)
      rw [hnext] at hrest
      exact hrest
    have hu := use_outcome h u
    have hm := p.use_moves u
    unfold useAll
    rcases hr : p.use u with ⟨e | ⟨⟩, p'⟩ <;> rw [hr] at hu hm
    · rcases hu with ⟨hreading, w, hw⟩ | ⟨hfatal, hl⟩
      · simp only [hreading.isFatal hends, if_true]
        exact Session.hasNext_of_settle_error h hw
      · simp only [hfatal, Bool.false_eq_true, if_false]
        exact hgo p' hl hm
    · exact hgo p' hu hm

end OpenPart

/-! ## Asking more than once -/

namespace Session

/-- The session stands where `hasNext` gave this answer. -/
def Answered (s : Session) : Bool → Prop
  | true => ∃ head, s.phase = .located head
  | false => s.phase = .exhausted

variable {s s' : Session} {more : Bool}

theorem leaveBody_answered (h : s.leaveBody = (.stop (.ok more), s')) : s'.Answered more := by
  unfold leaveBody at h
  split at h
  · cases h
    rfl
  · split at h
    · cases h
    · split at h <;> cases h

theorem locatePart_answered {headers : Headers}
    (h : s.locatePart headers = (.stop (.ok more), s')) : s'.Answered more := by
  unfold locatePart at h
  simp only at h
  split at h
  · split at h <;> cases h
  · split at h
    · cases h
    · cases h
      exact ⟨_, rfl⟩

theorem turn_answered (h : s.turn = (.stop (.ok more), s')) : s'.Answered more := by
  unfold turn at h
  split at h
  · cases h
  · exact leaveBody_answered h
  · unfold openPart at h
    split at h
    · cases h
    · unfold enterPart at h
      split at h
      · cases h
      · split at h <;> cases h
      · exact locatePart_answered h

theorem locate_answered (h : s.locate = (.ok more, s')) : s'.Answered more := by
  fun_induction locate s with
  | case1 s r s'' ht =>
    cases h
    exact turn_answered ht
  | case2 s s'' ht _ ih => exact ih h

theorem hasNext_answered (h : s.hasNext = (.ok more, s')) : s'.Answered more := by
  unfold hasNext at h
  split at h
  · cases h
    exact ⟨_, by assumption⟩
  · cases h
    assumption
  · cases h
  all_goals
    split at h
    · cases h
    · rename_i ha
      cases h
      unfold advance at ha
      split at ha
      · split at ha
        · cases ha
        · exact locate_answered ha
      · exact locate_answered ha

/-- Asking again changes nothing. -/
theorem hasNext_hasNext (h : s.hasNext = (.ok more, s')) : s'.hasNext = (.ok more, s') := by
  have ha := hasNext_answered h
  unfold hasNext
  cases more with
  | true =>
    obtain ⟨head, hphase⟩ := ha
    simp only [hphase]
  | false =>
    have hphase : s'.phase = .exhausted := ha
    simp only [hphase]

/-- Asks some times whether another part follows, and has it handed out. -/
def nextPartAfter : Nat → Session → Except (Error × Session) OpenPart
  | 0, s => s.nextPart
  | asks + 1, s =>
    match s.hasNext with
    | (.error e, s') => .error (e, s')
    | (.ok _, s') => nextPartAfter asks s'

theorem nextPartAfter_eq (asks : Nat) (s : Session) : nextPartAfter asks s = s.nextPart := by
  induction asks generalizing s with
  | zero => rfl
  | succ asks ih =>
    unfold nextPartAfter
    split
    · rename_i h
      unfold nextPart
      rw [h]
    · rename_i more s' h
      rw [ih]
      unfold nextPart
      rw [h, hasNext_hasNext h]

theorem nextPart_eq_of_hasNext {s t : Session} (h : s.hasNext = t.hasNext) :
    s.nextPart = t.nextPart := by
  unfold nextPart
  rw [h]

/-- Where another part follows, it is handed out. -/
theorem nextPart_of_hasNext (h : s.hasNext = (.ok true, s')) :
    ∃ p, s.nextPart = .ok p ∧ p.session = { s' with phase := .reading } := by
  obtain ⟨head, hphase⟩ := hasNext_answered h
  unfold nextPart
  simp only [h, hphase]
  exact ⟨_, rfl, rfl⟩

theorem nextPart_of_hasNext_error {e : Error} (h : s.hasNext = (.error e, s')) :
    s.nextPart = .error (e, s') := by
  unfold nextPart
  rw [h]

/-- Where no part is handed out the body is at its end, or the search for one failed. -/
theorem nextPart_error_cases {e : Error} (h : s.nextPart = .error (e, s')) :
    (s.hasNext = (.ok false, s') ∧ s'.phase = .exhausted ∧ e = .exhausted) ∨
      (s.hasNext = (.error e, s') ∧ s'.phase ≠ .exhausted) := by
  rcases hn : s.hasNext with ⟨e' | _ | _, t⟩
  · rw [nextPart_of_hasNext_error hn] at h
    cases h
    exact .inr ⟨rfl, (hasNext_error hn).1⟩
  · unfold nextPart at h
    rw [hn] at h
    cases h
    exact .inl ⟨rfl, hasNext_answered hn, rfl⟩
  · obtain ⟨p, hp, -⟩ := nextPart_of_hasNext hn
    cases hp.symm.trans h

theorem error_eq_exhausted {e : Error} (h : s.nextPart = .error (e, s')) (hend : s'.phase = .exhausted) :
    e = .exhausted := by
  obtain ⟨-, -, rfl⟩ | ⟨-, hne⟩ := nextPart_error_cases h
  · rfl
  · exact absurd hend hne

/-- A loop over the parts goes from one to the next, to the end of the body or the first failure. -/
theorem next_eq (s : Session) :
    s.next = match s.nextPart with
      | .ok p => .part p
      | .error (e, s') => if s'.phase = .exhausted then .ended s' else .failed e s' := by
  unfold next
  rcases hn : s.hasNext with ⟨e | _ | _, s'⟩
  · rw [nextPart_of_hasNext_error hn]
    exact (if_neg (hasNext_error hn).1).symm
  · have hnone : s.nextPart = .error (.exhausted, s') := by
      unfold nextPart
      rw [hn]
    rw [hnone]
    exact (if_pos (hasNext_answered hn)).symm
  · obtain ⟨p, hp, -⟩ := nextPart_of_hasNext hn
    have hagain : s'.nextPart = .ok p :=
      (nextPart_eq_of_hasNext ((hasNext_hasNext hn).trans hn.symm)).trans hp
    simp only [hagain, hp]

theorem next_part_iff {p : OpenPart} : s.next = .part p ↔ s.nextPart = .ok p := by
  rw [next_eq]
  rcases s.nextPart with ⟨e, s'⟩ | q
  · simp only
    split <;> simp
  · simp

theorem next_ended_iff :
    s.next = .ended s' ↔ s.nextPart = .error (.exhausted, s') ∧ s'.phase = .exhausted := by
  rw [next_eq]
  rcases hn : s.nextPart with ⟨e, t⟩ | q
  · obtain ⟨-, hphase, rfl⟩ | ⟨-, hne⟩ := nextPart_error_cases hn
    · simp only [if_pos hphase, Next.ended.injEq, Except.error.injEq, Prod.mk.injEq, true_and]
      constructor
      · rintro rfl
        exact ⟨rfl, hphase⟩
      · exact And.left
    · simp only [if_neg hne, reduceCtorEq, Except.error.injEq, Prod.mk.injEq, false_iff]
      rintro ⟨⟨-, rfl⟩, hphase⟩
      exact hne hphase
  · simp

theorem next_failed_iff {e : Error} :
    s.next = .failed e s' ↔ s.nextPart = .error (e, s') ∧ s'.phase ≠ .exhausted := by
  rw [next_eq]
  rcases s.nextPart with ⟨e', t⟩ | q
  · simp only
    split
    · rename_i hphase
      simp only [reduceCtorEq, Except.error.injEq, Prod.mk.injEq, false_iff]
      rintro ⟨⟨-, rfl⟩, hne⟩
      exact hne hphase
    · rename_i hne
      simp only [Next.failed.injEq, Except.error.injEq, Prod.mk.injEq]
      constructor
      · rintro ⟨rfl, rfl⟩
        exact ⟨⟨rfl, rfl⟩, hne⟩
      · exact And.left
  · simp

/-- A part that was just handed out was not read. -/
theorem nextPart_unread {p : OpenPart} (h : s.nextPart = .ok p) :
    p.bytesRead = 0 ∧ p.isFinished = false := by
  unfold nextPart at h
  split at h
  · cases h
  · cases h
  · split at h
    · cases h
      exact ⟨rfl, rfl⟩
    · cases h

/-- What the source may raise behind a part it might have raised before. -/
theorem nextPart_failures {p : OpenPart} (h : s.nextPart = .ok p) {P : Error → Prop}
    (hs : ∀ e ∈ s.window.failures, P e) : ∀ e ∈ p.session.window.failures, P e := by
  have hm := s.nextPart_moves
  rw [h] at hm
  exact fun e he => hs e (Moves.failures hm he)

theorem nextPart_reading {p : OpenPart} (h : s.nextPart = .ok p) : p.session.phase = .reading := by
  unfold nextPart at h
  split at h
  · cases h
  · cases h
  · split at h
    · cases h
      rfl
    · cases h

end Session

/-! ## Surveys -/

/-- How a caller goes about a part: how often it asks for it, and what it does with it. -/
structure Treatment where
  asks : Nat := 0
  uses : List Use := []

/-- What a caller learns of a body without its contents: each part, with the progress when it was
handed out, and the error that ended the session, `exhausted` behind the last part. -/
structure Survey where
  parts : List (PartHead × Progress)
  error : Error
  deriving DecidableEq, Repr

def Survey.cons (part : PartHead × Progress) (v : Survey) : Survey :=
  { v with parts := part :: v.parts }

namespace Session

/-- The survey from here on, by a caller who treats part number `n` as `treat n` says, parts being
counted from `count` on. -/
def surveyFrom (treat : Nat → Treatment) (count : Nat) (s : Session) : Survey :=
  match h : s.nextPartAfter (treat count).asks with
  | .error (e, _) => { parts := [], error := e }
  | .ok p =>
    match hu : p.useAll (treat count).uses with
    | (.error e, _) => { parts := [(p.head, p.session.progress)], error := e }
    | (.ok (), p') =>
      have : p'.session.left < s.left := by
        have hle := p.left_useAll_le (treat count).uses
        rw [hu] at hle
        rw [nextPartAfter_eq] at h
        exact Nat.lt_of_le_of_lt hle (nextPart_left_lt h)
      (p'.session.surveyFrom treat (count + 1)).cons (p.head, p.session.progress)
termination_by s.left

section

variable {treat : Nat → Treatment} {count : Nat} {s s' : Session} {p p' : OpenPart} {e : Error}

theorem surveyFrom_error (h : s.nextPart = .error (e, s')) :
    s.surveyFrom treat count = { parts := [], error := e } := by
  rw [← nextPartAfter_eq (treat count).asks] at h
  rw [surveyFrom]
  split
  · rename_i h'
    cases h.symm.trans h'
    rfl
  · rename_i h'
    cases h.symm.trans h'

theorem surveyFrom_stopped (h : s.nextPart = .ok p)
    (hu : p.useAll (treat count).uses = (.error e, p')) :
    s.surveyFrom treat count = { parts := [(p.head, p.session.progress)], error := e } := by
  rw [← nextPartAfter_eq (treat count).asks] at h
  rw [surveyFrom]
  split
  · rename_i h'
    cases h.symm.trans h'
  · rename_i h'
    cases h.symm.trans h'
    split
    · rename_i hu'
      cases hu.symm.trans hu'
      rfl
    · rename_i hu'
      cases hu.symm.trans hu'

theorem surveyFrom_part (h : s.nextPart = .ok p)
    (hu : p.useAll (treat count).uses = (.ok (), p')) :
    s.surveyFrom treat count =
      (p'.session.surveyFrom treat (count + 1)).cons (p.head, p.session.progress) := by
  rw [← nextPartAfter_eq (treat count).asks] at h
  rw [surveyFrom]
  split
  · rename_i h'
    cases h.symm.trans h'
  · rename_i h'
    cases h.symm.trans h'
    split
    · rename_i hu'
      cases hu.symm.trans hu'
    · rename_i hu'
      cases hu.symm.trans hu'
      rfl

end

/-- Sessions of which `hasNext` says the same have the same survey, however each is treated. -/
theorem surveyFrom_eq (treat treat' : Nat → Treatment) (count count' : Nat) {s t : Session}
    (hends : ∀ e ∈ s.window.failures, e.isFatal = true) (h : s.hasNext = t.hasNext) :
    s.surveyFrom treat count = t.surveyFrom treat' count' := by
  fun_induction surveyFrom treat count s generalizing t count' with
  | case1 count s e s' hn =>
    rw [nextPartAfter_eq, nextPart_eq_of_hasNext h] at hn
    rw [surveyFrom_error hn]
  | case2 count s p hn e p' hu =>
    rw [nextPartAfter_eq] at hn
    have hends' := nextPart_failures hn hends
    rw [nextPart_eq_of_hasNext h] at hn
    have hreading := nextPart_reading hn
    -- the error met in the part is that of `hasNext`, so the other caller meets it too
    obtain ⟨s', hs'⟩ : ∃ s', p.session.hasNext = (.error e, s') := by
      have := OpenPart.useAll_hasNext hreading hends' (treat count).uses
      rwa [hu] at this
    have hother := OpenPart.useAll_hasNext hreading hends' (treat' count').uses
    rcases hu' : p.useAll (treat' count').uses with ⟨e' | ⟨⟩, q⟩ <;> rw [hu'] at hother
    · obtain ⟨t', ht'⟩ := hother
      cases hs'.symm.trans ht'
      rw [surveyFrom_stopped hn hu']
    · rw [surveyFrom_part hn hu', surveyFrom_error (nextPart_of_hasNext_error (hother.trans hs'))]
      rfl
  | case3 count s p hn p' hu _ ih =>
    rw [nextPartAfter_eq] at hn
    have hends' := nextPart_failures hn hends
    rw [nextPart_eq_of_hasNext h] at hn
    have hreading := nextPart_reading hn
    have hsame : p'.session.hasNext = p.session.hasNext := by
      have := OpenPart.useAll_hasNext hreading hends' (treat count).uses
      rwa [hu] at this
    have hleft : ∀ e ∈ p'.session.window.failures, e.isFatal = true := by
      have hm := p.useAll_moves (treat count).uses
      rw [hu] at hm
      exact fun e he => hends' e (hm.failures he)
    have hother := OpenPart.useAll_hasNext hreading hends' (treat' count').uses
    rcases hu' : p.useAll (treat' count').uses with ⟨e' | ⟨⟩, q⟩ <;> rw [hu'] at hother
    · obtain ⟨t', ht'⟩ := hother
      rw [surveyFrom_stopped hn hu',
        surveyFrom_error (nextPart_of_hasNext_error (hsame.trans ht'))]
      rfl
    · rw [surveyFrom_part hn hu', ih (count' + 1) hleft (hsame.trans hother.symm)]

/-- Two parts, from a source that fails once within the first. -/
def failingWithin (error : IoError) : Source where
  transport := {
    segments := [.data (Utf8.encode "--B\r\n\r\nabc"), .failure error,
      .data (Utf8.encode "\r\n--B\r\n\r\nd\r\n--B--")] }

-- An error of another body that comes through the source is not the end of this one: met in the part, it
-- leaves the caller in front of the second, which one who only asks for parts never sees.
example :
    (open? (failingWithin (.carrying .other (.fileSize none none 2 3))) [66] {}).toOption.map (fun s =>
      ((s.surveyFrom (fun _ => { uses := [.read 8, .read 8] }) 0).parts.length,
        (s.surveyFrom (fun _ => {}) 0).parts.length)) = some (2, 1) := by
  decide +kernel

end Session

end FormData
