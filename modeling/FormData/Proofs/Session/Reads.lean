/-
Reads of one part, one after the other: what they answer, and what they hand out in total. A part
that is spent hands out nothing more (`Spent.readAll`). An empty read spends its part like one that
finds the end of the content, so it goes unnoticed exactly where nothing was left unread, or where
the session had failed (`empty_read_harmless_iff`).
-/
import FormData.Proofs.Body.Settling
import FormData.Proofs.Session.Skipping

namespace FormData

namespace OpenPart

/-- Reads with room for these numbers of bytes: their answers, and the part then. -/
def readAll (p : OpenPart) : List Nat → List (Except Error Bytes) × OpenPart
  | [] => ([], p)
  | room :: rooms =>
    ((p.read room).1 :: ((p.read room).2.readAll rooms).1, ((p.read room).2.readAll rooms).2)

/-- What the reads that succeeded handed out. -/
def handedOut (answers : List (Except Error Bytes)) : Bytes :=
  answers.flatMap fun
    | .ok bytes => bytes
    | .error _ => []

@[simp] theorem handedOut_ok (bytes : Bytes) (answers : List (Except Error Bytes)) :
    handedOut (.ok bytes :: answers) = bytes ++ handedOut answers := rfl

@[simp] theorem handedOut_error (e : Error) (answers : List (Except Error Bytes)) :
    handedOut (.error e :: answers) = handedOut answers := rfl

theorem handedOut_append (answers later : List (Except Error Bytes)) :
    handedOut (answers ++ later) = handedOut answers ++ handedOut later :=
  List.flatMap_append

variable {p : OpenPart}

theorem readAll_cons {p' : OpenPart} {room : Nat} {answer : Except Error Bytes}
    (h : p.read room = (answer, p')) (rooms : List Nat) :
    p.readAll (room :: rooms) = (answer :: (p'.readAll rooms).1, (p'.readAll rooms).2) := by
  rw [readAll, h]

theorem readAll_append (p : OpenPart) (rooms later : List Nat) :
    p.readAll (rooms ++ later) =
      ((p.readAll rooms).1 ++ ((p.readAll rooms).2.readAll later).1,
        ((p.readAll rooms).2.readAll later).2) := by
  induction rooms generalizing p with
  | nil => rfl
  | cons room rooms ih => simp only [List.cons_append, readAll, ih]

theorem left_readAll_le (p : OpenPart) (rooms : List Nat) :
    (p.readAll rooms).2.session.left ≤ p.session.left := by
  induction rooms generalizing p with
  | nil => exact Nat.le_refl _
  | cons room rooms ih => exact Nat.le_trans (ih _) (left_read_le p room)

/-! ## Parts that are spent -/

/-- Nothing is left to read of the part, in a session that goes on. -/
structure Spent (p : OpenPart) : Prop where
  finished : p.isFinished = true
  live : p.session.phase ≠ .failed

theorem Spent.read (h : p.Spent) (room : Nat) : p.read room = (.ok [], p) := by
  unfold OpenPart.read
  split
  · rename_i hphase
    exact absurd hphase h.live
  · rw [if_pos h.finished]

theorem Spent.readAll (h : p.Spent) (rooms : List Nat) :
    p.readAll rooms = (rooms.map fun _ => .ok [], p) := by
  induction rooms with
  | nil => rfl
  | cons room rooms ih => rw [readAll_cons (h.read room), ih, List.map_cons]

theorem Spent.handedOut_readAll (h : p.Spent) (rooms : List Nat) :
    handedOut (p.readAll rooms).1 = [] := by
  rw [h.readAll]
  induction rooms with
  | nil => rfl
  | cons room rooms ih => exact ih

theorem Spent.skip (h : p.Spent) : p.skip = (.ok 0, p) := by
  unfold OpenPart.skip
  rw [if_pos h.finished]

/-- A part whose content can be passed to its end is refused with its size, and spent. -/
theorem refuseSize_of_discard {unread : Nat} {w : Window}
    (hd : p.session.window.discard = (.ok unread, w)) (limit : Nat) (actual : Nat → Nat) :
    p.refuseSize limit actual = (.error (p.sizeError limit (actual unread)),
      { p with session := { p.session with window := w }, isFinished := true }) := by
  unfold refuseSize discardRest
  rw [hd]
  rfl

/-- A skip that succeeds on a part that is not finished discards the rest of the content. -/
theorem discard_of_skip {unread : Nat} (hskip : p.skip.1 = .ok unread) (hf : p.isFinished = false) :
    ∃ w, p.session.window.discard = (.ok unread, w) := by
  unfold OpenPart.skip discardRest at hskip
  rw [if_neg (by rw [hf]; exact Bool.false_ne_true)] at hskip
  rcases hd : p.session.window.discard with ⟨e | n, w⟩ <;> rw [hd] at hskip
  · cases hskip
  · cases hskip
    exact ⟨w, rfl⟩

/-- A read spends a part whose content can be passed to its end, if nothing of that is left or no
room is given. -/
theorem read_spent {unread : Nat} (room : Nat) (hskip : p.skip.1 = .ok unread)
    (hlive : p.session.phase ≠ .failed) (hnothing : unread = 0 ∨ room = 0) :
    (p.read room).2.Spent ∧ (p.read room).2.bytesRead = p.bytesRead ∧
      handedOut [(p.read room).1] = [] := by
  by_cases hf : p.isFinished
  · have hspent : p.Spent := ⟨hf, hlive⟩
    rw [hspent.read]
    exact ⟨hspent, rfl, rfl⟩
  · rw [Bool.not_eq_true] at hf
    obtain ⟨w, hd⟩ := discard_of_skip hskip hf
    have hread := read_unfinished hlive hf room
    rcases hdeclared : p.declaredAbove? with _ | ⟨limit, declared⟩ <;> rw [hdeclared] at hread
    · -- nothing is taken, either because no room is given or because a delimiter is next
      obtain ⟨v, ht⟩ : ∃ v, p.session.window.take room = (.ok [], v) := by
        rcases Nat.eq_zero_or_pos room with rfl | hroom
        · exact ⟨_, by rw [Window.take, if_pos rfl]⟩
        · obtain ⟨bytes, v, ht, hlen, -, -⟩ := Window.take_of_discard hd hroom
          have hnil : bytes = [] := List.eq_nil_of_length_eq_zero (by omega)
          exact ⟨v, hnil ▸ ht⟩
      rw [hread.trans (readContent_nil ht)]
      exact ⟨⟨rfl, hlive⟩, rfl, rfl⟩
    · rw [hread.trans (refuseSize_of_discard hd _ _)]
      exact ⟨⟨rfl, hlive⟩, rfl, rfl⟩

/-! ## Empty reads -/

/-- Two ways of reading a part come to the same: they hand out the same bytes, count as many, and
leave as much to be skipped. -/
structure SameReading (x y : List (Except Error Bytes) × OpenPart) : Prop where
  handedOut : handedOut x.1 = handedOut y.1
  bytesRead : x.2.bytesRead = y.2.bytesRead
  skip : x.2.skip.1 = y.2.skip.1

/-- What is done before does not matter to whether the rest comes to the same. -/
theorem sameReading_append_iff (p : OpenPart) (before rooms rooms' : List Nat) :
    SameReading (p.readAll (before ++ rooms)) (p.readAll (before ++ rooms')) ↔
      SameReading ((p.readAll before).2.readAll rooms) ((p.readAll before).2.readAll rooms') := by
  rw [readAll_append, readAll_append]
  constructor
  · rintro ⟨hhanded, hbytes, hskip⟩
    rw [handedOut_append, handedOut_append] at hhanded
    exact ⟨List.append_cancel_left hhanded, hbytes, hskip⟩
  · rintro ⟨hhanded, hbytes, hskip⟩
    refine ⟨?_, hbytes, hskip⟩
    rw [handedOut_append, handedOut_append, hhanded]

/-- Reading on with nothing left comes to nothing. -/
theorem sameReading_of_spent {room : Nat} (hspent : (p.read room).2.Spent)
    (hbytes : (p.read room).2.bytesRead = p.bytesRead) (hhanded : handedOut [(p.read room).1] = [])
    (rooms : List Nat) :
    handedOut (p.readAll (room :: rooms)).1 = [] ∧
      (p.readAll (room :: rooms)).2.bytesRead = p.bytesRead ∧
      (p.readAll (room :: rooms)).2.skip.1 = .ok 0 := by
  have hcons : p.readAll (room :: rooms) =
      ((p.read room).1 :: ((p.read room).2.readAll rooms).1, ((p.read room).2.readAll rooms).2) :=
    rfl
  refine ⟨?_, ?_, ?_⟩
  · rw [hcons, ← List.singleton_append, handedOut_append, hhanded, hspent.handedOut_readAll]
    rfl
  · rw [hcons, hspent.readAll]
    exact hbytes
  · rw [hcons, hspent.readAll]
    exact congrArg Prod.fst hspent.skip

end OpenPart

open OpenPart in
/-- An empty read among others, where the content can be passed to its end, changes nothing of what
they come to exactly when nothing was left unread then, or the session had failed. -/
theorem empty_read_harmless_iff {p : OpenPart} {before : List Nat} {unread : Nat}
    (hunread : (p.readAll before).2.skip.1 = .ok unread) :
    (∀ after, SameReading (p.readAll (before ++ 0 :: after)) (p.readAll (before ++ after))) ↔
      unread = 0 ∨ (p.readAll before).2.session.phase = .failed := by
  simp only [sameReading_append_iff]
  generalize (p.readAll before).2 = q at hunread ⊢
  constructor
  · intro h
    refine Classical.or_iff_not_imp_right.2 fun hlive => ?_
    -- the empty read leaves nothing to be skipped, so nothing may have been left before it
    obtain ⟨hspent, hbytes, hhanded⟩ := read_spent 0 hunread hlive (.inr rfl)
    have hskip := (h []).skip
    rw [(sameReading_of_spent hspent hbytes hhanded []).2.2] at hskip
    cases hskip.trans hunread
    rfl
  · intro h after
    by_cases hlive : q.session.phase = .failed
    · rw [readAll_cons (read_failed hlive 0)]
      exact ⟨rfl, rfl, rfl⟩
    · obtain rfl : unread = 0 := h.resolve_right hlive
      obtain ⟨hspent, hbytes, hhanded⟩ := read_spent 0 hunread hlive (.inr rfl)
      obtain ⟨h1, h2, h3⟩ := sameReading_of_spent hspent hbytes hhanded after
      cases after with
      | nil => exact ⟨h1, h2, h3.trans hunread.symm⟩
      | cons room rooms =>
        obtain ⟨hspent', hbytes', hhanded'⟩ := read_spent room hunread hlive (.inl rfl)
        obtain ⟨h1', h2', h3'⟩ := sameReading_of_spent hspent' hbytes' hhanded' rooms
        exact ⟨h1.trans h1'.symm, h2.trans h2'.symm, h3.trans h3'.symm⟩

/-- A body with three bytes of content in its one part. -/
def shortContent : Source where
  transport := { segments := [.data (Utf8.encode "--B\r\n\r\nabc\r\n--B--")] }

open OpenPart in
theorem empty_read_harmless_iff_atEnd :
    ∃ s p, Session.open? shortContent [66] {} = .ok s ∧
      (Standing.between s).after [.nextPart] = .within p ∧ handedOut (p.readAll [8]).1 = [97, 98, 99] ∧
      (p.readAll [8]).2.skip.1 = .ok 0 ∧
      ∀ after, SameReading (p.readAll (8 :: 0 :: after)) (p.readAll (8 :: after)) := by
  obtain ⟨s, hs⟩ : ∃ s, Session.open? shortContent [66] {} = .ok s := ⟨_, rfl⟩
  obtain ⟨p, hp, hrun⟩ := Standing.exists_of_partSatisfies
    (g := (Standing.between s).after [.nextPart])
    (fun p => handedOut (p.readAll [8]).1 = [97, 98, 99] ∧
      (p.readAll [8]).2.skip.1 = .ok 0) (by
      cases hs
      decide +kernel)
  obtain ⟨hhanded, hskip⟩ := of_decide_eq_true hrun
  have hsame : ∀ after, SameReading (p.readAll ([8] ++ 0 :: after)) (p.readAll ([8] ++ after)) :=
    (empty_read_harmless_iff hskip).2 (.inl rfl)
  exact ⟨s, p, hs, hp, hhanded, hskip, hsame⟩

open OpenPart in
/-- After an empty read the rest of the content is neither handed out nor counted by a skip. -/
theorem empty_read_ends_part :
    ∃ s p, Session.open? shortContent [66] {} = .ok s ∧
      (Standing.between s).after [.nextPart] = .within p ∧
      handedOut (p.readAll [8]).1 = [97, 98, 99] ∧ handedOut (p.readAll [0, 8]).1 = [] ∧
      (p.readAll []).2.skip.1 = .ok 3 ∧ (p.readAll [0]).2.skip.1 = .ok 0 := by
  obtain ⟨s, hs⟩ : ∃ s, Session.open? shortContent [66] {} = .ok s := ⟨_, rfl⟩
  obtain ⟨p, hp, hrun⟩ := Standing.exists_of_partSatisfies
    (g := (Standing.between s).after [.nextPart])
    (fun p => handedOut (p.readAll [8]).1 = [97, 98, 99] ∧
      handedOut (p.readAll [0, 8]).1 = [] ∧
      (p.readAll []).2.skip.1 = .ok 3 ∧ (p.readAll [0]).2.skip.1 = .ok 0) (by
      cases hs
      decide +kernel)
  exact ⟨s, p, hs, hp, of_decide_eq_true hrun⟩

end FormData
