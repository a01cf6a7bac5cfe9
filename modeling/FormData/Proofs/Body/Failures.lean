/-
What reading may fail with. Each failure of a source raises an error, the one it carries if it carries
one, and reads only use failures up (`Window.refill_failures`). So the error of a read is one that the
source had left to raise, that of passing the limit of the request, or the end of the body
(`take_error_isOfReading`, `discardFrom_error_isOfReading`).
-/
import FormData.Body.Window

namespace FormData

/-! ## The failures of a source -/

namespace Transport

/-- The errors that reads of these segments raise. -/
def raised (segments : List Segment) : List Error :=
  segments.filterMap fun
    | .failure error => some (.ofIo error)
    | _ => none

/-- The errors that are left to raise. -/
def failures (t : Transport) : List Error :=
  raised t.segments ++ (t.refusal.map Error.ofIo).toList

theorem raised_keep (bytes : Bytes) (rest : List Segment) : raised (keep bytes rest) = raised rest := by
  unfold keep
  split <;> rfl

/-- By induction on the segments. -/
theorem readFrom_raised (t : Transport) (room : Nat) (segments : List Segment) :
    raised (t.readFrom room segments).2 ⊆ raised segments := by
  induction segments with
  | nil => exact List.Subset.refl _
  | cons segment rest ih =>
    cases segment with
    | interruption => exact ih
    | failure error => exact List.subset_cons_self _ _
    | data bytes =>
      by_cases h : bytes.isEmpty
      · simp only [readFrom, h, if_true]
        exact List.Subset.refl _
      · simp only [readFrom, h, Bool.false_eq_true, if_false, raised_keep]
        exact List.Subset.refl _

theorem readFrom_error {t : Transport} {room : Nat} {segments : List Segment} {e : IoError}
    (h : (t.readFrom room segments).1 = .error e) :
    .ofIo e ∈ raised segments ++ (t.refusal.map Error.ofIo).toList := by
  induction segments with
  | nil =>
    simp only [readFrom, readEnd] at h
    split at h
    · cases h
    · rename_i hrefusal
      cases h
      simp [hrefusal]
  | cons segment rest ih =>
    cases segment with
    | interruption => exact ih h
    | failure error =>
      cases h
      exact List.mem_append_left _ (List.mem_cons_self ..)
    | data bytes =>
      by_cases hempty : bytes.isEmpty
      · simp only [readFrom, hempty, if_true, reduceCtorEq] at h
      · simp only [readFrom, hempty, Bool.false_eq_true, if_false, reduceCtorEq] at h

end Transport

namespace Source

def failures (s : Source) : List Error :=
  s.transport.failures

/-- An operation on the source that raises no error but one of those left, and leaves no others. -/
structure Raises {α : Type} (s : Source) (x : Except IoError α × Source) : Prop where
  left : x.2.failures ⊆ s.failures
  error : ∀ e, x.1 = .error e → Error.ofIo e ∈ s.failures

variable {α β : Type}

theorem Raises.done {s s' : Source} {a : α} (h : s'.failures ⊆ s.failures) :
    s.Raises (Except.ok a, s') :=
  ⟨h, nofun⟩

theorem Raises.failed {s s' : Source} {e : IoError}
    (h : s.Raises ((.error e, s') : Except IoError α × Source)) :
    s.Raises ((.error e, s') : Except IoError β × Source) :=
  ⟨h.left, fun _ he => h.error _ (congrArg Except.error (Except.error.inj he))⟩

variable (s : Source) (room : Nat)

theorem readThrough_raises : s.Raises (s.readThrough room) where
  left := by
    intro e he
    obtain hseg | href := List.mem_append.1 he
    · exact List.mem_append_left _ (Transport.readFrom_raised s.transport room _ hseg)
    · exact List.mem_append_right _ href
  error _ h := Transport.readFrom_error h

theorem fillBuffer_raises : s.Raises s.fillBuffer := by
  have hread := s.readThrough_raises s.readAhead
  unfold fillBuffer
  split
  · rcases hr : s.readThrough s.readAhead with ⟨e | bytes, s'⟩ <;> rw [hr] at hread
    · exact hread.failed
    · exact .done hread.left
  · exact .done (List.Subset.refl _)

theorem read_raises : s.Raises (s.read room) := by
  have hfill := s.fillBuffer_raises
  unfold read
  split
  · exact s.readThrough_raises room
  · rcases hf : s.fillBuffer with ⟨e | ⟨⟩, s'⟩ <;> rw [hf] at hfill
    · exact hfill.failed
    · exact .done hfill.left

theorem cutShort_failures : s.cutShort.failures ⊆ s.failures :=
  List.subset_append_right _ _

end Source

/-! ## Reading into a window -/

namespace Feed

theorem read_failures (f : Feed) (room : Nat) : (f.read room).2.source.failures ⊆ f.source.failures := by
  have hread := (f.source.read_raises room).left
  unfold read
  split
  · exact List.Subset.refl _
  · rcases hr : f.source.read room with ⟨e | bytes, source⟩ <;> rw [hr] at hread
    · exact hread
    · simp only
      split
      · exact hread
      · split <;> exact hread

/-- A read fails where its source does, or for the limit of the request. -/
theorem read_error_cases {f f' : Feed} {room : Nat} {e : Error} (h : f.read room = (.error e, f')) :
    e ∈ f.source.failures ∨ ∃ limit actual, e = .requestSize limit actual := by
  have hread := (f.source.read_raises room).error
  unfold read at h
  split at h
  · cases h
    exact .inr ⟨_, _, rfl⟩
  · rcases hr : f.source.read room with ⟨error | bytes, source⟩ <;> rw [hr] at hread h
    · cases h
      exact .inl (hread error rfl)
    · simp only at h
      split at h
      · cases h
      · split at h
        · rename_i hcount
          cases h
          unfold Account.countBytes at hcount
          simp only at hcount
          split at hcount
          · split at hcount
            · cases hcount
              exact .inr ⟨_, _, rfl⟩
            · cases hcount
          · cases hcount
        · cases h

end Feed

/-- What reading on in a content may fail with, where the source has these failures left: with one of
them, for the limit of the request, or at the end of the body. -/
inductive Error.IsOfReading (failures : List Error) : Error → Prop
  | raised {e : Error} (h : e ∈ failures) : IsOfReading failures e
  | requestSize (limit actual : Nat) : IsOfReading failures (.requestSize limit actual)
  | ended : IsOfReading failures (.malformed .endedEarly)

theorem Error.IsOfReading.mono {failures more : List Error} {e : Error} (h : e.IsOfReading failures)
    (hsub : failures ⊆ more) : e.IsOfReading more := by
  cases h with
  | raised h => exact .raised (hsub h)
  | requestSize limit actual => exact .requestSize limit actual
  | ended => exact .ended

/-- Where all failures of the source end sessions, reading on fails with nothing else. -/
theorem Error.IsOfReading.isFatal {failures : List Error} {e : Error} (h : e.IsOfReading failures)
    (hfatal : ∀ f ∈ failures, f.isFatal = true) : e.isFatal = true := by
  cases h with
  | raised h => exact hfatal _ h
  | _ => rfl

/-- What a scan fails with by itself: for what is in the body, or for a limit on what it may read. -/
def Error.IsOfScan : Error → Prop
  | .malformed _ | .headerSize .. | .requestSize .. => True
  | _ => False

theorem Error.IsOfScan.isFatal {e : Error} (h : e.IsOfScan) : e.isFatal = true := by
  cases e <;> first | rfl | exact h.elim

namespace Window

variable {w w' : Window} {e : Error} {room : Nat}

/-- The errors that the source has left to raise. -/
def failures (w : Window) : List Error :=
  w.feed.source.failures

theorem fill_failures (w : Window) : w.fill.2.failures ⊆ w.failures := by
  have hread := w.feed.read_failures (w.capacity - w.unread.length)
  unfold fill
  split <;> (rename_i hr; rw [hr] at hread; exact hread)

theorem fill_error_cases (h : w.fill = (.error e, w')) :
    e ∈ w.failures ∨ ∃ limit actual, e = .requestSize limit actual := by
  unfold fill at h
  split at h
  · rename_i hread
    cases h
    exact Feed.read_error_cases hread
  · cases h

theorem refill_failures (w : Window) : w.refill.2.failures ⊆ w.failures := by
  have hfill := w.fill_failures
  unfold refill
  split <;> (rename_i hf; rw [hf] at hfill; exact hfill)

theorem refill_error_isOfReading (h : w.refill = (.error e, w')) : e.IsOfReading w.failures := by
  unfold refill at h
  split at h
  · rename_i hfill
    cases h
    obtain hraised | ⟨limit, actual, rfl⟩ := fill_error_cases hfill
    · exact .raised hraised
    · exact .requestSize limit actual
  · cases h
    exact .ended
  · cases h

theorem take_error_isOfReading (h : w.take room = (.error e, w')) : e.IsOfReading w.failures := by
  fun_induction take w room with
  | case1 => cases h
  | case2 => cases h
  | case3 => cases h
  | case4 w _ _ e' w'' hf =>
    cases h
    exact refill_error_isOfReading hf
  | case5 w _ _ w'' hf _ ih =>
    have hsub := w.refill_failures
    rw [hf] at hsub
    exact (ih h).mono hsub

theorem discardFrom_error_isOfReading {count : Nat} (h : w.discardFrom count = (.error e, w')) :
    e.IsOfReading w.failures := by
  fun_induction discardFrom count w with
  | case1 => cases h
  | case2 count w n ha e' w'' hf =>
    cases h
    have hraised := refill_error_isOfReading hf
    exact hraised
  | case3 count w n ha w'' hf _ ih =>
    have hsub := (w.pass n).refill_failures
    rw [hf] at hsub
    exact (ih h).mono hsub

theorem discard_error_isOfReading (h : w.discard = (.error e, w')) : e.IsOfReading w.failures :=
  discardFrom_error_isOfReading h

end Window

end FormData
