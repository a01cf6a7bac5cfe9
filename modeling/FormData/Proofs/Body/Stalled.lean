/-
Windows that cannot go on by themselves. A read of content that fails, or a discard that does, leaves
its window with nothing to hand out and no delimiter in sight, so whatever is tried on it next begins
with a read of the source. Once the limit of a request was passed that read is refused, and the
window stays as it is (`Stalled.discard_overrun`).
-/
import FormData.Proofs.Body.Settling

namespace FormData

/-- Past the limit of a request no read reaches the source. -/
theorem Feed.read_overrun {f : Feed} {limit actual : Nat}
    (h : f.account.overrun = some (limit, actual)) (room : Nat) :
    f.read room = (.error (.requestSize limit actual), f) := by
  unfold Feed.read
  simp only [h]

namespace Window

variable {w w' : Window} {e : Error} {limit actual room : Nat}

/-- Nothing can be handed out and no delimiter is in sight, so more of the source is needed. -/
def Stalled (w : Window) : Prop :=
  w.available = (0, false)

theorem refill_overrun (h : w.feed.account.overrun = some (limit, actual)) :
    w.refill = (.error (.requestSize limit actual), w) := by
  unfold refill fill
  rw [Feed.read_overrun h]

/-- A refill that fails adds nothing to the window. -/
theorem refill_error_available (h : w.refill = (.error e, w')) : w'.available = w.available := by
  unfold refill at h
  split at h
  · rename_i hfill
    cases h
    unfold fill at hfill
    split at hfill
    · cases hfill
      rfl
    · cases hfill
  · rename_i hfill
    cases h
    unfold fill at hfill
    split at hfill
    · cases hfill
    · simp only [Prod.mk.injEq, Except.ok.injEq, List.length_eq_zero_iff] at hfill
      obtain ⟨rfl, rfl⟩ := hfill
      unfold available
      rw [List.append_nil]
      rfl
  · cases h

theorem take_error_stalled (h : w.take room = (.error e, w')) : w'.Stalled := by
  fun_induction take w room with
  | case1 => cases h
  | case2 => cases h
  | case3 => cases h
  | case4 w _ ha e' w'' hf =>
    cases h
    exact (refill_error_available hf).trans ha
  | case5 w _ _ w'' _ _ ih => exact ih h

theorem discardFrom_error_stalled {count : Nat} (h : w.discardFrom count = (.error e, w')) :
    w'.Stalled := by
  fun_induction discardFrom count w with
  | case1 => cases h
  | case2 count w n ha e' w'' hf =>
    cases h
    exact (refill_error_available hf).trans (available_pass_self ha)
  | case3 count w n _ w'' _ _ ih => exact ih h

theorem discard_error_stalled (h : w.discard = (.error e, w')) : w'.Stalled :=
  discardFrom_error_stalled h

/-- Past the limit, discarding is refused as well, and changes nothing. -/
theorem Stalled.discard_overrun (h : w.Stalled)
    (ho : w.feed.account.overrun = some (limit, actual)) :
    w.discard = (.error (.requestSize limit actual), w) :=
  discardFrom_failed h (refill_overrun (w := w.pass 0) ho) 0

end Window

end FormData
