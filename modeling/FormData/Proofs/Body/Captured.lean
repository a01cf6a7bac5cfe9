/-
Bodies captured in files. Telling the boundary from the first line reads a block ahead and hands nothing
out (`sniffBoundary_ofFile`), so the same bytes are pending after it. Nor does the first read show it,
unless the reader asks for a whole block and more is to come (`sniffed_read`).
-/
import FormData.Proofs.Body.Settling
import FormData.Proofs.Body.Steady

namespace FormData

namespace Source

/-- A captured body whose first block was read ahead. -/
def sniffed (content : Bytes) : Source :=
  { ofFile content with
    transport := { segments := Transport.keep (content.drop fileBlock) [] }
    buffered := content.take fileBlock }

variable {content : Bytes} {room : Nat}

theorem fillBuffer_ofFile (hne : content ≠ []) :
    (ofFile content).fillBuffer = (.ok (), sniffed content) := by
  have hfull : content.isEmpty = false := by simpa using hne
  unfold fillBuffer readThrough Transport.read ofFile Transport.readFrom sniffed ofFile
  simp [hfull]

theorem sniffBoundary_ofFile (hne : content ≠ []) :
    (ofFile content).sniffBoundary =
      (.ok (boundaryOfFirstLine (content.take fileBlock)), sniffed content) := by
  unfold sniffBoundary
  rw [fillBuffer_ofFile hne]
  rfl

theorem steady_ofFile (hne : content ≠ []) : (ofFile content).Steady where
  segments g hg := by
    rw [List.mem_singleton.1 hg]
    exact hne
  pace := nofun
  refusal := rfl

theorem steady_sniffed (content : Bytes) : (sniffed content).Steady where
  segments g hg := by
    unfold sniffed Transport.keep at hg
    simp only at hg
    split at hg
    · cases hg
    · rename_i hrest
      rw [List.mem_singleton.1 hg]
      intro hnil
      rw [hnil] at hrest
      exact hrest rfl
  pace := nofun
  refusal := rfl

theorem pending_ofFile (content : Bytes) : (ofFile content).pending = content := by
  simp [pending, ofFile, Transport.pending, Transport.content]

theorem pending_sniffed (content : Bytes) : (sniffed content).pending = content := by
  unfold pending Transport.pending sniffed
  simp only
  rw [content_keep]
  simp [Transport.content]

/-- A read of less than a block, or of a body of no more than one, is the same. -/
theorem sniffed_read (hne : content ≠ []) (h : room < fileBlock ∨ content.length ≤ fileBlock) :
    (sniffed content).read room = (ofFile content).read room := by
  have hbuffered : (sniffed content).buffered.isEmpty = false := by
    unfold sniffed fileBlock
    simpa using hne
  have hsniffed : (sniffed content).read room =
      (.ok ((sniffed content).buffered.take room),
        { sniffed content with buffered := (sniffed content).buffered.drop room }) := by
    unfold read fillBuffer
    simp [hbuffered]
  rw [hsniffed]
  by_cases hroom : room < fileBlock
  · -- the first read fills the buffer
    have hthrough : ¬ ((ofFile content).buffered.isEmpty = true ∧ (ofFile content).readAhead ≤ room) := by
      rintro ⟨-, hle⟩
      exact absurd hroom (Nat.not_lt.2 hle)
    unfold read
    rw [if_neg hthrough, fillBuffer_ofFile hne]
  · -- the first read passes by the buffer, and gets all
    have hshort := h.resolve_left hroom
    have hall : content.length ≤ room := Nat.le_trans hshort (Nat.le_of_not_lt hroom)
    have hthrough : (ofFile content).buffered.isEmpty = true ∧ (ofFile content).readAhead ≤ room :=
      ⟨rfl, Nat.le_of_not_lt hroom⟩
    have hfull : content.isEmpty = false := by simpa using hne
    unfold read
    rw [if_pos hthrough]
    unfold readThrough Transport.read ofFile Transport.readFrom sniffed ofFile
    simp [hfull, List.take_of_length_le hshort, List.take_of_length_le hall,
      List.drop_of_length_le hshort, List.drop_of_length_le hall]

end Source

/-! ## Windows on captured bodies -/

namespace Window

variable {w v : Window}

/-- Nothing is available in a window that nothing was read into. -/
theorem available_nil (h : w.unread = []) : w.available = (0, false) := by
  have hne : w.pattern ≠ [] := by
    unfold pattern dashed delimiter
    split <;> nofun
  have hnone : Bytes.locate? w.pattern [] = none := by
    unfold Bytes.locate? Bytes.locateFrom
    rw [if_neg]
    simpa using hne
  unfold available
  rw [h, hnone]
  simp

theorem refill_congr (hfill : w.fill = v.fill) : w.refill = v.refill := by
  unfold refill
  rw [hfill]

/-- A search in windows that nothing was read into begins by filling them. -/
theorem discard_congr (hw : w.unread = []) (hv : v.unread = []) (hfill : w.fill = v.fill) :
    w.discard = v.discard := by
  have hpass : ∀ u : Window, u.pass 0 = u := fun _ => rfl
  unfold discard
  rcases hr : w.refill with ⟨e | ⟨⟩, u⟩
  · rw [discardFrom_failed (available_nil hw) ((congrArg refill (hpass w)).trans hr),
      discardFrom_failed (available_nil hv)
        ((congrArg refill (hpass v)).trans ((refill_congr hfill).symm.trans hr))]
  · rw [discardFrom_refilled (available_nil hw) ((congrArg refill (hpass w)).trans hr),
      discardFrom_refilled (available_nil hv)
        ((congrArg refill (hpass v)).trans ((refill_congr hfill).symm.trans hr))]

theorem findFirst_congr (hw : w.unread = []) (hv : v.unread = [])
    (hfill : ({ w with atStart := true } : Window).fill = ({ v with atStart := true } : Window).fill) :
    w.findFirst = v.findFirst := by
  have hdiscard := discard_congr (w := { w with atStart := true }) (v := { v with atStart := true })
    hw hv hfill
  unfold findFirst
  rw [hdiscard]

end Window

end FormData
