/-
Where discarding ends. Handing out content before it is discarded, a byte or a window at a time,
changes neither the place where that ends nor the reads that lead there nor the error they may meet,
whatever the source does (`take_settle`, `settle_of_take_error`).
-/
import FormData.Proofs.Body.Failures
import FormData.Proofs.Body.Search

namespace FormData

namespace Window

variable {w w' : Window} {e : Error} {n k room : Nat} {found : Bool}

/-! ## Taking and discarding, case by case -/

theorem take_ready (hroom : room ≠ 0) (ha : w.available = (n + 1, found)) :
    w.take room = (.ok (w.unread.take (min (n + 1) room)), w.pass (min (n + 1) room)) := by
  rw [take, if_neg hroom]
  split
  · rename_i ha'
    cases ha.symm.trans ha'
    rfl
  · rename_i ha'
    cases ha.symm.trans ha'
  · rename_i ha'
    cases ha.symm.trans ha'

theorem take_found (ha : w.available = (0, true)) (room : Nat) : w.take room = (.ok [], w) := by
  rw [take]
  split
  · rfl
  · split
    · rename_i ha'
      cases ha.symm.trans ha'
    · rfl
    · rename_i ha'
      cases ha.symm.trans ha'

theorem take_failed (hroom : room ≠ 0) (ha : w.available = (0, false))
    (hf : w.refill = (.error e, w')) : w.take room = (.error e, w') := by
  rw [take, if_neg hroom]
  split
  · rename_i ha'
    cases ha.symm.trans ha'
  · rename_i ha'
    cases ha.symm.trans ha'
  · split
    · rename_i hf'
      cases hf.symm.trans hf'
      rfl
    · rename_i hf'
      cases hf.symm.trans hf'

theorem take_refilled (hroom : room ≠ 0) (ha : w.available = (0, false))
    (hf : w.refill = (.ok (), w')) : w.take room = w'.take room := by
  rw [take, if_neg hroom]
  split
  · rename_i ha'
    cases ha.symm.trans ha'
  · rename_i ha'
    cases ha.symm.trans ha'
  · split
    · rename_i hf'
      cases hf.symm.trans hf'
    · rename_i hf'
      cases hf.symm.trans hf'
      rfl

theorem discardFrom_found (ha : w.available = (n, true)) (count : Nat) :
    w.discardFrom count = (.ok (count + n), w.pass n) := by
  rw [discardFrom]
  split
  · rename_i ha'
    cases ha.symm.trans ha'
    rfl
  · rename_i ha'
    cases ha.symm.trans ha'

theorem discardFrom_failed (ha : w.available = (n, false))
    (hf : (w.pass n).refill = (.error e, w')) (count : Nat) :
    w.discardFrom count = (.error e, w') := by
  rw [discardFrom]
  split
  · rename_i ha'
    cases ha.symm.trans ha'
  · rename_i ha'
    cases ha.symm.trans ha'
    split
    · rename_i hf'
      cases hf.symm.trans hf'
      rfl
    · rename_i hf'
      cases hf.symm.trans hf'

theorem discardFrom_refilled (ha : w.available = (n, false))
    (hf : (w.pass n).refill = (.ok (), w')) (count : Nat) :
    w.discardFrom count = w'.discardFrom (count + n) := by
  rw [discardFrom]
  split
  · rename_i ha'
    cases ha.symm.trans ha'
  · rename_i ha'
    cases ha.symm.trans ha'
    split
    · rename_i hf'
      cases hf.symm.trans hf'
    · rename_i hf'
      cases hf.symm.trans hf'
      rfl

theorem available_le_length (ha : w.available = (n, found)) : n ≤ w.unread.length := by
  have hle : w.available.1 ≤ w.unread.length := Bytes.before_le_length _ _
  rwa [ha] at hle

theorem available_pass (ha : w.available = (n, found)) (hk : k ≤ n) :
    (w.pass k).available = (n - k, found) :=
  Bytes.before_drop ha hk

theorem available_pass_self (ha : w.available = (n, found)) :
    (w.pass n).available = (0, found) := by
  rw [available_pass ha (Nat.le_refl n), Nat.sub_self]

theorem pass_pass (w : Window) (hk : k ≤ n) : (w.pass k).pass (n - k) = w.pass n := by
  have hsum : k + (n - k) = n := by omega
  unfold pass
  rw [List.drop_drop, hsum]

/-- Content passed beforehand counts as discarded. -/
theorem discardFrom_pass (ha : w.available = (n, found)) (hk : k ≤ n) (count : Nat) :
    w.discardFrom count = (w.pass k).discardFrom (count + k) := by
  have ha' := available_pass ha hk
  have hsum : count + k + (n - k) = count + n := by omega
  cases found with
  | true => rw [discardFrom_found ha, discardFrom_found ha', pass_pass w hk, hsum]
  | false =>
    rcases hf : (w.pass n).refill with ⟨e | ⟨⟩, w'⟩
    · rw [discardFrom_failed ha hf, discardFrom_failed ha' (by rw [pass_pass w hk]; exact hf)]
    · rw [discardFrom_refilled ha hf, discardFrom_refilled ha' (by rw [pass_pass w hk]; exact hf), hsum]

theorem discardFrom_add (count : Nat) (w : Window) :
    w.discardFrom count = (w.discard.1.map (count + ·), w.discard.2) := by
  have hadd : ∀ start, w.discardFrom (count + start) =
      ((w.discardFrom start).1.map (count + ·), (w.discardFrom start).2) := by
    intro start
    fun_induction discardFrom start w with
    | case1 start w n ha =>
      rw [discardFrom_found ha, Nat.add_assoc]
      rfl
    | case2 start w n ha e w' hf =>
      rw [discardFrom_failed ha hf]
      rfl
    | case3 start w n ha w' hf _ ih => rw [discardFrom_refilled ha hf, Nat.add_assoc, ih]
  exact hadd 0

theorem discard_of_discardFrom {count total : Nat} (h : w.discardFrom count = (.ok total, w')) :
    count ≤ total ∧ w.discard = (.ok (total - count), w') := by
  rw [discardFrom_add] at h
  rcases hd : w.discard with ⟨e | m, v⟩ <;> rw [hd] at h
  · cases h
  · cases h
    exact ⟨Nat.le_add_right _ _, by rw [Nat.add_sub_cancel_left]⟩

/-! ## Where it ends -/

/-- The window in front of the next delimiter, or the error on the way there. -/
def settle (w : Window) : Except Error Unit × Window :=
  (w.discard.1.map fun _ => (), w.discard.2)

theorem settle_eq (count : Nat) (w : Window) :
    w.settle = ((w.discardFrom count).1.map fun _ => (), (w.discardFrom count).2) := by
  rw [discardFrom_add]
  unfold settle
  rcases w.discard with ⟨e | n, v⟩ <;> rfl

theorem settle_found (ha : w.available = (n, true)) : w.settle = (.ok (), w.pass n) := by
  rw [settle_eq 0, discardFrom_found ha]
  rfl

theorem settle_failed (ha : w.available = (n, false)) (hf : (w.pass n).refill = (.error e, w')) :
    w.settle = (.error e, w') := by
  rw [settle_eq 0, discardFrom_failed ha hf]
  rfl

theorem settle_refilled (ha : w.available = (n, false)) (hf : (w.pass n).refill = (.ok (), w')) :
    w.settle = w'.settle := by
  rw [settle_eq 0, discardFrom_refilled ha hf, ← settle_eq]

/-- Content passed beforehand is not missed. -/
theorem settle_pass (ha : w.available = (n, found)) (hk : k ≤ n) : (w.pass k).settle = w.settle := by
  rw [settle_eq 0 w, discardFrom_pass ha hk, ← settle_eq]

/-- Where a delimiter is to come behind `n` bytes of content, a read hands out some of them and
leaves the rest. -/
theorem take_of_discard {v : Window} (h : w.discard = (.ok n, v)) (hroom : 0 < room) :
    ∃ bytes w', w.take room = (.ok bytes, w') ∧ bytes.length ≤ n ∧ (bytes = [] → n = 0) ∧
      w'.discard = (.ok (n - bytes.length), v) := by
  fun_induction take w room with
  | case1 => omega
  | case2 w hr m found ha =>
    have hlen := available_le_length ha
    have htaken : (w.unread.take (min (m + 1) room)).length = min (m + 1) room := by
      rw [List.length_take]
      omega
    have hrest : (w.pass (min (m + 1) room)).discardFrom (0 + min (m + 1) room) = (.ok n, v) := by
      rw [← discardFrom_pass ha (Nat.min_le_left _ _)]
      exact h
    obtain ⟨hle, hd⟩ := discard_of_discardFrom hrest
    rw [Nat.zero_add] at hle hd
    refine ⟨_, _, rfl, by omega, fun hnil => ?_, by rw [htaken]; exact hd⟩
    rw [hnil, List.length_nil] at htaken
    omega
  | case3 w hr ha =>
    cases h.symm.trans (discardFrom_found ha 0)
    exact ⟨[], w, rfl, Nat.zero_le _, fun _ => rfl, h⟩
  | case4 w hr ha e w' hf => cases h.symm.trans (discardFrom_failed ha hf 0)
  | case5 w hr ha w' hf _ ih => exact ih ((discardFrom_refilled ha hf 0).symm.trans h)

theorem take_settle {bytes : Bytes} (h : w.take room = (.ok bytes, w')) : w'.settle = w.settle := by
  fun_induction take w room with
  | case1 => cases h; rfl
  | case2 w hr m found ha =>
    cases h
    exact settle_pass ha (Nat.min_le_left _ _)
  | case3 => cases h; rfl
  | case4 => cases h
  | case5 w hr ha w'' hf _ ih => rw [ih h, settle_refilled ha hf]

/-- A read hands out nothing only in front of a delimiter. -/
theorem settle_of_take_nil (h : w.take room = (.ok [], w')) (hroom : 0 < room) :
    ∃ v, w'.settle = (.ok (), v) := by
  fun_induction take w room with
  | case1 => omega
  | case2 w hr m found ha =>
    have hlen := available_le_length ha
    have hnil := congrArg List.length (Except.ok.inj (congrArg Prod.fst h))
    rw [List.length_take, List.length_nil] at hnil
    omega
  | case3 w hr ha =>
    cases h
    exact ⟨_, settle_found ha⟩
  | case4 => cases h
  | case5 w hr ha w'' hf _ ih => exact ih h

theorem settle_of_take_error (h : w.take room = (.error e, w')) : w.settle = (.error e, w') := by
  fun_induction take w room with
  | case1 => cases h
  | case2 => cases h
  | case3 => cases h
  | case4 w hr ha e' w'' hf =>
    cases h
    exact settle_failed ha hf
  | case5 w hr ha w'' hf _ ih => rw [settle_refilled ha hf, ih h]

theorem settle_of_discard {total : Nat} (h : w.discard = (.ok total, w')) :
    w.settle = (.ok (), w') := by
  rw [settle, h]
  rfl

theorem discard_of_settle (h : w.settle = (.ok (), w')) : ∃ total, w.discard = (.ok total, w') := by
  unfold settle at h
  rcases hd : w.discard with ⟨e | total, v⟩ <;> rw [hd] at h
  · cases h
  · cases h
    exact ⟨total, rfl⟩

theorem settle_of_discard_error (h : w.discard = (.error e, w')) : w.settle = (.error e, w') := by
  rw [settle, h]
  rfl

/-- In front of a delimiter nothing more is passed. -/
theorem settled_of_discardFrom {count total : Nat} (h : w.discardFrom count = (.ok total, w')) :
    w'.settle = (.ok (), w') := by
  fun_induction discardFrom count w with
  | case1 count w n ha =>
    cases h
    exact settle_found (available_pass_self ha)
  | case2 => cases h
  | case3 count w n ha w'' hf _ ih => exact ih h

end Window

end FormData
