/-
What an error leaves in the account. The limit of a request is marked as passed where that is the
error, and only there, so the account alone tells which error a failed session has to repeat
(`discardFrom_tells`, `findFirst_tells` and the lemmas beside them). An error that came from the source
may look the same and leaves no mark.
-/
import FormData.Body.HeaderBlock
import FormData.Proofs.Body.Failures
import FormData.Proofs.Body.Steady

namespace FormData

/-! ## Causes -/

/-- The error of every call after this one ended the session. -/
def Error.cause : Error → Error
  | .requestSize limit actual => .requestSize limit actual
  | _ => .aborted

namespace Account

/-- The error of every call on a failed session with this account. -/
def refusal (a : Account) : Error :=
  match a.overrun with
  | some (limit, actual) => .requestSize limit actual
  | none => .aborted

theorem refusal_eq_aborted_iff {a : Account} : a.refusal = .aborted ↔ a.overrun = none := by
  unfold refusal
  rcases a.overrun with _ | ⟨limit, actual⟩ <;> simp

theorem refusal_eq_requestSize_iff {a : Account} {limit actual : Nat} :
    a.refusal = .requestSize limit actual ↔ a.overrun = some (limit, actual) := by
  unfold refusal
  rcases a.overrun with _ | ⟨limit', actual'⟩ <;> simp

@[simp] theorem cause_refusal (a : Account) : a.refusal.cause = a.refusal := by
  unfold refusal
  rcases a.overrun with _ | ⟨limit, actual⟩ <;> rfl

theorem countBytes_tells {a : Account} (h : a.overrun = none) (count : Nat) :
    match a.countBytes count with
    | (.ok (), a') => a'.overrun = none
    | (.error e, a') => a'.refusal = e.cause := by
  rcases hm : a.maxRequestSize with _ | limit
  · simp only [countBytes, hm, report_overrun]
    exact h
  · by_cases hl : limit < a.bytesRead + count
    · simp only [countBytes, hm, if_pos hl]
      rfl
    · simp only [countBytes, hm, if_neg hl, report_overrun]
      exact h

theorem countPart_tells {a : Account} (h : a.overrun = none) :
    match a.countPart with
    | (.ok (), a') => a'.overrun = none
    | (.error e, a') => a'.refusal = e.cause := by
  rcases hm : a.maxParts with _ | limit
  · simp only [countPart, hm, report_overrun]
    exact h
  · by_cases hl : limit < a.parts + 1
    · simp only [countPart, hm, if_pos hl]
      exact refusal_eq_aborted_iff.2 h
    · simp only [countPart, hm, if_neg hl, report_overrun]
      exact h

end Account

/-! ## Windows -/

/-- The account repeats the cause of this error, unless the source raised it. -/
def Account.Tells (a : Account) (failures : List Error) (e : Error) : Prop :=
  a.refusal = e.cause ∨ a.refusal = .aborted ∧ e ∈ failures

namespace Account

variable {a : Account} {failures more : List Error} {e : Error}

theorem Tells.mono (h : a.Tells failures e) (hsub : failures ⊆ more) : a.Tells more e :=
  h.imp_right fun ⟨haborted, hmem⟩ => ⟨haborted, hsub hmem⟩

/-- Where the source does not raise the error of the limit itself, nothing but passing it looks so. -/
theorem Tells.refusal_eq (h : a.Tells failures e)
    (hplain : ∀ limit actual, .requestSize limit actual ∉ failures) : a.refusal = e.cause := by
  obtain hcause | ⟨haborted, hmem⟩ := h
  · exact hcause
  · rw [haborted]
    cases e with
    | requestSize limit actual => exact absurd hmem (hplain limit actual)
    | _ => rfl

end Account

namespace Window

/-- An operation on `w` keeps the account as it was if it succeeds, as far as the limit goes, and leaves
the cause of its error if it fails. -/
structure Tells {α : Type} (w : Window) (x : Except Error α × Window) : Prop where
  failures : x.2.failures ⊆ w.failures
  kept : ∀ a, x.1 = .ok a → x.2.feed.account.overrun = w.feed.account.overrun
  cause : ∀ e, x.1 = .error e → x.2.feed.account.Tells w.failures e

variable {α β : Type} {w w' : Window}

namespace Tells

theorem done {a : α} (hf : w'.failures ⊆ w.failures)
    (h : w'.feed.account.overrun = w.feed.account.overrun) : w.Tells (Except.ok a, w') :=
  ⟨hf, fun _ _ => h, nofun⟩

/-- An error of the operation itself, which passes no limit. -/
theorem stopped {e : Error} (hf : w'.failures ⊆ w.failures) (h : w'.feed.account.overrun = none)
    (he : e.cause = .aborted) : w.Tells ((.error e, w') : Except Error α × Window) where
  failures := hf
  kept := nofun
  cause := by
    rintro _ ⟨⟩
    exact .inl ((Account.refusal_eq_aborted_iff.2 h).trans he.symm)

/-- The error of one operation is that of another. -/
theorem failed {e : Error} (h : w.Tells ((.error e, w') : Except Error α × Window)) :
    w.Tells ((.error e, w') : Except Error β × Window) :=
  ⟨h.failures, nofun, fun _ he => h.cause _ (congrArg Except.error (Except.error.inj he))⟩

/-- An operation that goes on from where another came to. -/
theorem after {a : α} {x : Except Error β × Window} (h : w'.Tells x)
    (hw : w.Tells (.ok a, w')) : w.Tells x where
  failures := List.Subset.trans h.failures hw.failures
  kept b hb := (h.kept b hb).trans (hw.kept a rfl)
  cause e he := (h.cause e he).mono hw.failures

/-- What succeeds behind a step that did leaves the account as that step found it. -/
theorem overrun_eq {a : α} (h : w.Tells (.ok a, w')) :
    w'.feed.account.overrun = w.feed.account.overrun :=
  h.kept a rfl

end Tells

/-! ## Content -/

/-- A read succeeds only within the limit. -/
theorem fill_tells (w : Window) :
    w.Tells w.fill ∧ ∀ count, w.fill.1 = .ok count → w.feed.account.overrun = none := by
  have hfailures := w.fill_failures
  unfold fill Feed.read at hfailures ⊢
  rcases ho : w.feed.account.overrun with _ | ⟨limit, actual⟩
  · simp only [ho] at hfailures ⊢
    have hraise := (w.feed.source.read_raises (w.capacity - w.unread.length)).error
    rcases hr : w.feed.source.read (w.capacity - w.unread.length) with ⟨e | bytes, source⟩ <;>
      simp only [hr] at hfailures hraise ⊢
    · refine ⟨⟨hfailures, nofun, ?_⟩, fun _ _ => trivial⟩
      rintro _ ⟨⟩
      exact .inr ⟨Account.refusal_eq_aborted_iff.2 ho, hraise e rfl⟩
    · refine ⟨?_, fun _ _ => trivial⟩
      have hcount := Account.countBytes_tells ho bytes.length
      by_cases hb : bytes.isEmpty
      · simp only [hb, if_true] at hfailures ⊢
        exact .done hfailures rfl
      · simp only [hb, Bool.false_eq_true, if_false] at hfailures ⊢
        rcases hc : w.feed.account.countBytes bytes.length with ⟨e | ⟨⟩, account⟩ <;>
          simp only [hc] at hfailures hcount ⊢
        · refine ⟨hfailures, nofun, ?_⟩
          rintro _ ⟨⟩
          exact .inl hcount
        · exact .done hfailures (hcount.trans ho.symm)
  · simp only
    refine ⟨⟨List.Subset.refl _, nofun, ?_⟩, nofun⟩
    rintro _ ⟨⟩
    exact .inl (Account.refusal_eq_requestSize_iff.2 ho)

theorem refill_tells (w : Window) : w.Tells w.refill := by
  obtain ⟨h, hunspent⟩ := w.fill_tells
  unfold refill
  rcases hf : w.fill with ⟨e | _ | n, w'⟩ <;> rw [hf] at h hunspent
  · exact h.failed
  · exact .stopped h.failures (h.overrun_eq.trans (hunspent 0 rfl)) rfl
  · exact .done h.failures h.overrun_eq

theorem pass_tells (w : Window) (count : Nat) : w.Tells (Except.ok (), w.pass count) :=
  .done (List.Subset.refl _) rfl

theorem take_tells (w : Window) (room : Nat) : w.Tells (w.take room) := by
  fun_induction take w room with
  | case1 => exact .done (List.Subset.refl _) rfl
  | case2 => exact .done (List.Subset.refl _) rfl
  | case3 => exact .done (List.Subset.refl _) rfl
  | case4 w _ _ e w' hf =>
    have h := w.refill_tells
    rw [hf] at h
    exact h.failed
  | case5 w _ _ w' hf _ ih =>
    have h := w.refill_tells
    rw [hf] at h
    exact ih.after h

theorem discardFrom_tells (count : Nat) (w : Window) : w.Tells (w.discardFrom count) := by
  fun_induction discardFrom count w with
  | case1 => exact .done (List.Subset.refl _) rfl
  | case2 count w n _ e w' hf =>
    have h := (w.pass n).refill_tells
    rw [hf] at h
    exact h.failed.after (w.pass_tells n)
  | case3 count w n _ w' hf _ ih =>
    have h := (w.pass n).refill_tells
    rw [hf] at h
    exact (ih.after h).after (w.pass_tells n)

theorem discard_tells (w : Window) : w.Tells w.discard :=
  discardFrom_tells 0 w

/-! ## Delimiters and header blocks -/

theorem readByte_tells (w : Window) : w.Tells w.readByte := by
  obtain ⟨h, hunspent⟩ := w.fill_tells
  unfold readByte
  split
  · exact .done (List.Subset.refl _) rfl
  · rcases hf : w.fill with ⟨e | n, w'⟩ <;> rw [hf] at h hunspent
    · exact h.failed
    · simp only
      split
      · exact .done h.failures h.overrun_eq
      · exact .stopped h.failures (h.overrun_eq.trans (hunspent n rfl)) rfl

theorem readDelimiter_tells {w : Window} (hw : w.feed.account.overrun = none) :
    w.Tells w.readDelimiter := by
  have h1 := (w.pass w.pattern.length).readByte_tells.after (w.pass_tells w.pattern.length)
  unfold readDelimiter
  split
  · rcases hr1 : (w.pass w.pattern.length).readByte with ⟨e | first, w1⟩ <;> rw [hr1] at h1
    · exact h1.failed
    · have h2 := w1.readByte_tells.after h1
      simp only
      rcases hr2 : w1.readByte with ⟨e | second, w2⟩ <;> rw [hr2] at h2
      · exact h2.failed
      · simp only
        split
        · exact .done h2.failures h2.overrun_eq
        · split
          · exact .done h2.failures h2.overrun_eq
          · exact .stopped h2.failures (h2.overrun_eq.trans hw) rfl
  · exact .stopped (List.Subset.refl _) hw rfl

theorem findFirst_tells {w : Window} (hw : w.feed.account.overrun = none) :
    w.Tells w.findFirst := by
  have h := discard_tells { w with atStart := true }
  unfold findFirst
  rcases hd : ({ w with atStart := true } : Window).discard with ⟨e | n, w'⟩ <;> rw [hd] at h
  · have hcause := h.cause e rfl
    cases e with
    | malformed fault =>
      -- reported as a missing boundary, and passes no more of a limit than that
      have haborted : w'.feed.account.refusal = .aborted := hcause.elim id And.left
      exact .stopped h.failures (Account.refusal_eq_aborted_iff.1 haborted) rfl
    | _ =>
      refine ⟨h.failures, nofun, ?_⟩
      rintro _ ⟨⟩
      exact hcause
  · have hread := (readDelimiter_tells (w := w') (h.overrun_eq.trans hw)).after h
    simp only
    rcases hr : w'.readDelimiter with ⟨e | more, w''⟩ <;> rw [hr] at hread
    · exact ⟨hread.failures, nofun, hread.cause⟩
    · exact .done hread.failures hread.overrun_eq

theorem readBlockFrom_tells (limit : Nat) (ending : Ending) (count : Nat) (block : Bytes)
    {w : Window} (hw : w.feed.account.overrun = none) :
    w.Tells (w.readBlockFrom limit ending count block) := by
  fun_induction readBlockFrom limit ending count block w with
  | case1 => exact .done (List.Subset.refl _) rfl
  | case2 _ _ _ w _ e w' hr =>
    have h := w.readByte_tells
    rw [hr] at h
    exact h.failed
  | case3 _ _ _ w _ b w' hr _ _ =>
    have h := w.readByte_tells
    rw [hr] at h
    exact .stopped h.failures (h.overrun_eq.trans hw) rfl
  | case4 _ _ _ w _ b w' hr _ _ ih =>
    have h := w.readByte_tells
    rw [hr] at h
    exact (ih (h.overrun_eq.trans hw)).after h

theorem readHeaderBlock_tells {w : Window} (hw : w.feed.account.overrun = none) (limit : Nat) :
    w.Tells (w.readHeaderBlock limit) :=
  readBlockFrom_tells limit .crlf 0 [] hw

theorem setBoundary_tells {w : Window} (hw : w.feed.account.overrun = none) (boundary : Bytes) :
    w.Tells (w.setBoundary boundary) := by
  unfold setBoundary checkBoundary
  split
  · rename_i e he
    split at he
    · cases he
      exact .stopped (List.Subset.refl _) hw rfl
    · split at he
      · cases he
        exact .stopped (List.Subset.refl _) hw rfl
      · cases he
  · exact .done (List.Subset.refl _) rfl

end Window

end FormData
