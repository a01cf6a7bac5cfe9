/-
Bodies that begin with a delimiter. A session that looks for the first delimiter stops right there
(`Window.findFirst_front`), whatever the sizes of its reads. So if it takes the body apart to the end, a line
break or two dashes are behind that delimiter (`Session.OpenedOn.front`).
-/
import FormData.Proofs.Session.SameBody
import FormData.Proofs.Session.Provenance

namespace FormData

namespace Window

variable {w w' : Window} {boundary : Bytes} {more : Bool} {e : Error}

/-! ## In front of the first delimiter -/

theorem refill_pattern (w : Window) : w.refill.2.pattern = w.pattern := by
  have hfill : w.fill.2.pattern = w.pattern := by
    unfold fill
    split <;> rfl
  unfold refill
  split <;> (rename_i hf; rw [hf] at hfill; exact hfill)

/-- Nothing is passed in front of a delimiter. -/
theorem discardFrom_front {count total : Nat} (h : w.pattern <+: w.pending)
    (hd : w.discardFrom count = (.ok total, w')) : w'.pending = w.pending ∧ w'.pattern = w.pattern := by
  -- as long as the whole delimiter is not in the window, all that is there is held back
  have hnone : ∀ {u : Window} {n : Nat} {found : Bool}, u.pattern <+: u.pending →
      u.available = (n, found) → n = 0 := by
    intro u n found hu ha
    have hin : u.unread <+: u.pending := List.prefix_append _ _
    cases found with
    | true =>
      have hlocate := Bytes.before_eq_true_iff.1 ha
      have hle := Bytes.locate?_add_length_le hlocate
      have hfront : u.pattern <+: u.unread := List.prefix_of_prefix_length_le hu hin (by omega)
      obtain ⟨-, -, hfirst⟩ := (Bytes.locate?_eq_some_iff _ _ _).1 hlocate
      rcases n with _ | n
      · rfl
      · exact absurd hfront (hfirst 0 (Nat.succ_pos n))
    | false =>
      obtain ⟨hlocate, hlen⟩ := Bytes.before_eq_false_iff.1 ha
      rcases Nat.le_total u.pattern.length u.unread.length with hle | hle
      · have hfront : u.pattern <+: u.unread := List.prefix_of_prefix_length_le hu hin hle
        exact absurd hfront.isInfix ((Bytes.locate?_eq_none_iff _ _).1 hlocate)
      · omega
  fun_induction discardFrom count w with
  | case1 count w n ha =>
    cases hd
    obtain rfl := hnone h ha
    exact ⟨rfl, rfl⟩
  | case2 => cases hd
  | case3 count w n ha w'' hf _ ih =>
    obtain rfl := hnone h ha
    have hpending : w''.pending = w.pending := (refill_ok hf).1
    have hpattern : w''.pattern = w.pattern := by
      have hrefill := (w.pass 0).refill_pattern
      rw [hf] at hrefill
      exact hrefill
    obtain ⟨h1, h2⟩ := ih (by rw [hpending, hpattern]; exact h) hd
    exact ⟨h1.trans hpending, h2.trans hpattern⟩

theorem findFirst_front (h : dashed w.boundary <+: w.pending) (hf : w.findFirst = (.ok more, w')) :
    w.pending = dashed w.boundary ++ delimiterEnd more ++ w'.pending := by
  unfold findFirst at hf
  split at hf
  · cases hf
  · cases hf
  · rename_i n v hd
    obtain ⟨hpending, hpattern⟩ := discardFrom_front (w := { w with atStart := true }) h hd
    rcases hread : v.readDelimiter with ⟨e | more', v'⟩ <;> rw [hread] at hf <;> cases hf
    have hfront := readDelimiter_ok hread
    rw [hpending, hpattern] at hfront
    exact hfront

end Window

namespace Session

variable {body boundary : Bytes} {settings : Settings} {s : Session} {parts : List (PartHead × Bytes)}

/-- If a session takes a body that begins with a delimiter apart to its end, the delimiter is complete. -/
theorem OpenedOn.front (h : OpenedOn body boundary settings s) (hfront : Window.dashed boundary <+: body)
    (hdecodes : s.Decodes parts) :
    ∃ more rest, body = Window.dashed boundary ++ Window.delimiterEnd more ++ rest := by
  have hnone := h.failures_eq
  obtain ⟨source, hsteady, rfl, hopen⟩ := h
  obtain ⟨-, rfl⟩ := open?_ok hopen
  generalize hs : ({ window := _, boundary, settings } : Session) = s at hdecodes hnone
  rcases hfirst : s.window.findFirst with ⟨e | more, w⟩
  · -- a search that fails would stop the session before its first part
    exfalso
    have hturn : s.turn = (.stop (.error e), { s with window := w, preamble := false }) := by
      unfold turn nextDelimiter
      rw [← hs] at hfirst ⊢
      rw [if_pos rfl, hfirst]
    have hnext : s.hasNext = (.error e, ({ s with window := w, preamble := false } : Session).afterError e) := by
      have hphase : s.phase = .start := by rw [← hs]
      unfold hasNext advance
      simp only [hphase, locate_of_stop hturn]
    have hfatal : e.isFatal = true := by
      have hscanned := s.window.findFirst_scanned
      rw [hfirst] at hscanned
      refine (cause_of_scanned hscanned).resolve_left ?_
      rw [hnone]
      exact List.not_mem_nil
    have hne : e ≠ .exhausted := by
      rintro rfl
      cases hfatal
    obtain ⟨-, he⟩ := hdecodes.unique (.stop (nextPart_of_hasNext_error hnext) fun he => absurd he hne)
    exact hne he.symm
  · rw [← hs] at hfirst
    exact ⟨more, w.pending, Window.findFirst_front hfront hfirst⟩

/-- Before the first delimiter, the search for it is all that counts of a window. -/
theorem nextPart_of_findFirst {v : Window} (hphase : s.phase = .start) (hpreamble : s.preamble = true)
    (hfirst : v.findFirst = s.window.findFirst) : ({ s with window := v } : Session).nextPart = s.nextPart := by
  have hturn : ({ s with window := v } : Session).turn = s.turn := by
    unfold turn nextDelimiter
    simp only [hpreamble, if_true, hfirst]
  have hlocate : ({ s with window := v } : Session).locate = s.locate := by
    rcases ht : s.turn with ⟨_ | r, s'⟩
    · rw [locate_of_again ht, locate_of_again (hturn.trans ht)]
    · rw [locate_of_stop ht, locate_of_stop (hturn.trans ht)]
  have hphase' : ({ s with window := v } : Session).phase = .start := hphase
  apply nextPart_eq_of_hasNext
  generalize ({ s with window := v } : Session) = t at hlocate hphase'
  unfold hasNext advance
  simp only [hphase, hphase', hlocate]

end Session

end FormData
