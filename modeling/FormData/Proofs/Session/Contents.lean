/-
The content of a part, whoever reads it. A part yields a content when a delimiter follows that content
and no limit on files stands in the way (`OpenPart.Yields`). Reading the part to its end succeeds for
exactly the parts that yield something, with reads of any sizes (`Yields.drain`, `yields_of_drain`).
-/
import FormData.Proofs.Session.Moves
import FormData.Proofs.Session.Provenance
import FormData.Proofs.Session.Transcript

namespace FormData.OpenPart

/-- The rest of the part is `content`: a delimiter comes behind it, and the limit on files, if there is
one, lets it pass. -/
structure Yields (content : Bytes) (p : OpenPart) : Prop where
  reading : p.session.phase = .reading
  unfinished : p.isFinished = false
  undeclared : p.declaredAbove? = none
  within : ∀ limit, p.session.settings.maxFileSize = some limit →
    content = [] ∨ p.bytesRead + content.length ≤ limit
  ahead : content <+: p.session.window.pending
  ends : ∃ w, p.session.window.discard = (.ok content.length, w)

variable {p q : OpenPart} {content bytes rest : Bytes} {room : Nat}

/-! ## One read -/

/-- A declared length that is not above the limit at first never is. -/
theorem declaredAbove?_later (h : p.declaredAbove? = none) (w : Window) {count : Nat}
    (hcount : p.bytesRead ≤ count) :
    ({ p with session := { p.session with window := w }, bytesRead := count } :
      OpenPart).declaredAbove? = none := by
  unfold declaredAbove? at h ⊢
  rcases hm : p.session.settings.maxFileSize with _ | limit
  · rfl
  · rcases hl : p.head.headers.contentLength? with _ | declared
    · rfl
    · simp only [hm, hl, ite_eq_right_iff, reduceCtorEq, imp_false, not_and] at h ⊢
      intro hzero
      exact h (by omega)

/-- What a read that took these bytes does, where they stay within the limit. -/
theorem took_within {w : Window} (hne : bytes ≠ [])
    (hle : ∀ limit, p.session.settings.maxFileSize = some limit → p.bytesRead + bytes.length ≤ limit) :
    p.took bytes w = (.ok bytes, { p with
      session := { p.session with window := w }
      bytesRead := p.bytesRead + bytes.length }) := by
  unfold took
  simp only [List.isEmpty_iff, if_neg hne]
  rcases hm : p.session.settings.maxFileSize with _ | limit
  · rfl
  · exact if_neg (Nat.not_lt.2 (hle limit hm))

/-- What a read hands out is what it took, and some bytes only within the limit. -/
theorem took_ok {taken : Bytes} {w : Window} (h : p.took taken w = (.ok bytes, q)) :
    taken = bytes ∧ (bytes ≠ [] →
      q = { p with
        session := { p.session with window := w }
        bytesRead := p.bytesRead + bytes.length } ∧
      ∀ limit, p.session.settings.maxFileSize = some limit → p.bytesRead + bytes.length ≤ limit) := by
  unfold took at h
  simp only at h
  split at h
  · rename_i hempty
    cases h
    exact ⟨List.isEmpty_iff.1 hempty, fun hne => absurd rfl hne⟩
  · split at h
    · rename_i limit hm
      split at h
      · exact absurd h (refuseSize_ne_ok _ _ _ _ _)
      · rename_i hle
        cases h
        refine ⟨rfl, fun _ => ⟨rfl, ?_⟩⟩
        rintro _ hm'
        cases hm.symm.trans hm'
        exact Nat.le_of_not_lt hle
    · rename_i hm
      cases h
      refine ⟨rfl, fun _ => ⟨rfl, ?_⟩⟩
      intro limit hm'
      cases hm.symm.trans hm'

/-- A read that hands something out, or tells the end, took that from the window. -/
theorem read_ok_take (hreading : p.session.phase = .reading) (hunfinished : p.isFinished = false)
    (h : p.read room = (.ok bytes, q)) :
    p.declaredAbove? = none ∧
      ∃ w, p.session.window.take room = (.ok bytes, w) ∧ p.took bytes w = (.ok bytes, q) := by
  rw [read_unfinished (by rw [hreading]; nofun) hunfinished] at h
  rcases hdeclared : p.declaredAbove? with _ | ⟨limit, declared⟩ <;> simp only [hdeclared] at h
  · rw [readContent_eq] at h
    rcases ht : p.session.window.take room with ⟨e | taken, w⟩ <;> simp only [ht] at h
    · cases h
    · obtain ⟨rfl, -⟩ := took_ok h
      exact ⟨rfl, w, rfl, h⟩
  · exact absurd h (refuseSize_ne_ok _ _ _ _ _)

namespace Yields

theorem read_eq (h : p.Yields content) (room : Nat) : p.read room = p.readContent room := by
  rw [read_unfinished (by rw [h.reading]; nofun) h.unfinished, h.undeclared]

/-- A read with room tells the end of the content, or hands out the front of it and leaves a part that
yields the rest. -/
theorem read_cases (h : p.Yields content) (hroom : 0 < room) :
    (content = [] ∧ ∃ q, p.read room = (.ok [], q) ∧ p.session.Leaves q.session) ∨
    (∃ b bytes rest q, p.read room = (.ok (b :: bytes), q) ∧ content = b :: bytes ++ rest ∧
      q.Yields rest ∧ q.head = p.head ∧ p.session.Leaves q.session) := by
  have hout := read_outcome h.reading room
  have hread := h.read_eq room
  obtain ⟨v, hd⟩ := h.ends
  obtain ⟨taken, w, ht, hlen, hnil, hd'⟩ := Window.take_of_discard hd hroom
  rw [readContent_eq, ht] at hread
  simp only at hread
  -- what was taken is the front of the content, since both come first in what is pending
  have hfront : taken <+: content := by
    refine List.prefix_of_prefix_length_le ?_ h.ahead hlen
    exact ⟨w.pending, (Window.take_ok ht).symm⟩
  obtain ⟨rest, hrest⟩ := hfront
  cases taken with
  | nil =>
    left
    have hcontent : content = [] := List.eq_nil_of_length_eq_zero (hnil rfl)
    rw [show p.took [] w = (.ok [], _) from rfl] at hread
    rw [hread] at hout
    exact ⟨hcontent, _, hread, hout⟩
  | cons b bytes =>
    right
    have hle : ∀ limit, p.session.settings.maxFileSize = some limit →
        p.bytesRead + content.length ≤ limit := by
      intro limit hm
      rcases h.within limit hm with hcontent | hle
      · rw [hcontent] at hrest
        cases hrest
      · exact hle
    have hlength := congrArg List.length hrest
    rw [List.length_append] at hlength
    have hwithin : ∀ limit, p.session.settings.maxFileSize = some limit →
        p.bytesRead + (b :: bytes).length ≤ limit := by
      intro limit hm
      have := hle limit hm
      omega
    rw [took_within (List.cons_ne_nil _ _) hwithin] at hread
    rw [hread] at hout
    refine ⟨b, bytes, rest, _, hread, hrest.symm, ?_, rfl, hout⟩
    refine {
      reading := h.reading
      unfinished := h.unfinished
      undeclared := declaredAbove?_later h.undeclared w (Nat.le_add_right _ _)
      within := ?_
      ahead := ?_
      ends := ⟨v, ?_⟩ }
    · intro limit hm
      right
      have := hle limit hm
      simp only
      omega
    · have hahead := h.ahead
      rw [Window.take_ok ht, ← hrest] at hahead
      exact (List.prefix_append_right_inj _).1 hahead
    · rw [hd']
      congr 2
      omega

end Yields

/-- A read that tells the end of a content finds nothing before the delimiter. -/
theorem yields_of_read_nil (hreading : p.session.phase = .reading) (hunfinished : p.isFinished = false)
    (hroom : 0 < room) (h : p.read room = (.ok [], q)) : p.Yields [] := by
  obtain ⟨hdeclared, w, ht, -⟩ := read_ok_take hreading hunfinished h
  -- nothing is taken only in front of a delimiter, so nothing is left to discard
  obtain ⟨v, hv⟩ := Window.settle_of_take_nil ht hroom
  obtain ⟨n, hn⟩ := Window.discard_of_settle ((Window.take_settle ht).symm.trans hv)
  obtain ⟨_, _, ht', -, hzero, -⟩ := Window.take_of_discard hn hroom
  cases ht.symm.trans ht'
  rw [hzero rfl] at hn
  exact ⟨hreading, hunfinished, hdeclared, fun _ _ => .inl rfl, List.nil_prefix, v, hn⟩

/-- A read leaves the part as it was but for what it hands out. -/
theorem read_goes_on (hreading : p.session.phase = .reading) (hunfinished : p.isFinished = false)
    (hne : bytes ≠ []) (h : p.read room = (.ok bytes, q)) :
    ∃ w, q = { p with
      session := { p.session with window := w }
      bytesRead := p.bytesRead + bytes.length } := by
  obtain ⟨-, w, -, htook⟩ := read_ok_take hreading hunfinished h
  exact ⟨w, ((took_ok htook).2 hne).1⟩

/-- What a read hands out comes before what the part yields then. -/
theorem yields_of_read (hreading : p.session.phase = .reading) (hunfinished : p.isFinished = false)
    (hroom : 0 < room) (hne : bytes ≠ []) (h : p.read room = (.ok bytes, q)) (hq : q.Yields rest) :
    p.Yields (bytes ++ rest) := by
  obtain ⟨hdeclared, w, ht, htook⟩ := read_ok_take hreading hunfinished h
  obtain ⟨rfl, hle⟩ := (took_ok htook).2 hne
  obtain ⟨v, hd⟩ := hq.ends
  -- the delimiter behind the rest is the one behind the whole
  have hsettle := (Window.take_settle ht).symm.trans (Window.settle_of_discard hd)
  obtain ⟨n, hn⟩ := Window.discard_of_settle hsettle
  obtain ⟨_, _, ht', hlen, -, hd'⟩ := Window.take_of_discard hn hroom
  cases ht.symm.trans ht'
  have hrest : rest.length = n - bytes.length :=
    Except.ok.inj (congrArg Prod.fst (hd.symm.trans hd'))
  have hall : n = (bytes ++ rest).length := by
    rw [List.length_append]
    omega
  refine {
    reading := hreading
    unfinished := hunfinished
    undeclared := hdeclared
    within := ?_
    ahead := ?_
    ends := ⟨v, hall ▸ hn⟩ }
  · intro limit hm
    right
    rw [List.length_append]
    rcases hq.within limit hm with hnil | hwithin
    · have := hle limit hm
      rw [hnil, List.length_nil]
      omega
    · simp only at hwithin
      omega
  · rw [Window.take_ok ht]
    exact (List.prefix_append_right_inj _).2 hq.ahead

/-! ## Reading to the end -/

namespace Yields

/-- Whatever rooms the reads have, they hand out the content and find its end. -/
theorem drain (h : p.Yields content) {rooms : Nat → Nat} (hrooms : ∀ i, 0 < rooms i) (count : Nat) :
    ∃ q, p.drain rooms count = ((content, none), q) ∧ p.session.Leaves q.session := by
  fun_induction OpenPart.drain rooms count p generalizing content with
  | case1 count p e p' hr =>
    obtain ⟨-, q, hr', -⟩ | ⟨b, bytes, rest, q, hr', -⟩ := h.read_cases (hrooms count)
    · cases hr.symm.trans hr'
    · cases hr.symm.trans hr'
  | case2 count p p' hr =>
    obtain ⟨rfl, q, hr', hl⟩ | ⟨b, bytes, rest, q, hr', -⟩ := h.read_cases (hrooms count)
    · cases hr.symm.trans hr'
      exact ⟨_, rfl, hl⟩
    · cases hr.symm.trans hr'
  | case3 count p b bytes p' hr _ content' failure p'' hd ih =>
    obtain ⟨-, q, hr', -⟩ | ⟨b, bytes, rest, q, hr', rfl, hq, -, hl⟩ := h.read_cases (hrooms count)
    · cases hr.symm.trans hr'
    · cases hr.symm.trans hr'
      obtain ⟨q', hd', hl'⟩ := ih hq
      cases hd.symm.trans hd'
      exact ⟨_, rfl, hl.trans hl'⟩

end Yields

/-- Only a part that yields its content is read to an end. -/
theorem yields_of_drain {rooms : Nat → Nat} (hrooms : ∀ i, 0 < rooms i) {count : Nat}
    (hreading : p.session.phase = .reading) (hunfinished : p.isFinished = false)
    (h : p.drain rooms count = ((content, none), q)) : p.Yields content := by
  fun_induction OpenPart.drain rooms count p generalizing content q with
  | case1 => cases h
  | case2 count p p' hr =>
    cases h
    exact yields_of_read_nil hreading hunfinished (hrooms count) hr
  | case3 count p b bytes p' hr _ content' failure p'' hd ih =>
    cases h
    obtain ⟨w, rfl⟩ := read_goes_on hreading hunfinished (List.cons_ne_nil _ _) hr
    exact yields_of_read hreading hunfinished (hrooms count) (List.cons_ne_nil _ _) hr
      (ih hreading hunfinished hd)

end FormData.OpenPart
