/-
How a body is cut into reads does not show in the transcript of a session. Two sessions are alike
when the same bytes are pending in them and they stand at the same place of the same body, whatever
is in their windows; every step takes alike sessions to the same result and to alike sessions again
(`turn_agree`, `locate_agree`, `nextPart_agree`), so their transcripts are the same. Only an inner
boundary too long for one of the two windows can tell them apart.
-/
import FormData.Proofs.Session.Transcript

namespace FormData

/-! ## Windows alike -/

namespace Window

/-- The same bytes pending and the same looked for, each window on a steady source of its own. -/
structure Alike (w v : Window) : Prop where
  left : w.Steady
  right : v.Steady
  pending : w.pending = v.pending
  boundary : w.boundary = v.boundary
  atStart : w.atStart = v.atStart
  sameParts : w.feed.account.SameParts v.feed.account

/-- The same outcome of an operation on `w` and on `v`, which leaves them alike if it succeeds. -/
inductive Agree {α : Type} (w v : Window) :
    Except Error α × Window → Except Error α × Window → Prop
  | ok {a : α} {w' v' : Window} :
    w'.Alike v' → w.Onward w' → v.Onward v' → Agree w v (.ok a, w') (.ok a, v')
  | error {e : Error} {w' v' : Window} : Agree w v (.error e, w') (.error e, v')

namespace Alike

variable {w v : Window}

theorem pattern (h : w.Alike v) : w.pattern = v.pattern := by
  unfold Window.pattern; rw [h.atStart, h.boundary]

theorem ahead (h : w.Alike v) : w.ahead = v.ahead := by
  unfold Window.ahead; rw [h.pattern, h.pending]

/-- Windows that read on to the same bytes pending are alike again. -/
theorem after (h : w.Alike v) {w' v' : Window} (how : w.Onward w') (hov : v.Onward v')
    (hp : w'.pending = v'.pending) : w'.Alike v' := by
  refine ⟨how.steady, hov.steady, hp, ?_, ?_, ?_, ?_⟩
  · rw [how.boundary, hov.boundary, h.boundary]
  · rw [how.atStart, hov.atStart, h.atStart]
  · rw [how.sameParts.parts, hov.sameParts.parts, h.sameParts.parts]
  · rw [how.sameParts.maxParts, hov.sameParts.maxParts, h.sameParts.maxParts]

theorem agree {α : Type} {x y : Except Error α × Window} {r : Except Error (α × Bytes)}
    (h : w.Alike v) (hx : w.Reads x r) (hy : v.Reads y r) : Agree w v x y := by
  cases r with
  | error e =>
    obtain ⟨w', rfl, -⟩ := hx
    obtain ⟨v', rfl, -⟩ := hy
    exact .error
  | ok result =>
    obtain ⟨w', rfl, hw, how⟩ := hx
    obtain ⟨v', rfl, hv, hov⟩ := hy
    exact .ok (h.after how hov (hw.trans hv.symm)) how hov

/-- Both run into the end of the body, or both come to a delimiter. -/
theorem discard_agree (h : w.Alike v) :
    (∃ e w' v', w.discard = (.error e, w') ∧ v.discard = (.error e, v')) ∨
      ∃ count w' v', w.discard = (.ok count, w') ∧ v.discard = (.ok count, v') ∧
        (w'.Alike v' ∧ w.Onward w' ∧ v.Onward v') ∧ w'.AtDelimiter ∧ v'.AtDelimiter := by
  have hv := discard_reads h.right
  rw [← h.ahead, ← h.pending] at hv
  have hagree := h.agree (discard_reads h.left) hv
  generalize hw : w.discard = x at hagree
  generalize hv : v.discard = y at hagree
  cases hagree with
  | error => exact .inl ⟨_, _, _, rfl, rfl⟩
  | ok hwv how hov =>
    exact .inr ⟨_, _, _, rfl, rfl, ⟨hwv, how, hov⟩, discard_atDelimiter hw, discard_atDelimiter hv⟩

theorem readDelimiter_agree (h : w.Alike v) (hw : w.AtDelimiter) (hv : v.AtDelimiter) :
    Agree w v w.readDelimiter v.readDelimiter := by
  have hr := readDelimiter_reads h.right hv
  rw [← h.pattern, ← h.pending] at hr
  exact h.agree (readDelimiter_reads h.left hw) hr

theorem findFirst_agree (h : w.Alike v) (hstart : w.atStart = false) :
    Agree w v w.findFirst v.findFirst := by
  have hv := findFirst_reads h.right (h.atStart ▸ hstart)
  rw [← h.boundary, ← h.pending] at hv
  exact h.agree (findFirst_reads h.left hstart) hv

theorem readHeaderBlock_agree (h : w.Alike v) (limit : Nat) :
    Agree w v (w.readHeaderBlock limit) (v.readHeaderBlock limit) := by
  have hv := readHeaderBlock_reads h.right limit
  rw [← h.pending] at hv
  exact h.agree (readHeaderBlock_reads h.left limit) hv

/-- Looking for another boundary keeps windows alike, if it fits both. -/
theorem withBoundary (h : w.Alike v) {boundary boundary' : Bytes} (hsame : boundary = boundary')
    (hw : boundary.length + 4 < w.capacity) (hv : boundary'.length + 4 < v.capacity) :
    ({ w with boundary } : Window).Alike { v with boundary := boundary' } :=
  ⟨⟨h.left.feed, hw⟩, ⟨h.right.feed, hv⟩, h.pending, hsame, h.atStart, h.sameParts⟩

end Alike

end Window

/-- What a window of this size answers to a set in the body whose boundary it cannot hold. -/
def Error.IsTightWindow (body : Bytes) (size : Nat) (e : Error) : Prop :=
  ∃ block field boundary, block <:+: body ∧
    Session.setOf (Headers.ofBlock block) = .ok (some (field, boundary)) ∧
    size ≤ boundary.length + 4 ∧ e = .settings (.smallWindow size (boundary.length + 4))

/-- The same transcript, unless a window was too small for an inner boundary. -/
def Transcript.Agree (body : Bytes) (c d : Nat) (t u : Transcript) : Prop :=
  t = u ∨ t.error.IsTightWindow body c ∨ u.error.IsTightWindow body d

/-- The first of two transcripts, if a window of this size was too small for an inner boundary: it ends
there, after some of the parts of the other. -/
def Transcript.Cut (body : Bytes) (size : Nat) (t u : Transcript) : Prop :=
  t.error.IsTightWindow body size ∧ t.broken = none ∧ t.parts <+: u.parts

/-- The same transcript, unless the windows are of different sizes, and one is too small for an inner
boundary. -/
def Transcript.Matches (body : Bytes) (c d : Nat) (t u : Transcript) : Prop :=
  t = u ∨ c ≠ d ∧ (t.Cut body c u ∨ u.Cut body d t)

theorem Transcript.Cut.cons {body : Bytes} {size : Nat} {t u : Transcript} (h : t.Cut body size u)
    (part : PartHead × Bytes) : (t.cons part).Cut body size (u.cons part) :=
  ⟨h.1, h.2.1, (List.prefix_cons_inj part).2 h.2.2⟩

theorem Transcript.Matches.cons {body : Bytes} {c d : Nat} {t u : Transcript}
    (h : t.Matches body c d u) (part : PartHead × Bytes) : (t.cons part).Matches body c d (u.cons part) := by
  rcases h with rfl | ⟨hcd, h | h⟩
  · exact .inl rfl
  · exact .inr ⟨hcd, .inl (h.cons part)⟩
  · exact .inr ⟨hcd, .inr (h.cons part)⟩

/-! ## Sessions alike -/

namespace Session

/-- Two steady sessions at the same place of one body, with windows of `c` and of `d` bytes. -/
structure Alike (body : Bytes) (c d : Nat) (s t : Session) : Prop where
  left : s.Steady
  right : t.Steady
  leftSize : s.window.capacity = c
  rightSize : t.window.capacity = d
  window : s.window.Alike t.window
  within : s.pending <:+ body
  boundary : s.boundary = t.boundary
  enclosing : s.enclosing = t.enclosing
  preamble : s.preamble = t.preamble
  phase : s.phase = t.phase
  maxHeaderSize : s.settings.maxHeaderSize = t.settings.maxHeaderSize

/-- The next delimiter is the first one, wherever it is, or the window stands on it. -/
def Ready (s : Session) : Prop :=
  s.preamble = true ∨ s.window.AtDelimiter

/-- The same outcome of a search for the next part, unless a window was too small for a boundary. -/
inductive Agree (body : Bytes) (c d : Nat) : Except Error Bool × Session → Except Error Bool × Session → Prop
  | ok {more : Bool} {s t : Session} : Alike body c d s t → Agree body c d (.ok more, s) (.ok more, t)
  | error {e : Error} {s t : Session} : Agree body c d (.error e, s) (.error e, t)
  | tightLeft {e : Error} {s : Session} {y : Except Error Bool × Session} :
    c ≠ d → e.IsTightWindow body c → Agree body c d (.error e, s) y
  | tightRight {e : Error} {t : Session} {x : Except Error Bool × Session} :
    c ≠ d → e.IsTightWindow body d → Agree body c d x (.error e, t)

/-- The same for one delimiter. -/
inductive TurnAgree (body : Bytes) (c d : Nat) : Turn × Session → Turn × Session → Prop
  | again {s t : Session} :
    Alike body c d s t → s.Ready → t.Ready → TurnAgree body c d (.again, s) (.again, t)
  | stop {more : Bool} {s t : Session} :
    Alike body c d s t → TurnAgree body c d (.stop (.ok more), s) (.stop (.ok more), t)
  | error {e : Error} {s t : Session} :
    TurnAgree body c d (.stop (.error e), s) (.stop (.error e), t)
  | tightLeft {e : Error} {s : Session} {y : Turn × Session} :
    c ≠ d → e.IsTightWindow body c → TurnAgree body c d (.stop (.error e), s) y
  | tightRight {e : Error} {t : Session} {x : Turn × Session} :
    c ≠ d → e.IsTightWindow body d → TurnAgree body c d x (.stop (.error e), t)

/-- The same part handed out, or the same error. -/
inductive PartAgree (body : Bytes) (c d : Nat) :
    Except (Error × Session) OpenPart → Except (Error × Session) OpenPart → Prop
  | part {p q : OpenPart} : Alike body c d p.session q.session → p.Fresh → q.Fresh → p.head = q.head →
    PartAgree body c d (.ok p) (.ok q)
  | error {e : Error} {s t : Session} : PartAgree body c d (.error (e, s)) (.error (e, t))
  | tightLeft {e : Error} {s : Session} {y : Except (Error × Session) OpenPart} :
    c ≠ d → e.IsTightWindow body c → PartAgree body c d (.error (e, s)) y
  | tightRight {e : Error} {t : Session} {x : Except (Error × Session) OpenPart} :
    c ≠ d → e.IsTightWindow body d → PartAgree body c d x (.error (e, t))

namespace Alike

variable {body : Bytes} {c d : Nat} {s t : Session}

theorem waiting (h : Alike body c d s t) (hs : s.Waiting) : t.Waiting := by
  unfold Waiting
  rw [← h.phase, ← h.preamble]
  exact hs

/-- Alike sessions stay alike when their windows move on and the rest changes in both alike. -/
theorem moved (h : Alike body c d s t) {w v : Window} (hwv : w.Alike v) (hw : w.capacity = c)
    (hv : v.capacity = d) (hstart : w.atStart = false) (hwithin : w.pending <:+ s.pending)
    {enclosing enclosing' : Option String} {preamble preamble' : Bool} {phase phase' : Phase}
    (he : enclosing = enclosing') (hp : preamble = preamble') (hph : phase = phase') :
    Alike body c d { s with window := w, enclosing, preamble, phase }
      { t with window := v, enclosing := enclosing', preamble := preamble', phase := phase' } := by
  have hleft : s.boundary.length + 4 < w.capacity := by
    rw [hw, ← h.leftSize]
    exact h.left.room
  have hright : t.boundary.length + 4 < v.capacity := by
    rw [hv, ← h.rightSize]
    exact h.right.room
  exact ⟨⟨hwv.left, hstart, h.left.boundary, hleft, h.left.unlimited⟩,
    ⟨hwv.right, hwv.atStart ▸ hstart, h.right.boundary, hright, h.right.unlimited⟩,
    hw, hv, hwv, hwithin.trans h.within, h.boundary, he, hp, hph, h.maxHeaderSize⟩

/-- Alike sessions whose windows read on in agreement are alike. -/
theorem onward (h : Alike body c d s t) {w v : Window} (hwv : w.Alike v) (hw : s.window.Onward w)
    (hv : t.window.Onward v) : Alike body c d { s with window := w } { t with window := v } :=
  h.moved hwv (hw.capacity.trans h.leftSize) (hv.capacity.trans h.rightSize)
    (hw.atStart.trans h.left.atStart) hw.suffix h.enclosing h.preamble h.phase

theorem leaveBody_agree (h : Alike body c d s t) : TurnAgree body c d s.leaveBody t.leaveBody := by
  unfold leaveBody
  have henc := h.enclosing
  cases hs : s.enclosing with
  | none =>
    rw [hs] at henc
    rw [← henc]
    exact .stop (h.moved h.window h.leftSize h.rightSize h.left.atStart (List.suffix_refl _) rfl h.preamble rfl)
  | some field =>
    rw [hs] at henc
    rw [← henc]
    -- the boundary of the whole body fitted when the session was opened
    unfold Window.setBoundary
    rw [Window.checkBoundary_eq_ok h.left.boundary h.left.room,
      Window.checkBoundary_eq_ok h.right.boundary h.right.room]
    have hback := h.window.withBoundary h.boundary h.left.room h.right.room
    rcases hback.discard_agree with ⟨e, w, v, hw, hv⟩ |
      ⟨count, w, v, hw, hv, ⟨hwv, how, hov⟩, hatw, hatv⟩
    · simp only [hw, hv]
      exact .error
    · simp only [hw, hv]
      exact .again (h.moved hwv (how.capacity.trans h.leftSize) (hov.capacity.trans h.rightSize)
        (how.atStart.trans h.left.atStart) how.suffix rfl h.preamble h.phase) (.inr hatw) (.inr hatv)

theorem locatePart_agree (h : Alike body c d s t) (headers : Headers) :
    TurnAgree body c d (s.locatePart headers) (t.locatePart headers) := by
  unfold locatePart
  simp only
  by_cases hpass : s.enclosing.isSome ∧ headers.rawFileName?.isNone
  · -- a part of a set that carries no file is passed
    rw [if_pos hpass, if_pos (h.enclosing ▸ hpass)]
    rcases h.window.discard_agree with ⟨e, w, v, hw, hv⟩ |
      ⟨count, w, v, hw, hv, ⟨hwv, how, hov⟩, hatw, hatv⟩
    · rw [hw, hv]
      exact .error
    · rw [hw, hv]
      exact .again (h.onward hwv how hov) (.inr hatw) (.inr hatv)
  · -- whether there is room for one more part depends on nothing but the parts before it
    rw [if_neg hpass, if_neg (h.enclosing ▸ hpass)]
    have hparts := h.window.sameParts
    by_cases hlimit : s.window.feed.account.HasRoom
    · rw [hlimit.countPart, (hparts.hasRoom hlimit).countPart, hparts.parts]
      refine .stop (h.moved ⟨h.left.window.counted _, h.right.window.counted _, h.window.pending,
        h.window.boundary, h.window.atStart, ?_, ?_⟩ h.leftSize h.rightSize h.left.atStart (List.suffix_refl _)
        h.enclosing h.preamble ?_)
      · simp only [Account.report_parts]
      · simp only [Account.report_maxParts, hparts.maxParts]
      · rw [h.enclosing]
    · obtain ⟨limit, hm, hl⟩ := Account.not_hasRoom_iff.1 hlimit
      rw [Account.countPart_error hm hl,
        Account.countPart_error (hparts.maxParts.trans hm) (by rw [hparts.parts]; exact hl)]
      exact .error

theorem enterPart_agree (h : Alike body c d s t) {block : Bytes} (hblock : block <:+: body) :
    TurnAgree body c d (s.enterPart (Headers.ofBlock block)) (t.enterPart (Headers.ofBlock block)) := by
  unfold enterPart
  rw [← h.enclosing]
  split
  · exact .error
  · -- a set is entered only outside of another, by the headers read from the body
    rename_i field boundary hset
    have hset : setOf (Headers.ofBlock block) = .ok (some (field, boundary)) := by
      split at hset
      · exact hset
      · cases hset
    unfold Window.setBoundary Window.checkBoundary
    by_cases hne : boundary.isEmpty
    · rw [if_pos hne, if_pos hne]
      exact .error
    · rw [if_neg hne, if_neg hne]
      have hagain (hs : ¬ s.window.capacity ≤ boundary.length + 4)
          (ht : ¬ t.window.capacity ≤ boundary.length + 4) : TurnAgree body c d
            (.again, { s with window := { s.window with boundary }, enclosing := some field, preamble := true })
            (.again, { t with window := { t.window with boundary }, enclosing := some field, preamble := true }) := by
        have hw := h.window.withBoundary rfl (Nat.lt_of_not_le hs) (Nat.lt_of_not_le ht)
        exact .again (h.moved hw h.leftSize h.rightSize h.left.atStart (List.suffix_refl _) rfl rfl h.phase)
          (.inl rfl) (.inl rfl)
      -- the only place where the sizes of the windows can show
      by_cases hcd : c = d
      · have hsize : s.window.capacity = t.window.capacity := by rw [h.leftSize, h.rightSize, hcd]
        by_cases ht : t.window.capacity ≤ boundary.length + 4
        · rw [hsize, if_pos ht]
          exact .error
        · rw [if_neg (hsize ▸ ht), if_neg ht]
          exact hagain (hsize ▸ ht) ht
      · by_cases hs : s.window.capacity ≤ boundary.length + 4
        · rw [if_pos hs]
          exact .tightLeft hcd
            ⟨block, field, boundary, hblock, hset, h.leftSize ▸ hs, by rw [h.leftSize]⟩
        · by_cases ht : t.window.capacity ≤ boundary.length + 4
          · rw [if_pos ht]
            exact .tightRight hcd
              ⟨block, field, boundary, hblock, hset, h.rightSize ▸ ht, by rw [h.rightSize]⟩
          · rw [if_neg hs, if_neg ht]
            exact hagain hs ht
  · exact h.locatePart_agree _

theorem openPart_agree (h : Alike body c d s t) : TurnAgree body c d s.openPart t.openPart := by
  have hb := h.window.readHeaderBlock_agree s.settings.maxHeaderSize
  unfold openPart
  rw [← h.maxHeaderSize]
  generalize hx : s.window.readHeaderBlock s.settings.maxHeaderSize = x at hb
  generalize t.window.readHeaderBlock s.settings.maxHeaderSize = y at hb
  cases hb with
  | error => exact .error
  | @ok block w v hwv how hov =>
    have hfront : block <+: s.pending := ⟨w.pending, (Window.readHeaderBlock_ok hx).symm⟩
    exact (h.onward hwv how hov).enterPart_agree (hfront.isInfix.trans h.within.isInfix)

theorem nextDelimiter_agree (h : Alike body c d s t) (hs : s.Ready) (ht : t.Ready) :
    Window.Agree s.window t.window s.nextDelimiter t.nextDelimiter := by
  unfold nextDelimiter
  rw [← h.preamble]
  split
  · exact h.window.findFirst_agree h.left.atStart
  · rename_i hp
    exact h.window.readDelimiter_agree (hs.resolve_left hp) (ht.resolve_left (h.preamble ▸ hp))

theorem turn_agree (h : Alike body c d s t) (hs : s.Ready) (ht : t.Ready) :
    TurnAgree body c d s.turn t.turn := by
  have hn := h.nextDelimiter_agree hs ht
  unfold turn
  generalize s.nextDelimiter = x at hn
  generalize t.nextDelimiter = y at hn
  cases hn with
  | error => exact .error
  | @ok more w v hwv how hov =>
    have hst : Alike body c d { s with window := w, preamble := false }
        { t with window := v, preamble := false } :=
      h.moved hwv (how.capacity.trans h.leftSize) (hov.capacity.trans h.rightSize)
        (how.atStart.trans h.left.atStart) how.suffix h.enclosing rfl h.phase
    cases more with
    | false => exact hst.leaveBody_agree
    | true => exact hst.openPart_agree

theorem locate_agree (h : Alike body c d s t) (hs : s.Ready) (ht : t.Ready) :
    Agree body c d s.locate t.locate := by
  fun_induction locate s generalizing t with
  | case1 s r s' hturn =>
    have hagree := h.turn_agree hs ht
    rw [hturn] at hagree
    generalize hturn' : t.turn = y at hagree
    cases hagree with
    | stop hst =>
      rw [locate_of_stop hturn']
      exact .ok hst
    | error =>
      rw [locate_of_stop hturn']
      exact .error
    | tightLeft hcd he => exact .tightLeft hcd he
    | tightRight hcd he =>
      rw [locate_of_stop hturn']
      exact .tightRight hcd he
  | case2 s s' hturn _ ih =>
    have hagree := h.turn_agree hs ht
    rw [hturn] at hagree
    generalize hturn' : t.turn = y at hagree
    cases hagree with
    | again hst hs' ht' =>
      rw [locate_of_again hturn']
      exact ih hst hs' ht'
    | tightRight hcd he =>
      rw [locate_of_stop hturn']
      exact .tightRight hcd he

/-- Passing what was left unread of a part, or starting, makes a session ready. -/
theorem advance_agree (h : Alike body c d s t) (hs : s.Waiting) : Agree body c d s.advance t.advance := by
  have hphase := h.phase
  unfold advance
  rcases hs with ⟨hstart, hpreamble⟩ | hreading
  · rw [hstart] at hphase
    rw [hstart, ← hphase]
    exact h.locate_agree (.inl hpreamble) (.inl (h.preamble ▸ hpreamble))
  · rw [hreading] at hphase
    rw [hreading, ← hphase]
    rcases h.window.discard_agree with ⟨e, w, v, hw, hv⟩ |
      ⟨count, w, v, hw, hv, ⟨hwv, how, hov⟩, hatw, hatv⟩
    · rw [hw, hv]
      exact .error
    · have hst := h.onward hwv how hov
      rw [hreading, ← hphase] at hst
      rw [hw, hv]
      exact hst.locate_agree (.inr hatw) (.inr hatv)

theorem hasNext_agree (h : Alike body c d s t) (hs : s.Waiting) : Agree body c d s.hasNext t.hasNext := by
  have ht := h.waiting hs
  have hagree := h.advance_agree hs
  generalize hx : s.advance = x at hagree
  generalize hy : t.advance = y at hagree
  cases hagree with
  | ok hst =>
    rw [hs.hasNext_ok hx, ht.hasNext_ok hy]
    exact .ok hst
  | error =>
    rw [hs.hasNext_error hx, ht.hasNext_error hy]
    exact .error
  | tightLeft hcd he =>
    rw [hs.hasNext_error hx]
    exact .tightLeft hcd he
  | tightRight hcd he =>
    rw [ht.hasNext_error hy]
    exact .tightRight hcd he

theorem nextPart_agree (h : Alike body c d s t) (hs : s.Waiting) :
    PartAgree body c d s.nextPart t.nextPart := by
  have hagree := h.hasNext_agree hs
  unfold nextPart
  generalize s.hasNext = x at hagree
  generalize t.hasNext = y at hagree
  cases hagree with
  | error => exact .error
  | tightLeft hcd he => exact .tightLeft hcd he
  | tightRight hcd he => exact .tightRight hcd he
  | @ok more s t hst =>
    have hphase := hst.phase
    cases more with
    | false => exact .error
    | true =>
      cases hs : s.phase with
      | located head =>
        rw [hs] at hphase
        simp only [hs, ← hphase]
        have hst' : Alike body c d { s with phase := .reading } { t with phase := .reading } :=
          hst.moved hst.window hst.leftSize hst.rightSize hst.left.atStart (List.suffix_refl _) hst.enclosing
            hst.preamble rfl
        exact .part hst' ⟨hst'.left, rfl, rfl⟩ ⟨hst'.right, rfl, rfl⟩ rfl
      | _ =>
        rw [hs] at hphase
        simp only [hs, ← hphase]
        exact .error

/-- Reading a part to its end gives the same content, and breaks off with the same error. -/
theorem drain_agree {p q : OpenPart} (h : Alike body c d p.session q.session) (hp : p.Fresh)
    (hq : q.Fresh) {rooms rooms' : Nat → Nat} (hrooms : ∀ i, 0 < rooms i)
    (hrooms' : ∀ i, 0 < rooms' i) :
    ∃ content failure p' q', p.drain rooms 0 = ((content, failure), p') ∧
      q.drain rooms' 0 = ((content, failure), q') ∧
      (failure = none → Alike body c d p'.session q'.session ∧ p'.session.Waiting) := by
  have hdp := OpenPart.drain_reads hrooms 0 hp
  have hdq := OpenPart.drain_reads hrooms' 0 hq
  rw [← h.window.ahead, show q.session.pending = _ from h.window.pending.symm] at hdq
  rcases ha : p.session.window.ahead with ⟨n, _ | _⟩ <;> rw [ha] at hdp hdq
  · obtain ⟨p', hp'⟩ := hdp
    obtain ⟨q', hq'⟩ := hdq
    exact ⟨_, _, p', q', hp', hq', nofun⟩
  · obtain ⟨p', w, hp', hw, hpw, how, -⟩ := hdp
    obtain ⟨q', v, hq', hv, hpv, hov, -⟩ := hdq
    refine ⟨_, _, p', q', hp', hq', fun _ => ⟨?_, ?_⟩⟩
    · rw [hw, hv]
      exact h.onward (h.window.after how hov (hpw.trans hpv.symm)) how hov
    · rw [hw]
      exact .inr hp.reading

theorem transcriptFrom_matches {rooms rooms' : Nat → Nat → Nat} (hrooms : ∀ n i, 0 < rooms n i)
    (hrooms' : ∀ n i, 0 < rooms' n i) (count : Nat) (h : Alike body c d s t) (hs : s.Waiting) :
    (s.transcriptFrom rooms count).1.Matches body c d (t.transcriptFrom rooms' count).1 := by
  fun_induction transcriptFrom rooms count s generalizing t with
  | case1 count s e s' hn =>
    have hagree := h.nextPart_agree hs
    rw [hn] at hagree
    generalize ht : t.nextPart = y at hagree
    cases hagree with
    | error =>
      rw [transcriptFrom_error ht]
      exact .inl rfl
    | tightLeft hcd he => exact .inr ⟨hcd, .inl ⟨he, rfl, List.nil_prefix⟩⟩
    | tightRight hcd he =>
      rw [transcriptFrom_error ht]
      exact .inr ⟨hcd, .inr ⟨he, rfl, List.nil_prefix⟩⟩
  | case2 count s p hn content e p' hd =>
    have hagree := h.nextPart_agree hs
    rw [hn] at hagree
    generalize ht : t.nextPart = y at hagree
    cases hagree with
    | tightRight hcd he =>
      rw [transcriptFrom_error ht]
      exact .inr ⟨hcd, .inr ⟨he, rfl, List.nil_prefix⟩⟩
    | part hpq hp hq hhead =>
      -- the content breaks off on both sides, after the same bytes
      obtain ⟨content', failure, p'', q', hdp, hdq, -⟩ :=
        hpq.drain_agree hp hq (hrooms count) (hrooms' count)
      cases hd.symm.trans hdp
      rw [transcriptFrom_broken ht hdq, hhead]
      exact .inl rfl
  | case3 count s p hn content p' hd _ u s' hu ih =>
    have hagree := h.nextPart_agree hs
    rw [hn] at hagree
    generalize ht : t.nextPart = y at hagree
    cases hagree with
    | tightRight hcd he =>
      rw [transcriptFrom_error ht]
      exact .inr ⟨hcd, .inr ⟨he, rfl, List.nil_prefix⟩⟩
    | part hpq hp hq hhead =>
      obtain ⟨content', failure, p'', q', hdp, hdq, hnext⟩ :=
        hpq.drain_agree hp hq (hrooms count) (hrooms' count)
      cases hd.symm.trans hdp
      obtain ⟨hst, hwaiting⟩ := hnext rfl
      rw [transcriptFrom_part ht hdq, hhead]
      have ih := ih hst hwaiting
      rw [hu] at ih
      exact ih.cons _

theorem transcriptFrom_agree {rooms rooms' : Nat → Nat → Nat} (hrooms : ∀ n i, 0 < rooms n i)
    (hrooms' : ∀ n i, 0 < rooms' n i) (count : Nat) (h : Alike body c d s t) (hs : s.Waiting) :
    (s.transcriptFrom rooms count).1.Agree body c d (t.transcriptFrom rooms' count).1 := by
  obtain hsame | ⟨-, hcut | hcut⟩ := h.transcriptFrom_matches hrooms hrooms' count hs
  · exact .inl hsame
  · exact .inr (.inl hcut.1)
  · exact .inr (.inr hcut.1)

end Alike

end Session

/-! ## One body, two ways to read it -/

theorem Approach.Suits.alike {a b : Approach} {body boundary : Bytes} (ha : a.Suits body boundary)
    (hb : b.Suits body boundary) (hheader : a.settings.maxHeaderSize = b.settings.maxHeaderSize)
    (hparts : a.settings.maxParts = b.settings.maxParts) :
    Session.Alike body a.settings.windowSize b.settings.windowSize (a.opened boundary)
      (b.opened boundary) :=
  ⟨ha.steady, hb.steady, rfl, rfl,
    ⟨ha.steady.window, hb.steady.window, ha.pending.trans hb.pending.symm, rfl, rfl, rfl, hparts.symm⟩,
    ha.opened_pending ▸ List.suffix_refl _, rfl, rfl, rfl, rfl, hheader⟩

/-- However a body is cut into reads, whatever the sizes of the windows and of the reads of its
parts, the transcript is the same: the same parts with the same content, and the same error at its
end after the same content. Only where the body holds a set whose boundary is too long for one of the
windows can they differ, and that window's error says so. -/
theorem transcript_granularity {a b : Approach} {body boundary : Bytes}
    (ha : a.Suits body boundary) (hb : b.Suits body boundary)
    (hheader : a.settings.maxHeaderSize = b.settings.maxHeaderSize)
    (hparts : a.settings.maxParts = b.settings.maxParts) :
    ∃ t u s s', a.run boundary = .ok (t, s) ∧ b.run boundary = .ok (u, s') ∧
      (t = u ∨ t.error.IsTightWindow body a.settings.windowSize ∨
        u.error.IsTightWindow body b.settings.windowSize) := by
  have halike := ha.alike hb hheader hparts
  exact ⟨_, _, _, _, ha.run_eq, hb.run_eq,
    halike.transcriptFrom_agree ha.rooms hb.rooms 0 (.inl ⟨rfl, rfl⟩)⟩

/-- A field that ends like a delimiter begins, and a set with an empty file. -/
def nestedBody : Bytes :=
  Utf8.encode ("--B\r\nContent-Disposition: form-data; name=a\r\n\r\nx\r\n--\r\n--B\r\n" ++
    "Content-Disposition: form-data; name=b\r\nContent-Type: multipart/mixed; boundary=C\r\n\r\n" ++
    "--C\r\nContent-Disposition: attachment; filename=f\r\n\r\n\r\n--C--\r\n--B--")

/-- Every byte by itself and after an interruption, into a window that holds one byte more than a
delimiter. -/
def byteByByte : Approach where
  source := { transport := { segments := nestedBody.flatMap fun b => [.interruption, .data [b]] } }
  settings := { windowSize := 6 }
  rooms := fun _ i => i % 3 + 1

/-- The whole body at once. -/
def allAtOnce : Approach where
  source := { transport := { segments := [.data nestedBody] } }
  settings := {}
  rooms := fun _ _ => 64

theorem transcript_granularity_nested :
    ∃ t s s', byteByByte.run [66] = .ok (t, s) ∧ allAtOnce.run [66] = .ok (t, s') ∧
      t.parts.map (·.2) = [[120, 13, 10, 45, 45], []] ∧ t.broken = none ∧ t.error = .exhausted := by
  have hslow : byteByByte.Suits nestedBody [66] := by
    refine ⟨⟨fun g hg => ?_, nofun, rfl⟩, by decide +kernel, nofun, by decide, rfl, rfl, fun _ _ => Nat.succ_pos _⟩
    obtain ⟨b, -, hb⟩ := List.mem_flatMap.1 hg
    rcases List.mem_cons.1 hb with rfl | hb
    · trivial
    · rw [List.mem_singleton.1 hb]
      exact nofun
  have hfast : allAtOnce.Suits nestedBody [66] := by
    refine ⟨⟨fun g hg => ?_, nofun, rfl⟩, by decide +kernel, nofun, by decide, rfl, rfl, fun _ _ => Nat.succ_pos 63⟩
    rw [List.mem_singleton.1 hg]
    exact (by decide +kernel : nestedBody ≠ [])
  obtain ⟨t, u, s, s', hs, hs', h⟩ := transcript_granularity hslow hfast rfl rfl
  have ht : (byteByByte.run [66]).toOption.map (fun r => (r.1.parts.map (·.2), r.1.broken, r.1.error)) =
      some ([[120, 13, 10, 45, 45], []], none, .exhausted) := by
    decide +kernel
  have hu : (allAtOnce.run [66]).toOption.map (·.1.error) = some .exhausted := by
    decide +kernel
  simp only [hs, Except.toOption, Option.map_some, Option.some.injEq, Prod.mk.injEq] at ht
  simp only [hs', Except.toOption, Option.map_some, Option.some.injEq] at hu
  obtain ⟨hparts, hbroken, hend⟩ := ht
  rcases h with rfl | ⟨_, _, _, _, _, _, ht⟩ | ⟨_, _, _, _, _, _, ht⟩
  · exact ⟨t, s, s', hs, hs', hparts, hbroken, hend⟩
  · rw [hend] at ht
    cases ht
  · rw [hu] at ht
    cases ht

end FormData
