/-
What a window reads of a steady source. Each operation is a function of the bytes pending: how they
are cut into reads, and how large the window is, shows in nothing but the sizes of the stretches that
`take` hands out. Content comes up to the first delimiter among all bytes pending (`take_reads`,
`discard_reads`), a delimiter is read where the window stands on one (`readDelimiter_reads`), and a
header block ends at its blank line (`readHeaderBlock_reads`).
-/
import FormData.Body.HeaderBlock
import FormData.Proofs.Body.Settling
import FormData.Proofs.Body.Steady

namespace FormData.Window

/-! ## Further along a body -/

/-- A window on a steady source that has room for more than a delimiter. -/
structure Steady (w : Window) : Prop where
  feed : w.feed.Steady
  room : w.boundary.length + 4 < w.capacity

theorem pattern_length_le (w : Window) : w.pattern.length ≤ w.boundary.length + 4 := by
  unfold pattern
  split
  · simp only [dashed, List.length_cons]; omega
  · simp only [delimiter, dashed, List.length_cons]; omega

theorem checkBoundary_ok_iff {boundary : Bytes} {capacity : Nat} :
    checkBoundary boundary capacity = .ok () ↔ boundary ≠ [] ∧ boundary.length + 4 < capacity := by
  unfold checkBoundary
  constructor
  · intro h
    split at h
    · cases h
    · rename_i hne
      split at h
      · cases h
      · rename_i hroom
        exact ⟨by simpa using hne, by omega⟩
  · rintro ⟨hne, hroom⟩
    rw [if_neg (by simpa using hne), if_neg (by omega)]

theorem checkBoundary_eq_ok {boundary : Bytes} {capacity : Nat} (hne : boundary ≠ [])
    (hroom : boundary.length + 4 < capacity) : checkBoundary boundary capacity = .ok () :=
  checkBoundary_ok_iff.2 ⟨hne, hroom⟩

theorem setBoundary_ok {w : Window} {boundary : Bytes} (hne : boundary ≠ [])
    (hroom : boundary.length + 4 < w.capacity) :
    w.setBoundary boundary = (.ok (), { w with boundary }) := by
  unfold setBoundary
  rw [checkBoundary_eq_ok hne hroom]

/-- Counting a part leaves the window steady. -/
theorem Steady.counted {w : Window} (h : w.Steady) (count : Nat) :
    ({ w with feed := { w.feed with
      account := ({ w.feed.account with parts := count } : Account).report } } : Window).Steady := by
  refine ⟨⟨h.feed.source, ?_, ?_⟩, h.room⟩
  · exact (Account.report_maxRequestSize _).trans h.feed.unlimited
  · exact (Account.report_overrun _).trans h.feed.unspent

/-- `w'` is `w` with more of the same body read. -/
structure Onward (w w' : Window) : Prop where
  steady : w'.Steady
  capacity : w'.capacity = w.capacity
  boundary : w'.boundary = w.boundary
  atStart : w'.atStart = w.atStart
  sameParts : w.feed.account.SameParts w'.feed.account
  suffix : w'.pending <:+ w.pending

namespace Onward

theorem refl {w : Window} (h : w.Steady) : w.Onward w :=
  ⟨h, rfl, rfl, rfl, .refl _, List.suffix_refl _⟩

theorem trans {a b c : Window} (h1 : a.Onward b) (h2 : b.Onward c) : a.Onward c :=
  ⟨h2.steady, h2.capacity.trans h1.capacity, h2.boundary.trans h1.boundary,
    h2.atStart.trans h1.atStart, h1.sameParts.trans h2.sameParts, h2.suffix.trans h1.suffix⟩

theorem pattern {w w' : Window} (h : w.Onward w') : w'.pattern = w.pattern := by
  unfold Window.pattern; rw [h.atStart, h.boundary]

theorem pass {w : Window} (h : w.Steady) (count : Nat) : w.Onward (w.pass count) := by
  refine ⟨⟨h.feed, h.room⟩, rfl, rfl, rfl, .refl _, w.unread.take count, ?_⟩
  show w.unread.take count ++ (w.unread.drop count ++ w.feed.source.pending) = w.pending
  rw [← List.append_assoc, List.take_append_drop]
  rfl

theorem closed {w w' : Window} (h : w.Onward w') (isClosed : Bool) :
    w.Onward { w' with isClosed } :=
  ⟨⟨h.steady.feed, h.steady.room⟩, h.capacity, h.boundary, h.atStart, h.sameParts, h.suffix⟩

end Onward

/-- The outcome of an operation on `w`: a result and the bytes then pending, or an error. -/
def Reads {α : Type} (w : Window) (step : Except Error α × Window) :
    Except Error (α × Bytes) → Prop
  | .ok (a, rest) => ∃ w', step = (.ok a, w') ∧ w'.pending = rest ∧ w.Onward w'
  | .error e => ∃ w', step = (.error e, w') ∧ w.Onward w'

theorem Reads.after {α : Type} {w w' : Window} {step : Except Error α × Window}
    {r : Except Error (α × Bytes)} (h : w'.Reads step r) (ho : w.Onward w') : w.Reads step r := by
  cases r with
  | ok result =>
    obtain ⟨w'', hs, hp, ho'⟩ := h
    exact ⟨w'', hs, hp, ho.trans ho'⟩
  | error e =>
    obtain ⟨w'', hs, ho'⟩ := h
    exact ⟨w'', hs, ho.trans ho'⟩

theorem Reads.of_ok {α : Type} {w w' : Window} {step : Except Error α × Window}
    {r : Except Error (α × Bytes)} (h : w.Reads step r) {a : α} (hs : step = (.ok a, w')) :
    r = .ok (a, w'.pending) ∧ w.Onward w' := by
  cases r with
  | ok result =>
    obtain ⟨a', rest⟩ := result
    obtain ⟨w'', hs', rfl, ho⟩ := h
    cases hs.symm.trans hs'
    exact ⟨rfl, ho⟩
  | error e =>
    obtain ⟨w'', hs', -⟩ := h
    cases hs.symm.trans hs'

theorem Reads.of_error {α : Type} {w w' : Window} {step : Except Error α × Window}
    {r : Except Error (α × Bytes)} (h : w.Reads step r) {e : Error} (hs : step = (.error e, w')) :
    r = .error e ∧ w.Onward w' := by
  cases r with
  | ok result =>
    obtain ⟨w'', hs', -⟩ := h
    cases hs.symm.trans hs'
  | error e' =>
    obtain ⟨w'', hs', ho⟩ := h
    cases hs.symm.trans hs'
    exact ⟨rfl, ho⟩

/-- How many bytes of content are ahead, and whether a delimiter ends them. -/
def ahead (w : Window) : Nat × Bool :=
  Bytes.before w.pattern w.pending

/-- A delimiter in sight is the first one. -/
theorem ahead_of_available {w : Window} {n : Nat} (h : w.available = (n, true)) :
    w.ahead = (n, true) :=
  Bytes.before_append h _

theorem ahead_of_ended {w : Window} (h : w.feed.source.pending = []) : w.ahead = w.available := by
  rw [ahead, pending, h, List.append_nil]; rfl

theorem le_ahead_of_available {w : Window} {n : Nat} {found : Bool} (h : w.available = (n, found)) :
    n ≤ w.ahead.1 := by
  have : w.available.1 ≤ w.ahead.1 := Bytes.before_append_le _ _ _
  rwa [h] at this

theorem le_unread_of_available {w : Window} {n : Nat} {found : Bool}
    (h : w.available = (n, found)) : n ≤ w.unread.length := by
  have : w.available.1 ≤ w.unread.length := Bytes.before_le_length _ _
  rwa [h] at this

theorem pass_pending {w : Window} {n : Nat} {found : Bool} (h : w.available = (n, found)) :
    (w.pass n).pending = w.pending.drop n := by
  simp only [pass, pending]
  rw [List.drop_append_of_le_length (le_unread_of_available h)]

/-- The window stands on a delimiter and has all of it. -/
def AtDelimiter (w : Window) : Prop :=
  w.pattern <+: w.unread

/-! ## Refills -/

theorem fill_reads {w : Window} (h : w.Steady) (hroom : w.unread.length < w.capacity) :
    ∃ count w', w.fill = (.ok count, w') ∧ w'.pending = w.pending ∧ w.Onward w' ∧
      (count = 0 → w.feed.source.pending = []) := by
  have hfree : 0 < w.capacity - w.unread.length := by omega
  obtain ⟨bytes, f, hr, hs, hp, hpend, he⟩ := h.feed.read hfree
  have hsame : ({ w with feed := f, unread := w.unread ++ bytes } : Window).pending = w.pending := by
    simp [pending, hpend]
  refine ⟨bytes.length, { w with feed := f, unread := w.unread ++ bytes }, ?_, hsame,
    ⟨⟨hs, h.room⟩, rfl, rfl, rfl, hp, hsame ▸ List.suffix_refl _⟩,
    fun h0 => he (List.length_eq_zero_iff.1 h0)⟩
  simp only [fill, hr]

theorem refill_ok_reads {w w' : Window} (h : w.Steady) (hroom : w.unread.length < w.capacity)
    (hf : w.refill = (.ok (), w')) : w'.pending = w.pending ∧ w.Onward w' := by
  obtain ⟨count, w'', hfill, hp, ho, -⟩ := fill_reads h hroom
  unfold refill at hf
  rw [hfill] at hf
  cases count with
  | zero => cases hf
  | succ n =>
    cases hf
    exact ⟨hp, ho⟩

/-- A refill fails only at the end of the body. -/
theorem refill_error_reads {w w' : Window} {e : Error} (h : w.Steady)
    (hroom : w.unread.length < w.capacity) (hf : w.refill = (.error e, w')) :
    e = .malformed .endedEarly ∧ w.feed.source.pending = [] ∧ w.Onward w' := by
  obtain ⟨count, w'', hfill, -, ho, h0⟩ := fill_reads h hroom
  unfold refill at hf
  rw [hfill] at hf
  cases count with
  | zero =>
    cases hf
    exact ⟨rfl, h0 rfl, ho⟩
  | succ n => cases hf

/-- Without a delimiter in sight, and with what could be passed passed, there is room to refill. -/
theorem unread_lt_capacity {w : Window} (hroom : w.boundary.length + 4 < w.capacity)
    (ha : w.available = (0, false)) : w.unread.length < w.capacity := by
  have h1 := (Bytes.before_eq_false_iff.1 ha).2
  have h2 := w.pattern_length_le
  omega

/-! ## Content -/

/-- With room for a byte, `take` hands out some of the content ahead. Where none is ahead, it stands
on a delimiter or the body has ended. -/
theorem take_reads {w : Window} (h : w.Steady) {room : Nat} (hroom : 0 < room) :
    match w.ahead with
    | (n + 1, _) => ∃ b bytes w', w.take room = (.ok (b :: bytes), w') ∧ bytes.length ≤ n ∧ w.Onward w'
    | (0, true) => ∃ w', w.take room = (.ok [], w') ∧ w.Onward w'
    | (0, false) => ∃ w', w.take room = (.error (.malformed .endedEarly), w') ∧ w.Onward w' := by
  fun_induction take w room with
  | case1 => omega
  | case2 w hr n found ha =>
    have hle := le_unread_of_available ha
    have hahead := le_ahead_of_available ha
    rcases ht : w.unread.take (min (n + 1) room) with _ | ⟨b, bytes⟩
    · rcases List.take_eq_nil_iff.1 ht with h0 | h0
      · omega
      · rw [h0] at hle; simp at hle
    · have hlen := congrArg List.length ht
      rw [List.length_take, List.length_cons] at hlen
      rcases hah : w.ahead with ⟨_ | m, found'⟩
      · rw [hah] at hahead; simp at hahead
      · rw [hah] at hahead
        exact ⟨b, bytes, _, rfl, by simp only at hahead; omega, .pass h _⟩
  | case3 w hr ha =>
    rw [ahead_of_available ha]
    exact ⟨w, rfl, .refl h⟩
  | case4 w hr ha e w' hf =>
    -- what was held back for a delimiter is all that is left, and holds none
    obtain ⟨rfl, hend, ho⟩ := refill_error_reads h (unread_lt_capacity h.room ha) hf
    rw [ahead_of_ended hend, ha]
    exact ⟨w', rfl, ho⟩
  | case5 w hr ha w' hf _ ih =>
    obtain ⟨hp, ho⟩ := refill_ok_reads h (unread_lt_capacity h.room ha) hf
    have hsame : w'.ahead = w.ahead := by rw [ahead, ahead, hp, ho.pattern]
    have ih := ih ho.steady
    rw [hsame] at ih
    split at ih
    · obtain ⟨b, bytes, w'', ht, hlen, ho'⟩ := ih
      exact ⟨b, bytes, w'', ht, hlen, ho.trans ho'⟩
    · obtain ⟨w'', ht, ho'⟩ := ih
      exact ⟨w'', ht, ho.trans ho'⟩
    · obtain ⟨w'', ht, ho'⟩ := ih
      exact ⟨w'', ht, ho.trans ho'⟩

theorem discardFrom_reads (count : Nat) {w : Window} (h : w.Steady) :
    w.Reads (w.discardFrom count)
      (match w.ahead with
      | (n, true) => .ok (count + n, w.pending.drop n)
      | (_, false) => .error (.malformed .endedEarly)) := by
  fun_induction discardFrom count w with
  | case1 count w n ha =>
    rw [ahead_of_available ha]
    exact ⟨_, rfl, pass_pending ha, .pass h n⟩
  | case2 count w n ha e w' hf =>
    have ho := Onward.pass h n
    obtain ⟨rfl, hend, ho'⟩ :=
      refill_error_reads ho.steady (unread_lt_capacity ho.steady.room (available_pass_self ha)) hf
    have hend : w.feed.source.pending = [] := hend
    rw [ahead_of_ended hend, ha]
    exact ⟨w', rfl, ho.trans ho'⟩
  | case3 count w n ha w' hf _ ih =>
    have ho := Onward.pass h n
    obtain ⟨hp', ho'⟩ :=
      refill_ok_reads ho.steady (unread_lt_capacity ho.steady.room (available_pass_self ha)) hf
    have hle := le_ahead_of_available ha
    have hon := ho.trans ho'
    have hpend : w'.pending = w.pending.drop n := hp'.trans (pass_pending ha)
    -- the content ahead is shorter by what was passed, and ends the same way
    have ih := ih ho'.steady
    rcases hah : w.ahead with ⟨m, found⟩
    rw [hah] at hle
    have hah' : w'.ahead = (m - n, found) := by
      rw [ahead, hpend, hon.pattern]
      exact Bytes.before_drop hah hle
    rw [hah'] at ih
    cases found with
    | false =>
      obtain ⟨w'', hd, ho''⟩ := ih
      exact ⟨w'', hd, hon.trans ho''⟩
    | true =>
      obtain ⟨w'', hd, hp'', ho''⟩ := ih
      refine ⟨w'', ?_, ?_, hon.trans ho''⟩
      · rw [hd]; congr 2; simp only at hle; omega
      · rw [hp'', hpend, List.drop_drop]; congr 1; simp only at hle; omega

/-- Discarding drops the content ahead if a delimiter ends it. -/
theorem discard_reads {w : Window} (h : w.Steady) :
    w.Reads w.discard
      (match w.ahead with
      | (n, true) => .ok (n, w.pending.drop n)
      | (_, false) => .error (.malformed .endedEarly)) := by
  have := discardFrom_reads 0 h
  simp only [Nat.zero_add] at this
  exact this

theorem discardFrom_atDelimiter {count total : Nat} {w w' : Window}
    (h : w.discardFrom count = (.ok total, w')) : w'.AtDelimiter := by
  fun_induction discardFrom count w with
  | case1 count w n ha =>
    cases h
    exact Bytes.prefix_of_locate? (Bytes.before_eq_true_iff.1 ha)
  | case2 => cases h
  | case3 count w n ha w'' hf _ ih => exact ih h

/-- Whatever the source does, discarding succeeds only in front of a delimiter. -/
theorem discard_atDelimiter {count : Nat} {w w' : Window} (h : w.discard = (.ok count, w')) :
    w'.AtDelimiter :=
  discardFrom_atDelimiter h

theorem take_atDelimiter {w w' : Window} {room : Nat} (hroom : 0 < room)
    (h : w.take room = (.ok [], w')) : w'.AtDelimiter := by
  fun_induction take w room with
  | case1 => omega
  | case2 w hr n found ha =>
    have hle := le_unread_of_available ha
    simp only [Prod.mk.injEq, Except.ok.injEq, List.take_eq_nil_iff] at h
    rcases h.1 with h0 | h0
    · omega
    · rw [h0] at hle; simp at hle
  | case3 w hr ha =>
    cases h
    exact Bytes.prefix_of_locate? (Bytes.before_eq_true_iff.1 ha)
  | case4 => cases h
  | case5 w hr ha w'' hf _ ih => exact ih h

/-! ## Single bytes -/

theorem readByte_reads {w : Window} (h : w.Steady) :
    w.Reads w.readByte
      (match w.pending with
      | b :: rest => .ok (b, rest)
      | [] => .error (.malformed .noMoreData)) := by
  unfold readByte
  rcases hu : w.unread with _ | ⟨b, rest⟩
  · have hroom : w.unread.length < w.capacity := by
      rw [hu]; exact Nat.lt_of_le_of_lt (Nat.zero_le _) h.room
    obtain ⟨count, w', hf, hp, ho, h0⟩ := fill_reads h hroom
    simp only [hf]
    rw [← hp]
    rcases hu' : w'.unread with _ | ⟨b, rest⟩
    · -- nothing came, so nothing was pending
      have hcount := (fill_ok hf).2
      have hlen := congrArg List.length hp
      simp only [pending, hu, hu', List.nil_append] at hlen
      have hend : w.feed.source.pending = [] := h0 (by omega)
      have hend' : w'.pending = [] := by rw [hp, pending, hu, hend]; rfl
      rw [hend']
      exact ⟨w', rfl, ho⟩
    · have : w'.pending = b :: (rest ++ w'.feed.source.pending) := by rw [pending, hu']; rfl
      rw [this]
      exact ⟨_, rfl, rfl, ho.trans
        ⟨⟨ho.steady.feed, ho.steady.room⟩, rfl, rfl, rfl, .refl _, this ▸ List.suffix_cons b _⟩⟩
  · have : w.pending = b :: (rest ++ w.feed.source.pending) := by rw [pending, hu]; rfl
    rw [this]
    exact ⟨_, rfl, rfl, ⟨h.feed, h.room⟩, rfl, rfl, rfl, .refl _, this ▸ List.suffix_cons b _⟩

/-! ## Delimiters -/

/-- What the bytes behind a delimiter say: whether a part follows, and what is pending then. -/
def afterDelimiter : Bytes → Except Error (Bool × Bytes)
  | first :: second :: rest =>
    if first = Bytes.cr ∧ second = Bytes.lf then .ok (true, rest)
    else if first = Bytes.dash ∧ second = Bytes.dash then .ok (false, rest)
    else .error (.malformed .afterBoundary)
  | _ => .error (.malformed .noMoreData)

theorem readDelimiter_reads {w : Window} (h : w.Steady) (hat : w.AtDelimiter) :
    w.Reads w.readDelimiter (afterDelimiter (w.pending.drop w.pattern.length)) := by
  have hpass : (w.pass w.pattern.length).pending = w.pending.drop w.pattern.length := by
    simp only [pass, pending]
    rw [List.drop_append_of_le_length hat.length_le]
  have ho := Onward.pass h w.pattern.length
  have h1 := readByte_reads ho.steady
  -- behind the delimiter two bytes are read, one after the other
  unfold readDelimiter
  rw [if_pos (List.isPrefixOf_iff_prefix.2 hat), ← hpass]
  rcases hp1 : (w.pass w.pattern.length).pending with _ | ⟨first, rest⟩
  · rw [hp1] at h1
    obtain ⟨w1, hr1, ho1⟩ := h1
    rw [hr1]
    exact ⟨w1, rfl, ho.trans ho1⟩
  · rw [hp1] at h1
    obtain ⟨w1, hr1, hp1', ho1⟩ := h1
    rw [hr1]
    have h2 := readByte_reads ho1.steady
    rw [hp1'] at h2
    have hon1 := ho.trans ho1
    cases rest with
    | nil =>
      obtain ⟨w2, hr2, ho2⟩ := h2
      simp only [hr2]
      exact ⟨w2, rfl, hon1.trans ho2⟩
    | cons second rest =>
      obtain ⟨w2, hr2, hp2, ho2⟩ := h2
      have hon2 := hon1.trans ho2
      simp only [hr2, afterDelimiter]
      split
      · exact ⟨_, rfl, hp2, hon2.closed _⟩
      · split
        · exact ⟨_, rfl, hp2, hon2.closed _⟩
        · exact ⟨w2, rfl, hon2⟩

/-- The first delimiter needs no line break before it. -/
theorem findFirst_reads {w : Window} (h : w.Steady) (hstart : w.atStart = false) :
    w.Reads w.findFirst
      (match Bytes.before (dashed w.boundary) w.pending with
      | (n, true) => afterDelimiter (w.pending.drop (n + (dashed w.boundary).length))
      | (_, false) => .error (.malformed (.boundaryNotFound w.boundary))) := by
  -- the search runs on a window that differs from `w` in what it looks for
  have hback : ∀ w' : Window, ({ w with atStart := true } : Window).Onward w' →
      w.Onward { w' with atStart := false } := fun w' ho =>
    ⟨⟨ho.steady.feed, ho.steady.room⟩, ho.capacity, ho.boundary, hstart.symm, ho.sameParts, ho.suffix⟩
  have hd := discard_reads (w := { w with atStart := true }) ⟨h.feed, h.room⟩
  unfold findFirst
  rcases hb : Bytes.before (dashed w.boundary) w.pending with ⟨n, _ | _⟩
  · have hahead : ({ w with atStart := true } : Window).ahead = (n, false) := hb
    rw [hahead] at hd
    obtain ⟨w', hr, ho⟩ := hd
    have hboundary : w'.boundary = w.boundary := ho.boundary
    simp only [hr]
    refine ⟨{ w' with atStart := false }, ?_, hback w' ho⟩
    rw [hboundary]
  · have hahead : ({ w with atStart := true } : Window).ahead = (n, true) := hb
    rw [hahead] at hd
    obtain ⟨w', hr, hp, ho⟩ := hd
    have hread := readDelimiter_reads ho.steady (discard_atDelimiter hr)
    have hpat : w'.pattern = dashed w.boundary := ho.pattern
    have hrest : w'.pending.drop w'.pattern.length =
        w.pending.drop (n + (dashed w.boundary).length) := by
      rw [hp, hpat, List.drop_drop]; rfl
    rw [hrest] at hread
    simp only [hr]
    cases ha : afterDelimiter (w.pending.drop (n + (dashed w.boundary).length)) with
    | error e =>
      rw [ha] at hread
      obtain ⟨w'', hr'', ho''⟩ := hread
      rw [hr'']
      exact ⟨_, rfl, hback w'' (ho.trans ho'')⟩
    | ok result =>
      rw [ha] at hread
      obtain ⟨w'', hr'', hp'', ho''⟩ := hread
      rw [hr'']
      exact ⟨_, rfl, hp'', hback w'' (ho.trans ho'')⟩

/-! ## Header blocks -/

/-- The block at the front of some bytes, of which `count` bytes, last first in `block`, were read,
and the bytes behind it. -/
def blockOf (limit : Nat) (ending : Ending) (count : Nat) (block : Bytes) :
    Bytes → Except Error (Bytes × Bytes)
  | [] => if ending = .complete then .ok (block.reverse, []) else .error (.malformed .noMoreData)
  | b :: rest =>
    if ending = .complete then .ok (block.reverse, b :: rest)
    else if limit ≤ count then .error (.headerSize limit (count + 1))
    else blockOf limit (ending.next b) (count + 1) (b :: block) rest

theorem readBlockFrom_reads (limit : Nat) (ending : Ending) (count : Nat) (block : Bytes)
    {w : Window} (h : w.Steady) :
    w.Reads (w.readBlockFrom limit ending count block)
      (blockOf limit ending count block w.pending) := by
  fun_induction readBlockFrom limit ending count block w with
  | case1 count block w =>
    cases hp : w.pending with
    | nil =>
      rw [blockOf, if_pos rfl]
      exact ⟨w, rfl, hp, .refl h⟩
    | cons b rest =>
      rw [blockOf, if_pos rfl]
      exact ⟨w, rfl, hp, .refl h⟩
  | case2 ending count block w hne e w' hr =>
    obtain ⟨hr', ho⟩ := (readByte_reads h).of_error hr
    cases hp : w.pending with
    | nil =>
      rw [hp] at hr'
      cases hr'
      rw [blockOf, if_neg hne]
      exact ⟨w', rfl, ho⟩
    | cons b rest =>
      rw [hp] at hr'
      cases hr'
  | case3 ending count block w hne b w' hr _ hlimit =>
    obtain ⟨-, ho⟩ := (readByte_reads h).of_ok hr
    rw [readByte_ok hr, blockOf, if_neg hne, if_pos hlimit]
    exact ⟨w', rfl, ho⟩
  | case4 ending count block w hne b w' hr _ hlimit ih =>
    obtain ⟨-, ho⟩ := (readByte_reads h).of_ok hr
    rw [readByte_ok hr, blockOf, if_neg hne, if_neg hlimit]
    exact (ih ho.steady).after ho

theorem readBlockFrom_ok {limit count : Nat} {ending : Ending} {block read : Bytes} {w w' : Window}
    (h : w.readBlockFrom limit ending count block = (.ok read, w')) :
    block.reverse ++ w.pending = read ++ w'.pending := by
  fun_induction readBlockFrom limit ending count block w with
  | case1 => cases h; rfl
  | case2 => cases h
  | case3 => cases h
  | case4 ending count block w hne b w'' hr _ hlimit ih =>
    rw [← ih h, readByte_ok hr, List.reverse_cons, List.append_assoc]
    rfl

/-- Whatever the source does, a block is what was next in the body. -/
theorem readHeaderBlock_ok {w w' : Window} {limit : Nat} {block : Bytes}
    (h : w.readHeaderBlock limit = (.ok block, w')) : w.pending = block ++ w'.pending :=
  readBlockFrom_ok h

theorem readHeaderBlock_reads {w : Window} (h : w.Steady) (limit : Nat) :
    w.Reads (w.readHeaderBlock limit) (blockOf limit .crlf 0 [] w.pending) :=
  readBlockFrom_reads limit .crlf 0 [] h

end FormData.Window
