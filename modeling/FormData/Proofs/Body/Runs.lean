/-
Operations on a window one after the other, and reads one after the other. Whatever was done to a
window before, whether it succeeded or failed, what it looks for next starts with a line break and
fits into it (`Reached.after`). From there reads of any sizes hand out the bytes up to the first
delimiter, none of them empty before all are out, and find the delimiter from then on
(`takeAll_reads`). Where no delimiter is pending, as many bytes as one has stay behind.
-/
import FormData.Proofs.Body.Moves
import FormData.Proofs.Body.Reading

namespace FormData

/-! ## First occurrences -/

namespace Bytes

/-- The pattern begins at this offset and at none before it. -/
def FirstAt (pattern text : Bytes) (offset : Nat) : Prop :=
  pattern <+: text.drop offset ∧ ∀ j < offset, ¬ pattern <+: text.drop j

variable {pattern text : Bytes} {offset : Nat}

instance (pattern text : Bytes) (offset : Nat) : Decidable (FirstAt pattern text offset) :=
  inferInstanceAs (Decidable (_ ∧ _))

theorem FirstAt.before_eq (h : FirstAt pattern text offset) (hne : pattern ≠ []) :
    before pattern text = (offset, true) := by
  refine before_eq_true_iff.2 ((locate?_eq_some_iff _ _ _).2 ⟨?_, h.1, h.2⟩)
  apply Nat.le_of_not_lt
  intro hlt
  -- behind the end of the text there is nothing for the pattern to be a prefix of
  have hdrop : text.drop offset = [] := List.drop_eq_nil_of_le (Nat.le_of_lt hlt)
  exact hne (List.prefix_nil.1 (hdrop ▸ h.1))

theorem before_eq_of_not_infix (h : ¬ pattern <:+: text) :
    before pattern text = (text.length - pattern.length, false) :=
  before_eq_false_iff.2 ⟨(locate?_eq_none_iff _ _).2 h, rfl⟩

end Bytes

namespace Window

/-! ## What operations leave alone -/

/-- Both windows look for the same, and are of one size. -/
structure SameSearch (w w' : Window) : Prop where
  capacity : w'.capacity = w.capacity
  boundary : w'.boundary = w.boundary
  atStart : w'.atStart = w.atStart

variable {w w' : Window}

namespace SameSearch

theorem refl (w : Window) : w.SameSearch w := ⟨rfl, rfl, rfl⟩

theorem trans {w'' : Window} (h1 : w.SameSearch w') (h2 : w'.SameSearch w'') : w.SameSearch w'' :=
  ⟨h2.capacity.trans h1.capacity, h2.boundary.trans h1.boundary, h2.atStart.trans h1.atStart⟩

theorem pattern (h : w.SameSearch w') : w'.pattern = w.pattern := by
  unfold Window.pattern
  rw [h.atStart, h.boundary]

end SameSearch

theorem fill_sameSearch (w : Window) : w.SameSearch w.fill.2 := by
  unfold fill
  split
  · exact ⟨rfl, rfl, rfl⟩
  · exact ⟨rfl, rfl, rfl⟩

theorem refill_sameSearch (w : Window) : w.SameSearch w.refill.2 := by
  have h := w.fill_sameSearch
  unfold refill
  rcases hf : w.fill with ⟨e | _ | count, w'⟩ <;> rw [hf] at h
  · exact h
  · exact h
  · exact h

theorem take_sameSearch (w : Window) (room : Nat) : w.SameSearch (w.take room).2 := by
  fun_induction take w room with
  | case1 => exact .refl _
  | case2 => exact ⟨rfl, rfl, rfl⟩
  | case3 => exact .refl _
  | case4 w _ _ e w' hf =>
    have h := w.refill_sameSearch
    rwa [hf] at h
  | case5 w _ _ w' hf _ ih =>
    have h := w.refill_sameSearch
    rw [hf] at h
    exact h.trans ih

theorem discardFrom_sameSearch (count : Nat) (w : Window) :
    w.SameSearch (w.discardFrom count).2 := by
  fun_induction discardFrom count w with
  | case1 => exact ⟨rfl, rfl, rfl⟩
  | case2 count w n _ e w' hf =>
    have h := (w.pass n).refill_sameSearch
    rw [hf] at h
    exact ⟨h.capacity, h.boundary, h.atStart⟩
  | case3 count w n _ w' hf _ ih =>
    have h := (w.pass n).refill_sameSearch
    rw [hf] at h
    have hpass : w.SameSearch w' := ⟨h.capacity, h.boundary, h.atStart⟩
    exact hpass.trans ih

theorem readByte_sameSearch (w : Window) : w.SameSearch w.readByte.2 := by
  have h := w.fill_sameSearch
  unfold readByte
  split
  · exact ⟨rfl, rfl, rfl⟩
  · rcases hf : w.fill with ⟨e | count, w'⟩ <;> rw [hf] at h
    · exact h
    · simp only
      split
      · exact ⟨h.capacity, h.boundary, h.atStart⟩
      · exact h

theorem afterFirst_sameSearch (first : UInt8) (w : Window) :
    w.SameSearch (w.afterFirst first).2 := by
  have h := w.readByte_sameSearch
  unfold afterFirst
  rcases hr : w.readByte with ⟨e | second, w'⟩ <;> rw [hr] at h
  · exact h
  · simp only
    split
    · exact ⟨h.capacity, h.boundary, h.atStart⟩
    · split
      · exact ⟨h.capacity, h.boundary, h.atStart⟩
      · exact h

theorem readDelimiter_sameSearch (w : Window) : w.SameSearch w.readDelimiter.2 := by
  have h := (w.pass w.pattern.length).readByte_sameSearch
  rw [readDelimiter_eq]
  split
  · rcases hr : (w.pass w.pattern.length).readByte with ⟨e | first, w'⟩ <;> rw [hr] at h
    · exact ⟨h.capacity, h.boundary, h.atStart⟩
    · have hpass : w.SameSearch w' := ⟨h.capacity, h.boundary, h.atStart⟩
      exact hpass.trans (w'.afterFirst_sameSearch first)
  · exact .refl w

theorem readBlockFrom_sameSearch (limit : Nat) (ending : Ending) (count : Nat) (block : Bytes)
    (w : Window) : w.SameSearch (w.readBlockFrom limit ending count block).2 := by
  fun_induction readBlockFrom limit ending count block w with
  | case1 => exact .refl _
  | case2 _ _ _ w _ e w' hr =>
    have h := w.readByte_sameSearch
    rwa [hr] at h
  | case3 _ _ _ w _ b w' hr _ _ =>
    have h := w.readByte_sameSearch
    rwa [hr] at h
  | case4 _ _ _ w _ b w' hr _ _ ih =>
    have h := w.readByte_sameSearch
    rw [hr] at h
    exact h.trans ih

/-! ## Windows that can be reached -/

/-- One operation on a window. -/
inductive Op where
  | findFirst
  | readDelimiter
  | take (room : Nat)
  | discard
  | setBoundary (boundary : Bytes)
  | readHeaderBlock (limit : Nat)
  deriving DecidableEq, Repr

/-- What an operation leaves of the window, whether it succeeds or fails. -/
def act (w : Window) : Op → Window
  | .findFirst => w.findFirst.2
  | .readDelimiter => w.readDelimiter.2
  | .take room => (w.take room).2
  | .discard => w.discard.2
  | .setBoundary boundary => (w.setBoundary boundary).2
  | .readHeaderBlock limit => (w.readHeaderBlock limit).2

/-- One operation after the other. -/
def after (w : Window) (ops : List Op) : Window :=
  ops.foldl act w

/-- A delimiter fits into the window with room to spare, and is looked for with its line break. -/
structure Reached (w : Window) : Prop where
  room : w.boundary.length + 4 < w.capacity
  atStart : w.atStart = false

theorem open?_reached {feed : Feed} {boundary : Bytes} {capacity : Nat}
    (h : open? feed boundary capacity = .ok w) : w.Reached ∧ w.feed = feed := by
  unfold open? at h
  cases hc : checkBoundary boundary capacity with
  | error e =>
    rw [hc] at h
    cases h
  | ok _ =>
    rw [hc] at h
    cases h
    exact ⟨⟨(checkBoundary_ok_iff.1 hc).2, rfl⟩, rfl⟩

namespace Reached

theorem sameSearch (h : w.Reached) (hs : w.SameSearch w') : w'.Reached :=
  ⟨by rw [hs.boundary, hs.capacity]; exact h.room, hs.atStart.trans h.atStart⟩

theorem pattern_eq (h : w.Reached) : w.pattern = delimiter w.boundary := by
  unfold pattern
  rw [h.atStart]
  rfl

theorem ahead_eq (h : w.Reached) : w.ahead = Bytes.before (delimiter w.boundary) w.pending := by
  unfold ahead
  rw [h.pattern_eq]

/-- Looking for the first delimiter takes its line break out of the search, and puts it back. -/
theorem findFirst (h : w.Reached) : w.findFirst.2.Reached := by
  have hadvances := w.findFirst_advances
  refine ⟨?_, ?_⟩
  · rw [hadvances.boundary, hadvances.moves.capacity_eq]
    exact h.room
  · unfold Window.findFirst
    split
    · rfl
    · rfl
    · rfl

theorem setBoundary (h : w.Reached) (boundary : Bytes) : (w.setBoundary boundary).2.Reached := by
  unfold Window.setBoundary
  cases hc : checkBoundary boundary w.capacity with
  | error e => exact h
  | ok _ => exact ⟨(checkBoundary_ok_iff.1 hc).2, h.atStart⟩

theorem act (h : w.Reached) (op : Op) : (w.act op).Reached := by
  cases op with
  | findFirst => exact h.findFirst
  | readDelimiter => exact h.sameSearch w.readDelimiter_sameSearch
  | take room => exact h.sameSearch (w.take_sameSearch room)
  | discard => exact h.sameSearch (discardFrom_sameSearch 0 w)
  | setBoundary boundary => exact h.setBoundary boundary
  | readHeaderBlock limit => exact h.sameSearch (readBlockFrom_sameSearch limit .crlf 0 [] w)

theorem after (h : w.Reached) (ops : List Op) : (w.after ops).Reached := by
  induction ops generalizing w with
  | nil => exact h
  | cons op ops ih => exact ih (h.act op)

end Reached

/-! ## A failing read loses nothing -/

theorem Unmetered.fill_pending (h : w.Unmetered) : w.fill.2.pending = w.pending := by
  obtain ⟨hp, -, -⟩ | ⟨got, -, -, -, -, hp⟩ := w.fill_cases
  · exact hp
  · obtain ⟨hc, -⟩ | ⟨limit, hlimit, -, -⟩ := w.feed.account.countBytes_cases got.length
    · exact hp (by rw [hc])
    · cases hlimit.symm.trans h.unlimited

theorem refill_eq_fill (w : Window) : w.refill.2 = w.fill.2 := by
  unfold refill
  rcases w.fill with ⟨e | _ | count, w'⟩
  · rfl
  · rfl
  · rfl

/-- A read that fails may have read into the window, but it took nothing out of it. -/
theorem take_error_pending {room : Nat} {e : Error} (h : w.Unmetered)
    (ht : w.take room = (.error e, w')) : w'.pending = w.pending := by
  fun_induction take w room with
  | case1 => cases ht
  | case2 => cases ht
  | case3 => cases ht
  | case4 w _ _ e' w'' hf =>
    cases ht
    have hp := h.fill_pending
    rwa [← refill_eq_fill, hf] at hp
  | case5 w _ _ w'' hf _ ih =>
    have hmoves := w.refill_scanned.moves
    rw [hf] at hmoves
    rw [ih (h.moves hmoves) ht]
    exact (refill_ok hf).1

/-- Behind what a read hands out, the content ahead is shorter by that and ends the same way. -/
theorem take_ahead {room n : Nat} {found : Bool} {bytes : Bytes} (ht : w.take room = (.ok bytes, w'))
    (hahead : w.ahead = (n, found)) (hle : bytes.length ≤ n) :
    w'.ahead = (n - bytes.length, found) := by
  have hsame := w.take_sameSearch room
  rw [ht] at hsame
  have hdrop : w'.pending = w.pending.drop bytes.length := by
    rw [take_ok ht, List.drop_left]
  rw [ahead, hsame.pattern, hdrop]
  exact Bytes.before_drop hahead hle

/-- A read that takes nothing leaves the same content ahead. -/
theorem ahead_congr (hsame : w.SameSearch w') (hp : w'.pending = w.pending) : w'.ahead = w.ahead := by
  rw [ahead, ahead, hsame.pattern, hp]

theorem Steady.unmetered (h : w.Steady) : w.Unmetered :=
  ⟨h.feed.unlimited, h.feed.unspent⟩

/-! ## One read after the other -/

/-- What reads with room for that many bytes each answer, and the window behind them. -/
def takeAll (w : Window) : List Nat → List (Except Error Bytes) × Window
  | [] => ([], w)
  | room :: rooms =>
    ((w.take room).1 :: ((w.take room).2.takeAll rooms).1, ((w.take room).2.takeAll rooms).2)

theorem takeAll_cons {room : Nat} {rooms : List Nat} {answer : Except Error Bytes}
    {answers : List (Except Error Bytes)} {w'' : Window} (ht : w.take room = (answer, w'))
    (hts : w'.takeAll rooms = (answers, w'')) :
    w.takeAll (room :: rooms) = (answer :: answers, w'') := by
  rw [takeAll, ht, hts]

/-- What reads answer when the content ahead is used up: nothing in front of a delimiter, else that the
body ended early. -/
def atEnd (found : Bool) : Except Error Bytes :=
  if found then .ok [] else .error (.malformed .endedEarly)

/-- These reads hand out these pieces of the `n` bytes of content ahead, and `count` more come behind
its end. -/
structure Extracts (w : Window) (n : Nat) (found : Bool) (rooms : List Nat) (pieces : List Bytes)
    (count : Nat) (w' : Window) : Prop where
  run : w.takeAll rooms = (pieces.map .ok ++ List.replicate count (atEnd found), w')
  onward : w.Onward w'
  nonempty : [] ∉ pieces
  front : w.pending = pieces.flatten ++ w'.pending
  within : pieces.flatten.length ≤ n
  enough : rooms.length ≤ n + count
  whole : 0 < count → pieces.flatten.length = n
  atDelimiter : 0 < count → found = true → w'.AtDelimiter

namespace Extracts

variable {w₁ w₂ : Window} {room n count : Nat} {found : Bool} {rooms : List Nat} {pieces : List Bytes}

/-- Behind the content no read hands out anything. -/
theorem behind (h : w₁.Extracts 0 found rooms pieces count w₂) (ht : w.take room = (atEnd found, w₁))
    (ho : w.Onward w₁) (hp : w₁.pending = w.pending) (hat : found = true → w₁.AtDelimiter) :
    w.Extracts 0 found (room :: rooms) [] (count + 1) w₂ := by
  have hnil : pieces = [] := by
    rcases pieces with _ | ⟨piece, pieces⟩
    · rfl
    · have hlen := h.within
      simp only [List.flatten_cons, List.length_append] at hlen
      have hempty : piece = [] := List.length_eq_zero_iff.1 (by omega)
      exact absurd (hempty ▸ List.mem_cons_self) h.nonempty
  have hrun := h.run
  subst hnil
  refine ⟨?_, ho.trans h.onward, List.not_mem_nil, ?_, Nat.le_refl _, ?_, fun _ => rfl, ?_⟩
  · rw [takeAll_cons ht hrun]
    rfl
  · rw [← hp]
    exact h.front
  · have henough := h.enough
    simp only [List.length_cons]
    omega
  · intro _ hfound
    rcases Nat.eq_zero_or_pos count with rfl | hpos
    · -- no read comes after this one
      have hrooms : rooms = [] := List.length_eq_zero_iff.1 (Nat.le_zero.1 h.enough)
      subst hrooms
      cases hrun
      exact hat hfound
    · exact h.atDelimiter hpos hfound

/-- A read that hands something out, and what comes behind it. -/
theorem piece {b : UInt8} {bytes : Bytes}
    (h : w₁.Extracts (n - bytes.length) found rooms pieces count w₂)
    (ht : w.take room = (.ok (b :: bytes), w₁)) (ho : w.Onward w₁) (hlen : bytes.length ≤ n) :
    w.Extracts (n + 1) found (room :: rooms) ((b :: bytes) :: pieces) count w₂ := by
  refine ⟨?_, ho.trans h.onward, ?_, ?_, ?_, ?_, ?_, h.atDelimiter⟩
  · exact takeAll_cons ht h.run
  · intro hmem
    rcases List.mem_cons.1 hmem with hmem | hmem
    · cases hmem
    · exact h.nonempty hmem
  · rw [take_ok ht, h.front, List.flatten_cons, List.append_assoc]
  · have hwithin := h.within
    simp only [List.flatten_cons, List.length_append, List.length_cons]
    omega
  · have henough := h.enough
    simp only [List.length_cons]
    omega
  · intro hcount
    have hwhole := h.whole hcount
    simp only [List.flatten_cons, List.length_append, List.length_cons]
    omega

/-- What is handed out is the front of the content, all of it once a read came behind. -/
theorem front_prefix (h : w.Extracts n found rooms pieces count w') :
    pieces.flatten <+: w.pending.take n := by
  have hfront : pieces.flatten <+: w.pending := ⟨w'.pending, h.front.symm⟩
  exact List.prefix_take_iff.2 ⟨hfront, h.within⟩

theorem all (h : w.Extracts n found rooms pieces count w') (hcount : 0 < count) :
    pieces.flatten = w.pending.take n := by
  rw [h.front, ← h.whole hcount, List.take_left]

theorem rest (h : w.Extracts n found rooms pieces count w') (hcount : 0 < count) :
    w'.pending = w.pending.drop n := by
  rw [h.front, ← h.whole hcount, List.drop_left]

end Extracts

/-- Reads of a steady source: pieces come up to the end of the content ahead, and none behind it. -/
theorem takeAll_reads {n : Nat} {found : Bool} {rooms : List Nat} (h : w.Steady)
    (hahead : w.ahead = (n, found)) (hrooms : ∀ room ∈ rooms, 0 < room) :
    ∃ pieces count w', w.Extracts n found rooms pieces count w' := by
  induction rooms generalizing w n with
  | nil =>
    refine ⟨[], 0, w, rfl, .refl h, List.not_mem_nil, rfl, Nat.zero_le _, Nat.zero_le _, ?_, ?_⟩
    · intro hcount
      exact absurd hcount (Nat.lt_irrefl 0)
    · intro hcount
      exact absurd hcount (Nat.lt_irrefl 0)
  | cons room rooms ih =>
    have hread := take_reads h (hrooms room List.mem_cons_self)
    have hrest : ∀ room ∈ rooms, 0 < room := fun r hr => hrooms r (List.mem_cons_of_mem _ hr)
    rw [hahead] at hread
    rcases n with _ | n
    · -- the content is used up, so this read answers as all behind it do, and takes nothing
      obtain ⟨w₁, ht, ho, hp, hat⟩ : ∃ w₁, w.take room = (atEnd found, w₁) ∧ w.Onward w₁ ∧
          w₁.pending = w.pending ∧ (found = true → w₁.AtDelimiter) := by
        cases found with
        | true =>
          obtain ⟨w₁, ht, ho⟩ := hread
          exact ⟨w₁, ht, ho, (take_ok ht).symm, fun _ =>
            take_atDelimiter (hrooms room List.mem_cons_self) ht⟩
        | false =>
          obtain ⟨w₁, ht, ho⟩ := hread
          exact ⟨w₁, ht, ho, take_error_pending h.unmetered ht, nofun⟩
      have hahead₁ : w₁.ahead = (0, found) := by
        rw [← hahead]
        exact ahead_congr ⟨ho.capacity, ho.boundary, ho.atStart⟩ hp
      obtain ⟨pieces, count, w₂, hx⟩ := ih ho.steady hahead₁ hrest
      exact ⟨[], count + 1, w₂, hx.behind ht ho hp hat⟩
    · obtain ⟨b, bytes, w₁, ht, hlen, ho⟩ := hread
      have hahead₁ : w₁.ahead = (n - bytes.length, found) := by
        rw [take_ahead ht hahead (Nat.succ_le_succ hlen), List.length_cons, Nat.succ_sub_succ]
      obtain ⟨pieces, count, w₂, hx⟩ := ih ho.steady hahead₁ hrest
      exact ⟨(b :: bytes) :: pieces, count, w₂, hx.piece ht ho hlen⟩

/-! ## Exact extraction -/

/-- The window looks for this boundary, these bytes are pending, and reading the delimiter takes one off
their front. -/
def Faces (w : Window) (boundary rest : Bytes) : Prop :=
  w.boundary = boundary ∧ w.pending = rest ∧
    w.Reads w.readDelimiter (afterDelimiter (rest.drop (delimiter boundary).length))

theorem AtDelimiter.faces (hat : w.AtDelimiter) (h : w.Steady) (hr : w.Reached) :
    w.Faces w.boundary w.pending := by
  have hread := readDelimiter_reads h hat
  rw [hr.pattern_eq] at hread
  exact ⟨rfl, rfl, hread⟩

theorem Onward.reached (h : w.Onward w') (hr : w.Reached) : w'.Reached :=
  hr.sameSearch ⟨h.capacity, h.boundary, h.atStart⟩

/-- Where discarding ends, a delimiter is faced. -/
theorem Reads.faces_of_discard {count : Nat} {rest : Bytes} (h : w.Reads w.discard (.ok (count, rest)))
    (hr : w.Reached) : ∃ w', w.discard = (.ok count, w') ∧ w'.Faces w.boundary rest := by
  obtain ⟨w', hd, rfl, ho⟩ := h
  have hfaces := (discard_atDelimiter hd).faces ho.steady (ho.reached hr)
  rw [ho.boundary] at hfaces
  exact ⟨w', hd, hfaces⟩

/-- Reads of any sizes hand out this content in pieces, none of them empty. Behind it they all answer
`ending`, and leave such a window. -/
def HandsOut (w : Window) (content : Bytes) (ending : Except Error Bytes) (left : Window → Prop) :
    Prop :=
  ∀ rooms : List Nat, (∀ room ∈ rooms, 0 < room) →
    ∃ (pieces : List Bytes) (count : Nat) (w' : Window),
      w.takeAll rooms = (pieces.map .ok ++ List.replicate count ending, w') ∧
      [] ∉ pieces ∧ pieces.flatten <+: content ∧ rooms.length ≤ content.length + count ∧
      (0 < count → pieces.flatten = content ∧ left w')

theorem Steady.handsOut {n : Nat} {found : Bool} {left : Window → Prop} (h : w.Steady)
    (hahead : w.ahead = (n, found))
    (hleft : ∀ w', w.Onward w' → w'.pending = w.pending.drop n →
      (found = true → w'.AtDelimiter) → left w') :
    w.HandsOut (w.pending.take n) (atEnd found) left := by
  have hle : w.ahead.1 ≤ w.pending.length := Bytes.before_le_length _ _
  rw [hahead] at hle
  intro rooms hrooms
  obtain ⟨pieces, count, w', hx⟩ := takeAll_reads h hahead hrooms
  refine ⟨pieces, count, w', hx.run, hx.nonempty, hx.front_prefix, ?_, ?_⟩
  · rw [List.length_take_of_le hle]
    exact hx.enough
  · intro hcount
    exact ⟨hx.all hcount, hleft w' hx.onward (hx.rest hcount) (hx.atDelimiter hcount)⟩

/-- Whatever was done to a window before, on a steady source content is extracted exactly. If the first
delimiter pending begins at `offset`, reads hand out the bytes before it and then none, discarding
counts `offset` bytes, and both leave the delimiter to be read. If none is pending, reads hand out all
but as many bytes as a delimiter has, and fail then, as discarding does. -/
theorem extraction_exact {feed : Feed} {boundary : Bytes} {capacity : Nat} {w₀ w : Window}
    {ops : List Op} (hopen : open? feed boundary capacity = .ok w₀) (hops : w₀.after ops = w)
    (hfeed : w.feed.Steady) :
    (∀ offset, Bytes.FirstAt (delimiter w.boundary) w.pending offset →
      w.HandsOut (w.pending.take offset) (.ok []) (fun w' =>
        w'.Faces w.boundary (w.pending.drop offset)) ∧
      ∃ w', w.discard = (.ok offset, w') ∧ w'.Faces w.boundary (w.pending.drop offset)) ∧
    (¬ delimiter w.boundary <:+: w.pending →
      w.HandsOut (w.pending.take (w.pending.length - (delimiter w.boundary).length))
        (.error (.malformed .endedEarly)) (fun w' =>
          w'.pending = w.pending.drop (w.pending.length - (delimiter w.boundary).length)) ∧
      ∃ w', w.discard = (.error (.malformed .endedEarly), w')) := by
  obtain ⟨hreached₀, -⟩ := open?_reached hopen
  have hreached : w.Reached := hops ▸ hreached₀.after ops
  have hsteady : w.Steady := ⟨hfeed, hreached.room⟩
  have hdiscard := discard_reads hsteady
  constructor
  · intro offset hfirst
    have hahead : w.ahead = (offset, true) := by
      rw [hreached.ahead_eq]
      exact hfirst.before_eq nofun
    rw [hahead] at hdiscard
    refine ⟨hsteady.handsOut hahead ?_, hdiscard.faces_of_discard hreached⟩
    intro w' ho hp hat
    rw [← hp, ← ho.boundary]
    exact (hat rfl).faces ho.steady (ho.reached hreached)
  · intro hnone
    have hahead : w.ahead = (w.pending.length - (delimiter w.boundary).length, false) := by
      rw [hreached.ahead_eq]
      exact Bytes.before_eq_of_not_infix hnone
    rw [hahead] at hdiscard
    obtain ⟨w', hd, -⟩ := hdiscard
    exact ⟨hsteady.handsOut hahead fun w' _ hp _ => hp, w', hd⟩

/-- A content that begins a delimiter three times before the one that ends it, byte by byte. -/
def falseStarts : Source where
  transport := {
    segments := [
      .data [45, 45, 88, 89, 13, 10, 13, 10],
      .data [13, 10, 45, 13, 10, 45, 45, 88, 13, 10, 45, 45, 88, 13, 10, 45, 45, 88, 89, 45, 45]]
    pace := some 1 }

theorem extraction_exact_falseStarts :
    ∃ w₀ w, open? { source := falseStarts } [88, 89] 7 = .ok w₀ ∧
      w₀.after [.findFirst, .readHeaderBlock 10] = w ∧
      w.HandsOut [13, 10, 45, 13, 10, 45, 45, 88, 13, 10, 45, 45, 88] (.ok [])
        (fun w' => w'.Faces [88, 89] [13, 10, 45, 45, 88, 89, 45, 45]) ∧
      ∃ w', w.discard = (.ok 13, w') ∧ w'.Faces [88, 89] [13, 10, 45, 45, 88, 89, 45, 45] := by
  obtain ⟨w₀, hopen⟩ : ∃ w₀, open? { source := falseStarts } [88, 89] 7 = .ok w₀ := ⟨_, rfl⟩
  refine ⟨w₀, _, hopen, rfl, ?_⟩
  have hreached : (w₀.after [.findFirst, .readHeaderBlock 10]) = {
      feed := {
        source := { transport := { segments := falseStarts.transport.segments.drop 1, pace := some 1 } }
        account := { bytesRead := 8 } }
      capacity := 7
      boundary := [88, 89] } := by
    cases hopen
    decide +kernel
  have hsteady : (w₀.after [.findFirst, .readHeaderBlock 10]).feed.Steady := by
    rw [hreached]
    exact ⟨⟨by simp [falseStarts, Segment.IsSteady], nofun, rfl⟩, rfl, rfl⟩
  have hexact := (extraction_exact hopen rfl hsteady).1 13 (by rw [hreached]; decide +kernel)
  rw [hreached] at hexact ⊢
  exact hexact

end Window

end FormData
