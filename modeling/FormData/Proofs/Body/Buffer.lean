/-
The window in its cells. Whatever is done to a buffer that was opened, in any order and after any failure, its
marks stay in order and in range, so no access fails; what it gives is what its window gives
(`Buffer.window`). Its source is only ever called with cells to fill, and is called again within one operation
only after it filled some. So a call that fills none tells the end of the body, and every operation ends
(`operations_in_range`).
-/
import FormData.Body.Buffer
import FormData.Proofs.Body.RequestLimit
import FormData.Proofs.Body.Runs

namespace FormData

/-- A read delivers no more than it has room for. -/
theorem Feed.read_length_le (f : Feed) (room : Nat) :
    ∀ bytes, (f.read room).1 = .ok bytes → bytes.length ≤ room := by
  intro bytes hr
  rcases f.read_cases room with ⟨hnil, -⟩ | ⟨got, -, -, hle, -, hgot, -⟩
  · rw [hnil bytes hr]
    exact Nat.zero_le room
  · rw [hgot] at hr
    cases hcount : (f.account.countBytes got.length).1 with
    | error e =>
      rw [hcount] at hr
      cases hr
    | ok _ =>
      rw [hcount] at hr
      cases hr
      exact hle

/-! ## Cells -/

namespace Cells

variable {cells : Bytes} {start stop : Nat}

theorem slice?_eq (h : start ≤ stop) (hstop : stop ≤ cells.length) :
    slice? cells start stop = some ((cells.take stop).drop start) :=
  if_pos ⟨h, hstop⟩

theorem slice?_rest (h : start ≤ cells.length) :
    slice? cells start cells.length = some (cells.drop start) := by
  rw [slice?_eq h (Nat.le_refl _), List.take_length]

/-- The cells with these bytes written to them. -/
def written (cells : Bytes) (start : Nat) (bytes : Bytes) : Bytes :=
  cells.take start ++ bytes ++ cells.drop (start + bytes.length)

variable {bytes : Bytes}

theorem write?_eq (h : start + bytes.length ≤ cells.length) :
    write? cells start bytes = some (written cells start bytes) :=
  if_pos h

theorem length_written (h : start + bytes.length ≤ cells.length) :
    (written cells start bytes).length = cells.length := by
  unfold written
  rw [List.length_append, List.length_append, List.length_take, List.length_drop]
  omega

theorem take_written (h : start ≤ cells.length) :
    (written cells start bytes).take (start + bytes.length) = cells.take start ++ bytes := by
  have hfront : (cells.take start ++ bytes).length = start + bytes.length := by
    rw [List.length_append, List.length_take, Nat.min_eq_left h]
  unfold written
  rw [← hfront, List.take_left]

end Cells

namespace Buffer

/-! ## The window in the cells -/

def window (b : Buffer) : Window where
  feed := b.feed
  unread := (b.cells.take b.tail).drop b.head
  capacity := b.cells.length
  boundary := b.delimiter.drop 4
  atStart := b.start = 2
  isClosed := b.isClosed

/-- The marks are in order and in range, and more than a delimiter fits into the cells. -/
structure Sound (b : Buffer) : Prop where
  head : b.head ≤ b.tail
  tail : b.tail ≤ b.cells.length
  delimiter : Window.delimiter (b.delimiter.drop 4) = b.delimiter
  room : b.delimiter.length < b.cells.length
  start : b.start = 0 ∨ b.start = 2

variable {b c : Buffer}

theorem Sound.unread_length (h : b.Sound) : b.window.unread.length = b.tail - b.head := by
  show ((b.cells.take b.tail).drop b.head).length = _
  rw [List.length_drop, List.length_take, Nat.min_eq_left h.tail]

theorem Sound.unread?_eq (h : b.Sound) : b.unread? = some b.window.unread :=
  Cells.slice?_eq h.head h.tail

theorem Sound.delimiter_length (h : b.Sound) : b.delimiter.length = b.window.boundary.length + 4 := by
  conv => lhs; rw [← h.delimiter]
  rfl

theorem Sound.pattern?_eq (h : b.Sound) : b.pattern? = some b.window.pattern := by
  have hlen := h.delimiter_length
  have hpattern : b.window.pattern = b.delimiter.drop b.start := by
    rcases h.start with hs | hs
    · have hfull : b.window.atStart = false := by
        show decide (b.start = 2) = false
        rw [hs]
        rfl
      rw [Window.pattern, hfull, hs]
      exact h.delimiter
    · have hshort : b.window.atStart = true := by
        show decide (b.start = 2) = true
        rw [hs]
        rfl
      rw [Window.pattern, hshort, hs, ← h.delimiter]
      rfl
  rw [hpattern]
  refine Cells.slice?_rest ?_
  rcases h.start with hs | hs <;> omega

theorem Sound.window_room (h : b.Sound) : b.window.boundary.length + 4 < b.window.capacity := by
  rw [← h.delimiter_length]
  exact h.room

theorem Sound.available?_eq (h : b.Sound) : b.available? = some b.window.available := by
  unfold available? Window.available
  rw [h.unread?_eq, h.pattern?_eq]
  simp only [Option.bind_eq_bind, Option.bind_some]
  rcases Bytes.locate? b.window.pattern b.window.unread with _ | offset
  · simp only [Option.some.injEq, Prod.mk.injEq, and_true]
    omega
  · rfl

theorem open?_sound {feed : Feed} {boundary : Bytes} {size : Nat} (h : open? feed boundary size = .ok b) :
    b.Sound ∧ b.cells.length = size ∧ b.pulls = [] := by
  unfold open? at h
  cases hc : Window.checkBoundary boundary size with
  | error e =>
    rw [hc] at h
    cases h
  | ok _ =>
    rw [hc] at h
    cases h
    have hroom := (Window.checkBoundary_ok_iff.1 hc).2
    have hsize : (List.replicate size (0 : UInt8)).length = size := List.length_replicate
    refine ⟨⟨Nat.le_refl 0, Nat.zero_le _, rfl, ?_, .inl rfl⟩, hsize, rfl⟩
    show (Window.delimiter boundary).length < (List.replicate size (0 : UInt8)).length
    rw [hsize]
    exact hroom

/-! ## Calls to the source -/

end Buffer

/-- Some cells were filled. -/
def Pull.Yields (p : Pull) : Prop :=
  ∃ count, p.result = .ok (count + 1)

/-- How many cells were filled. -/
def Pull.count (p : Pull) : Nat :=
  match p.result with
  | .ok count => count
  | .error _ => 0

/-- How many cells the calls filled together. -/
def Pull.total : List Pull → Nat
  | [] => 0
  | p :: more => p.count + total more

theorem Pull.total_append (calls more : List Pull) : total (calls ++ more) = total calls + total more := by
  induction calls with
  | nil => exact (Nat.zero_add _).symm
  | cons p calls ih => rw [List.cons_append, total, total, ih, Nat.add_assoc]

/-- Calls that filled some cells filled at least as many as there were calls. -/
theorem Pull.length_le_total {calls : List Pull} (h : ∀ p ∈ calls, p.Yields) :
    calls.length ≤ total calls := by
  induction calls with
  | nil => exact Nat.le_refl 0
  | cons p calls ih =>
    obtain ⟨count, hcount⟩ := h p (List.mem_cons_self ..)
    have hp : p.count = count + 1 := by
      unfold Pull.count
      rw [hcount]
    have := ih fun q hq => h q (List.mem_cons_of_mem _ hq)
    rw [List.length_cons, total, hp]
    omega

/-- The error tells that the body has ended. -/
def Error.TellsEnd : Error → Prop
  | .malformed .endedEarly | .malformed .noMoreData | .malformed (.boundaryNotFound _) => True
  | _ => False

namespace Buffer

variable {b c d : Buffer} {α β σ : Type}

/-- The result does not tell that the body has ended. -/
def Tacit (r : Except Error α) : Prop :=
  ∀ e, r = .error e → ¬ e.TellsEnd

theorem tacit_ok {a : α} : Tacit (.ok a) :=
  nofun

theorem tacit_error {e : Error} (h : ¬ e.TellsEnd) : Tacit (.error e : Except Error α) := by
  rintro _ ⟨⟩
  exact h

/-- The source raises no error that tells of a malformed body. -/
def Candid (b : Buffer) : Prop :=
  ∀ fault, .malformed fault ∉ b.window.failures

/-- What an operation does that ends with this result: the calls it made to the source, the last one first,
had cells to fill, and all but the last one filled some, together no more than there were bytes left. The last
one did too if the operation succeeded, and filled none if it tells the end of the body and the source does
not raise such errors itself. -/
structure Ran (b : Buffer) (r : Except Error α) (c : Buffer) (calls : List Pull) : Prop where
  sound : c.Sound
  size : c.cells.length = b.cells.length
  pulls : c.pulls = calls ++ b.pulls
  room : ∀ p ∈ calls, 0 < p.room
  earlier : ∀ p ∈ calls.tail, p.Yields
  succeeded : ∀ a, r = .ok a → ∀ p ∈ calls, p.Yields
  ended : b.Candid → ∀ e, r = .error e → e.TellsEnd → ∃ room more, calls = ⟨room, .ok 0⟩ :: more
  bytes : Pull.total calls + c.left ≤ b.left
  failures : c.window.failures ⊆ b.window.failures

/-- The operation gives what it gives on the window. -/
def Runs (b : Buffer) (step : Option (Except Error α × Buffer))
    (expected : Except Error α × Window) : Prop :=
  ∃ r c calls, step = some (r, c) ∧ expected = (r, c.window) ∧ b.Ran r c calls

namespace Ran

/-- An operation that makes no calls. -/
theorem still {r : Except Error α} (hs : c.Sound) (hsize : c.cells.length = b.cells.length)
    (hpulls : c.pulls = b.pulls) (hfeed : c.feed = b.feed) (hr : Tacit r) : b.Ran r c [] where
  sound := hs
  size := hsize
  pulls := hpulls
  room := nofun
  earlier := nofun
  succeeded := fun _ _ => nofun
  ended _ e he htells := absurd htells (hr e he)
  bytes := by
    unfold left
    rw [hfeed]
    exact Nat.le_of_eq (Nat.zero_add _)
  failures := by
    show c.feed.source.failures ⊆ _
    rw [hfeed]
    exact List.Subset.refl _

theorem trans {a : α} {r : Except Error β} {calls more : List Pull} (h : b.Ran (.ok a) c calls)
    (hd : c.Ran r d more) : b.Ran r d (more ++ calls) where
  sound := hd.sound
  size := hd.size.trans h.size
  pulls := by rw [hd.pulls, h.pulls, List.append_assoc]
  room p hp := by
    rcases List.mem_append.1 hp with hp | hp
    · exact hd.room p hp
    · exact h.room p hp
  earlier p hp := by
    cases more with
    | nil => exact h.succeeded a rfl p (List.mem_of_mem_tail hp)
    | cons q more =>
      rcases List.mem_append.1 hp with hp | hp
      · exact hd.earlier p hp
      · exact h.succeeded a rfl p hp
  succeeded a' ha p hp := by
    rcases List.mem_append.1 hp with hp | hp
    · exact hd.succeeded a' ha p hp
    · exact h.succeeded a rfl p hp
  ended hcandid e he htells := by
    have hcandid' : c.Candid := fun fault hmem => hcandid fault (h.failures hmem)
    obtain ⟨room, more', rfl⟩ := hd.ended hcandid' e he htells
    exact ⟨room, more' ++ calls, rfl⟩
  bytes := by
    have h1 := h.bytes
    have h2 := hd.bytes
    rw [Pull.total_append]
    omega
  failures := List.Subset.trans hd.failures h.failures

/-- Whatever becomes of the result, as long as it does not tell the end of the body. -/
theorem turned {a : α} {r : Except Error β} {calls : List Pull} (h : b.Ran (.ok a) c calls)
    (hr : Tacit r) : b.Ran r c calls := by
  have hstill : c.Ran r c [] := still h.sound rfl rfl rfl hr
  exact h.trans hstill

/-- A failure may be told in other words, as long as these do not tell more than it does. -/
theorem retold {e e' : Error} {calls : List Pull} (h : b.Ran (.error e : Except Error α) c calls)
    (htells : b.Candid → e'.TellsEnd → e.TellsEnd) : b.Ran (.error e' : Except Error β) c calls :=
  { h with
    succeeded := nofun
    ended := fun hcandid _ he hend =>
      h.ended hcandid e rfl (htells hcandid (Except.error.inj he ▸ hend)) }

theorem failed {e : Error} {calls : List Pull} (h : b.Ran (.error e : Except Error α) c calls) :
    b.Ran (.error e : Except Error β) c calls :=
  h.retold fun _ => id

/-- No more calls than bytes were delivered, but for the last one. -/
theorem calls_le {r : Except Error α} {calls : List Pull} (h : b.Ran r c calls) :
    calls.length + c.left ≤ b.left + 1 := by
  have hbytes := h.bytes
  cases calls with
  | nil =>
    rw [Pull.total] at hbytes
    rw [List.length_nil]
    omega
  | cons p more =>
    have hmore := Pull.length_le_total h.earlier
    rw [List.tail_cons] at hmore
    rw [Pull.total] at hbytes
    rw [List.length_cons]
    omega

end Ran

/-! ## Reading into the cells -/

/-- Other cells that hold this between the marks. -/
theorem window_withCells (b : Buffer) (feed : Feed) {cells unread : Bytes} {head tail : Nat}
    (hsize : cells.length = b.cells.length) (hunread : (cells.take tail).drop head = unread)
    (pulls : List Pull) :
    ({ b with feed, cells, head, tail, pulls } : Buffer).window = { b.window with feed, unread } := by
  unfold window
  simp only [hsize, hunread]

theorem Sound.withCells (h : b.Sound) (feed : Feed) {cells : Bytes} {head tail : Nat}
    (hsize : cells.length = b.cells.length) (hhead : head ≤ tail) (htail : tail ≤ cells.length)
    (pulls : List Pull) : ({ b with feed, cells, head, tail, pulls } : Buffer).Sound where
  head := hhead
  tail := htail
  delimiter := h.delimiter
  room := by
    show b.delimiter.length < cells.length
    rw [hsize]
    exact h.room
  start := h.start

theorem Sound.compact (h : b.Sound) :
    ∃ c, b.compact? = some c ∧ c.Sound ∧ c.window = b.window ∧ c.head = 0 ∧ c.pulls = b.pulls := by
  unfold compact?
  by_cases hhead : b.head = 0
  · rw [if_pos hhead]
    exact ⟨b, rfl, h, rfl, hhead, rfl⟩
  · have hlen := h.unread_length
    have htail := h.tail
    have hfits : 0 + b.window.unread.length ≤ b.cells.length := by omega
    have hsize := Cells.length_written hfits
    have hkept : ((Cells.written b.cells 0 b.window.unread).take (b.tail - b.head)).drop 0 =
        b.window.unread := by
      rw [← hlen, ← Nat.zero_add b.window.unread.length, Cells.take_written (Nat.zero_le _)]
      rfl
    rw [if_neg hhead, h.unread?_eq]
    simp only [Option.bind_eq_bind, Option.bind_some, Cells.write?_eq hfits]
    exact ⟨_, rfl, h.withCells b.feed hsize (Nat.zero_le _) (by omega) b.pulls,
      window_withCells b b.feed hsize hkept b.pulls, rfl, rfl⟩

/-- With what was not handed out at the front, the source fills the cells behind it. -/
theorem Sound.pull (h : b.Sound) (hhead : b.head = 0) :
    ∃ r c, b.pull? = some (r, c) ∧ b.window.fill = (r, c.window) ∧ c.Sound ∧
      c.pulls = ⟨b.window.capacity - b.window.unread.length, r⟩ :: b.pulls := by
  have hunread : b.window.unread = b.cells.take b.tail := by
    unfold window
    rw [hhead]
    rfl
  have hlen : b.window.unread.length = b.tail := by
    rw [h.unread_length, hhead]
    rfl
  have hfree : (b.cells.drop b.tail).length = b.window.capacity - b.window.unread.length := by
    rw [List.length_drop, hlen]
    rfl
  have hfits := b.feed.read_length_le (b.window.capacity - b.window.unread.length)
  unfold pull? Window.fill
  simp only [Option.bind_eq_bind, Cells.slice?_rest h.tail, Option.bind_some, hfree]
  rw [show b.window.feed = b.feed from rfl]
  rcases hr : b.feed.read (b.window.capacity - b.window.unread.length) with ⟨e | bytes, feed⟩ <;>
    rw [hr] at hfits
  · exact ⟨_, _, rfl, rfl, ⟨h.head, h.tail, h.delimiter, h.room, h.start⟩, rfl⟩
  · have htail := h.tail
    have hroom : b.tail + bytes.length ≤ b.cells.length := by
      have hfits : bytes.length ≤ b.cells.length - b.window.unread.length := hfits bytes rfl
      omega
    have hsize := Cells.length_written hroom
    have hkept : ((Cells.written b.cells b.tail bytes).take (b.tail + bytes.length)).drop b.head =
        b.window.unread ++ bytes := by
      rw [Cells.take_written h.tail, hhead, hunread]
      rfl
    simp only [Cells.write?_eq hroom, Option.bind_some]
    refine ⟨_, _, rfl, ?_, h.withCells feed hsize (by omega) (by omega) _, rfl⟩
    rw [window_withCells b feed hsize hkept]

theorem Sound.fill (h : b.Sound) :
    ∃ r c, b.fill? = some (r, c) ∧ b.window.fill = (r, c.window) ∧ c.Sound ∧
      c.pulls = ⟨b.window.capacity - b.window.unread.length, r⟩ :: b.pulls := by
  obtain ⟨front, hfront, hsound, hwindow, hhead, hpulls⟩ := h.compact
  obtain ⟨r, c, hpull, hfill, hc, hcalls⟩ := hsound.pull hhead
  rw [hwindow] at hfill hcalls
  unfold fill?
  rw [hfront]
  exact ⟨r, c, hpull, hfill, hc, hpulls ▸ hcalls⟩

/-- What a call delivered, or lost when it failed, is not to come any more. -/
theorem count_add_left_le {r : Except Error Nat} (h : b.window.fill = (r, c.window)) (room : Nat) :
    (Pull.mk room r).count + c.left ≤ b.left := by
  cases r with
  | ok count =>
    have hfilled := (Window.fill_ok h).2
    show count + c.window.feed.source.pending.length ≤ b.window.feed.source.pending.length
    omega
  | error e =>
    have hle := b.feed.read_pending_le (b.window.capacity - b.window.unread.length)
    have hfeed : c.feed = (b.feed.read (b.window.capacity - b.window.unread.length)).2 := by
      unfold Window.fill at h
      rw [show b.window.feed = b.feed from rfl] at h
      split at h
      · rename_i hr
        rw [hr]
        exact congrArg (·.2.feed) h.symm
      · cases h
    show 0 + c.feed.source.pending.length ≤ _
    rw [hfeed, Nat.zero_add]
    exact hle

theorem fill_error_not_tellsEnd {e : Error} {v : Window} (h : b.window.fill = (.error e, v))
    (hcandid : b.Candid) : ¬ e.TellsEnd := by
  obtain hraised | ⟨limit, actual, rfl⟩ := Window.fill_error_cases h
  · cases e with
    | malformed fault => exact absurd hraised (hcandid fault)
    | _ => exact id
  · exact id

/-- An operation that makes one call. -/
theorem Ran.once {r : Except Error α} {p : Pull} (hs : c.Sound) (hsize : c.cells.length = b.cells.length)
    (hpulls : c.pulls = p :: b.pulls) (hroom : 0 < p.room) (hbytes : p.count + c.left ≤ b.left)
    (hfailures : c.window.failures ⊆ b.window.failures) (hok : ∀ a, r = .ok a → p.Yields)
    (hend : b.Candid → ∀ e, r = .error e → e.TellsEnd → p.result = .ok 0) : b.Ran r c [p] where
  sound := hs
  size := hsize
  pulls := hpulls
  room q hq := List.mem_singleton.1 hq ▸ hroom
  earlier := nofun
  succeeded a ha q hq := List.mem_singleton.1 hq ▸ hok a ha
  ended hcandid e he htells := ⟨p.room, [], by rw [← hend hcandid e he htells]⟩
  bytes := by
    rw [Pull.total, Pull.total]
    exact hbytes
  failures := hfailures

/-- Where there are cells to fill, a call fails, finds the end of the body, or fills some. -/
theorem Sound.fill_cases (h : b.Sound) (hroom : b.window.unread.length < b.window.capacity) :
    (∃ e c calls, b.fill? = some (.error e, c) ∧ b.window.fill = (.error e, c.window) ∧
      b.Ran (.error e : Except Error Unit) c calls) ∨
    (∃ c calls, b.fill? = some (.ok 0, c) ∧ b.window.fill = (.ok 0, c.window) ∧
      ∀ e, b.Ran (.error e : Except Error Unit) c calls) ∨
    ∃ count c calls, b.fill? = some (.ok (count + 1), c) ∧ b.window.fill = (.ok (count + 1), c.window) ∧
      b.Ran (.ok ()) c calls := by
  obtain ⟨r, c, hfill, hwindow, hs, hpulls⟩ := h.fill
  have hfree : 0 < b.window.capacity - b.window.unread.length := Nat.sub_pos_of_lt hroom
  have hbytes := count_add_left_le hwindow (b.window.capacity - b.window.unread.length)
  have hsize : c.cells.length = b.cells.length := by
    have hcapacity := b.window.fill_capacity
    rw [hwindow] at hcapacity
    exact hcapacity
  have hfailures := b.window.fill_failures
  rw [hwindow] at hfailures
  rcases r with e | _ | count
  · refine .inl ⟨e, c, _, hfill, hwindow, .once hs hsize hpulls hfree hbytes hfailures nofun
      fun hcandid e' he htells => ?_⟩
    cases he
    exact absurd htells (fill_error_not_tellsEnd hwindow hcandid)
  · exact .inr (.inl ⟨c, _, hfill, hwindow, fun e => .once hs hsize hpulls hfree hbytes hfailures nofun
      fun _ _ _ _ => rfl⟩)
  · exact .inr (.inr ⟨count, c, _, hfill, hwindow, .once hs hsize hpulls hfree hbytes hfailures
      (fun _ _ => ⟨count, rfl⟩) fun _ => nofun⟩)

theorem Sound.refill_runs (h : b.Sound) (hroom : b.window.unread.length < b.window.capacity) :
    b.Runs b.refill? b.window.refill := by
  unfold refill? Window.refill
  obtain ⟨e, c, calls, hfill, hwindow, hran⟩ | ⟨c, calls, hfill, hwindow, hran⟩ |
    ⟨count, c, calls, hfill, hwindow, hran⟩ := h.fill_cases hroom
  all_goals
    rw [hfill, hwindow]
    simp only [Option.bind_eq_bind, Option.bind_some]
  · exact ⟨_, c, calls, rfl, rfl, hran⟩
  · exact ⟨_, c, calls, rfl, rfl, hran _⟩
  · exact ⟨_, c, calls, rfl, rfl, hran⟩

/-! ## Content -/

theorem Sound.advance (h : b.Sound) {count : Nat} (hcount : count ≤ b.window.unread.length) :
    ({ b with head := b.head + count } : Buffer).Sound ∧
      ({ b with head := b.head + count } : Buffer).window = b.window.pass count := by
  have hlen := h.unread_length
  have hhead := h.head
  refine ⟨⟨?_, h.tail, h.delimiter, h.room, h.start⟩, ?_⟩
  · show b.head + count ≤ b.tail
    omega
  · unfold window Window.pass
    simp only [List.drop_drop]

/-- What is at the head is read where it lies. -/
theorem Sound.slice?_front (h : b.Sound) {count : Nat} (hcount : count ≤ b.window.unread.length) :
    Cells.slice? b.cells b.head (b.head + count) = some (b.window.unread.take count) := by
  have hlen := h.unread_length
  have htail := h.tail
  have hhead := h.head
  rw [Cells.slice?_eq (Nat.le_add_right _ _) (by omega)]
  show _ = some (((b.cells.take b.tail).drop b.head).take count)
  rw [List.take_drop, List.take_take, Nat.min_eq_left (by omega)]

/-- Bytes that were passed without a call. -/
theorem Ran.passed (h : b.Sound) {count : Nat} (hcount : count ≤ b.window.unread.length)
    {r : Except Error α} (hr : Tacit r) : b.Ran r { b with head := b.head + count } [] :=
  .still (h.advance hcount).1 rfl rfl rfl hr

/-- A lap of a loop gives what the loop gives on the window, or leaves off where the loop goes on to give
that. -/
def LapRuns (b : Buffer) (step : Option (Lap σ α × Buffer)) (expected : Except Error α × Window)
    (onward : σ → Window → Except Error α × Window) : Prop :=
  (∃ r c calls, step = some (.done r, c) ∧ expected = (r, c.window) ∧ b.Ran r c calls) ∨
    ∃ state c calls, step = some (.again state, c) ∧ expected = onward state c.window ∧
      b.Ran (.ok state) c calls

namespace LapRuns

variable {expected : Except Error α × Window} {onward : σ → Window → Except Error α × Window}

theorem ne_none (h : b.LapRuns none expected onward) : False := by
  obtain ⟨_, _, _, hlap, -⟩ | ⟨_, _, _, hlap, -⟩ := h <;> cases hlap

theorem done {r : Except Error α} (h : b.LapRuns (some (.done r, c)) expected onward) :
    b.Runs (some (r, c)) expected := by
  obtain ⟨_, _, calls, hlap, hwindow, hran⟩ | ⟨_, _, _, hlap, -⟩ := h
  · cases hlap
    exact ⟨_, _, calls, rfl, hwindow, hran⟩
  · cases hlap

/-- Behind a lap the loop goes on. -/
theorem again {state : σ} {step : Option (Except Error α × Buffer)}
    (h : b.LapRuns (some (.again state, c)) expected onward)
    (hnext : c.Sound → c.Runs step (onward state c.window)) : b.Runs step expected := by
  obtain ⟨_, _, _, hlap, -⟩ | ⟨_, _, calls, hlap, hwindow, hran⟩ := h
  · cases hlap
  · cases hlap
    obtain ⟨r, d, more, hstep, hrest, hmore⟩ := hnext hran.sound
    exact ⟨r, d, _, hstep, hwindow.trans hrest, hran.trans hmore⟩

end LapRuns

/-- Without a delimiter in sight there are cells to fill. -/
theorem Sound.unread_lt (h : b.Sound) (ha : b.window.available = (0, false)) :
    b.window.unread.length < b.window.capacity :=
  Window.unread_lt_capacity h.window_room ha

theorem Sound.takeLap_runs (h : b.Sound) {room : Nat} (hroom : room ≠ 0) :
    b.LapRuns (b.takeLap? room) (b.window.take room) fun _ w => w.take room := by
  unfold takeLap?
  rw [h.available?_eq]
  simp only [Option.bind_eq_bind, Option.bind_some]
  rcases ha : b.window.available with ⟨_ | count, found⟩
  · cases found with
    | true =>
      rw [Window.take_found ha]
      exact .inl ⟨_, b, [], rfl, rfl, .still h rfl rfl rfl tacit_ok⟩
    | false =>
      obtain ⟨r, c, calls, hrefill, hwindow, hran⟩ := h.refill_runs (h.unread_lt ha)
      simp only [hrefill, Option.bind_some]
      rcases r with e | ⟨⟩
      · rw [Window.take_failed hroom ha hwindow]
        exact .inl ⟨_, c, calls, rfl, rfl, hran.failed⟩
      · rw [Window.take_refilled hroom ha hwindow]
        exact .inr ⟨(), c, calls, rfl, rfl, hran⟩
  · have hcount : min (count + 1) room ≤ b.window.unread.length :=
      Nat.le_trans (Nat.min_le_left _ _) (Window.available_le_length ha)
    simp only [h.slice?_front hcount, Option.bind_some]
    rw [Window.take_ready hroom ha]
    refine .inl ⟨_, _, [], rfl, ?_, .passed h hcount tacit_ok⟩
    rw [(h.advance hcount).2]

theorem Sound.discardLap_runs (h : b.Sound) (count : Nat) :
    b.LapRuns (b.discardLap? count) (b.window.discardFrom count) fun count w => w.discardFrom count := by
  unfold discardLap?
  rw [h.available?_eq]
  simp only [Option.bind_eq_bind, Option.bind_some]
  rcases ha : b.window.available with ⟨free, found⟩
  have hfree := Window.available_le_length ha
  obtain ⟨hs, hwindow⟩ := h.advance hfree
  cases found with
  | true =>
    rw [Window.discardFrom_found ha]
    refine .inl ⟨_, _, [], rfl, ?_, .passed h hfree tacit_ok⟩
    rw [hwindow]
  | false =>
    have hpassed : ({ b with head := b.head + free } : Buffer).window.available = (0, false) := by
      rw [hwindow]
      exact Window.available_pass_self ha
    obtain ⟨r, c, calls, hrefill, hw, hran⟩ := hs.refill_runs (hs.unread_lt hpassed)
    have hpass : b.Ran (.ok ()) { b with head := b.head + free } [] := .passed h hfree tacit_ok
    rw [hwindow] at hw
    simp only [Bool.false_eq_true, if_false, hrefill, Option.bind_some]
    rcases r with e | ⟨⟩
    · rw [Window.discardFrom_failed ha hw]
      exact .inl ⟨_, c, _, rfl, rfl, (hpass.trans hran).failed⟩
    · rw [Window.discardFrom_refilled ha hw]
      exact .inr ⟨_, c, _, rfl, rfl, (hpass.trans hran).turned tacit_ok⟩

/-- By induction on the laps. -/
theorem Sound.take_runs (h : b.Sound) (room : Nat) : b.Runs (b.take? room) (b.window.take room) := by
  fun_induction take? b room with
  | case1 b hroom =>
    subst hroom
    refine ⟨_, b, [], rfl, ?_, .still h rfl rfl rfl tacit_ok⟩
    rw [Window.take, if_pos rfl]
  | case2 b hroom hlap =>
    have hruns := h.takeLap_runs hroom
    rw [hlap] at hruns
    exact hruns.ne_none.elim
  | case3 b hroom r b' hlap =>
    have hruns := h.takeLap_runs hroom
    rw [hlap] at hruns
    exact hruns.done
  | case4 b hroom b' hlap _ ih =>
    have hruns := h.takeLap_runs hroom
    rw [hlap] at hruns
    exact hruns.again ih

theorem Sound.discardFrom_runs (h : b.Sound) (count : Nat) :
    b.Runs (discardFrom? count b) (b.window.discardFrom count) := by
  fun_induction discardFrom? count b with
  | case1 count b hlap =>
    have hruns := h.discardLap_runs count
    rw [hlap] at hruns
    exact hruns.ne_none.elim
  | case2 count b r b' hlap =>
    have hruns := h.discardLap_runs count
    rw [hlap] at hruns
    exact hruns.done
  | case3 count b count' b' hlap _ ih =>
    have hruns := h.discardLap_runs count
    rw [hlap] at hruns
    exact hruns.again ih

theorem Sound.discard_runs (h : b.Sound) : b.Runs b.discard? b.window.discard :=
  h.discardFrom_runs 0

/-! ## Single bytes -/

/-- The byte at the head is the next one of the window. -/
theorem Sound.front (h : b.Sound) {byte : UInt8} {rest : Bytes} (hu : b.window.unread = byte :: rest) :
    ∃ c, b.front? = some (.ok byte, c) ∧ c.window = { b.window with unread := rest } ∧
      b.Ran (.ok byte) c [] := by
  have hcount : 1 ≤ b.window.unread.length := by
    rw [hu]
    exact Nat.succ_le_succ (Nat.zero_le _)
  have hbyte : b.cells[b.head]? = some byte := by
    have hlen := h.unread_length
    have hfirst : ((b.cells.take b.tail).drop b.head)[0]? = some byte := congrArg (·[0]?) hu
    rw [List.getElem?_drop, List.getElem?_take_of_lt (by omega)] at hfirst
    exact hfirst
  refine ⟨_, by rw [front?, hbyte]; rfl, ?_, .passed h hcount tacit_ok⟩
  rw [(h.advance hcount).2, Window.pass, hu]
  rfl

theorem fill_unread_length {w v : Window} {count : Nat} (h : w.fill = (.ok count, v)) :
    v.unread.length = w.unread.length + count := by
  unfold Window.fill at h
  split at h
  · cases h
  · cases h
    rw [List.length_append]

theorem Sound.readByte_runs (h : b.Sound) : b.Runs b.readByte? b.window.readByte := by
  have hlen := h.unread_length
  have hhead := h.head
  unfold readByte? Window.readByte
  by_cases hempty : b.head = b.tail
  · have hunread : b.window.unread = [] := List.eq_nil_of_length_eq_zero (by omega)
    have hroom : b.window.unread.length < b.window.capacity := by
      have := h.window_room
      rw [hunread, List.length_nil]
      omega
    rw [if_pos hempty, hunread]
    simp only
    obtain ⟨e, c, calls, hfill, hwindow, hran⟩ | ⟨c, calls, hfill, hwindow, hran⟩ |
      ⟨count, c, calls, hfill, hwindow, hran⟩ := h.fill_cases hroom
    · rw [hfill, hwindow]
      exact ⟨_, c, calls, rfl, rfl, hran.failed⟩
    · have hnone : c.window.unread = [] := by
        have := fill_unread_length hwindow
        rw [hunread, List.length_nil] at this
        exact List.eq_nil_of_length_eq_zero this
      rw [hfill, hwindow]
      simp only [Option.bind_eq_bind, Option.bind_some, hnone]
      exact ⟨_, c, calls, rfl, rfl, (hran _).failed⟩
    · have hsome := fill_unread_length hwindow
      rcases hu : c.window.unread with _ | ⟨byte, rest⟩
      · rw [hu, hunread, List.length_nil] at hsome
        omega
      · obtain ⟨d, hfront, hd, hstill⟩ := hran.sound.front hu
        rw [hfill, hwindow]
        simp only [Option.bind_eq_bind, Option.bind_some, hu, hfront]
        exact ⟨_, d, _, rfl, by rw [hd], hran.trans hstill⟩
  · rw [if_neg hempty]
    rcases hu : b.window.unread with _ | ⟨byte, rest⟩
    · rw [hu, List.length_nil] at hlen
      omega
    · obtain ⟨c, hfront, hwindow, hran⟩ := h.front hu
      exact ⟨_, c, [], hfront, by rw [hwindow], hran⟩

theorem Sound.headerLap_runs (h : b.Sound) (limit : Nat) (ending : Window.Ending) (count : Nat)
    (block : Bytes) :
    b.LapRuns (b.headerLap? limit ending count block) (b.window.readBlockFrom limit ending count block)
      fun state w => w.readBlockFrom limit state.1 state.2.1 state.2.2 := by
  unfold headerLap?
  by_cases hcomplete : ending = .complete
  · rw [if_pos hcomplete, Window.readBlockFrom, if_pos hcomplete]
    exact .inl ⟨_, b, [], rfl, rfl, .still h rfl rfl rfl tacit_ok⟩
  · obtain ⟨r, c, calls, hbyte, hwindow, hran⟩ := h.readByte_runs
    rw [if_neg hcomplete]
    simp only [hbyte, Option.bind_eq_bind, Option.bind_some]
    rcases r with e | byte
    · rw [Window.readBlockFrom_failed hcomplete hwindow]
      exact .inl ⟨_, c, calls, rfl, rfl, hran.failed⟩
    · rw [Window.readBlockFrom_byte hcomplete hwindow]
      simp only
      by_cases hlimit : limit ≤ count
      · rw [if_pos hlimit, if_pos hlimit]
        exact .inl ⟨_, c, calls, rfl, rfl, hran.turned (tacit_error id)⟩
      · rw [if_neg hlimit, if_neg hlimit]
        exact .inr ⟨_, c, calls, rfl, rfl, hran.turned tacit_ok⟩

theorem Sound.readBlockFrom_runs (limit : Nat) (ending : Window.Ending) (count : Nat) (block : Bytes)
    (h : b.Sound) :
    b.Runs (readBlockFrom? limit ending count block b) (b.window.readBlockFrom limit ending count block) := by
  fun_induction readBlockFrom? limit ending count block b with
  | case1 ending count block b hlap =>
    have hruns := h.headerLap_runs limit ending count block
    rw [hlap] at hruns
    exact hruns.ne_none.elim
  | case2 ending count block b r b' hlap =>
    have hruns := h.headerLap_runs limit ending count block
    rw [hlap] at hruns
    exact hruns.done
  | case3 ending count block b ending' count' block' b' hlap _ ih =>
    have hruns := h.headerLap_runs limit ending count block
    rw [hlap] at hruns
    exact hruns.again ih

theorem Sound.readHeaderBlock_runs (h : b.Sound) (limit : Nat) :
    b.Runs (b.readHeaderBlock? limit) (b.window.readHeaderBlock limit) :=
  h.readBlockFrom_runs limit .crlf 0 []

/-! ## Delimiters -/

/-- A step behind another that succeeded. -/
theorem Ran.onward {a : α} {calls : List Pull} {step : Option (Except Error β × Buffer)}
    {expected : Except Error β × Window} (h : b.Ran (.ok a) c calls) (hc : c.Runs step expected) :
    b.Runs step expected := by
  obtain ⟨r, d, more, hstep, hwindow, hran⟩ := hc
  exact ⟨r, d, _, hstep, hwindow, h.trans hran⟩

/-- What the window reads of a delimiter behind it. -/
theorem Sound.closing_runs (h : b.Sound) :
    b.Runs b.closing? (match b.window.readByte with
      | (.error e, w) => (.error e, w)
      | (.ok first, w) => w.afterFirst first) := by
  obtain ⟨r, c, calls, hfirst, hwindow, hran⟩ := h.readByte_runs
  unfold closing?
  rw [hwindow]
  simp only [hfirst, Option.bind_eq_bind, Option.bind_some]
  rcases r with e | first
  · exact ⟨_, c, calls, rfl, rfl, hran.failed⟩
  · refine hran.onward ?_
    obtain ⟨r, d, more, hsecond, hwindow', hran'⟩ := hran.sound.readByte_runs
    simp only [Window.afterFirst, hwindow', hsecond, Option.bind_some]
    rcases r with e | second
    · exact ⟨_, d, more, rfl, rfl, hran'.failed⟩
    · have hs := hran'.sound
      have hclosed (isClosed : Bool) : ({ d with isClosed } : Buffer).Sound :=
        ⟨hs.head, hs.tail, hs.delimiter, hs.room, hs.start⟩
      simp only
      split
      · exact ⟨_, _, _, rfl, rfl, hran'.trans (.still (hclosed false) rfl rfl rfl tacit_ok)⟩
      · split
        · exact ⟨_, _, _, rfl, rfl, hran'.trans (.still (hclosed true) rfl rfl rfl tacit_ok)⟩
        · exact ⟨_, d, more, rfl, rfl, hran'.turned (tacit_error id)⟩

theorem Sound.readDelimiter_runs (h : b.Sound) : b.Runs b.readDelimiter? b.window.readDelimiter := by
  unfold readDelimiter?
  rw [h.unread?_eq, h.pattern?_eq, Window.readDelimiter_eq]
  simp only [Option.bind_eq_bind, Option.bind_some]
  by_cases hat : b.window.pattern.isPrefixOf b.window.unread
  · have hcount : b.window.pattern.length ≤ b.window.unread.length :=
      (List.isPrefixOf_iff_prefix.1 hat).length_le
    obtain ⟨hs, hwindow⟩ := h.advance hcount
    have hclosing := hs.closing_runs
    rw [hwindow] at hclosing
    have hpass : b.Ran (.ok ()) { b with head := b.head + b.window.pattern.length } [] :=
      .passed h hcount tacit_ok
    rw [if_pos hat, if_pos hat]
    exact hpass.onward hclosing
  · rw [if_neg hat, if_neg hat]
    exact ⟨_, b, [], rfl, rfl, .still h rfl rfl rfl (tacit_error id)⟩

theorem Sound.withStart (h : b.Sound) {start : Nat} (hstart : start = 0 ∨ start = 2) :
    ({ b with start } : Buffer).Sound :=
  ⟨h.head, h.tail, h.delimiter, h.room, hstart⟩

/-- What is looked for may change before an operation and behind it. -/
theorem Ran.withStart {r : Except Error α} {calls : List Pull} {start : Nat}
    (h : ({ b with start } : Buffer).Ran r c calls) : b.Ran r { c with start := 0 } calls :=
  { h with sound := h.sound.withStart (.inl rfl) }

theorem Sound.boundary_slice (h : b.Sound) :
    Cells.slice? b.delimiter 4 b.delimiter.length = some b.window.boundary := by
  have := h.delimiter_length
  exact Cells.slice?_rest (by omega)

theorem Sound.findFirst_runs (h : b.Sound) : b.Runs b.findFirst? b.window.findFirst := by
  have hs := h.withStart (.inr rfl)
  obtain ⟨r, c, calls, hdiscard, hwindow, hran⟩ := hs.discard_runs
  unfold findFirst? Window.findFirst
  rw [show ({ b.window with atStart := true } : Window) = ({ b with start := 2 } : Buffer).window from rfl]
  simp only [hdiscard, hwindow, Option.bind_eq_bind, Option.bind_some]
  rcases r with e | count
  · have hreading := Window.discard_error_isOfReading hwindow
    rcases e with _ | _ | fault | _ | _ | _ | _ | _ | _ | _ | _ | _ | _
    case malformed =>
      simp only [hran.sound.boundary_slice, Option.bind_some]
      refine ⟨_, _, calls, rfl, rfl, (hran.retold fun hcandid _ => ?_).withStart⟩
      -- the only fault that reading on finds by itself is the end of the body
      cases hreading with
      | raised hraised => exact absurd hraised (hcandid fault)
      | ended => trivial
    all_goals exact ⟨_, _, calls, rfl, rfl, hran.failed.withStart⟩
  · obtain ⟨r, d, more, hread, hw, hran'⟩ := hran.sound.readDelimiter_runs
    simp only [hread, hw, Option.bind_some]
    exact ⟨r, _, _, rfl, rfl, (hran.trans hran').withStart⟩

theorem Sound.setBoundary_runs (h : b.Sound) (boundary : Bytes) :
    b.Runs (some (b.setBoundary boundary)) (b.window.setBoundary boundary) := by
  unfold setBoundary Window.setBoundary
  rw [show b.window.capacity = b.cells.length from rfl]
  cases hc : Window.checkBoundary boundary b.cells.length with
  | error e =>
    refine ⟨_, b, [], rfl, rfl, .still h rfl rfl rfl (tacit_error ?_)⟩
    unfold Window.checkBoundary at hc
    split at hc
    · cases hc
      exact id
    · split at hc
      · cases hc
        exact id
      · cases hc
  | ok _ =>
    have hroom := (Window.checkBoundary_ok_iff.1 hc).2
    exact ⟨_, _, [], rfl, rfl, .still ⟨h.head, h.tail, rfl, hroom, h.start⟩ rfl rfl rfl tacit_ok⟩

/-! ## One operation after the other -/

end Buffer

namespace Window

/-- What an operation that succeeds gives. -/
inductive Outcome where
  | delimiter (more : Bool)
  | content (bytes : Bytes)
  | passed (count : Nat)
  | boundarySet
  | headerBlock (bytes : Bytes)
  deriving DecidableEq, Repr

def perform (w : Window) : Op → Except Error Outcome × Window
  | .findFirst => w.findFirst.map (.map .delimiter) id
  | .readDelimiter => w.readDelimiter.map (.map .delimiter) id
  | .take room => (w.take room).map (.map .content) id
  | .discard => w.discard.map (.map .passed) id
  | .setBoundary boundary => (w.setBoundary boundary).map (.map fun () => .boundarySet) id
  | .readHeaderBlock limit => (w.readHeaderBlock limit).map (.map .headerBlock) id

/-- What the operations give, and the window behind them. -/
def performAll (w : Window) : List Op → List (Except Error Outcome) × Window
  | [] => ([], w)
  | op :: ops =>
    let (outcome, w) := w.perform op
    let (outcomes, w) := w.performAll ops
    (outcome :: outcomes, w)

end Window

namespace Buffer

open Window (Op Outcome)

variable {b : Buffer} {α β : Type}

def perform? (b : Buffer) : Op → Option (Except Error Outcome × Buffer)
  | .findFirst => b.findFirst?.map (Prod.map (.map .delimiter) id)
  | .readDelimiter => b.readDelimiter?.map (Prod.map (.map .delimiter) id)
  | .take room => (b.take? room).map (Prod.map (.map .content) id)
  | .discard => b.discard?.map (Prod.map (.map .passed) id)
  | .setBoundary boundary => some ((b.setBoundary boundary).map (.map fun () => .boundarySet) id)
  | .readHeaderBlock limit => (b.readHeaderBlock? limit).map (Prod.map (.map .headerBlock) id)

def performAll? (b : Buffer) : List Op → Option (List (Except Error Outcome) × Buffer)
  | [] => some ([], b)
  | op :: ops => do
    let (outcome, b) ← b.perform? op
    let (outcomes, b) ← b.performAll? ops
    some (outcome :: outcomes, b)

theorem Runs.map {step : Option (Except Error α × Buffer)} {expected : Except Error α × Window}
    (h : b.Runs step expected) (f : α → β) :
    b.Runs (step.map (Prod.map (.map f) id)) (expected.map (.map f) id) := by
  obtain ⟨r, c, calls, rfl, rfl, hran⟩ := h
  refine ⟨_, c, calls, rfl, rfl, ?_⟩
  rcases r with e | a
  · exact hran.failed
  · exact hran.turned tacit_ok

theorem Sound.perform_runs (h : b.Sound) (op : Op) : b.Runs (b.perform? op) (b.window.perform op) := by
  cases op with
  | findFirst => exact h.findFirst_runs.map _
  | readDelimiter => exact h.readDelimiter_runs.map _
  | take room => exact (h.take_runs room).map _
  | discard => exact h.discard_runs.map _
  | setBoundary boundary => exact (h.setBoundary_runs boundary).map _
  | readHeaderBlock limit => exact (h.readHeaderBlock_runs limit).map _

/-- By induction on the operations. -/
theorem Sound.performAll_runs (h : b.Sound) (ops : List Op) :
    ∃ outcomes c calls, b.performAll? ops = some (outcomes, c) ∧
      b.window.performAll ops = (outcomes, c.window) ∧ c.Sound ∧ c.cells.length = b.cells.length ∧
      c.pulls = calls ++ b.pulls ∧ ∀ p ∈ calls, 0 < p.room := by
  induction ops generalizing b with
  | nil => exact ⟨[], b, [], rfl, rfl, h, rfl, rfl, nofun⟩
  | cons op ops ih =>
    obtain ⟨outcome, c, calls, hop, hwindow, hran⟩ := h.perform_runs op
    obtain ⟨outcomes, d, more, hops, hwindows, hs, hsize, hpulls, hroom⟩ := ih hran.sound
    refine ⟨outcome :: outcomes, d, more ++ calls, ?_, ?_, hs, hsize.trans hran.size, ?_, ?_⟩
    · simp only [performAll?, hop, Option.bind_eq_bind, Option.bind_some, hops]
    · simp only [Window.performAll, hwindow, hwindows]
    · rw [hpulls, hran.pulls, List.append_assoc]
    · intro p hp
      rcases List.mem_append.1 hp with hp | hp
      · exact hroom p hp
      · exact hran.room p hp

/-- Where a loop over content goes on, a call to the source has filled some cells. A loop over single bytes
calls the source where the cells hold none, and goes on with the byte at the head else. -/
structure Onward (b : Buffer) : Prop where
  take : ∀ {room c}, b.takeLap? room = some (.again (), c) → ∃ count, b.Pulled c (count + 1)
  discard : ∀ {count count' c}, b.discardLap? count = some (.again count', c) →
    ∃ count, b.Pulled c (count + 1)
  readHeaderBlock : ∀ {limit ending count block state c},
    b.headerLap? limit ending count block = some (.again state, c) →
    (b.head = b.tail ∧ ∃ count, b.Pulled c (count + 1)) ∨
      b.head ≠ b.tail ∧ b.head < b.cells.length ∧ c = { b with head := b.head + 1 }

theorem onward (b : Buffer) : b.Onward where
  take := takeLap?_pulled
  discard := discardLap?_pulled
  readHeaderBlock := headerLap?_pulled

/-- With more cells than a delimiter has bytes, a buffer opens. Whatever operations it goes through, each
gives what it gives on the window; the marks stay in order and in range, and the source is only called with
cells to fill. So it is whatever comes next, which ends, after at most one more call than there are bytes
left, and tells the end of the body only after a call that had cells to fill and filled none, if the source
does not raise such errors itself (`Ran`). -/
theorem operations_in_range (feed : Feed) (boundary : Bytes) (size : Nat) (hne : boundary ≠ [])
    (hroom : boundary.length + 4 < size) :
    (∃ b₀, open? feed boundary size = .ok b₀ ∧ Window.open? feed boundary size = .ok b₀.window ∧
      ∀ ops : List Op, ∃ outcomes b, b₀.performAll? ops = some (outcomes, b) ∧
        b₀.window.performAll ops = (outcomes, b.window) ∧
        b.head ≤ b.tail ∧ b.tail ≤ b.cells.length ∧ b.cells.length = size ∧
        (∀ p ∈ b.pulls, 0 < p.room) ∧
        ∀ op, ∃ outcome c calls, b.perform? op = some (outcome, c) ∧
          b.window.perform op = (outcome, c.window) ∧ b.Ran outcome c calls ∧
          calls.length + c.left ≤ b.left + 1) ∧
    ∀ b : Buffer, b.Onward := by
  have hfits := Window.checkBoundary_ok_iff.2 ⟨hne, hroom⟩
  have hopen : ∃ b₀, open? feed boundary size = .ok b₀ ∧
      Window.open? feed boundary size = .ok b₀.window := by
    unfold open? Window.open?
    rw [hfits]
    refine ⟨_, rfl, congrArg Except.ok ?_⟩
    unfold window
    simp only [List.length_replicate]
    rfl
  obtain ⟨b₀, hb₀, hwindow₀⟩ := hopen
  refine ⟨⟨b₀, hb₀, hwindow₀, fun ops => ?_⟩, onward⟩
  obtain ⟨hs₀, hsize₀, hpulls₀⟩ := open?_sound hb₀
  obtain ⟨outcomes, b, calls, hops, hwindow, hs, hsize, hpulls, hcalls⟩ := hs₀.performAll_runs ops
  refine ⟨outcomes, b, hops, hwindow, hs.head, hs.tail, hsize.trans hsize₀, ?_, fun op => ?_⟩
  · rw [hpulls, hpulls₀, List.append_nil]
    exact hcalls
  · obtain ⟨outcome, c, more, hop, hw, hran⟩ := hs.perform_runs op
    exact ⟨outcome, c, more, hop, hw, hran, hran.calls_le⟩

/-- A buffer with one cell more than its delimiter has bytes, filled byte by byte, through failures and
another boundary to the end of the body and past it. -/
theorem operations_in_range_tight :
    let ops : List Op := [.readDelimiter, .findFirst, .setBoundary [89], .readHeaderBlock 1,
      .setBoundary [88, 89], .take 4, .discard, .readDelimiter, .discard]
    ∃ b₀ outcomes b, open? { source := Window.falseStarts } [88, 89] 7 = .ok b₀ ∧
      b₀.performAll? ops = some (outcomes, b) ∧
      outcomes.map (·.toOption) = [none, some (.delimiter true), some .boundarySet, none, some .boundarySet,
        some (.content [13]), some (.passed 12), some (.delimiter false), none] ∧
      b.head ≤ b.tail ∧ b.tail ≤ 7 ∧ ∀ p ∈ b.pulls, 0 < p.room := by
  intro ops
  obtain ⟨⟨b₀, hopen, -, hruns⟩, -⟩ :=
    operations_in_range { source := Window.falseStarts } [88, 89] 7 (by decide) (by decide)
  obtain ⟨outcomes, b, hops, hwindow, hhead, htail, hsize, hpulls, -⟩ := hruns ops
  refine ⟨b₀, outcomes, b, hopen, hops, ?_, hhead, hsize ▸ htail, hpulls⟩
  have houtcomes : _ = outcomes := congrArg Prod.fst hwindow
  rw [← houtcomes]
  cases hopen
  decide +kernel

end Buffer

end FormData
