/-
Reads that fail and are made again. A read that fails takes nothing out of the window, and unless the
body has ended it uses up one of the failures that the source has in store (`Source.read_progress`).
So reads that are repeated as often as they must be hand out what a source without failures delivers,
and find the delimiter where that one does (`Recovering.takeAll_resumes`).
-/
import FormData.Proofs.Body.Runs
import FormData.Proofs.Session.Reads

namespace FormData

/-! ## Failures in store -/

/-- How many reads of these segments fail or come back empty. -/
def Transport.stumbles (segments : List Segment) : Nat :=
  segments.countP fun
    | .data bytes => bytes.isEmpty
    | .interruption => false
    | .failure _ => true

def Source.stumbles (s : Source) : Nat :=
  Transport.stumbles s.transport.segments

theorem Transport.stumbles_keep (bytes : Bytes) (rest : List Segment) :
    stumbles (keep bytes rest) = stumbles rest := by
  unfold keep stumbles
  split
  · rfl
  · rename_i hne
    rw [List.countP_cons_of_neg (by simpa using hne)]

/-- A read that delivers nothing uses up a failure, unless nothing is left to deliver. -/
theorem Transport.readFrom_progress (t : Transport) {room : Nat} (hroom : 0 < room)
    (hpace : t.pace ≠ some 0) (segments : List Segment) :
    stumbles (t.readFrom room segments).2 ≤ stumbles segments ∧
      (Source.delivered (t.readFrom room segments).1 = [] →
        stumbles (t.readFrom room segments).2 < stumbles segments ∨ content segments = []) := by
  induction segments with
  | nil => exact ⟨Nat.le_refl _, fun _ => .inr rfl⟩
  | cons segment rest ih =>
    cases segment with
    | interruption =>
      rw [readFrom]
      simpa [stumbles, content] using ih
    | failure error =>
      have hone : stumbles (.failure error :: rest) = stumbles rest + 1 := by simp [stumbles]
      rw [readFrom, hone]
      exact ⟨Nat.le_succ _, fun _ => .inl (Nat.lt_succ_self _)⟩
    | data bytes =>
      by_cases hempty : bytes.isEmpty
      · have hone : stumbles (.data bytes :: rest) = stumbles rest + 1 := by simp [stumbles, hempty]
        rw [readFrom, if_pos hempty, hone]
        exact ⟨Nat.le_succ _, fun _ => .inl (Nat.lt_succ_self _)⟩
      · have hnone : stumbles (.data bytes :: rest) = stumbles rest := by simp [stumbles, hempty]
        have hne : bytes ≠ [] := by simpa using hempty
        rw [readFrom, if_neg hempty, hnone]
        refine ⟨Nat.le_of_eq (stumbles_keep _ _), ?_⟩
        intro hnil
        exact absurd hnil (t.take_paced_ne_nil hroom hpace hne)

namespace Source

/-- A read goes to the transport, or to a block read ahead of it now, or to what was read ahead before. -/
theorem read_eq (s : Source) (room : Nat) :
    (s.buffered = [] ∧ s.read room = s.readThrough room) ∨
    (s.buffered = [] ∧ room < s.readAhead ∧
      s.read room = ((s.readThrough s.readAhead).1.map (·.take room),
        { (s.readThrough s.readAhead).2 with
          buffered := (delivered (s.readThrough s.readAhead).1).drop room })) ∨
    (s.buffered ≠ [] ∧
      s.read room = (.ok (s.buffered.take room), { s with buffered := s.buffered.drop room })) := by
  by_cases hbuffered : s.buffered.isEmpty
  · have hnil := List.isEmpty_iff.1 hbuffered
    by_cases hle : s.readAhead ≤ room
    · exact .inl ⟨hnil, by rw [read, if_pos ⟨hbuffered, hle⟩]⟩
    · refine .inr (.inl ⟨hnil, Nat.lt_of_not_le hle, ?_⟩)
      have hkept : (s.readThrough s.readAhead).2.buffered = [] := hnil
      rw [read, if_neg fun h => hle h.2, fillBuffer, if_pos hbuffered]
      rcases hr : s.readThrough s.readAhead with ⟨e | bytes, s'⟩
      · rw [hr] at hkept
        simp only [delivered, List.drop_nil, Except.map]
        rw [← hkept]
      · rfl
  · refine .inr (.inr ⟨fun hnil => hbuffered (List.isEmpty_iff.2 hnil), ?_⟩)
    rw [read, if_neg fun h => hbuffered h.1, fillBuffer, if_neg hbuffered]

theorem readThrough_progress (s : Source) {room : Nat} (hroom : 0 < room)
    (hpace : s.transport.pace ≠ some 0) :
    (s.readThrough room).2.stumbles ≤ s.stumbles ∧
      (delivered (s.readThrough room).1 = [] →
        (s.readThrough room).2.stumbles < s.stumbles ∨ s.transport.pending = []) :=
  s.transport.readFrom_progress hroom hpace s.transport.segments

theorem read_pace (s : Source) (room : Nat) :
    (s.read room).2.transport.pace = s.transport.pace := by
  obtain ⟨-, hr⟩ | ⟨-, -, hr⟩ | ⟨-, hr⟩ := s.read_eq room
  · rw [hr]
    rfl
  · rw [hr]
    rfl
  · rw [hr]

/-- A read with room that delivers nothing uses up a failure, unless nothing is pending. -/
theorem read_progress (s : Source) {room : Nat} (hroom : 0 < room)
    (hpace : s.transport.pace ≠ some 0) :
    (s.read room).2.stumbles ≤ s.stumbles ∧
      (delivered (s.read room).1 = [] →
        (s.read room).2.stumbles < s.stumbles ∨ s.pending = []) := by
  obtain ⟨hnil, hr⟩ | ⟨hnil, hlt, hr⟩ | ⟨hne, hr⟩ := s.read_eq room
  · have h := s.readThrough_progress hroom hpace
    rw [hr, pending, hnil, List.nil_append]
    exact h
  · have hahead : 0 < s.readAhead := by omega
    have h := s.readThrough_progress hahead hpace
    rw [hr, pending, hnil, List.nil_append]
    refine ⟨h.1, ?_⟩
    intro hnone
    apply h.2
    rcases hread : (s.readThrough s.readAhead).1 with e | bytes
    · rfl
    · -- what was read ahead is handed out in part, and some of it if there is any
      rw [hread] at hnone
      rcases List.take_eq_nil_iff.1 hnone with h0 | h0
      · omega
      · exact h0
  · rw [hr]
    refine ⟨Nat.le_refl _, ?_⟩
    intro hnone
    rcases List.take_eq_nil_iff.1 hnone with h0 | h0
    · omega
    · exact absurd h0 hne

end Source

/-! ## Reading on in spite of failures -/

/-- Without a limit on the request a read of a feed is a read of its source. -/
theorem Feed.read_unlimited {f : Feed} (hlimit : f.account.maxRequestSize = none)
    (hspent : f.account.overrun = none) (room : Nat) :
    (f.read room).1 = (f.source.read room).1.mapError .ofIo ∧
      (f.read room).2.source = (f.source.read room).2 := by
  unfold Feed.read
  simp only [hspent]
  rcases f.source.read room with ⟨e | bytes, s⟩
  · exact ⟨rfl, rfl⟩
  · simp only
    split
    · rename_i hempty
      rw [List.isEmpty_iff.1 hempty]
      exact ⟨rfl, rfl⟩
    · obtain ⟨hc, -⟩ | ⟨limit, hl, -, -⟩ := f.account.countBytes_cases bytes.length
      · rw [hc]
        exact ⟨rfl, rfl⟩
      · cases hlimit.symm.trans hl

namespace Window

/-- How many reads of the source of a window fail or come back empty. -/
def stumbles (w : Window) : Nat :=
  w.feed.source.stumbles

/-- However often its source fails, it goes on afterwards. -/
structure Recovering (w : Window) : Prop where
  room : w.boundary.length + 4 < w.capacity
  unmetered : w.Unmetered
  pace : w.feed.source.transport.pace ≠ some 0

variable {w w' : Window} {room : Nat}

/-- A refill loses nothing. Where it fails a failure is used up, unless nothing is left to deliver. -/
theorem Recovering.refill (h : w.Recovering) (hroom : w.unread.length < w.capacity) :
    w.refill.2.Recovering ∧ w.refill.2.pending = w.pending ∧ w.refill.2.stumbles ≤ w.stumbles ∧
      ∀ e, w.refill.1 = .error e →
        w.refill.2.stumbles < w.stumbles ∨ w.feed.source.pending = [] := by
  have hfree : 0 < w.capacity - w.unread.length := by omega
  obtain ⟨hread, hsource⟩ :=
    w.feed.read_unlimited h.unmetered.unlimited h.unmetered.unspent (w.capacity - w.unread.length)
  obtain ⟨hle, hnone⟩ := w.feed.source.read_progress hfree h.pace
  have hpace := w.feed.source.read_pace (w.capacity - w.unread.length)
  rw [← hsource] at hle hnone hpace
  have hfeed : w.refill.2.feed = (w.feed.read (w.capacity - w.unread.length)).2 := by
    rw [refill_eq_fill]
    unfold fill
    rcases w.feed.read (w.capacity - w.unread.length) with ⟨e | bytes, feed⟩
    · rfl
    · rfl
  have hsame := w.refill_sameSearch
  refine ⟨⟨?_, ?_, ?_⟩, ?_, ?_, ?_⟩
  · rw [hsame.boundary, hsame.capacity]
    exact h.room
  · exact h.unmetered.moves w.refill_scanned.moves
  · rw [hfeed, hpace]
    exact h.pace
  · rw [refill_eq_fill]
    exact h.unmetered.fill_pending
  · rw [stumbles, hfeed]
    exact hle
  · intro e he
    rw [stumbles, hfeed]
    apply hnone
    -- a refill fails only when its read delivers nothing
    unfold Window.refill fill at he
    rcases hfeed : w.feed.read (w.capacity - w.unread.length) with ⟨r, feed⟩
    rw [hfeed] at hread he
    rcases hs : (w.feed.source.read (w.capacity - w.unread.length)).1 with e' | _ | ⟨b, bytes⟩
    · rfl
    · rfl
    · rw [hs] at hread
      cases hread
      cases he

/-- What one read does: it hands out content, or finds the delimiter, or fails without a loss, which
uses up a failure or happens behind all content. -/
inductive Takes (w : Window) : Except Error Bytes × Window → Prop
  | piece {b : UInt8} {bytes : Bytes} {w' : Window} :
    bytes.length < w.ahead.1 → Takes w (.ok (b :: bytes), w')
  | delimiter {w' : Window} : w.ahead = (0, true) → w'.AtDelimiter → Takes w (.ok [], w')
  | stumble {e : Error} {w' : Window} : w'.stumbles < w.stumbles → Takes w (.error e, w')
  | ended {e : Error} {w' : Window} : w.ahead = (0, false) → Takes w (.error e, w')

/-- A read that comes after a refill. -/
theorem Takes.refilled {x : Except Error Bytes × Window} (h : w'.Takes x)
    (hahead : w'.ahead = w.ahead) (hle : w'.stumbles ≤ w.stumbles) : w.Takes x := by
  cases h with
  | piece hlen => exact .piece (hahead ▸ hlen)
  | delimiter h0 hat => exact .delimiter (hahead ▸ h0) hat
  | stumble hlt => exact .stumble (Nat.lt_of_lt_of_le hlt hle)
  | ended h0 => exact .ended (hahead ▸ h0)

theorem Recovering.take (h : w.Recovering) (hroom : 0 < room) :
    w.Takes (w.take room) ∧ (w.take room).2.Recovering ∧
      (w.take room).2.stumbles ≤ w.stumbles := by
  fun_induction Window.take w room with
  | case1 => omega
  | case2 w hr n found ha =>
    have hle := le_unread_of_available ha
    have hahead := le_ahead_of_available ha
    refine ⟨?_, ⟨h.room, ⟨h.unmetered.unlimited, h.unmetered.unspent⟩, h.pace⟩, Nat.le_refl _⟩
    rcases ht : w.unread.take (min (n + 1) room) with _ | ⟨b, bytes⟩
    · rcases List.take_eq_nil_iff.1 ht with h0 | h0
      · omega
      · rw [h0] at hle
        simp at hle
    · apply Takes.piece
      have hlen := congrArg List.length ht
      rw [List.length_take, List.length_cons] at hlen
      omega
  | case3 w hr ha =>
    have hat : w.AtDelimiter := Bytes.prefix_of_locate? (Bytes.before_eq_true_iff.1 ha)
    exact ⟨.delimiter (ahead_of_available ha) hat, h, Nat.le_refl _⟩
  | case4 w hr ha e w' hf =>
    obtain ⟨hrecovering, -, hle, hfailed⟩ := h.refill (unread_lt_capacity h.room ha)
    rw [hf] at hrecovering hle hfailed
    refine ⟨?_, hrecovering, hle⟩
    obtain hlt | hend := hfailed e rfl
    · exact .stumble hlt
    · -- what was held back for a delimiter is all that is left, and holds none
      exact .ended ((ahead_of_ended hend).trans ha)
  | case5 w hr ha w' hf _ ih =>
    obtain ⟨hrecovering, hp, hle, -⟩ := h.refill (unread_lt_capacity h.room ha)
    have hsame := w.refill_sameSearch
    rw [hf] at hrecovering hp hle hsame
    obtain ⟨htakes, hrecovering', hle'⟩ := ih hrecovering
    exact ⟨htakes.refilled (ahead_congr hsame hp) hle, hrecovering', Nat.le_trans hle' hle⟩

/-! ## One read after the other, failures included -/

theorem AtDelimiter.available (h : w.AtDelimiter) : w.available = (0, true) := by
  refine Bytes.before_eq_true_iff.2 ((Bytes.locate?_eq_some_iff _ _ _).2 ⟨Nat.zero_le _, h, ?_⟩)
  intro j hj
  exact absurd hj (Nat.not_lt_zero j)

/-- In front of a delimiter reads hand out nothing, and leave it there. -/
theorem AtDelimiter.takeAll (h : w.AtDelimiter) (rooms : List Nat) :
    w.takeAll rooms = (rooms.map fun _ => .ok [], w) := by
  induction rooms with
  | nil => rfl
  | cons room rooms ih => exact takeAll_cons (take_found h.available room) ih

open OpenPart (handedOut)

/-- What these reads do where `n` bytes of content are ahead: those that succeed hand out a front of
it, all of it if they outnumber its bytes and the failures in store, and an empty answer stands for the
delimiter. -/
structure Resumes (w : Window) (n : Nat) (found : Bool) (rooms : List Nat) : Prop where
  front : w.pending = handedOut (w.takeAll rooms).1 ++ (w.takeAll rooms).2.pending
  within : (handedOut (w.takeAll rooms).1).length ≤ n
  delimiter : .ok [] ∈ (w.takeAll rooms).1 →
    found = true ∧ (handedOut (w.takeAll rooms).1).length = n ∧ (w.takeAll rooms).2.AtDelimiter
  complete : n + w.stumbles < rooms.length →
    (handedOut (w.takeAll rooms).1).length = n ∧ (found = true → .ok [] ∈ (w.takeAll rooms).1)

namespace Resumes

variable {w₁ : Window} {n : Nat} {found : Bool} {rooms : List Nat}

/-- A read that hands something out, and what comes behind it. -/
theorem piece {bytes : Bytes} (h : w₁.Resumes (n - bytes.length) found rooms)
    (ht : w.take room = (.ok bytes, w₁)) (hne : bytes ≠ []) (hlen : bytes.length ≤ n)
    (hle : w₁.stumbles ≤ w.stumbles) : w.Resumes n found (room :: rooms) := by
  have hpos := List.length_pos_iff.2 hne
  constructor <;> simp only [Window.takeAll, ht, OpenPart.handedOut_ok, List.length_append,
    List.length_cons, List.mem_cons, Except.ok.injEq]
  · rw [take_ok ht, List.append_assoc, ← h.front]
  · have hwithin := h.within
    omega
  · rintro (hnil | hmem)
    · exact absurd hnil.symm hne
    · obtain ⟨hf, hall, hat⟩ := h.delimiter hmem
      exact ⟨hf, by omega, hat⟩
  · intro hlt
    obtain ⟨hall, hfound⟩ := h.complete (by omega)
    exact ⟨by omega, fun hf => .inr (hfound hf)⟩

/-- A read that fails, and what comes behind it. -/
theorem failed {e : Error} (h : w₁.Resumes n found rooms) (ht : w.take room = (.error e, w₁))
    (hp : w₁.pending = w.pending)
    (hused : w₁.stumbles < w.stumbles ∨ n = 0 ∧ found = false) :
    w.Resumes n found (room :: rooms) := by
  constructor <;> simp only [Window.takeAll, ht, OpenPart.handedOut_error, List.length_cons,
    List.mem_cons, reduceCtorEq, false_or]
  · rw [← hp, ← h.front]
  · exact h.within
  · exact h.delimiter
  · intro hlt
    obtain hfewer | ⟨rfl, rfl⟩ := hused
    · exact h.complete (by omega)
    · have hwithin := h.within
      exact ⟨by omega, fun hfalse => absurd hfalse Bool.false_ne_true⟩

/-- A read that finds the delimiter, and all that come behind it. -/
theorem delimited (ht : w.take room = (.ok [], w₁)) (hat : w₁.AtDelimiter) :
    w.Resumes 0 true (room :: rooms) := by
  have hnone : handedOut (rooms.map fun _ => .ok []) = [] := by
    induction rooms with
    | nil => rfl
    | cons room rooms ih => exact ih
  constructor <;> simp only [Window.takeAll, ht, hat.takeAll, OpenPart.handedOut_ok, hnone]
  · exact take_ok ht
  · exact Nat.le_refl _
  · exact fun _ => ⟨trivial, rfl, hat⟩
  · exact fun _ => ⟨rfl, fun _ => List.mem_cons_self⟩

/-- Of two runs along the same bytes the one that hands out no more hands out a front of what the other
does. -/
theorem prefix_of_le {v : Window} {reference : List Nat} (h : w.Resumes n found rooms)
    (hv : v.Resumes n found reference) (hp : v.pending = w.pending)
    (hle : (handedOut (w.takeAll rooms).1).length ≤ (handedOut (v.takeAll reference).1).length) :
    handedOut (w.takeAll rooms).1 <+: handedOut (v.takeAll reference).1 := by
  have hfront : handedOut (w.takeAll rooms).1 <+: w.pending := ⟨_, h.front.symm⟩
  have hfront' : handedOut (v.takeAll reference).1 <+: w.pending := ⟨_, hp ▸ hv.front.symm⟩
  exact List.prefix_of_prefix_length_le hfront hfront' hle

/-- If both hand out all of the content, the same is pending behind them. -/
theorem pending_eq {v : Window} {reference : List Nat} (h : w.Resumes n found rooms)
    (hv : v.Resumes n found reference) (hp : v.pending = w.pending)
    (hall : handedOut (w.takeAll rooms).1 = handedOut (v.takeAll reference).1) :
    (w.takeAll rooms).2.pending = (v.takeAll reference).2.pending := by
  have hsplit := h.front
  rw [← hp, hv.front, hall] at hsplit
  exact (List.append_cancel_left hsplit).symm

end Resumes

/-- Reads of a source that fails: content comes up to its end, and the delimiter is found there. -/
theorem Recovering.takeAll_resumes {n : Nat} {found : Bool} {rooms : List Nat} (h : w.Recovering)
    (hahead : w.ahead = (n, found)) (hrooms : ∀ room ∈ rooms, 0 < room) :
    w.Resumes n found rooms := by
  induction rooms generalizing w n with
  | nil =>
    refine ⟨rfl, Nat.zero_le _, ?_, ?_⟩
    · intro hmem
      exact absurd hmem List.not_mem_nil
    · intro hlt
      exact absurd hlt (Nat.not_lt_zero _)
  | cons room rooms ih =>
    have hrest : ∀ room ∈ rooms, 0 < room := fun r hr => hrooms r (List.mem_cons_of_mem _ hr)
    obtain ⟨htakes, hrecovering, hle⟩ := h.take (hrooms room List.mem_cons_self)
    have hsame := w.take_sameSearch room
    generalize ht : w.take room = x at htakes hrecovering hle hsame
    cases htakes with
    | piece hlen =>
      rw [hahead] at hlen
      have hahead₁ := take_ahead ht hahead hlen
      exact (ih hrecovering hahead₁ hrest).piece ht nofun hlen hle
    | delimiter h0 hat =>
      cases hahead.symm.trans h0
      exact .delimited ht hat
    | stumble hlt =>
      have hp := take_error_pending h.unmetered ht
      have hahead₁ := (ahead_congr hsame hp).trans hahead
      exact (ih hrecovering hahead₁ hrest).failed ht hp (.inl hlt)
    | ended h0 =>
      have hp := take_error_pending h.unmetered ht
      have hahead₁ := (ahead_congr hsame hp).trans hahead
      cases hahead.symm.trans h0
      exact (ih hrecovering hahead₁ hrest).failed ht hp (.inr ⟨rfl, rfl⟩)

/-! ## Nothing is lost -/

/-- A source without failures in store. -/
theorem Steady.recovering (h : w.Steady) : w.Recovering ∧ w.stumbles = 0 := by
  refine ⟨⟨h.room, h.unmetered, h.feed.source.pace⟩, ?_⟩
  refine List.countP_eq_zero.2 fun g hg => ?_
  have hsteady := h.feed.source.segments g hg
  cases g with
  | data bytes => simpa [Segment.IsSteady] using hsteady
  | interruption => exact Bool.false_ne_true
  | failure e => exact absurd hsteady id

/-- A window in a content, reached in any way, whose source may fail again and again: a read that fails
leaves what is pending and what is looked for as they were. So compared with a window `v` in which the
same is pending and no read fails, which reads its content to the end, reads of any sizes hand out a
front of the same, and find the delimiter only where it does. If they outnumber the bytes pending and
the failures in store, they hand out all of it, and find the delimiter if it does. -/
theorem failed_reads_resume {feed : Feed} {boundary : Bytes} {capacity : Nat} {w₀ w v : Window}
    {ops : List Op} (hopen : open? feed boundary capacity = .ok w₀) (hops : w₀.after ops = w)
    (hunmetered : w.Unmetered) (hpace : w.feed.source.transport.pace ≠ some 0) (hv : v.Steady)
    (hstart : v.atStart = false) (hboundary : v.boundary = w.boundary)
    (hpending : v.pending = w.pending) :
    (∀ room e w', w.take room = (.error e, w') → w'.pending = w.pending ∧ w.SameSearch w') ∧
    ∀ rooms reference : List Nat, (∀ room ∈ rooms, 0 < room) → (∀ room ∈ reference, 0 < room) →
      w.pending.length < reference.length →
      handedOut (w.takeAll rooms).1 <+: handedOut (v.takeAll reference).1 ∧
      (.ok [] ∈ (w.takeAll rooms).1 → .ok [] ∈ (v.takeAll reference).1 ∧
        (w.takeAll rooms).2.pending = (v.takeAll reference).2.pending ∧
        (w.takeAll rooms).2.AtDelimiter ∧ (v.takeAll reference).2.AtDelimiter) ∧
      (w.pending.length + w.stumbles < rooms.length →
        handedOut (w.takeAll rooms).1 = handedOut (v.takeAll reference).1 ∧
        (w.takeAll rooms).2.pending = (v.takeAll reference).2.pending ∧
        (.ok [] ∈ (v.takeAll reference).1 → .ok [] ∈ (w.takeAll rooms).1)) := by
  obtain ⟨hreached₀, -⟩ := open?_reached hopen
  have hreached : w.Reached := hops ▸ hreached₀.after ops
  constructor
  · intro room e w' ht
    have hsame := w.take_sameSearch room
    rw [ht] at hsame
    exact ⟨take_error_pending hunmetered ht, hsame⟩
  · intro rooms reference hrooms hreference hlong
    have hreached' : v.Reached := ⟨hv.room, hstart⟩
    obtain ⟨hrecovering, hnone⟩ := hv.recovering
    rcases hahead : w.ahead with ⟨n, found⟩
    have hahead' : v.ahead = (n, found) := by
      rw [← hahead, hreached.ahead_eq, hreached'.ahead_eq, hboundary, hpending]
    have hle : w.ahead.1 ≤ w.pending.length := Bytes.before_le_length _ _
    rw [hahead] at hle
    have hw : w.Recovering := ⟨hreached.room, hunmetered, hpace⟩
    have hrun := hw.takeAll_resumes hahead hrooms
    have hrun' := hrecovering.takeAll_resumes hahead' hreference
    -- without failures in store, reads that outnumber the bytes pending come to the end
    obtain ⟨hall', hfound'⟩ := hrun'.complete (by simp only at hle; omega)
    have hfront := hrun.prefix_of_le hrun' hpending (hall'.symm ▸ hrun.within)
    have hsame : (handedOut (w.takeAll rooms).1).length = n →
        handedOut (w.takeAll rooms).1 = handedOut (v.takeAll reference).1 := by
      intro hall
      exact hfront.eq_of_length (hall.trans hall'.symm)
    refine ⟨hfront, ?_, ?_⟩
    · intro hmem
      obtain ⟨hfound, hall, hat⟩ := hrun.delimiter hmem
      obtain ⟨-, -, hat'⟩ := hrun'.delimiter (hfound' hfound)
      exact ⟨hfound' hfound, hrun.pending_eq hrun' hpending (hsame hall), hat, hat'⟩
    · intro hmany
      obtain ⟨hall, hfound⟩ := hrun.complete (by simp only at hle; omega)
      refine ⟨hsame hall, hrun.pending_eq hrun' hpending (hsame hall), ?_⟩
      intro hmem
      exact hfound (hrun'.delimiter hmem).1

/-- A content whose reads fail or come back empty in the middle of what looks like a delimiter. -/
def stumbling : List Segment :=
  [.data [97, 98, 13], .failure (.described .connectionReset "reset"), .data [10, 45], .data [],
    .data [45], .failure (.described .connectionReset "reset"),
    .failure (.described .connectionReset "again"), .data [99, 13, 10, 45, 45, 88, 45, 45]]

theorem failed_reads_resume_stumbling :
    ∃ w₀ w, open?
        { source := { transport := { segments := .data [45, 45, 88, 13, 10, 13, 10] :: stumbling } } }
        [88] 6 = .ok w₀ ∧ w₀.after [.findFirst, .readHeaderBlock 10] = w ∧
      handedOut (w.takeAll (List.replicate 19 3)).1 = [97, 98, 13, 10, 45, 45, 99] ∧
      (w.takeAll (List.replicate 19 3)).2.pending = [13, 10, 45, 45, 88, 45, 45] ∧
      (w.takeAll (List.replicate 19 3)).2.AtDelimiter := by
  obtain ⟨w₀, hopen⟩ : ∃ w₀, open?
      { source := { transport := { segments := .data [45, 45, 88, 13, 10, 13, 10] :: stumbling } } }
      [88] 6 = .ok w₀ := ⟨_, rfl⟩
  refine ⟨w₀, _, hopen, rfl, ?_⟩
  have hw : w₀.after [.findFirst, .readHeaderBlock 10] = {
      feed := { source := { transport := { segments := stumbling } }, account := { bytesRead := 7 } }
      capacity := 6
      boundary := [88] } := by
    cases hopen
    decide +kernel
  -- the same bytes in one piece
  obtain ⟨v, hv⟩ : ∃ v : Window, v = {
      feed := { source := { transport := { segments := [.data (Transport.content stumbling)] } } }
      capacity := 100
      boundary := [88] } := ⟨_, rfl⟩
  have hsteady : v.Steady := by
    have hne : Transport.content stumbling ≠ [] := by decide +kernel
    rw [hv]
    exact ⟨⟨⟨by simpa [Segment.IsSteady] using hne, by decide, rfl⟩, rfl, rfl⟩, by decide⟩
  obtain ⟨-, hruns⟩ := failed_reads_resume hopen rfl (v := v) (by rw [hw]; exact ⟨rfl, rfl⟩)
    (by rw [hw]; decide) hsteady (by rw [hv]) (by rw [hv, hw]) (by rw [hv, hw]; decide +kernel)
  obtain ⟨-, hfound, hall⟩ := hruns (List.replicate 19 3) (List.replicate 15 50)
    (by decide) (by decide) (by rw [hw]; decide +kernel)
  obtain ⟨hout, hpending, hdelimiter⟩ := hall (by rw [hw]; decide +kernel)
  have hreference : v.takeAll (List.replicate 15 50) =
      (.ok [97, 98, 13, 10, 45, 45, 99] :: List.replicate 14 (.ok []),
        (v.takeAll (List.replicate 15 50)).2) ∧
      (v.takeAll (List.replicate 15 50)).2.pending = [13, 10, 45, 45, 88, 45, 45] := by
    rw [hv]
    decide +kernel
  rw [hreference.1] at hout hdelimiter
  exact ⟨hout, hpending.trans hreference.2, (hfound (hdelimiter (by simp))).2.2.1⟩

end Window

end FormData
