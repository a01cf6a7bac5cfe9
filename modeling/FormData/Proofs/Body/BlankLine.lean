/-
Header blocks read off a source that does not fail. Such a source has a stream, the bytes that reads
find before one of them comes back empty, however these are cut into pieces (`Source.read_flow`). A
block is read byte after byte, and what is kept of the bytes so far is how much of a blank line they
end in, the line break in front of the block included (`Ending.ofLast`). So the block is the shortest
front of the stream that ends in a blank line, unless that is longer than the limit or the stream ends
before (`readHeaderBlock_exact`).
-/
import FormData.Proofs.Body.Moves
import FormData.Proofs.Body.Reading

namespace FormData

/-! ## Streams -/

/-- The bytes in the segments in front of the first read that comes back empty. -/
def Transport.flowFrom (pace : Option Nat) : List Segment → Bytes
  | [] => []
  | .interruption :: rest => flowFrom pace rest
  | .failure _ :: rest => flowFrom pace rest
  | .data bytes :: rest => if bytes = [] ∨ pace = some 0 then [] else bytes ++ flowFrom pace rest

/-- The bytes that reads find before one comes back empty. -/
def Source.flow (s : Source) : Bytes :=
  s.buffered ++ Transport.flowFrom s.transport.pace s.transport.segments

/-- No read fails. -/
structure Source.Unfailing (s : Source) : Prop where
  segments : ∀ error, .failure error ∉ s.transport.segments
  refusal : s.transport.refusal = none

theorem Transport.flowFrom_keep {pace : Option Nat} (hpace : pace ≠ some 0) (bytes : Bytes)
    (rest : List Segment) : flowFrom pace (keep bytes rest) = bytes ++ flowFrom pace rest := by
  unfold keep
  cases bytes with
  | nil => rfl
  | cons b bytes => simp [flowFrom, hpace]

theorem Transport.keep_unfailing {bytes : Bytes} {rest : List Segment}
    (h : ∀ error, .failure error ∉ rest) : ∀ error, .failure error ∉ keep bytes rest := by
  intro error hmem
  unfold keep at hmem
  split at hmem
  · exact h error hmem
  · rcases List.mem_cons.1 hmem with hhead | hrest
    · cases hhead
    · exact h error hrest

/-- A read gets the front of the stream, and nothing only where it ends. -/
theorem Transport.readFrom_flow (t : Transport) {room : Nat} (hroom : 0 < room)
    (href : t.refusal = none) : ∀ segments : List Segment, (∀ error, .failure error ∉ segments) →
      ∃ bytes rest, t.readFrom room segments = (.ok bytes, rest) ∧ (∀ error, .failure error ∉ rest) ∧
        (bytes = [] → flowFrom t.pace segments = []) ∧
        (bytes ≠ [] → flowFrom t.pace segments = bytes ++ flowFrom t.pace rest)
  | [], h => ⟨[], [], by simp [readFrom, readEnd, href], h, fun _ => rfl, fun hne => absurd rfl hne⟩
  | .interruption :: segments, h => by
    have hrest : ∀ error, .failure error ∉ segments := fun error hmem => h error (.tail _ hmem)
    obtain ⟨bytes, rest, hr, hu, hend, hflow⟩ := readFrom_flow t hroom href segments hrest
    exact ⟨bytes, rest, by rw [readFrom]; exact hr, hu, hend, hflow⟩
  | .failure error :: segments, h => absurd List.mem_cons_self (h error)
  | .data bytes :: segments, h => by
    have hrest : ∀ error, .failure error ∉ segments := fun error hmem => h error (.tail _ hmem)
    rw [readFrom]
    by_cases hempty : bytes = []
    · -- an empty segment ends the stream, whatever comes behind it
      rw [if_pos (by rw [hempty]; rfl)]
      refine ⟨[], segments, rfl, hrest, fun _ => ?_, fun hne => absurd rfl hne⟩
      simp [flowFrom, hempty]
    · rw [if_neg (by simpa using hempty)]
      refine ⟨_, _, rfl, keep_unfailing hrest, ?_, ?_⟩
      · intro hnil
        by_cases hpace : t.pace = some 0
        · simp [flowFrom, hpace]
        · exact absurd hnil (t.take_paced_ne_nil hroom hpace hempty)
      · intro hne
        have hpace : t.pace ≠ some 0 := by
          intro hzero
          simp [hzero] at hne
        simp only [flowFrom_keep hpace, flowFrom, hempty, hpace, or_self, if_false]
        rw [← List.append_assoc, List.take_append_drop]

namespace Source

variable {s : Source} {room : Nat}

theorem readThrough_flow (h : s.Unfailing) (hbuffered : s.buffered = []) (hroom : 0 < room) :
    ∃ bytes s', s.readThrough room = (.ok bytes, s') ∧ s'.Unfailing ∧ s'.buffered = [] ∧
      (bytes = [] → s.flow = []) ∧ (bytes ≠ [] → s.flow = bytes ++ s'.flow) := by
  obtain ⟨bytes, rest, hr, hu, hend, hflow⟩ :=
    s.transport.readFrom_flow hroom h.refusal s.transport.segments h.segments
  refine ⟨bytes, { s with transport := { s.transport with segments := rest } }, ?_, ⟨hu, h.refusal⟩,
    hbuffered, ?_, ?_⟩
  · simp only [readThrough, Transport.read, hr]
  · intro hnil
    simp [flow, hbuffered, hend hnil]
  · intro hne
    simp [flow, hbuffered, hflow hne]

/-- Whatever is read ahead, a read with room gets the front of the stream, and nothing only where it
ends. -/
theorem read_flow (h : s.Unfailing) (hroom : 0 < room) :
    ∃ bytes s', s.read room = (.ok bytes, s') ∧ s'.Unfailing ∧
      (bytes = [] → s.flow = []) ∧ (bytes ≠ [] → s.flow = bytes ++ s'.flow) := by
  have hcut : ∀ bytes : Bytes, bytes ≠ [] → bytes.take room ≠ [] := by
    intro bytes hne hnil
    rcases List.take_eq_nil_iff.1 hnil with hzero | hnil
    · omega
    · exact hne hnil
  unfold Source.read
  by_cases hbuffered : s.buffered = []
  · by_cases hahead : s.readAhead ≤ room
    · rw [if_pos ⟨by rw [hbuffered]; rfl, hahead⟩]
      obtain ⟨bytes, s', hr, hu, -, hend, hflow⟩ := readThrough_flow h hbuffered hroom
      exact ⟨bytes, s', hr, hu, hend, hflow⟩
    · -- the read goes through the buffer, which is filled first
      rw [if_neg fun hthrough => hahead hthrough.2]
      obtain ⟨bytes, s', hr, hu, hempty, hend, hflow⟩ := readThrough_flow h hbuffered
        (show 0 < s.readAhead by omega)
      have hfill : s.fillBuffer = (.ok (), { s' with buffered := bytes }) := by
        unfold fillBuffer
        rw [if_pos (by rw [hbuffered]; rfl), hr]
      rw [hfill]
      refine ⟨_, _, rfl, ⟨hu.segments, hu.refusal⟩, ?_, ?_⟩
      · intro hnil
        by_cases hbytes : bytes = []
        · exact hend hbytes
        · exact absurd hnil (hcut bytes hbytes)
      · intro hne
        have hbytes : bytes ≠ [] := by
          rintro rfl
          simp at hne
        have hrest : s'.flow = Transport.flowFrom s'.transport.pace s'.transport.segments := by
          simp [flow, hempty]
        rw [hflow hbytes, hrest]
        simp only [flow]
        rw [← List.append_assoc, List.take_append_drop]
  · rw [if_neg fun hthrough => hbuffered (List.isEmpty_iff.1 hthrough.1)]
    have hfill : s.fillBuffer = (.ok (), s) := by
      unfold fillBuffer
      rw [if_neg (by simpa using hbuffered)]
    rw [hfill]
    refine ⟨_, _, rfl, ⟨h.segments, h.refusal⟩, ?_, ?_⟩
    · intro hnil
      exact absurd hnil (hcut s.buffered hbuffered)
    · intro _
      simp only [flow]
      rw [← List.append_assoc, List.take_append_drop]

end Source

/-- No read fails, be it on the transport or on the limit of the request. -/
structure Feed.Unfailing (f : Feed) : Prop where
  source : f.source.Unfailing
  unspent : f.account.overrun = none
  within : ∀ limit, f.account.maxRequestSize = some limit →
    f.account.bytesRead + f.source.flow.length ≤ limit

theorem Feed.read_flow {f : Feed} (h : f.Unfailing) {room : Nat} (hroom : 0 < room) :
    ∃ bytes f', f.read room = (.ok bytes, f') ∧ (bytes = [] → f.source.flow = []) ∧
      (bytes ≠ [] → f.source.flow = bytes ++ f'.source.flow ∧ f'.Unfailing) := by
  obtain ⟨bytes, source, hr, hu, hend, hflow⟩ := Source.read_flow h.source hroom
  unfold Feed.read
  simp only [h.unspent, hr]
  by_cases hempty : bytes = []
  · rw [if_pos (by simp [hempty])]
    exact ⟨[], _, rfl, fun _ => hend hempty, fun hne => absurd rfl hne⟩
  · rw [if_neg (by simpa using hempty)]
    have hcount : f.account.bytesRead + bytes.length + source.flow.length =
        f.account.bytesRead + f.source.flow.length := by
      rw [hflow hempty, List.length_append, Nat.add_assoc]
    obtain ⟨hc, -⟩ | ⟨limit, hlimit, hover, -⟩ := f.account.countBytes_cases bytes.length
    · rw [hc]
      refine ⟨bytes, _, rfl, hend, fun _ => ⟨hflow hempty, hu, ?_, ?_⟩⟩
      · exact (Account.report_overrun _).trans h.unspent
      · intro limit hlimit
        simp only [Account.report_maxRequestSize] at hlimit
        have hwithin := h.within limit hlimit
        simp only [Account.report_bytesRead]
        omega
    · have hwithin := h.within limit hlimit
      omega

namespace Window

variable {w : Window} {limit count : Nat} {block rest text : Bytes}

/-- The bytes that come before the stream of the source ends. -/
def flow (w : Window) : Bytes :=
  w.unread ++ w.feed.source.flow

/-- A window with room for a byte, on a source that does not fail. -/
structure Unfailing (w : Window) : Prop where
  feed : w.feed.Unfailing
  room : 0 < w.capacity

/-- The outcome of an operation: a result and the stream behind it, or an error. -/
def Finds {α : Type} (step : Except Error α × Window) : Except Error (α × Bytes) → Prop
  | .ok (a, rest) => ∃ w', step = (.ok a, w') ∧ w'.flow = rest ∧ w'.Unfailing
  | .error e => ∃ w', step = (.error e, w')

theorem readByte_flow (h : w.Unfailing) :
    Finds w.readByte
      (match w.flow with
      | b :: rest => .ok (b, rest)
      | [] => .error (.malformed .noMoreData)) := by
  unfold readByte
  cases hu : w.unread with
  | cons b rest =>
    have hflow : w.flow = b :: (rest ++ w.feed.source.flow) := by simp [flow, hu]
    rw [hflow]
    exact ⟨_, rfl, rfl, h.feed, h.room⟩
  | nil =>
    have hfree : 0 < w.capacity - w.unread.length := by
      have := h.room
      simp [hu, this]
    obtain ⟨bytes, feed, hr, hend, hfound⟩ := Feed.read_flow h.feed hfree
    have hfill : w.fill = (.ok bytes.length, { w with feed, unread := bytes }) := by
      unfold fill
      rw [hr, hu]
      rfl
    have hflow : w.flow = w.feed.source.flow := by simp [flow, hu]
    simp only [hfill]
    cases bytes with
    | nil =>
      rw [hflow, hend rfl]
      exact ⟨_, rfl⟩
    | cons b bytes =>
      obtain ⟨hsource, hfeed⟩ := hfound (List.cons_ne_nil _ _)
      rw [hflow, hsource]
      exact ⟨_, rfl, rfl, hfeed, h.room⟩

theorem Finds.of_ok {α : Type} {step : Except Error α × Window} {r : Except Error (α × Bytes)} {a : α}
    {w' : Window} (h : Finds step r) (hs : step = (.ok a, w')) :
    r = .ok (a, w'.flow) ∧ w'.Unfailing := by
  cases r with
  | ok result =>
    obtain ⟨w'', hs', hrest, hw⟩ := h
    cases hs.symm.trans hs'
    exact ⟨by rw [hrest], hw⟩
  | error e =>
    obtain ⟨w'', hs'⟩ := h
    cases hs.symm.trans hs'

theorem Finds.of_error {α : Type} {step : Except Error α × Window} {r : Except Error (α × Bytes)}
    {e : Error} {w' : Window} (h : Finds step r) (hs : step = (.error e, w')) : r = .error e := by
  cases r with
  | ok result =>
    obtain ⟨w'', hs', -⟩ := h
    cases hs.symm.trans hs'
  | error e' =>
    obtain ⟨w'', hs'⟩ := h
    cases hs.symm.trans hs'
    rfl

theorem flow_of_readByte {w' : Window} {b : UInt8} (h : w.Unfailing) (hr : w.readByte = (.ok b, w')) :
    w.flow = b :: w'.flow ∧ w'.Unfailing := by
  obtain ⟨hfound, hw'⟩ := (readByte_flow h).of_ok hr
  refine ⟨?_, hw'⟩
  split at hfound
  · rename_i hflow
    cases hfound
    exact hflow
  · cases hfound

theorem ended_of_readByte {w' : Window} {e : Error} (h : w.Unfailing)
    (hr : w.readByte = (.error e, w')) : w.flow = [] ∧ e = .malformed .noMoreData := by
  have hfound := (readByte_flow h).of_error hr
  split at hfound
  · cases hfound
  · rename_i hflow
    cases hfound
    exact ⟨hflow, rfl⟩

/-- A block is what is at the front of the stream. -/
theorem readBlockFrom_flow (limit : Nat) (ending : Ending) (count : Nat) (block : Bytes)
    (h : w.Unfailing) :
    Finds (w.readBlockFrom limit ending count block) (blockOf limit ending count block w.flow) := by
  fun_induction readBlockFrom limit ending count block w with
  | case1 count block w =>
    cases hflow : w.flow with
    | nil => exact ⟨w, rfl, hflow, h⟩
    | cons b rest => exact ⟨w, rfl, hflow, h⟩
  | case2 ending count block w hne e w' hr =>
    obtain ⟨hflow, rfl⟩ := ended_of_readByte h hr
    rw [hflow, blockOf, if_neg hne]
    exact ⟨w', rfl⟩
  | case3 ending count block w hne b w' hr _ hlimit =>
    obtain ⟨hflow, -⟩ := flow_of_readByte h hr
    rw [hflow, blockOf, if_neg hne, if_pos hlimit]
    exact ⟨w', rfl⟩
  | case4 ending count block w hne b w' hr _ hlimit ih =>
    obtain ⟨hflow, hw'⟩ := flow_of_readByte h hr
    rw [hflow, blockOf, if_neg hne, if_neg hlimit]
    exact ih hw'

/-! ## Blank lines -/

/-- How much of a blank line, with the line break before it, some bytes end in. They are given last
first, as they are kept while a block is read. -/
def Ending.ofLast (last : Bytes) : Ending :=
  if [Bytes.lf, Bytes.cr, Bytes.lf, Bytes.cr] <+: last then .complete
  else if [Bytes.cr, Bytes.lf, Bytes.cr] <+: last then .crlfcr
  else if [Bytes.lf, Bytes.cr] <+: last then .crlf
  else if [Bytes.cr] <+: last then .cr
  else .none

theorem Ending.ofLast_eq_complete_iff {last : Bytes} :
    Ending.ofLast last = .complete ↔ [Bytes.lf, Bytes.cr, Bytes.lf, Bytes.cr] <+: last := by
  unfold ofLast
  constructor
  · intro h
    split at h
    · assumption
    · repeat' split at h
      all_goals cases h
  · intro h
    rw [if_pos h]

/-- A byte that does not fit starts over with what of it may begin a blank line, so the ending is always
the longest one. -/
theorem Ending.next_ofLast {last : Bytes} (h : Ending.ofLast last ≠ .complete) (b : UInt8) :
    (Ending.ofLast last).next b = Ending.ofLast (b :: last) := by
  have hbreak : Bytes.lf ≠ Bytes.cr := by decide
  rw [Ne, ofLast_eq_complete_iff] at h
  unfold ofLast
  rw [if_neg h]
  by_cases hcr : b = Bytes.cr
  · subst hcr
    simp only [List.cons_prefix_cons, hbreak, false_and, true_and, if_false, List.nil_prefix,
      if_true]
    split
    · -- half of the line break is there twice, and the second one counts
      rename_i hlast
      obtain ⟨front, rfl⟩ := hlast
      simp [next, hbreak, hbreak.symm]
    · split
      · rfl
      · split <;> simp [next, hbreak.symm]
  · by_cases hlf : b = Bytes.lf
    · subst hlf
      simp only [List.cons_prefix_cons, hbreak.symm, false_and, true_and, if_false]
      split
      · rfl
      · split
        · rename_i hlast
          obtain ⟨front, rfl⟩ := hlast
          simp [next, hbreak, hbreak.symm]
        · split
          · rfl
          · simp [next, hbreak]
    · simp only [List.cons_prefix_cons, Ne.symm hcr, Ne.symm hlf, false_and, if_false]
      split
      · simp [next, hcr, hlf]
      · split
        · simp [next, hcr]
        · split <;> simp [next, hcr, hlf]

end Window

namespace Bytes

/-- With a line break in front of them, some bytes end in a blank line. -/
def EndsBlank (bytes : Bytes) : Prop :=
  [cr, lf, cr, lf] <:+ [cr, lf] ++ bytes

instance (bytes : Bytes) : Decidable bytes.EndsBlank :=
  inferInstanceAs (Decidable (_ <:+ _))

/-- The shortest front of a text that ends in a blank line. -/
structure IsBlock (text block : Bytes) : Prop where
  front : block <+: text
  blank : block.EndsBlank
  shortest : ∀ front : Bytes, front <+: text → front.EndsBlank → block.length ≤ front.length

/-- A text has one front of each length, so those below a length can be tried one by one. -/
theorem forall_front_iff {text : Bytes} {count : Nat} :
    (∀ front : Bytes, front <+: text → front.length < count → ¬ front.EndsBlank) ↔
      ∀ n < count, ¬ Bytes.EndsBlank (text.take n) := by
  constructor
  · intro h n hn
    have hlength := List.length_take_le n text
    exact h (text.take n) (List.take_prefix n text) (Nat.lt_of_le_of_lt hlength hn)
  · intro h front hfront hcount
    rw [List.prefix_iff_eq_take.1 hfront]
    exact h front.length hcount

instance (text block : Bytes) : Decidable (text.IsBlock block) :=
  decidable_of_iff
    (block <+: text ∧ block.EndsBlank ∧ ∀ n < block.length, ¬ Bytes.EndsBlank (text.take n))
    ⟨fun ⟨hfront, hblank, hearlier⟩ => ⟨hfront, hblank, fun front hf hb =>
        Nat.not_lt.1 fun hlt => forall_front_iff.2 hearlier front hf hlt hb⟩,
      fun h => ⟨h.front, h.blank, forall_front_iff.1 fun front hf hlt hb =>
        Nat.not_le.2 hlt (h.shortest front hf hb)⟩⟩

end Bytes

namespace Window

variable {w : Window} {limit : Nat} {read : Bytes}

/-- How much of a blank line some bytes of a block end in. A block starts behind the line break of its
delimiter. -/
def Ending.after (read : Bytes) : Ending :=
  .ofLast ([Bytes.cr, Bytes.lf] ++ read).reverse

theorem Ending.after_eq_complete_iff : Ending.after read = .complete ↔ read.EndsBlank := by
  rw [after, ofLast_eq_complete_iff]
  show [Bytes.cr, Bytes.lf, Bytes.cr, Bytes.lf].reverse <+: ([Bytes.cr, Bytes.lf] ++ read).reverse ↔ _
  rw [List.reverse_prefix, Bytes.EndsBlank]

theorem Ending.next_after (hread : ¬ read.EndsBlank) (b : UInt8) :
    (Ending.after read).next b = .after (read ++ [b]) := by
  rw [← after_eq_complete_iff] at hread
  rw [after, next_ofLast hread, after]
  simp

/-! ## Blocks -/

theorem blockOf_complete (hread : read.EndsBlank) (rest : Bytes) :
    blockOf limit (.after read) read.length read.reverse rest = .ok (read, rest) := by
  rw [← Ending.after_eq_complete_iff] at hread
  cases rest <;> rw [blockOf, if_pos hread, List.reverse_reverse]

theorem blockOf_next (hread : ¬ read.EndsBlank) (b : UInt8) (rest : Bytes) :
    blockOf limit (.after read) read.length read.reverse (b :: rest) =
      if limit ≤ read.length then .error (.headerSize limit (read.length + 1))
      else blockOf limit (.after (read ++ [b])) (read ++ [b]).length (read ++ [b]).reverse rest := by
  rw [blockOf, if_neg (mt Ending.after_eq_complete_iff.1 hread), Ending.next_after hread]
  simp

/-- The bytes that are missing to the first blank line are read, and nothing behind them. -/
theorem blockOf_found {rest : Bytes} : ∀ {more read : Bytes},
    (∀ front, front <+: more → front ≠ more → ¬ (read ++ front).EndsBlank) →
    (read ++ more).EndsBlank → (read ++ more).length ≤ limit →
    blockOf limit (.after read) read.length read.reverse (more ++ rest) = .ok (read ++ more, rest)
  | [], read, _, hblank, _ => by
    rw [List.append_nil] at hblank ⊢
    exact blockOf_complete hblank rest
  | b :: more, read, hearlier, hblank, hlimit => by
    have hread : ¬ read.EndsBlank := by
      have hnil := hearlier [] List.nil_prefix (List.cons_ne_nil b more).symm
      rwa [List.append_nil] at hnil
    have hroom : ¬ limit ≤ read.length := by
      simp only [List.length_append, List.length_cons] at hlimit
      omega
    rw [List.append_cons] at hblank hlimit ⊢
    rw [List.cons_append, blockOf_next hread, if_neg hroom]
    apply blockOf_found _ hblank hlimit
    intro front hfront hne
    rw [← List.append_cons]
    exact hearlier (b :: front) (List.cons_prefix_cons.2 ⟨rfl, hfront⟩)
      fun heq => hne (List.cons.inj heq).2

/-- Without a blank line within the limit, one byte more than the limit is read, or all there are. -/
theorem blockOf_unfound : ∀ {text read : Bytes}, read.length ≤ limit →
    (∀ front, front <+: text → (read ++ front).length ≤ limit → ¬ (read ++ front).EndsBlank) →
    blockOf limit (.after read) read.length read.reverse text =
      .error (if limit < read.length + text.length then .headerSize limit (limit + 1)
        else .malformed .noMoreData)
  | text, read, hlimit, hnone => by
    have hread : ¬ read.EndsBlank := by
      have hnil := hnone [] List.nil_prefix
      rw [List.append_nil] at hnil
      exact hnil hlimit
    cases text with
    | nil =>
      rw [blockOf, if_neg (mt Ending.after_eq_complete_iff.1 hread), if_neg (by simpa using hlimit)]
    | cons b rest =>
      rw [blockOf_next hread]
      by_cases hroom : limit ≤ read.length
      · obtain rfl : limit = read.length := Nat.le_antisymm hroom hlimit
        rw [if_pos hroom, if_pos (by simp)]
      · have hnext : (read ++ [b]).length ≤ limit := by
          simp only [List.length_append, List.length_singleton]
          omega
        have hcount : (read ++ [b]).length + rest.length = read.length + (b :: rest).length := by
          simp only [List.length_append, List.length_cons, List.length_nil]
          omega
        rw [if_neg hroom, blockOf_unfound hnext, hcount]
        intro front hfront
        rw [← List.append_cons]
        exact hnone (b :: front) (List.cons_prefix_cons.2 ⟨rfl, hfront⟩)

/-- However the source cuts its stream into pieces, the block is the shortest front of the stream that
ends in a blank line, and the bytes behind it are left. Where no front within the limit does, the block
is too large if there are more bytes than the limit, and else the stream ends in the middle of it. -/
theorem readHeaderBlock_exact (h : w.Unfailing) (limit : Nat) :
    (∀ block, w.flow.IsBlock block → block.length ≤ limit →
      ∃ w', w.readHeaderBlock limit = (.ok block, w') ∧ w.flow = block ++ w'.flow ∧
        w.pending = block ++ w'.pending) ∧
    ((∀ front : Bytes, front <+: w.flow → front.length ≤ limit → ¬ front.EndsBlank) →
      (limit < w.flow.length →
        ∃ w', w.readHeaderBlock limit = (.error (.headerSize limit (limit + 1)), w')) ∧
      (w.flow.length ≤ limit →
        ∃ w', w.readHeaderBlock limit = (.error (.malformed .noMoreData), w'))) := by
  have hread : Finds (w.readHeaderBlock limit) (blockOf limit (.after []) 0 [] w.flow) :=
    readBlockFrom_flow limit .crlf 0 [] h
  constructor
  · intro block hblock hlimit
    obtain ⟨rest, hflow⟩ := hblock.front
    have hearlier : ∀ front : Bytes, front <+: block → front ≠ block → ¬ front.EndsBlank := by
      intro front hfront hne hblank
      have hshortest := hblock.shortest front (hfront.trans hblock.front) hblank
      exact hne (hfront.eq_of_length_le hshortest)
    have hfound : blockOf limit (.after []) 0 [] (block ++ rest) = .ok (block, rest) :=
      blockOf_found hearlier hblock.blank hlimit
    rw [← hflow, hfound] at hread
    obtain ⟨w', hr, hrest, -⟩ := hread
    exact ⟨w', hr, by rw [hrest, hflow], readHeaderBlock_ok hr⟩
  · intro hnone
    have hunfound : blockOf limit (.after []) 0 [] w.flow =
        .error (if limit < 0 + w.flow.length then .headerSize limit (limit + 1)
          else .malformed .noMoreData) := blockOf_unfound (Nat.zero_le limit) hnone
    rw [Nat.zero_add] at hunfound
    rw [hunfound] at hread
    constructor
    · intro hlarge
      rwa [if_pos hlarge] at hread
    · intro hwithin
      rwa [if_neg (Nat.not_lt.2 hwithin)] at hread

/-- A stream that comes in many pieces, with false starts of a blank line on their edges. -/
def stuttering : List Segment :=
  [.data [13, 10], .interruption, .data [13], .data [13, 10, 13], .data [10, 66], .data [], .data [67]]

/-- A window in the middle of a line of a header. -/
def midLine (segments : List Segment) : Window where
  unread := [65, 58, 13]
  capacity := 6
  boundary := [88]
  feed.source.readAhead := 2
  feed.source.transport.segments := segments

theorem readHeaderBlock_exact_stuttering :
    (∃ w', (midLine stuttering).readHeaderBlock 10 =
        (.ok [65, 58, 13, 13, 10, 13, 13, 10, 13, 10], w') ∧ w'.flow = [66] ∧ w'.pending = [66, 67]) ∧
    (∃ w', (midLine stuttering).readHeaderBlock 9 = (.error (.headerSize 9 10), w')) ∧
    ∃ w', (midLine (stuttering.take 4)).readHeaderBlock 9 = (.error (.malformed .noMoreData), w') := by
  have hunfailing : ∀ segments, (∀ error, .failure error ∉ segments) →
      (midLine segments).Unfailing := by
    intro segments hsegments
    refine ⟨⟨⟨hsegments, rfl⟩, rfl, ?_⟩, by show 0 < 6; decide⟩
    intro limit hlimit
    cases hlimit
  have hall := hunfailing stuttering (by simp [stuttering])
  have hcut := hunfailing (stuttering.take 4) (by simp [stuttering])
  have hflow : (midLine stuttering).flow = [65, 58, 13, 13, 10, 13, 13, 10, 13, 10] ++ [66] := by
    decide +kernel
  have hcutFlow : (midLine (stuttering.take 4)).flow = [65, 58, 13, 13, 10, 13, 13, 10, 13] := by
    decide +kernel
  refine ⟨?_, ?_, ?_⟩
  · have hblock : (midLine stuttering).flow.IsBlock [65, 58, 13, 13, 10, 13, 13, 10, 13, 10] := by
      decide +kernel
    have hpending : (midLine stuttering).pending =
        [65, 58, 13, 13, 10, 13, 13, 10, 13, 10] ++ [66, 67] := by decide +kernel
    obtain ⟨w', hr, hf, hp⟩ := (readHeaderBlock_exact hall 10).1 _ hblock (by decide)
    exact ⟨w', hr, List.append_cancel_left (hf.symm.trans hflow),
      List.append_cancel_left (hp.symm.trans hpending)⟩
  · refine ((readHeaderBlock_exact hall 9).2 ?_).1 (by rw [hflow]; decide)
    intro front hfront hcount
    rw [hflow] at hfront
    exact Bytes.forall_front_iff.2 (by decide +kernel) front hfront (Nat.lt_succ_of_le hcount)
  · refine ((readHeaderBlock_exact hcut 9).2 ?_).2 (by rw [hcutFlow]; decide)
    intro front hfront hcount
    rw [hcutFlow] at hfront
    exact Bytes.forall_front_iff.2 (by decide +kernel) front hfront (Nat.lt_succ_of_le hcount)

end Window

end FormData
