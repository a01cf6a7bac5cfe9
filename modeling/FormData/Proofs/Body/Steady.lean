/-
Sources that deliver: no read fails, and none with room for a byte comes back empty while bytes are
pending. However such a source is cut into segments, interrupted, paced or read ahead, a read hands
out a stretch from the front of what is pending (`Source.Steady.read`), and behind a feed without a
request limit it still does (`Feed.Steady.read`).
-/
import FormData.Body.Feed

namespace FormData

/-! ## Sources -/

/-- A segment that neither fails a read nor lets one come back empty. -/
def Segment.IsSteady : Segment → Prop
  | .data bytes => bytes ≠ []
  | .interruption => True
  | .failure _ => False

structure Source.Steady (s : Source) : Prop where
  segments : ∀ g ∈ s.transport.segments, g.IsSteady
  pace : s.transport.pace ≠ some 0
  refusal : s.transport.refusal = none

theorem Transport.keep_isSteady {bytes : Bytes} {rest : List Segment}
    (h : ∀ g ∈ rest, g.IsSteady) : ∀ g ∈ keep bytes rest, g.IsSteady := by
  unfold keep
  split
  · exact h
  · rename_i hne
    intro g hg
    rcases List.mem_cons.1 hg with rfl | hg
    · exact fun he => hne (by rw [he]; rfl)
    · exact h g hg

/-- Room and pace let some of the bytes through. -/
theorem Transport.take_paced_ne_nil (t : Transport) {room : Nat} (hroom : 0 < room)
    (hpace : t.pace ≠ some 0) {bytes : Bytes} (hne : bytes ≠ []) :
    bytes.take (min room (t.pace.getD room)) ≠ [] := by
  have hcount : 0 < min room (t.pace.getD room) := by
    rcases hp : t.pace with _ | _ | n
    · simpa using hroom
    · exact absurd hp hpace
    · simp only [Option.getD_some]
      omega
  intro hnil
  rcases List.take_eq_nil_iff.1 hnil with h0 | h0
  · omega
  · exact hne h0

/-- A read of a transport that has only steady segments finds bytes, or none are left. -/
theorem Transport.readFrom_steady (t : Transport) {room : Nat} (hroom : 0 < room)
    (hpace : t.pace ≠ some 0) (href : t.refusal = none) :
    ∀ segments : List Segment, (∀ g ∈ segments, g.IsSteady) →
      ∃ bytes rest, t.readFrom room segments = (.ok bytes, rest) ∧ (∀ g ∈ rest, g.IsSteady) ∧
        (bytes = [] → content segments = [])
  | [], h => ⟨[], [], by simp [readFrom, readEnd, href], h, fun _ => rfl⟩
  | .interruption :: segments, h => by
    obtain ⟨bytes, rest, hr, hs, he⟩ := readFrom_steady t hroom hpace href segments
      fun g hg => h g (List.mem_cons_of_mem _ hg)
    exact ⟨bytes, rest, by rw [readFrom]; exact hr, hs, fun hb => by simpa [content] using he hb⟩
  | .failure error :: segments, h => absurd (h _ (List.mem_cons_self ..)) id
  | .data bytes :: segments, h => by
    have hne : bytes ≠ [] := h _ (List.mem_cons_self ..)
    rw [readFrom, if_neg (by simpa using hne)]
    refine ⟨_, _, rfl, keep_isSteady fun g hg => h g (List.mem_cons_of_mem _ hg), fun hb => ?_⟩
    exact absurd hb (t.take_paced_ne_nil hroom hpace hne)

namespace Source.Steady

theorem readThrough {s : Source} (h : s.Steady) {room : Nat} (hroom : 0 < room) :
    ∃ bytes s', s.readThrough room = (.ok bytes, s') ∧ s'.Steady ∧ s'.buffered = s.buffered ∧
      (bytes = [] → s.transport.pending = []) := by
  obtain ⟨bytes, rest, hr, hs, he⟩ :=
    Transport.readFrom_steady s.transport hroom h.pace h.refusal _ h.segments
  refine ⟨bytes, { s with transport := { s.transport with segments := rest } }, ?_,
    ⟨hs, h.pace, h.refusal⟩, rfl, he⟩
  simp only [Source.readThrough, Transport.read, hr]

/-- Filling the buffer leaves it empty only if nothing is pending. -/
theorem fillBuffer {s : Source} (h : s.Steady) (hahead : 0 < s.readAhead) :
    ∃ s', s.fillBuffer = (.ok (), s') ∧ s'.Steady ∧ (s'.buffered = [] → s.pending = []) := by
  unfold Source.fillBuffer
  by_cases hbuf : s.buffered.isEmpty
  · obtain ⟨bytes, s', hr, hs, hb, he⟩ := h.readThrough hahead
    rw [if_pos hbuf, hr]
    refine ⟨_, rfl, ⟨hs.segments, hs.pace, hs.refusal⟩, fun hnil => ?_⟩
    rw [pending, List.isEmpty_iff.1 hbuf, he hnil]
    rfl
  · rw [if_neg hbuf]
    exact ⟨s, rfl, h, fun hnil => absurd (by rw [hnil]; rfl) hbuf⟩

/-- A read with room hands out a stretch from the front of what is pending, an empty one only if
nothing is. -/
theorem read {s : Source} (h : s.Steady) {room : Nat} (hroom : 0 < room) :
    ∃ bytes s', s.read room = (.ok bytes, s') ∧ s'.Steady ∧ s.pending = bytes ++ s'.pending ∧
      (bytes = [] → s.pending = []) := by
  have hp := read_pending s room
  unfold Source.read at hp ⊢
  by_cases hthrough : s.buffered.isEmpty ∧ s.readAhead ≤ room
  · obtain ⟨bytes, s', hr, hs, hb, he⟩ := h.readThrough hroom
    rw [if_pos hthrough, hr] at hp
    rw [if_pos hthrough]
    refine ⟨bytes, s', hr, hs, hp, fun hnil => ?_⟩
    rw [pending, List.isEmpty_iff.1 hthrough.1, he hnil]
    rfl
  · rw [if_neg hthrough] at hp ⊢
    -- an empty buffer is not read around only if it is larger than the room
    have hfill : ∃ s', s.fillBuffer = (.ok (), s') ∧ s'.Steady ∧
        (s'.buffered = [] → s.pending = []) := by
      by_cases hbuf : s.buffered.isEmpty
      · exact h.fillBuffer (Nat.lt_trans hroom (Nat.lt_of_not_le fun hle => hthrough ⟨hbuf, hle⟩))
      · exact ⟨s, by rw [Source.fillBuffer, if_neg hbuf], h, fun hnil => absurd (by rw [hnil]; rfl) hbuf⟩
    obtain ⟨s', hf, hs, he⟩ := hfill
    rw [hf] at hp ⊢
    refine ⟨_, _, rfl, ⟨hs.segments, hs.pace, hs.refusal⟩, hp, fun hnil => ?_⟩
    rcases List.take_eq_nil_iff.1 hnil with h0 | h0
    · omega
    · exact he h0

end Source.Steady

/-! ## Feeds -/

/-- A steady source, and no limit on the bytes it delivers. -/
structure Feed.Steady (f : Feed) : Prop where
  source : f.source.Steady
  unlimited : f.account.maxRequestSize = none
  unspent : f.account.overrun = none

/-- The same parts counted, against the same limit. -/
structure Account.SameParts (a b : Account) : Prop where
  parts : b.parts = a.parts
  maxParts : b.maxParts = a.maxParts

namespace Account

theorem SameParts.refl (a : Account) : a.SameParts a := ⟨rfl, rfl⟩

theorem SameParts.trans {a b c : Account} (h1 : a.SameParts b) (h2 : b.SameParts c) :
    a.SameParts c :=
  ⟨h2.parts.trans h1.parts, h2.maxParts.trans h1.maxParts⟩

@[simp] theorem report_parts (a : Account) : a.report.parts = a.parts := by
  unfold report; split <;> rfl

@[simp] theorem report_maxParts (a : Account) : a.report.maxParts = a.maxParts := by
  unfold report; split <;> rfl

@[simp] theorem report_maxRequestSize (a : Account) : a.report.maxRequestSize = a.maxRequestSize := by
  unfold report; split <;> rfl

@[simp] theorem report_overrun (a : Account) : a.report.overrun = a.overrun := by
  unfold report; split <;> rfl

/-- One more part may be counted. -/
def HasRoom (a : Account) : Prop :=
  ∀ limit, a.maxParts = some limit → a.parts < limit

theorem not_hasRoom_iff {a : Account} :
    ¬ a.HasRoom ↔ ∃ limit, a.maxParts = some limit ∧ limit ≤ a.parts := by
  unfold HasRoom
  rcases a.maxParts with _ | limit <;> simp

theorem hasRoom_of_unlimited {a : Account} (h : a.maxParts = none) : a.HasRoom := by
  intro limit hl
  cases h.symm.trans hl

theorem SameParts.hasRoom {a b : Account} (h : a.SameParts b) (ha : a.HasRoom) : b.HasRoom := by
  intro limit hl
  rw [h.parts]
  exact ha limit (h.maxParts.symm.trans hl)

theorem HasRoom.countPart {a : Account} (h : a.HasRoom) :
    a.countPart = (.ok (), ({ a with parts := a.parts + 1 } : Account).report) := by
  rcases hm : a.maxParts with _ | limit
  · simp only [Account.countPart, hm]
  · have hlimit : ¬ limit < a.parts + 1 := Nat.not_lt.2 (h limit hm)
    simp only [Account.countPart, hm, if_neg hlimit]

theorem countPart_error {a : Account} {limit : Nat} (hm : a.maxParts = some limit)
    (hl : limit ≤ a.parts) :
    a.countPart = (.error (.partCount limit), { a with parts := a.parts + 1 }) := by
  unfold Account.countPart
  simp only [hm]
  rw [if_pos (Nat.lt_succ_of_le hl)]

end Account

theorem Feed.Steady.read {f : Feed} (h : f.Steady) {room : Nat} (hroom : 0 < room) :
    ∃ bytes f', f.read room = (.ok bytes, f') ∧ f'.Steady ∧ f.account.SameParts f'.account ∧
      f.source.pending = bytes ++ f'.source.pending ∧ (bytes = [] → f.source.pending = []) := by
  obtain ⟨bytes, s', hr, hs, hp, he⟩ := h.source.read hroom
  unfold Feed.read
  simp only [h.unspent, hr]
  by_cases hb : bytes.isEmpty
  · rw [if_pos hb]
    rw [List.isEmpty_iff.1 hb] at hp he
    exact ⟨[], _, rfl, ⟨hs, h.unlimited, h.unspent⟩, .refl _, hp, he⟩
  · rw [if_neg hb]
    simp only [Account.countBytes, h.unlimited]
    refine ⟨bytes, _, rfl, ⟨hs, ?_, ?_⟩, ⟨?_, ?_⟩, hp, he⟩
    · exact Account.report_maxRequestSize _
    · exact (Account.report_overrun _).trans h.unspent
    · exact Account.report_parts _
    · exact Account.report_maxParts _

end FormData
