/-
Sources read and sniffed in turn. Sniffing fills the buffer and hands nothing out; a read drains what the
buffer holds, or passes by an empty buffer when it has room for a whole block. So how the bytes are cut into
reads depends on where a source is sniffed, but the bytes do not: whatever the order of the accesses, what
the reads hand out is what was pending, from its front (`accessAll_serves`), and up to the end of a captured
file it is the file (`sniffing_consumes_nothing`).
-/
import FormData.Proofs.Body.Captured

namespace FormData

namespace Source

/-- What can be asked of a source. -/
inductive Access where
  | sniff
  | read (room : Nat)
  deriving DecidableEq, Repr

/-- What it answers. -/
inductive Reply where
  | boundary (result : Except IoError (Option Bytes))
  | bytes (result : Except IoError Bytes)

def access (s : Source) : Access → Reply × Source
  | .sniff => (.boundary s.sniffBoundary.1, s.sniffBoundary.2)
  | .read room => (.bytes (s.read room).1, (s.read room).2)

/-- The replies to one access after the other. -/
def accessAll (s : Source) : List Access → List Reply × Source
  | [] => ([], s)
  | a :: rest =>
    let run := (s.access a).2.accessAll rest
    ((s.access a).1 :: run.1, run.2)

/-- The room of a read. -/
def Access.room? : Access → Option Nat
  | .sniff => none
  | .read room => some room

/-- The reads among the accesses, by their room. -/
def reads (calls : List Access) : List Nat :=
  calls.filterMap Access.room?

namespace Reply

def Succeeds : Reply → Prop
  | .boundary result => ∃ boundary, result = .ok boundary
  | .bytes result => ∃ bytes, result = .ok bytes

/-- The reply of a read at the end of the body. -/
def IsEnd (reply : Reply) : Prop :=
  reply = .bytes (.ok [])

instance : DecidablePred IsEnd
  | .bytes (.ok []) => isTrue rfl
  | .bytes (.ok (_ :: _)) => isFalse nofun
  | .bytes (.error _) => isFalse nofun
  | .boundary _ => isFalse nofun

def delivered : Reply → Bytes
  | .boundary _ => []
  | .bytes result => Source.delivered result

end Reply

/-- The bytes that the reads handed out, in one piece. -/
def handedOut (replies : List Reply) : Bytes :=
  replies.flatMap Reply.delivered

/-! ## One access -/

theorem readThrough_readAhead (s : Source) (room : Nat) :
    (s.readThrough room).2.readAhead = s.readAhead := rfl

theorem fillBuffer_readAhead (s : Source) : s.fillBuffer.2.readAhead = s.readAhead := by
  have ht := s.readThrough_readAhead s.readAhead
  unfold fillBuffer
  split
  · rcases h : s.readThrough s.readAhead with ⟨e | bytes, s'⟩ <;> rw [h] at ht <;> exact ht
  · rfl

theorem read_readAhead (s : Source) (room : Nat) : (s.read room).2.readAhead = s.readAhead := by
  have hf := s.fillBuffer_readAhead
  unfold read
  split
  · exact s.readThrough_readAhead room
  · rcases h : s.fillBuffer with ⟨e | ⟨⟩, s'⟩ <;> rw [h] at hf <;> exact hf

theorem sniffBoundary_source (s : Source) : s.sniffBoundary.2 = s.fillBuffer.2 := by
  unfold sniffBoundary
  rcases s.fillBuffer with ⟨e | ⟨⟩, s'⟩ <;> rfl

theorem access_sniff (s : Source) :
    s.access .sniff = (.boundary s.sniffBoundary.1, s.sniffBoundary.2) := rfl

theorem access_read (s : Source) (room : Nat) :
    s.access (.read room) = (.bytes (s.read room).1, (s.read room).2) := rfl

/-- An access moves bytes from what is pending to what was handed out. -/
theorem access_pending (s : Source) (a : Access) :
    s.pending = (s.access a).1.delivered ++ (s.access a).2.pending := by
  cases a with
  | sniff =>
    rw [access_sniff, sniffBoundary_source, fillBuffer_pending]
    rfl
  | read room => exact s.read_pending room

/-- What a source read ahead is behind one access with room: it goes on delivering, and a read finds the end
only where nothing is pending. -/
structure Served (s : Source) (reply : Reply) (s' : Source) : Prop where
  steady : s'.Steady
  readAhead : 0 < s'.readAhead
  succeeds : reply.Succeeds
  ended : reply.IsEnd → s.pending = []

theorem Steady.access {s : Source} (h : s.Steady) (hahead : 0 < s.readAhead) {a : Access}
    (hroom : ∀ room, a.room? = some room → 0 < room) :
    s.Served (s.access a).1 (s.access a).2 := by
  cases a with
  | sniff =>
    obtain ⟨s', hf, hs, -⟩ := h.fillBuffer hahead
    have hahead' : s'.readAhead = s.readAhead := by
      rw [← s.fillBuffer_readAhead, hf]
    have hsniff : s.access .sniff = (.boundary (.ok (boundaryOfFirstLine s'.buffered)), s') := by
      rw [access_sniff, sniffBoundary, hf]
    rw [hsniff]
    exact ⟨hs, hahead' ▸ hahead, ⟨_, rfl⟩, nofun⟩
  | read room =>
    obtain ⟨bytes, s', hr, hs, -, hend⟩ := h.read (hroom room rfl)
    have hahead' : s'.readAhead = s.readAhead := by
      rw [← s.read_readAhead room, hr]
    have hread : s.access (.read room) = (.bytes (.ok bytes), s') := by
      rw [access_read, hr]
    rw [hread]
    refine ⟨hs, hahead' ▸ hahead, ⟨_, rfl⟩, fun he => hend ?_⟩
    cases he
    rfl

/-! ## Any number of them -/

theorem accessAll_cons (s : Source) (a : Access) (rest : List Access) :
    s.accessAll (a :: rest) = ((s.access a).1 :: ((s.access a).2.accessAll rest).1,
      ((s.access a).2.accessAll rest).2) := rfl

/-- What accesses have handed out is what was pending, from its front. -/
theorem accessAll_pending (s : Source) (calls : List Access) :
    s.pending = handedOut (s.accessAll calls).1 ++ (s.accessAll calls).2.pending := by
  induction calls generalizing s with
  | nil => rfl
  | cons a rest ih =>
    rw [accessAll_cons, s.access_pending a, ih (s.access a).2]
    simp [handedOut]

/-- What a run of accesses answers, and the source it leaves. -/
structure Serves (calls : List Access) (replies : List Reply) (s' : Source) : Prop where
  succeeds : ∀ reply ∈ replies, reply.Succeeds
  /-- A read that handed out nothing left nothing to the ones behind it. -/
  ended : (∃ reply ∈ replies, reply.IsEnd) → s'.pending = []
  /-- Every read before the end handed something out. -/
  counted : (∀ reply ∈ replies, ¬ reply.IsEnd) → (reads calls).length ≤ (handedOut replies).length

theorem serves_nil (s : Source) : Serves [] [] s :=
  ⟨nofun, fun ⟨_, hm, _⟩ => absurd hm List.not_mem_nil, fun _ => Nat.le_refl 0⟩

/-- An access before the end hands out a byte if it is a read. -/
theorem access_counted (s : Source) (a : Access) (hok : (s.access a).1.Succeeds)
    (hend : ¬ (s.access a).1.IsEnd) : (reads [a]).length ≤ (s.access a).1.delivered.length := by
  cases a with
  | sniff => exact Nat.zero_le _
  | read room =>
    obtain ⟨bytes, hr⟩ := hok
    have hne : bytes ≠ [] := by
      intro hnil
      apply hend
      rw [Reply.IsEnd, access_read, hr, hnil]
    have hdelivered : (s.access (.read room)).1.delivered = bytes := by
      rw [access_read, hr]
      rfl
    rw [hdelivered]
    exact List.length_pos_iff.2 hne

/-- By induction on the accesses: a source that delivers and reads ahead goes on doing so. -/
theorem accessAll_serves {s : Source} (h : s.Steady) (hahead : 0 < s.readAhead) {calls : List Access}
    (hrooms : ∀ room ∈ reads calls, 0 < room) :
    Serves calls (s.accessAll calls).1 (s.accessAll calls).2 := by
  induction calls generalizing s with
  | nil => exact serves_nil s
  | cons a rest ih =>
    have hfirst := h.access hahead (a := a) fun room hr =>
      hrooms room (List.mem_filterMap.2 ⟨a, List.mem_cons_self .., hr⟩)
    have hrest := ih hfirst.steady hfirst.readAhead fun room hr => by
      obtain ⟨b, hb, hr⟩ := List.mem_filterMap.1 hr
      exact hrooms room (List.mem_filterMap.2 ⟨b, List.mem_cons_of_mem _ hb, hr⟩)
    rw [accessAll_cons]
    refine ⟨?_, ?_, fun hnone => ?_⟩
    · intro reply hm
      rcases List.mem_cons.1 hm with rfl | hm
      · exact hfirst.succeeds
      · exact hrest.succeeds reply hm
    · rintro ⟨reply, hm, hend⟩
      rcases List.mem_cons.1 hm with rfl | hm
      · -- nothing was pending already
        have hnil := hfirst.ended hend
        rw [s.access_pending a, accessAll_pending (s.access a).2 rest] at hnil
        exact (List.append_eq_nil_iff.1 (List.append_eq_nil_iff.1 hnil).2).2
      · exact hrest.ended ⟨reply, hm, hend⟩
    · have hone := s.access_counted a hfirst.succeeds (hnone _ (List.mem_cons_self ..))
      have hmore := hrest.counted fun reply hm => hnone reply (List.mem_cons_of_mem _ hm)
      have hreads : reads (a :: rest) = reads [a] ++ reads rest :=
        List.filterMap_append (l := [a])
      rw [hreads, handedOut, List.flatMap_cons, List.length_append, List.length_append]
      exact Nat.add_le_add hone hmore

/-! ## Captured files -/

/-- A file without bytes is read as if nothing was left of it. -/
theorem access_ofFile_nil (a : Access) : (ofFile []).access a = (ofFile []).cutShort.access a := by
  have hthrough : ∀ room, (ofFile []).readThrough room = (ofFile []).cutShort.readThrough room :=
    fun _ => rfl
  have hfill : (ofFile []).fillBuffer = (ofFile []).cutShort.fillBuffer := rfl
  cases a with
  | sniff => rfl
  | read room =>
    rw [access_read, access_read, read, read, hthrough room, hfill]
    rfl

theorem steady_cutShort_nil : (ofFile []).cutShort.Steady := ⟨nofun, nofun, rfl⟩

theorem serves_ofFile (content : Bytes) {calls : List Access} (hrooms : ∀ room ∈ reads calls, 0 < room) :
    Serves calls ((ofFile content).accessAll calls).1 ((ofFile content).accessAll calls).2 := by
  have hahead : 0 < fileBlock := by decide
  by_cases hne : content = []
  · subst hne
    cases calls with
    | nil => exact serves_nil _
    | cons a rest =>
      have hs := accessAll_serves steady_cutShort_nil hahead hrooms
      rw [accessAll_cons] at hs ⊢
      rw [access_ofFile_nil]
      exact ⟨hs.succeeds, hs.ended, hs.counted⟩
  · exact accessAll_serves (steady_ofFile hne) hahead hrooms

/-- However a captured file is read and sniffed, no access fails. What the reads hand out is the file from
its front; once a read has come back empty it is the whole file, and no more reads than the file has bytes
hand something out. So where a file is sniffed between the same reads makes no difference to the bytes:
of two such readings one has at most gone further, and when both have come to the end they have handed out
the same. -/
theorem sniffing_consumes_nothing (content : Bytes) (calls : List Access)
    (hrooms : ∀ room ∈ reads calls, 0 < room) :
    let replies := fun calls => ((ofFile content).accessAll calls).1
    (∀ reply ∈ replies calls, reply.Succeeds) ∧
    handedOut (replies calls) <+: content ∧
    ((∃ reply ∈ replies calls, reply.IsEnd) → handedOut (replies calls) = content) ∧
    (content.length < (reads calls).length → ∃ reply ∈ replies calls, reply.IsEnd) ∧
    ∀ others, reads others = reads calls →
      (handedOut (replies calls) <+: handedOut (replies others) ∨
        handedOut (replies others) <+: handedOut (replies calls)) ∧
      ((∃ reply ∈ replies calls, reply.IsEnd) → (∃ reply ∈ replies others, reply.IsEnd) →
        handedOut (replies others) = handedOut (replies calls)) := by
  intro replies
  have hsplit : ∀ calls, handedOut (replies calls) ++ ((ofFile content).accessAll calls).2.pending =
      content := fun calls => (accessAll_pending _ calls).symm.trans (pending_ofFile content)
  have hfront : ∀ calls, handedOut (replies calls) <+: content := fun calls => ⟨_, hsplit calls⟩
  have hwhole : ∀ calls, (∀ room ∈ reads calls, 0 < room) → (∃ reply ∈ replies calls, reply.IsEnd) →
      handedOut (replies calls) = content := by
    intro calls hrooms hend
    have h := hsplit calls
    rwa [(serves_ofFile content hrooms).ended hend, List.append_nil] at h
  refine ⟨(serves_ofFile content hrooms).succeeds, hfront calls, hwhole calls hrooms, fun hmany => ?_,
    fun others hreads => ⟨List.prefix_or_prefix_of_prefix (hfront calls) (hfront others),
      fun hend hend' => ?_⟩⟩
  · refine Classical.byContradiction fun hnone => ?_
    have hcounted := (serves_ofFile content hrooms).counted fun reply hm he => hnone ⟨reply, hm, he⟩
    exact absurd (Nat.le_trans hcounted (hfront calls).length_le) (Nat.not_le.2 hmany)
  · rw [hwhole calls hrooms hend, hwhole others (hreads ▸ hrooms) hend']

/-- Reads with more room than a block, of a file a few bytes longer than one: sniffed first, it comes in two
pieces; not sniffed before the first read, in one. -/
theorem sniffing_consumes_nothing_long :
    let content := List.replicate 8200 120
    let calls := [.sniff, .read 9000, .read 9000, .sniff, .read 1]
    let others := [.read 9000, .sniff, .read 9000, .read 1]
    let replies := fun calls => ((ofFile content).accessAll calls).1
    (∀ room ∈ reads calls, 0 < room) ∧ reads others = reads calls ∧
    (replies calls).map (·.delivered.length) = [0, 8192, 8, 0, 0] ∧
    (replies others).map (·.delivered.length) = [8200, 0, 0, 0] ∧
    handedOut (replies calls) = content ∧ handedOut (replies others) = handedOut (replies calls) := by
  intro content calls others replies
  have hrooms : ∀ room ∈ reads calls, 0 < room := by decide
  have hend : ∃ reply ∈ replies calls, reply.IsEnd := by decide +kernel
  have hend' : ∃ reply ∈ replies others, reply.IsEnd := by decide +kernel
  obtain ⟨-, -, hwhole, -, hsame⟩ := sniffing_consumes_nothing content calls hrooms
  exact ⟨hrooms, rfl, by decide +kernel, by decide +kernel, hwhole hend, (hsame others rfl).2 hend hend'⟩

end Source

end FormData
