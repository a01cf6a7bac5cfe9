/-
Where content is on its way into the depot. A spool tells what content is in the making, an output where
its bytes are: in memory up to the threshold, and behind it in a temp file, but for those in the buffer
they go through. However content is cut into stretches, in the end all of it is in the one place or in
the other (`Output.store_eq`), which is where a part is kept that has this content
(`OpenPart.Yields.keep_eq_place`). A depot that is open and has its repository keeps every part so
(`keep_stores_content`).
-/
import FormData.Proofs.Depot.Keeping
import FormData.Proofs.Files.Contents
import FormData.Proofs.Session.Consumption

namespace FormData

/-! ## Depots that take temp files -/

namespace Depot

/-- The depot is open, and its repository is a directory whose path has room for the name of a temp
file. -/
structure IsReady (d : Depot) : Prop where
  isOpen : d.isShutDown = false
  repository : ∃ place, FileTree.onPath d.repository d.tree.find = .ok (place, .directory)
  room : (Path.join d.repository (tempName d.issued)).utf8ByteSize ≤ Path.maxLength

theorem toList_tempName (issued : Nat) :
    (tempName issued).toList = "form-data-upload-00000-0000000000000000000-".toList ++
      (Nat.toDigits 10 issued ++ ".tmp".toList) := by
  have hnumber : toString issued = issued.repr := rfl
  unfold tempName
  rw [String.toList_append, String.toList_append, hnumber, Nat.toList_repr]
  exact List.append_assoc ..

theorem notMem_tempName {c : Char} (hdigit : c.isDigit = false)
    (hword : c ∉ "form-data-upload-00000-0000000000000000000-".toList) (hend : c ∉ ".tmp".toList)
    (issued : Nat) : c ∉ (tempName issued).toList := by
  have hnumber : c ∉ Nat.toDigits 10 issued := by
    intro hmem
    have htrue := Nat.isDigit_of_mem_toDigits (by decide) (by decide) hmem
    rw [hdigit] at htrue
    cases htrue
  rw [toList_tempName, List.mem_append, List.mem_append]
  rintro (h | h | h)
  · exact hword h
  · exact hnumber h
  · exact hend h

theorem tempName_isNormal (issued : Nat) : OutputName.IsNormal (tempName issued) := by
  refine ⟨?_, notMem_tempName (by decide) (by decide) (by decide) issued⟩
  rw [toList_tempName]
  rfl

/-- A repository that is a directory takes the next temp file. -/
theorem IsReady.spills {d : Depot} (h : d.IsReady) : d.Spills := by
  refine ⟨h.isOpen, ?_⟩
  obtain ⟨place, hplace⟩ := h.repository
  obtain ⟨hread, hfind⟩ := FileTree.onPath_ok hplace
  have hname := tempName_isNormal d.issued
  obtain ⟨habsolute, hsteps⟩ := @Path.steps_join d.repository _ (Path.head?_plain hname)
  rw [Path.steps_plain hname] at hsteps
  have hlast : d.tree.lastStep (Path.ofText (Path.join d.repository (tempName d.issued))) =
      .ok (place, some (.name (tempName d.issued))) := by
    unfold FileTree.lastStep
    rw [hsteps, List.getLast?_concat, List.dropLast_concat, FileTree.start, habsolute]
    obtain ⟨hwalk, hdirectory⟩ := FileTree.walk_of_find hfind
    unfold FileTree.start at hwalk
    simp only [hwalk, hdirectory]
  unfold FileTree.accepts
  apply FileTree.onPath_of_read
  · have hnul : '\x00' ∉ (tempName d.issued).toList :=
      notMem_tempName (by decide) (by decide) (by decide) d.issued
    have hne : tempName d.issued ≠ "" := by
      intro hempty
      have hlist := toList_tempName d.issued
      rw [hempty] at hlist
      cases hlist
    exact Path.read_join hread hne hnul h.room
  · rw [hlast]
    rfl

end Depot

/-! ## Buffered writing -/

/-- Puts bytes behind those that a temp file has. -/
def Depot.appendTemp (d : Depot) (id : Nat) (bytes : Bytes) : Depot :=
  d.putTemp id ((d.temp? id).getD [] ++ bytes)

/-- A temp file and the bytes that are still to be written to it. -/
structure Writer where
  id : Nat
  buffered : Bytes := []
  deriving DecidableEq, Repr

namespace Writer

/-- How many bytes are buffered at the most. -/
def capacity : Nat := 8192

def flush (w : Writer) (d : Depot) : Writer × Depot :=
  ({ w with buffered := [] }, d.appendTemp w.id w.buffered)

/-- Buffers some bytes, behind writing out the buffer if they do not fit. As many as a buffer has are
written as they are. -/
def write (w : Writer) (d : Depot) (bytes : Bytes) : Writer × Depot :=
  let (w, d) := if capacity < w.buffered.length + bytes.length then w.flush d else (w, d)
  if capacity ≤ bytes.length then (w, d.appendTemp w.id bytes)
  else ({ w with buffered := w.buffered ++ bytes }, d)

end Writer

/-- Content in the making, where its bytes are. -/
structure Output where
  written : Nat := 0
  memory : Bytes := []
  /-- The temp file, once there is one. -/
  writer : Option Writer := none
  deriving DecidableEq, Repr

namespace Output

/-- Moves what is in memory to a new temp file. -/
def spill (o : Output) (d : Depot) : Except Error Output × Depot :=
  match d.newTemp with
  | (.error e, d) => (.error e, d)
  | (.ok id, d) =>
    let (writer, d) := Writer.write { id } d o.memory
    (.ok { o with memory := [], writer := some writer }, d)

/-- Puts some bytes where the content is. -/
def append (o : Output) (d : Depot) (bytes : Bytes) : Output × Depot :=
  match o.writer with
  | none => ({ o with memory := o.memory ++ bytes, written := o.written + bytes.length }, d)
  | some writer =>
    let (writer, d) := writer.write d bytes
    ({ o with writer := some writer, written := o.written + bytes.length }, d)

def write (o : Output) (d : Depot) (bytes : Bytes) : Except Error Output × Depot :=
  if o.writer.isNone ∧ d.threshold < o.written + bytes.length then
    match o.spill d with
    | (.error e, d) => (.error e, d)
    | (.ok o, d) => let (o, d) := o.append d bytes; (.ok o, d)
  else let (o, d) := o.append d bytes; (.ok o, d)

def writeAll (o : Output) (d : Depot) : List Bytes → Except Error Output × Depot
  | [] => (.ok o, d)
  | bytes :: rest =>
    match o.write d bytes with
    | (.error e, d) => (.error e, d)
    | (.ok o, d) => o.writeAll d rest

def finish (o : Output) (d : Depot) : Storage × Depot :=
  match o.writer with
  | none => (.memory o.memory, d)
  | some writer => (.temp writer.id, (writer.flush d).2)

/-- Content that comes in these stretches, from the first to the last. -/
def store (d : Depot) (stretches : List Bytes) : Except Error Storage × Depot :=
  match ({} : Output).writeAll d stretches with
  | (.error e, d) => (.error e, d)
  | (.ok o, d) => let (storage, d) := o.finish d; (.ok storage, d)

end Output

/-! ## All of it in one place -/

variable {d d' : Depot} {w : Writer} {o : Output} {content : Bytes}

theorem Depot.Numbered.appendTemp_withTemp (h : d.Numbered) (file bytes : Bytes) :
    (d.withTemp file).appendTemp d.issued bytes = d.withTemp (file ++ bytes) := by
  unfold Depot.appendTemp
  rw [h.temp?_withTemp, h.putTemp_withTemp]
  rfl

namespace Writer

/-- The file made last has the content but for the end of it, which is buffered. -/
structure Holds (w : Writer) (content : Bytes) (d d' : Depot) : Prop where
  id : w.id = d.issued
  file : ∃ file, d' = d.withTemp file ∧ file ++ w.buffered = content

theorem Holds.flush (h : w.Holds content d d') (hd : d.Numbered) :
    w.flush d' = ({ id := d.issued }, d.withTemp content) := by
  obtain ⟨hid, file, rfl, hcontent⟩ := h
  unfold Writer.flush
  rw [hid, hd.appendTemp_withTemp, hcontent]

theorem Holds.write (h : w.Holds content d d') (hd : d.Numbered) (bytes : Bytes) :
    (w.write d' bytes).1.Holds (content ++ bytes) d (w.write d' bytes).2 := by
  have hempty : Holds { id := d.issued } content d (d.withTemp content) :=
    ⟨rfl, content, rfl, List.append_nil _⟩
  -- once written out, the buffer takes the bytes or is passed by
  have hlast : ∀ {w : Writer} {d' : Depot}, w.Holds content d d' →
      (capacity ≤ bytes.length → w.buffered = []) →
      let r := if capacity ≤ bytes.length then (w, d'.appendTemp w.id bytes)
        else ({ w with buffered := w.buffered ++ bytes }, d')
      r.1.Holds (content ++ bytes) d r.2 := by
    rintro w d' ⟨hid, file, rfl, hcontent⟩ hpassed
    simp only
    split
    · rename_i hle
      rw [hpassed hle, List.append_nil] at hcontent
      rw [hid, hd.appendTemp_withTemp, hcontent]
      exact ⟨hid, content ++ bytes, rfl, by rw [hpassed hle, List.append_nil]⟩
    · exact ⟨hid, file, rfl, by rw [← hcontent, List.append_assoc]⟩
  unfold Writer.write
  by_cases hfull : capacity < w.buffered.length + bytes.length
  · rw [if_pos hfull, h.flush hd]
    exact hlast hempty fun _ => rfl
  · rw [if_neg hfull]
    refine hlast h fun hle => List.eq_nil_of_length_eq_zero ?_
    omega

end Writer

/-- Where a depot puts some content. -/
def Depot.place (d : Depot) (content : Bytes) : Except Error Storage × Depot :=
  if content.length ≤ d.threshold then (.ok (.memory content), d)
  else match d.newTemp with
    | (.error e, d) => (.error e, d)
    | (.ok id, _) => (.ok (.temp id), d.withTemp content)

theorem Depot.Spills.place (hs : d.Spills) (hlt : d.threshold < content.length) :
    d.place content = (.ok (.temp d.issued), d.withTemp content) := by
  unfold Depot.place
  rw [if_neg (Nat.not_le.2 hlt)]
  obtain ⟨-, hnew⟩ | ⟨hrefused, -⟩ := d.newTemp_cases
  · rw [hnew]
  · exact absurd hs hrefused

theorem Depot.place_of_refused {e : Error} (hnew : d.newTemp = (.error e, d))
    (hlt : d.threshold < content.length) : d.place content = (.error e, d) := by
  unfold Depot.place
  rw [if_neg (Nat.not_le.2 hlt), hnew]

namespace Output

/-- The content so far is in memory, or has passed the threshold and is in a temp file of its own but
for what is buffered. -/
structure Carries (o : Output) (content : Bytes) (d d' : Depot) : Prop where
  written : o.written = content.length
  place : (o.writer = none ∧ o.memory = content ∧ d' = d ∧ content.length ≤ d.threshold) ∨
    (d.Spills ∧ d.threshold < content.length ∧ ∃ w, o.writer = some w ∧ w.Holds content d d')

theorem carries_nothing (d : Depot) : Carries {} [] d d :=
  ⟨rfl, .inl ⟨rfl, rfl, rfl, Nat.zero_le _⟩⟩

theorem Carries.threshold (h : o.Carries content d d') : d'.threshold = d.threshold := by
  obtain ⟨-, ⟨-, -, rfl, -⟩ | ⟨-, -, w, -, hw⟩⟩ := h
  · rfl
  · obtain ⟨file, rfl, -⟩ := hw.file
    rfl

theorem Carries.in_memory (h : o.Carries content d d') (hwriter : o.writer = none) :
    o.memory = content ∧ d' = d := by
  obtain ⟨-, ⟨-, hmemory, hdepot, -⟩ | ⟨-, -, w, hsome, -⟩⟩ := h
  · exact ⟨hmemory, hdepot⟩
  · rw [hwriter] at hsome
    cases hsome

theorem Carries.append_memory (h : o.Carries content d d') (hwriter : o.writer = none) {bytes : Bytes}
    (hfits : (content ++ bytes).length ≤ d.threshold) :
    (o.append d' bytes).1.Carries (content ++ bytes) d (o.append d' bytes).2 := by
  obtain ⟨hmemory, rfl⟩ := h.in_memory hwriter
  unfold Output.append
  rw [hwriter]
  constructor
  · rw [List.length_append, ← h.written]
  · exact .inl ⟨rfl, by rw [hmemory], rfl, hfits⟩

theorem carries_append_writer (hwritten : o.written = content.length) (hwriter : o.writer = some w)
    (hw : w.Holds content d d') (hd : d.Numbered) (hs : d.Spills) {bytes : Bytes}
    (hpast : d.threshold < (content ++ bytes).length) :
    (o.append d' bytes).1.Carries (content ++ bytes) d (o.append d' bytes).2 := by
  unfold Output.append
  rw [hwriter]
  constructor
  · rw [List.length_append, ← hwritten]
  · exact .inr ⟨hs, hpast, _, rfl, hw.write hd bytes⟩

/-- What was in memory when the threshold is passed is in the temp file then, if one can be made. -/
theorem Carries.spill (h : o.Carries content d d') (hwriter : o.writer = none) (hd : d.Numbered) :
    (d.Spills ∧ ∃ w d'', o.spill d' = (.ok { o with memory := [], writer := some w }, d'') ∧
      w.Holds content d d'') ∨
    ∃ e, d.newTemp = (.error e, d) ∧ o.spill d' = (.error e, d) := by
  obtain ⟨rfl, rfl⟩ := h.in_memory hwriter
  obtain ⟨hs, hnew⟩ | ⟨-, e, hnew⟩ := d'.newTemp_cases
  · have hempty : Writer.Holds { id := d'.issued } [] d' (d'.withTemp []) := ⟨rfl, [], rfl, rfl⟩
    refine .inl ⟨hs, _, _, ?_, hempty.write hd o.memory⟩
    unfold Output.spill
    rw [hnew]
  · refine .inr ⟨e, hnew, ?_⟩
    unfold Output.spill
    rw [hnew]

/-- One more stretch is carried as well, unless it would be the one to pass the threshold and there is
no file to be had. Once there is a file it is used to the end. -/
theorem Carries.write (h : o.Carries content d d') (hd : d.Numbered) (bytes : Bytes) :
    (∃ o' d'', o.write d' bytes = (.ok o', d'') ∧ o'.Carries (content ++ bytes) d d'') ∨
    (d.threshold < (content ++ bytes).length ∧
      ∃ e, d.newTemp = (.error e, d) ∧ o.write d' bytes = (.error e, d)) := by
  have hlength : (content ++ bytes).length = o.written + bytes.length := by
    rw [List.length_append, h.written]
  unfold Output.write
  rw [h.threshold, ← hlength]
  by_cases hpasses : o.writer.isNone ∧ d.threshold < (content ++ bytes).length
  · obtain ⟨hnone, hpast⟩ := hpasses
    rw [if_pos ⟨hnone, hpast⟩]
    obtain ⟨hs, w, d₁, hspill, hw⟩ | ⟨e, hnew, hspill⟩ := h.spill (Option.isNone_iff_eq_none.1 hnone) hd
    · have hwritten : { o with memory := [], writer := some w }.written = content.length := h.written
      rw [hspill]
      exact .inl ⟨_, _, rfl, carries_append_writer hwritten rfl hw hd hs hpast⟩
    · rw [hspill]
      exact .inr ⟨hpast, e, hnew, rfl⟩
  · rw [if_neg hpasses]
    refine .inl ⟨_, _, rfl, ?_⟩
    obtain ⟨hwriter, -⟩ | ⟨hs, hlt, w, hwriter, hw⟩ := h.place
    · apply h.append_memory hwriter
      rw [not_and, Nat.not_lt] at hpasses
      exact hpasses (by rw [hwriter]; rfl)
    · apply carries_append_writer h.written hwriter hw hd hs
      exact Nat.lt_of_lt_of_le hlt (List.prefix_append content bytes).length_le

/-- By induction on the stretches: all of them are carried, unless there is no file to be had. -/
theorem Carries.writeAll (h : o.Carries content d d') (hd : d.Numbered) (stretches : List Bytes) :
    (∃ o' d'', o.writeAll d' stretches = (.ok o', d'') ∧
      o'.Carries (content ++ stretches.flatten) d d'') ∨
    (d.threshold < (content ++ stretches.flatten).length ∧
      ∃ e, d.newTemp = (.error e, d) ∧ o.writeAll d' stretches = (.error e, d)) := by
  induction stretches generalizing o content d' with
  | nil => exact .inl ⟨o, d', rfl, by rwa [List.flatten_nil, List.append_nil]⟩
  | cons bytes rest ih =>
    rw [List.flatten_cons, ← List.append_assoc, Output.writeAll]
    obtain ⟨o₁, d₁, hwrite, hcarries⟩ | ⟨hpast, e, hnew, hwrite⟩ := h.write hd bytes
    · rw [hwrite]
      exact ih hcarries
    · rw [hwrite]
      refine .inr ⟨Nat.lt_of_lt_of_le hpast ?_, e, hnew, rfl⟩
      exact (List.prefix_append (content ++ bytes) rest.flatten).length_le

theorem Carries.finish (h : o.Carries content d d') (hd : d.Numbered) :
    ((.ok (o.finish d').1, (o.finish d').2) : Except Error Storage × Depot) = d.place content := by
  unfold Output.finish
  obtain ⟨hwriter, hmemory, rfl, hle⟩ | ⟨hs, hlt, w, hwriter, hw⟩ := h.place
  · rw [Depot.place, if_pos hle, hwriter, hmemory]
  · rw [hs.place hlt, hwriter]
    simp only [hw.flush hd, hw.id]

/-- However content is cut into stretches, it ends up where the depot puts the whole. -/
theorem store_eq (hd : d.Numbered) (stretches : List Bytes) :
    store d stretches = d.place stretches.flatten := by
  unfold store
  obtain ⟨o, d', hall, hcarries⟩ | ⟨hpast, e, hnew, hall⟩ := (carries_nothing d).writeAll hd stretches
  · simp only [hall]
    exact hcarries.finish hd
  · simp only [hall]
    exact (Depot.place_of_refused hnew hpast).symm

end Output

/-! ## Parts in the depot -/

theorem Depot.Numbered.unused (h : d.Numbered) : d.temp? d.issued = none ∧ d.issued ∉ d.tracked := by
  constructor
  · unfold Depot.temp?
    rw [List.lookup_eq_none_iff]
    intro t ht
    have hlt := h.temps t ht
    simp only [bne_iff_ne, ne_eq]
    omega
  · intro hmem
    exact Nat.lt_irrefl _ (h.tracked _ hmem)

/-- Keeping a part puts its content where any stretches of it end up. -/
theorem OpenPart.Yields.keep_eq_place {p : OpenPart} (h : p.Yields content) {name : Option String}
    (hname : p.fileName = .ok name) (hd : d.Numbered) :
    ∃ q, p.keep d = ((d.place content).1.map (p.toItem name content.length), q,
      (d.place content).2) := by
  obtain ⟨hle, q, -, hkeep⟩ | ⟨hlt, hs, q, -, hkeep⟩ | ⟨hlt, -, e, q, hnew, hkeep⟩ := h.keep hname hd
  · rw [Depot.place, if_pos hle]
    exact ⟨q, hkeep⟩
  · rw [hs.place hlt]
    exact ⟨q, hkeep⟩
  · rw [Depot.place_of_refused hnew hlt]
    exact ⟨q, hkeep⟩

/-- The item has the content where it belongs: in memory, which leaves the depot alone, or in one new
temp file that is tracked. -/
structure Item.Stored (i : Item) (content : Bytes) (d d' : Depot) : Prop where
  size : i.size = content.length
  reads : i.content d' = .ok content
  inMemory : i.isInMemory = true ↔ content.length ≤ d.threshold
  untouched : content.length ≤ d.threshold → d' = d
  inFile : d.threshold < content.length → i.storage = .temp d.issued ∧ d.temp? d.issued = none ∧
    d.issued ∉ d.tracked ∧ d' = d.withTemp content

/-- A depot that takes temp files puts any content where it belongs. -/
theorem Depot.IsReady.stored (h : d.IsReady) (hd : d.Numbered) (p : OpenPart) (name : Option String)
    (content : Bytes) : ∃ storage d', d.place content = (.ok storage, d') ∧
      (p.toItem name content.length storage).Stored content d d' := by
  by_cases hle : content.length ≤ d.threshold
  · refine ⟨.memory content, d, if_pos hle, rfl, rfl, ?_, fun _ => rfl, ?_⟩
    · exact ⟨fun _ => hle, fun _ => rfl⟩
    · exact fun hlt => absurd hle (Nat.not_le.2 hlt)
  · have hlt := Nat.lt_of_not_le hle
    obtain ⟨hnew, huntracked⟩ := hd.unused
    refine ⟨.temp d.issued, d.withTemp content, h.spills.place hlt, rfl, ?_, ?_, ?_, ?_⟩
    · simp only [Item.content, OpenPart.toItem, hd.temp?_withTemp]
    · exact ⟨fun hmemory => Bool.noConfusion hmemory, fun hle' => absurd hle' hle⟩
    · exact fun hle' => absurd hle' hle
    · exact fun _ => ⟨rfl, hnew, huntracked, rfl⟩

/-- A part whose content can be read to its end is kept with it in a depot that takes temp files,
whatever the threshold is and whatever reads the content comes by: what is stored is what any stretches
of that content end up as. -/
theorem keep_stores_content {s : Session} {p q : OpenPart} {rooms : Nat → Nat} {name : Option String}
    (hpart : s.nextPart = .ok p) (hrooms : ∀ i, 0 < rooms i)
    (hcontent : p.drain rooms 0 = ((content, none), q)) (hname : p.fileName = .ok name)
    (hd : d.Numbered) (hready : d.IsReady) :
    ∃ item q' d', p.keep d = (.ok item, q', d') ∧
      item = p.toItem name content.length item.storage ∧ item.Stored content d d' ∧
      ∀ stretches : List Bytes, stretches.flatten = content →
        Output.store d stretches = (.ok item.storage, d') := by
  have hyields : p.Yields content := OpenPart.yields_of_drain hrooms
    (Session.nextPart_reading hpart) (Session.nextPart_unread hpart).2 hcontent
  obtain ⟨q', hkeep⟩ := hyields.keep_eq_place hname hd
  obtain ⟨storage, d', hplace, hstored⟩ := hready.stored hd p name content
  rw [hplace] at hkeep
  refine ⟨_, q', d', hkeep, rfl, hstored, ?_⟩
  rintro stretches rfl
  rw [Output.store_eq hd, hplace]
  rfl

/-- A body with four bytes of content in its one part, cut in the middle of them. -/
def cutContent : Source where
  transport := { segments := [.data (Utf8.encode "--B\r\n\r\na"), .data (Utf8.encode "bc"),
    .data (Utf8.encode "d\r\n--B--")] }

/-- A depot with a temp file of another item. -/
def occupied (threshold : Nat) : Depot where
  tree := { nodes := [(["tmp"], .directory)] }
  repository := "/tmp"
  threshold := threshold
  temps := [(0, [120])]
  tracked := [0]
  issued := 1

/-- The four bytes are in memory as long as the threshold is four, and in a second temp file below it. -/
theorem keep_stores_content_atThreshold :
    ∃ s p, Session.open? cutContent [66] {} = .ok s ∧ s.nextPart = .ok p ∧
      (∃ item q', p.keep (occupied 4) = (.ok item, q', occupied 4) ∧ item.isInMemory = true ∧
        item.content (occupied 4) = .ok [97, 98, 99, 100]) ∧
      ∃ item q' d', p.keep (occupied 3) = (.ok item, q', d') ∧ item.storage = .temp 1 ∧
        d'.temps = [(0, [120]), (1, [97, 98, 99, 100])] ∧ d'.tracked = [0, 1] ∧
        Output.store (occupied 3) [[97], [98, 99], [], [100]] = (.ok (.temp 1), d') := by
  obtain ⟨s, hs⟩ : ∃ s, Session.open? cutContent [66] {} = .ok s := ⟨_, rfl⟩
  obtain ⟨p, hp, hname, hcontent⟩ : ∃ p, s.nextPart = .ok p ∧ p.head.rawFileName = none ∧
      (p.drain (fun _ => 3) 0).1 = ([97, 98, 99, 100], none) := by
    have hrun : (match s.nextPart with
        | .ok p => decide (p.head.rawFileName = none ∧
            (p.drain (fun _ => 3) 0).1 = ([97, 98, 99, 100], none))
        | .error _ => false) = true := by
      cases hs
      decide +kernel
    cases hp : s.nextPart with
    | error e =>
      rw [hp] at hrun
      cases hrun
    | ok p =>
      rw [hp] at hrun
      exact ⟨p, rfl, of_decide_eq_true hrun⟩
  have hrepository : FileTree.onPath "/tmp" (FileTree.find { nodes := [(["tmp"], .directory)] }) =
      .ok (["tmp"], .directory) := by
    apply FileTree.onPath_of_read
    · rfl
    · rfl
  have hready : ∀ threshold, (occupied threshold).Numbered ∧ (occupied threshold).IsReady := by
    intro threshold
    refine ⟨⟨?_, ?_⟩, rfl, ⟨["tmp"], hrepository⟩, ?_⟩
    · simp [occupied]
    · simp [occupied]
    · show (Path.join "/tmp" (Depot.tempName 1)).utf8ByteSize ≤ Path.maxLength
      decide +kernel
  have hfileName : p.fileName = .ok none := by
    unfold OpenPart.fileName
    rw [hname]
  have hdrain : p.drain (fun _ => 3) 0 = (([97, 98, 99, 100], none), (p.drain (fun _ => 3) 0).2) :=
    Prod.ext hcontent rfl
  have hkept : ∀ threshold, ∃ item q' d', p.keep (occupied threshold) = (.ok item, q', d') ∧
      item.Stored [97, 98, 99, 100] (occupied threshold) d' ∧
      ∀ stretches : List Bytes, stretches.flatten = [97, 98, 99, 100] →
        Output.store (occupied threshold) stretches = (.ok item.storage, d') := by
    intro threshold
    obtain ⟨hd, hr⟩ := hready threshold
    obtain ⟨item, q', d', hkeep, -, hstored, hany⟩ :=
      keep_stores_content hp (fun _ => Nat.succ_pos 2) hdrain hfileName hd hr
    exact ⟨item, q', d', hkeep, hstored, hany⟩
  refine ⟨s, p, hs, hp, ?_, ?_⟩
  · obtain ⟨item, q', d', hkeep, hstored, -⟩ := hkept 4
    obtain rfl := hstored.untouched (Nat.le_refl 4)
    exact ⟨item, q', hkeep, hstored.inMemory.2 (Nat.le_refl 4), hstored.reads⟩
  · obtain ⟨item, q', d', hkeep, hstored, hany⟩ := hkept 3
    obtain ⟨hstorage, -, -, rfl⟩ := hstored.inFile (Nat.le_refl 4)
    refine ⟨item, q', _, hkeep, hstorage, rfl, rfl, ?_⟩
    rw [hany _ rfl, hstorage]
    rfl

end FormData
