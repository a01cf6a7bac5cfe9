/-
What keeping a part does to the depot. Content that stays within the threshold leaves the depot alone;
one that passes it ends up in a temp file of its own, with a number that no file had before
(`Depot.withTemp`). A part that cannot be kept leaves the depot as it was, but for the number of a file
that was made for it (`keep_error`). Which of these it is depends on the content, its name and the
depot, not on how the content came (`Yields.keep`).
-/
import FormData.Proofs.Session.Contents

namespace FormData

/-! ## Temp files -/

namespace Depot

/-- Temp files have the numbers given out so far. -/
structure Numbered (d : Depot) : Prop where
  temps : ∀ t ∈ d.temps, t.1 < d.issued
  tracked : ∀ id ∈ d.tracked, id < d.issued

/-- The depot with one more temp file. -/
def withTemp (d : Depot) (content : Bytes) : Depot :=
  { d with
    temps := d.temps ++ [(d.issued, content)]
    tracked := d.tracked ++ [d.issued]
    issued := d.issued + 1 }

/-- The depot is as it was, whatever numbers were given out meanwhile. -/
def Restored (d d' : Depot) : Prop :=
  ∃ issued, d.issued ≤ issued ∧ d' = { d with issued }

variable {d d' d'' : Depot} {id : Nat}

theorem Restored.refl (d : Depot) : d.Restored d := ⟨d.issued, Nat.le_refl _, rfl⟩

theorem Restored.trans (h1 : d.Restored d') (h2 : d'.Restored d'') : d.Restored d'' := by
  obtain ⟨n, hn, rfl⟩ := h1
  obtain ⟨m, hm, rfl⟩ := h2
  exact ⟨m, Nat.le_trans hn hm, rfl⟩

theorem Restored.numbered (h : d.Restored d') (hd : d.Numbered) : d'.Numbered := by
  obtain ⟨n, hn, rfl⟩ := h
  exact ⟨fun t ht => Nat.lt_of_lt_of_le (hd.temps t ht) hn,
    fun id hid => Nat.lt_of_lt_of_le (hd.tracked id hid) hn⟩

theorem Numbered.withTemp (h : d.Numbered) (content : Bytes) : (d.withTemp content).Numbered := by
  refine ⟨?_, ?_⟩
  · intro t ht
    rcases List.mem_append.1 ht with hold | hnew
    · exact Nat.lt_succ_of_lt (h.temps t hold)
    · rw [List.mem_singleton.1 hnew]
      exact Nat.lt_succ_self _
  · intro id hid
    rcases List.mem_append.1 hid with hold | hnew
    · exact Nat.lt_succ_of_lt (h.tracked id hold)
    · rw [List.mem_singleton.1 hnew]
      exact Nat.lt_succ_self _

/-- No temp file has a number that is not given out. -/
theorem Numbered.filter_temps (h : d.Numbered) (hid : d.issued ≤ id) :
    d.temps.filter (·.1 != id) = d.temps := by
  refine List.filter_eq_self.2 fun t ht => ?_
  have := h.temps t ht
  simp only [bne_iff_ne, ne_eq]
  omega

theorem Numbered.filter_tracked (h : d.Numbered) (hid : d.issued ≤ id) :
    d.tracked.filter (· != id) = d.tracked := by
  refine List.filter_eq_self.2 fun n hn => ?_
  have := h.tracked n hn
  simp only [bne_iff_ne, ne_eq]
  omega

/-- Writing the file made last leaves the others alone. -/
theorem Numbered.putTemp_withTemp (h : d.Numbered) (first content : Bytes) :
    (d.withTemp first).putTemp d.issued content = d.withTemp content := by
  unfold putTemp Depot.withTemp
  simp only [List.filter_append, h.filter_temps (Nat.le_refl _)]
  simp

/-- Without the file made last the depot is as it was. -/
theorem Numbered.dropTemp_withTemp (h : d.Numbered) (content : Bytes) :
    d.Restored ((d.withTemp content).dropTemp d.issued) := by
  refine ⟨d.issued + 1, Nat.le_succ _, ?_⟩
  unfold dropTemp Depot.withTemp
  simp only [List.filter_append, h.filter_temps (Nat.le_refl _), h.filter_tracked (Nat.le_refl _)]
  simp

theorem Numbered.temp?_withTemp (h : d.Numbered) (content : Bytes) :
    (d.withTemp content).temp? d.issued = some content := by
  rw [← h.putTemp_withTemp []]
  exact temp?_putTemp _ _ _

/-- A file is made whenever the depot is open and its repository takes the name. -/
def Spills (d : Depot) : Prop :=
  d.isShutDown = false ∧ d.tree.accepts d.repository (tempName d.issued) = .ok ()

theorem newTemp_cases (d : Depot) :
    (d.Spills ∧ d.newTemp = (.ok d.issued, d.withTemp [])) ∨
      (¬ d.Spills ∧ ∃ e, d.newTemp = (.error e, d)) := by
  by_cases hs : d.Spills
  · refine .inl ⟨hs, ?_⟩
    obtain ⟨hopen, haccepts⟩ := hs
    unfold newTemp
    rw [if_neg (by rw [hopen]; exact Bool.false_ne_true), haccepts]
    rfl
  · refine .inr ⟨hs, ?_⟩
    unfold newTemp
    split
    · exact ⟨_, rfl⟩
    · rename_i hopen
      split
      · exact ⟨_, rfl⟩
      · rename_i haccepts
        exact absurd ⟨by simpa using hopen, haccepts⟩ hs

theorem newTemp_closed (h : d.isShutDown = true) : d.newTemp = (.error .repositoryClosed, d) := by
  unfold newTemp
  rw [if_pos h]

end Depot

/-! ## Spools -/

namespace Spool

variable {s s' : Spool} {d : Depot} {bytes : Bytes}

/-- The content fits in memory, or there is a temp file for it already. -/
def Holds (s : Spool) (d : Depot) (count : Nat) : Prop :=
  s.temp ≠ none ∨ s.written + count ≤ d.threshold

theorem not_holds_iff {count : Nat} :
    ¬ s.Holds d count ↔ s.temp = none ∧ d.threshold < s.written + count := by
  unfold Holds
  rw [not_or, Decidable.not_not, Nat.not_le]

theorem Holds.mono {n m : Nat} (hle : n ≤ m) (h : s.Holds d m) : s.Holds d n := by
  obtain htemp | hwritten := h
  · exact .inl htemp
  · exact .inr (by omega)

theorem holds_add (bytes : Bytes) (count : Nat) :
    (s.add bytes).Holds d count ↔ s.Holds d (bytes.length + count) := by
  unfold Holds
  rw [← Nat.add_assoc]
  rfl

theorem write_of_holds (h : s.Holds d bytes.length) : s.write d bytes = (.ok (s.add bytes), d) := by
  unfold write
  rw [if_neg]
  rintro ⟨hnone, hlt⟩
  exact not_holds_iff.2 ⟨Option.isNone_iff_eq_none.1 hnone, hlt⟩ h

/-- What a spool does with some bytes: it takes them as they are, or makes a temp file for them, or
is refused one. -/
theorem write_cases (s : Spool) (d : Depot) (bytes : Bytes) :
    (s.Holds d bytes.length ∧ s.write d bytes = (.ok (s.add bytes), d)) ∨
    (¬ s.Holds d bytes.length ∧ d.Spills ∧
      s.write d bytes = (.ok { s.add bytes with temp := some d.issued }, d.withTemp [])) ∨
    (¬ s.Holds d bytes.length ∧ ¬ d.Spills ∧
      ∃ e, d.newTemp = (.error e, d) ∧ s.write d bytes = (.error e, d)) := by
  by_cases hs : s.Holds d bytes.length
  · exact .inl ⟨hs, write_of_holds hs⟩
  · right
    obtain ⟨hnone, hlt⟩ := not_holds_iff.1 hs
    unfold write
    rw [if_pos ⟨Option.isNone_iff_eq_none.2 hnone, hlt⟩]
    obtain ⟨hspills, hnew⟩ | ⟨hspills, e, hnew⟩ := d.newTemp_cases
    · exact .inl ⟨hs, hspills, by rw [hnew]⟩
    · exact .inr ⟨hs, hspills, e, hnew, by rw [hnew]⟩

/-- The spool with more content. -/
structure Filled (s : Spool) (more : Bytes) (s' : Spool) : Prop where
  content : s'.content = s.content ++ more
  written : s'.written = s.written + more.length

theorem Filled.refl (s : Spool) : s.Filled [] s := ⟨(List.append_nil _).symm, rfl⟩

theorem filled_add (s : Spool) (bytes : Bytes) (temp : Option Nat) :
    s.Filled bytes { s.add bytes with temp } :=
  ⟨by simp [content, add], rfl⟩

theorem Filled.trans {s'' : Spool} {rest : Bytes} (h1 : s.Filled bytes s')
    (h2 : s'.Filled rest s'') : s.Filled (bytes ++ rest) s'' := by
  refine ⟨?_, ?_⟩
  · rw [h2.content, h1.content, List.append_assoc]
  · rw [h2.written, h1.written, List.length_append, Nat.add_assoc]

end Spool

namespace OpenPart

variable {p q : OpenPart} {d d' : Depot} {s s' : Spool} {e : Error} {content : Bytes}

theorem spool_of_error (hr : p.read stretch = (.error e, q)) :
    p.spool d s = (.error e, q, s.abandon d) := by
  rw [OpenPart.spool]
  split <;> rename_i hr' <;> cases hr.symm.trans hr'
  rfl

theorem spool_of_end (hr : p.read stretch = (.ok [], q)) : p.spool d s = (.ok s, q, d) := by
  rw [OpenPart.spool]
  split <;> rename_i hr' <;> cases hr.symm.trans hr'
  rfl

theorem spool_of_written {b : UInt8} {bytes : Bytes} (hr : p.read stretch = (.ok (b :: bytes), q))
    (hw : s.write d (b :: bytes) = (.ok s', d')) : p.spool d s = q.spool d' s' := by
  rw [OpenPart.spool]
  split <;> rename_i hr' <;> cases hr.symm.trans hr'
  rw [hw]

theorem spool_of_refused {b : UInt8} {bytes : Bytes} (hr : p.read stretch = (.ok (b :: bytes), q))
    (hw : s.write d (b :: bytes) = (.error e, d')) : p.spool d s = (.error e, q, s.abandon d') := by
  rw [OpenPart.spool]
  split <;> rename_i hr' <;> cases hr.symm.trans hr'
  rw [hw]

/-- How the depot looks behind a spool. -/
def SpoolLeaves (s : Spool) (d : Depot) : Except Error Spool × OpenPart × Depot → Prop
  | (.ok s', _, d') =>
    (s'.temp = s.temp ∧ d' = d) ∨
      (s.temp = none ∧ s'.temp = some d.issued ∧ d.Spills ∧ d' = d.withTemp [])
  | (.error _, _, d') =>
    d' = s.abandon d ∨ (s.temp = none ∧ d' = (d.withTemp []).dropTemp d.issued)

/-- By induction on the reads: the file is made once, and dropped by a failure. -/
theorem spool_leaves (p : OpenPart) (d : Depot) (s : Spool) : SpoolLeaves s d (p.spool d s) := by
  fun_induction spool p d s with
  | case1 => exact .inl rfl
  | case2 => exact .inl ⟨rfl, rfl⟩
  | case3 p d s b bytes p' hr e d' hw =>
    obtain ⟨-, hw'⟩ | ⟨-, -, hw'⟩ | ⟨-, -, e', -, hw'⟩ := s.write_cases d (b :: bytes)
    · cases hw.symm.trans hw'
    · cases hw.symm.trans hw'
    · cases hw.symm.trans hw'
      exact .inl rfl
  | case4 p d s b bytes p' hr s' d' hw _ ih =>
    obtain ⟨-, hw'⟩ | ⟨hholds, hspills, hw'⟩ | ⟨-, -, e', -, hw'⟩ := s.write_cases d (b :: bytes)
    · cases hw.symm.trans hw'
      exact ih
    · -- from here on the spool has its file, and makes no other
      cases hw.symm.trans hw'
      have hnone := (Spool.not_holds_iff.1 hholds).1
      rcases hs : p'.spool (d.withTemp []) { s.add (b :: bytes) with temp := some d.issued } with
        ⟨e | s'', q, d''⟩ <;> rw [hs] at ih
      · obtain hdrop | ⟨hfalse, -⟩ := ih
        · exact .inr ⟨hnone, hdrop⟩
        · cases hfalse
      · obtain ⟨htemp, hdepot⟩ | ⟨hfalse, -⟩ := ih
        · exact .inr ⟨hnone, htemp, hspills, hdepot⟩
        · cases hfalse
    · cases hw.symm.trans hw'

theorem stretch_pos : 0 < stretch := by decide

/-- A part that yields a content is spooled unless there has to be a file for it and none can be
made. -/
theorem Yields.spool (h : p.Yields content) (d : Depot) {s : Spool} (hs : s.Holds d 0) :
    (s.Holds d content.length ∧ ∃ s' q, p.spool d s = (.ok s', q, d) ∧ s.Filled content s' ∧
      s'.temp = s.temp ∧ p.session.Leaves q.session) ∨
    (¬ s.Holds d content.length ∧ d.Spills ∧ ∃ s' q, p.spool d s = (.ok s', q, d.withTemp []) ∧
      s.Filled content s' ∧ s'.temp = some d.issued ∧ p.session.Leaves q.session) ∨
    (¬ s.Holds d content.length ∧ ¬ d.Spills ∧ ∃ e q, d.newTemp = (.error e, d) ∧
      p.spool d s = (.error e, q, d)) := by
  fun_induction OpenPart.spool p d s generalizing content with
  | case1 p d s e p' hr =>
    obtain ⟨-, q, hr', -⟩ | ⟨b, bytes, rest, q, hr', -⟩ := h.read_cases stretch_pos
    · cases hr.symm.trans hr'
    · cases hr.symm.trans hr'
  | case2 p d s p' hr =>
    obtain ⟨rfl, q, hr', hl⟩ | ⟨b, bytes, rest, q, hr', -⟩ := h.read_cases stretch_pos
    · cases hr.symm.trans hr'
      exact .inl ⟨hs, s, _, rfl, .refl s, rfl, hl⟩
    · cases hr.symm.trans hr'
  | case3 p d s b bytes p' hr e d' hw =>
    obtain ⟨-, q, hr', -⟩ | ⟨b, bytes, rest, q, hr', rfl, -⟩ := h.read_cases stretch_pos
    · cases hr.symm.trans hr'
    · cases hr.symm.trans hr'
      obtain ⟨-, hw'⟩ | ⟨-, -, hw'⟩ | ⟨hholds, hspills, e', hnew, hw'⟩ := s.write_cases d (b :: bytes)
      · cases hw.symm.trans hw'
      · cases hw.symm.trans hw'
      · cases hw.symm.trans hw'
        have hnone := (Spool.not_holds_iff.1 hholds).1
        refine .inr (.inr ⟨mt (Spool.Holds.mono ?_) hholds, hspills, e, p', hnew, ?_⟩)
        · rw [List.length_append]
          exact Nat.le_add_right _ _
        · rw [Spool.abandon, hnone]
  | case4 p d s b bytes p' hr s' d' hw _ ih =>
    obtain ⟨-, q, hr', -⟩ | ⟨b, bytes, rest, q, hr', rfl, hq, -, hl⟩ := h.read_cases stretch_pos
    · cases hr.symm.trans hr'
    · cases hr.symm.trans hr'
      obtain ⟨hholds, hw'⟩ | ⟨hholds, hspills, hw'⟩ | ⟨-, -, e', -, hw'⟩ := s.write_cases d (b :: bytes)
      · -- the spool stays as it is, and fills further
        cases hw.symm.trans hw'
        have hfill := s.filled_add (b :: bytes) s.temp
        have hadd := Spool.holds_add (s := s) (d := d) (b :: bytes)
        rw [List.length_append, ← hadd]
        obtain ⟨hin, s'', q', hs', hfilled, htemp, hl'⟩ | ⟨hout, hspills, s'', q', hs', hfilled, htemp, hl'⟩ |
          ⟨hout, hspills, e, q', hnew, hs'⟩ := ih hq ((hadd 0).2 hholds)
        · exact .inl ⟨hin, s'', q', hs', hfill.trans hfilled, htemp, hl.trans hl'⟩
        · exact .inr (.inl ⟨hout, hspills, s'', q', hs', hfill.trans hfilled, htemp, hl.trans hl'⟩)
        · exact .inr (.inr ⟨hout, hspills, e, q', hnew, hs'⟩)
      · -- the spool has its file from here on
        cases hw.symm.trans hw'
        have hfill := s.filled_add (b :: bytes) (some d.issued)
        have hin : some d.issued ≠ none := Option.some_ne_none _
        obtain ⟨-, s'', q', hs', hfilled, htemp, hl'⟩ | ⟨hout, -⟩ | ⟨hout, -⟩ := ih hq (.inl hin)
        · refine .inr (.inl ⟨mt (Spool.Holds.mono ?_) hholds, hspills, s'', q', hs',
            hfill.trans hfilled, htemp, hl.trans hl'⟩)
          rw [List.length_append]
          exact Nat.le_add_right _ _
        · exact absurd (.inl hin) hout
        · exact absurd (.inl hin) hout
      · cases hw.symm.trans hw'

/-- Only a part that yields its content is spooled. -/
theorem yields_of_spool {r : OpenPart × Depot} (hreading : p.session.phase = .reading)
    (hunfinished : p.isFinished = false) (h : p.spool d s = (.ok s', r)) :
    ∃ content, p.Yields content := by
  fun_induction OpenPart.spool p d s with
  | case1 => cases h
  | case2 p d s p' hr => exact ⟨[], yields_of_read_nil hreading hunfinished stretch_pos hr⟩
  | case3 => cases h
  | case4 p d s b bytes p' hr s'' d'' hw _ ih =>
    obtain ⟨w, rfl⟩ := read_goes_on hreading hunfinished (List.cons_ne_nil _ _) hr
    obtain ⟨rest, hrest⟩ := ih hreading hunfinished h
    exact ⟨b :: bytes ++ rest, yields_of_read hreading hunfinished stretch_pos
      (List.cons_ne_nil _ _) hr hrest⟩

/-- In a depot that is shut down a spool that needs a file is refused, and one that needs none goes as
in any other. -/
theorem spool_closed (p : OpenPart) (hclosed : d.isShutDown = true) (hs : s.temp = none) :
    (∃ q, p.spool d s = (.error .repositoryClosed, q, d)) ∨
      ∃ r q, p.spool d s = (r, q, d) ∧
        p.spool { d with isShutDown := false } s = (r, q, { d with isShutDown := false }) := by
  fun_induction OpenPart.spool p d s with
  | case1 p d s e p' hr =>
    refine .inr ⟨.error e, p', ?_, ?_⟩
    · rw [Spool.abandon, hs]
    · rw [spool_of_error hr, Spool.abandon, hs]
  | case2 p d s p' hr => exact .inr ⟨.ok s, p', rfl, spool_of_end hr⟩
  | case3 p d s b bytes p' hr e d' hw =>
    obtain ⟨-, hw'⟩ | ⟨-, -, hw'⟩ | ⟨-, -, e', hnew, hw'⟩ := s.write_cases d (b :: bytes)
    · cases hw.symm.trans hw'
    · cases hw.symm.trans hw'
    · cases hw.symm.trans hw'
      cases hnew.symm.trans (Depot.newTemp_closed hclosed)
      exact .inl ⟨p', by rw [Spool.abandon, hs]⟩
  | case4 p d s b bytes p' hr s' d' hw _ ih =>
    obtain ⟨hholds, hw'⟩ | ⟨-, hspills, -⟩ | ⟨-, -, e', -, hw'⟩ := s.write_cases d (b :: bytes)
    · cases hw.symm.trans hw'
      obtain hrefused | ⟨r, q, hspool, hopen⟩ := ih hclosed hs
      · exact .inl hrefused
      · have hwrite : s.write { d with isShutDown := false } (b :: bytes) =
            (.ok (s.add (b :: bytes)), { d with isShutDown := false }) := Spool.write_of_holds hholds
        exact .inr ⟨r, q, hspool, (spool_of_written hr hwrite).trans hopen⟩
    · cases hclosed.symm.trans hspills.1
    · cases hw.symm.trans hw'

/-! ## Kept parts -/

/-- The part as an item, with its content there. -/
def toItem (p : OpenPart) (fileName : Option String) (size : Nat) (storage : Storage) : Item where
  field := p.head.field
  fileName := fileName
  isFormField := p.isFormField
  headers := p.head.headers
  size := size
  storage := storage

/-- A part whose content ends and whose name decodes is kept unless there has to be a file for it and
none can be made. -/
theorem Yields.keep (h : p.Yields content) {name : Option String} (hname : p.fileName = .ok name)
    (hd : d.Numbered) :
    (content.length ≤ d.threshold ∧ ∃ q, p.session.Leaves q.session ∧
      p.keep d = (.ok (p.toItem name content.length (.memory content)), q, d)) ∨
    (d.threshold < content.length ∧ d.Spills ∧ ∃ q, p.session.Leaves q.session ∧
      p.keep d = (.ok (p.toItem name content.length (.temp d.issued)), q, d.withTemp content)) ∨
    (d.threshold < content.length ∧ ¬ d.Spills ∧ ∃ e q, d.newTemp = (.error e, d) ∧
      p.keep d = (.error e, q, d)) := by
  have hholds : ∀ count, Spool.Holds {} d count ↔ count ≤ d.threshold := by
    intro count
    unfold Spool.Holds
    simp
  unfold OpenPart.keep
  simp only [hname]
  obtain ⟨hin, s', q, hs, hfilled, htemp, hl⟩ | ⟨hout, hspills, s', q, hs, hfilled, htemp, hl⟩ |
    ⟨hout, hspills, e, q, hnew, hs⟩ := h.spool d ((hholds 0).2 (Nat.zero_le _))
  · refine .inl ⟨(hholds _).1 hin, q, hl, ?_⟩
    have hcontent : s'.content = content := hfilled.content
    have hwritten : s'.written = content.length := hfilled.written.trans (Nat.zero_add _)
    simp only [hs, Spool.finish, htemp, hcontent, hwritten]
    rfl
  · refine .inr (.inl ⟨Nat.lt_of_not_le (mt (hholds _).2 hout), hspills, q, hl, ?_⟩)
    have hcontent : s'.content = content := hfilled.content
    have hwritten : s'.written = content.length := hfilled.written.trans (Nat.zero_add _)
    simp only [hs, Spool.finish, htemp, hcontent, hwritten, hd.putTemp_withTemp]
    rfl
  · exact .inr (.inr ⟨Nat.lt_of_not_le (mt (hholds _).2 hout), hspills, e, q, hnew, by rw [hs]⟩)

/-- Only a part that yields its content is kept. -/
theorem yields_of_keep {item : Item} {r : OpenPart × Depot} (hreading : p.session.phase = .reading)
    (hunfinished : p.isFinished = false) (h : p.keep d = (.ok item, r)) :
    ∃ content, p.Yields content := by
  unfold OpenPart.keep at h
  split at h
  · cases h
  · split at h
    · cases h
    · rename_i hspool
      exact yields_of_spool hreading hunfinished hspool

/-- A part that cannot be kept leaves nothing in the depot. -/
theorem keep_error (hd : d.Numbered) (h : p.keep d = (.error e, q, d')) : d.Restored d' := by
  have hs := p.spool_leaves d {}
  unfold keep at h
  split at h
  · cases h
    exact .refl d
  · split at h
    · rename_i hspool
      cases h
      rw [hspool] at hs
      obtain rfl | ⟨-, rfl⟩ := hs
      · exact .refl _
      · exact hd.dropTemp_withTemp []
    · cases h

/-- Keeping a part leaves the files outside the repository alone, and shuts nothing down. -/
theorem keep_leaves (p : OpenPart) (d : Depot) :
    (p.keep d).2.2.tree = d.tree ∧ (p.keep d).2.2.isShutDown = d.isShutDown := by
  have hleaves := p.spool_leaves d {}
  have hfinish : ∀ (s : Spool) (d : Depot),
      (s.finish d).2.tree = d.tree ∧ (s.finish d).2.isShutDown = d.isShutDown := by
    intro s d
    unfold Spool.finish
    split <;> exact ⟨rfl, rfl⟩
  unfold keep
  split
  · exact ⟨rfl, rfl⟩
  · rcases hs : p.spool d {} with ⟨err | s, q, d'⟩ <;> rw [hs] at hleaves
    · obtain rfl | ⟨-, rfl⟩ := hleaves <;> exact ⟨rfl, rfl⟩
    · obtain ⟨-, rfl⟩ | ⟨-, -, -, rfl⟩ := hleaves
      · exact hfinish s _
      · exact hfinish s _

/-- A depot makes no file for a part: it stays as it is, and refuses the part if that would leave a
trace in an open depot. -/
structure KeptWithoutFile (p : OpenPart) (d : Depot) : Prop where
  unchanged : (p.keep d).2.2 = d
  refused : (p.keep { d with isShutDown := false }).2.2 ≠ { d with isShutDown := false } →
    (p.keep d).1 = .error .repositoryClosed

theorem keep_closed (p : OpenPart) (hclosed : d.isShutDown = true) : p.KeptWithoutFile d := by
  suffices h : (p.keep d).2.2 = d ∧ ((p.keep d).1 = .error .repositoryClosed ∨
      (p.keep { d with isShutDown := false }).2.2 = { d with isShutDown := false }) from
    ⟨h.1, fun htrace => h.2.resolve_right htrace⟩
  have hleaves := p.spool_leaves d {}
  have hclosed' := p.spool_closed (s := {}) hclosed rfl
  unfold keep
  cases hname : p.fileName with
  | error e => exact ⟨rfl, .inr rfl⟩
  | ok name =>
    obtain ⟨q, hspool⟩ | ⟨r, q, hspool, hopen⟩ := hclosed'
    · simp only [hspool]
      exact ⟨trivial, .inl trivial⟩
    · rw [hspool] at hleaves
      cases r with
      | error e =>
        simp only [hspool, hopen]
        exact ⟨trivial, .inr trivial⟩
      | ok s' =>
        obtain ⟨htemp, -⟩ | ⟨-, -, hspills, -⟩ := hleaves
        · simp only [hspool, hopen, Spool.finish, htemp]
          exact ⟨trivial, .inr trivial⟩
        · cases hclosed.symm.trans hspills.1

/-- A part that is kept has its content in memory, or in a temp file of its own. -/
theorem keep_ok_depot {item : Item} (hd : d.Numbered) (h : p.keep d = (.ok item, q, d')) :
    (∃ content, item.storage = .memory content ∧ d' = d) ∨
      (item.storage = .temp d.issued ∧ d.Spills ∧ ∃ content, d' = d.withTemp content) := by
  have hs := p.spool_leaves d {}
  unfold keep at h
  split at h
  · cases h
  · split at h
    · cases h
    · rename_i s' _ d'' hspool
      rw [hspool] at hs
      unfold Spool.finish at h
      obtain ⟨htemp, rfl⟩ | ⟨-, htemp, hspills, rfl⟩ := hs
      · simp only [htemp] at h
        cases h
        exact .inl ⟨_, rfl, rfl⟩
      · simp only [htemp, hd.putTemp_withTemp] at h
        cases h
        exact .inr ⟨rfl, hspills, _, rfl⟩

end OpenPart

end FormData
