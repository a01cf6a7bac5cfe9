/-
What the visits of a run leave of the body. A visit that reads or passes its part, and goes on, leaves
the rest of the part to be passed, so what comes behind it is the same for every run
(`visitPart_leaves`). A run that ends well has met every part in this way: the body decodes
(`decodes_of_visitParts`).
-/
import FormData.CommandLine.Run
import FormData.Proofs.Session.Decoding

namespace FormData

/-! ## Errors of a part itself -/

theorem Session.Leaves.reading {s t : Session} (h : s.Leaves t) (hs : s.phase = .reading) :
    t.phase = .reading := by
  obtain ⟨w, rfl, -⟩ := h
  exact hs

namespace OpenPart

variable {p q : OpenPart}

/-- If this is an error it is not that of the body: passing what is left of the part does not meet it. -/
def Own {α : Type} (p : OpenPart) (r : Except Error α) : Prop :=
  ∀ e, r = .error e → p.discardRest.1 ≠ .error e

theorem own_ok {α : Type} (a : α) : p.Own (.ok a : Except Error α) := nofun

theorem own_error {α : Type} {e : Error} (he : p.discardRest.1 ≠ .error e) :
    p.Own (.error e : Except Error α) := by
  rintro _ ⟨⟩
  exact he

theorem discardRest_of_settle_error {e : Error} {w : Window}
    (h : p.session.window.settle = (.error e, w)) : p.discardRest.1 = .error e := by
  unfold discardRest
  rcases hd : p.session.window.discard with ⟨e' | n, v⟩
  · cases (Window.settle_of_discard_error hd).symm.trans h
    rfl
  · cases (Window.settle_of_discard hd).symm.trans h

/-- What the part meets where some of it was taken it meets from its front. -/
theorem Own.later {α : Type} {r : Except Error α} (h : p.Own r) (hl : p.session.Leaves q.session) :
    q.Own r := by
  intro e he hq
  refine h e he ?_
  obtain ⟨w, hsession, hsettle⟩ := hl
  unfold discardRest at hq
  rcases hd : q.session.window.discard with ⟨e' | n, v⟩ <;> rw [hd] at hq
  · cases hq
    refine discardRest_of_settle_error (w := v) ?_
    rw [← hsettle, ← Window.settle_of_discard_error hd, hsession]
  · cases hq

theorem Outcome.leaves {α : Type} {r : Except Error α} (h : p.Outcome (r, q)) (hr : p.Own r) :
    p.session.Leaves q.session := by
  rcases r with e | a
  · obtain ⟨-, w, hw⟩ | ⟨-, hleaves⟩ := h
    · exact absurd (discardRest_of_settle_error hw) (hr e rfl)
    · exact hleaves
  · exact h

/-- A spool leaves the rest of the part, be it full or refused a file. -/
theorem spool_passes {d : Depot} {s : Spool} (hreading : p.session.phase = .reading)
    (h : p.Own (p.spool d s).1) : p.session.Leaves (p.spool d s).2.1.session := by
  fun_induction spool p d s with
  | case1 p d s e p' hr =>
    have hout := read_outcome hreading stretch
    rw [hr] at hout
    exact hout.leaves (own_error (h e rfl))
  | case2 p d s p' hr | case3 p d s b bytes p' hr =>
    have hout := read_outcome hreading stretch
    rw [hr] at hout
    exact hout
  | case4 p d s b bytes p' hr s' d' hw _ ih =>
    have hout := read_outcome hreading stretch
    rw [hr] at hout
    have hleaves : p.session.Leaves p'.session := hout
    exact hleaves.trans (ih (hleaves.reading hreading) (h.later hleaves))

theorem keep_passes {d : Depot} (hreading : p.session.phase = .reading) (h : p.Own (p.keep d).1) :
    p.session.Leaves (p.keep d).2.1.session := by
  have hspool := spool_passes (d := d) (s := {}) hreading
  unfold keep at h ⊢
  rcases hname : p.fileName with e | name
  · exact .refl _
  · simp only [hname] at h ⊢
    rcases hs : p.spool d {} with ⟨e | s, q, d'⟩ <;> rw [hs] at hspool <;> simp only [hs] at h ⊢
    · exact hspool (own_error (h e rfl))
    · exact hspool (own_ok s)

end OpenPart

/-! ## Bodies on a disk -/

/-- The source of the session fails only where the file system refuses to read. -/
def Session.OnDisk (s : Session) : Prop :=
  ∀ e ∈ s.window.failures, ∃ fault, e = .io (.system fault)

namespace Session

variable {s t : Session} {e : Error}

theorem OnDisk.moves (h : s.OnDisk) (hm : s.Moves t) : t.OnDisk :=
  fun e he => h e (hm.failures he)

theorem OnDisk.part (h : s.OnDisk) {p : OpenPart} (hp : s.nextPart = .ok p) : p.session.OnDisk :=
  nextPart_failures hp h

section

variable {source : Source} {settings : Settings}

theorem open?_onDisk {boundary : Bytes} (h : open? source boundary settings = .ok s)
    (hdisk : ∀ e ∈ source.failures, ∃ fault, e = .io (.system fault)) : s.OnDisk := by
  obtain ⟨-, rfl⟩ := open?_ok h
  exact hdisk

theorem ofContentType?_onDisk {contentType : String} (h : ofContentType? source contentType settings = .ok s)
    (hdisk : ∀ e ∈ source.failures, ∃ fault, e = .io (.system fault)) : s.OnDisk := by
  unfold ofContentType? at h
  split at h
  · cases h
  · exact open?_onDisk h hdisk

end

theorem OnDisk.isFatal (h : s.OnDisk) : ∀ e ∈ s.window.failures, e.isFatal = true := by
  intro e he
  obtain ⟨fault, rfl⟩ := h e he
  rfl

/-- An error that is met on the way through the part ends the session, whichever way it comes out. -/
theorem OnDisk.crossed_isFatal (h : s.OnDisk) (he : e.IsOfReading s.window.failures) :
    e.crossed.isFatal = true := by
  cases he with
  | raised he =>
    obtain ⟨fault, rfl⟩ := h e he
    rfl
  | requestSize | ended => rfl

end Session

namespace OpenPart

variable {p : OpenPart} {e : Error}

theorem discardRest_isOfReading (h : p.discardRest.1 = .error e) :
    e.IsOfReading p.session.window.failures := by
  unfold discardRest at h
  rcases hd : p.session.window.discard with ⟨e' | n, w⟩ <;> rw [hd] at h
  · cases h
    exact Window.discard_error_isOfReading hd
  · cases h

/-- Where every failure of the source ends the session, other errors are those of the part. -/
theorem own_of_not_fatal {α : Type} (hends : ∀ f ∈ p.session.window.failures, f.isFatal = true)
    (he : e.isFatal = false) : p.Own (.error e : Except Error α) := by
  refine own_error fun hmet => ?_
  rw [(discardRest_isOfReading hmet).isFatal hends] at he
  cases he

theorem own_of_crossed {α : Type} (hdisk : p.session.OnDisk) (he : e.crossed.isFatal = false) :
    p.Own (.error e : Except Error α) := by
  refine own_error fun hmet => ?_
  rw [hdisk.crossed_isFatal (discardRest_isOfReading hmet)] at he
  cases he

end OpenPart

/-! ## The visit of one part -/

namespace CommandLine

variable {a : Arguments} {r r' : Run} {p q : OpenPart} {s s' : Session}

theorem copyContent_passes (hreading : p.session.phase = .reading) (h : p.Own (copyContent r p).1) :
    p.session.Leaves (copyContent r p).2.2.session := by
  fun_induction copyContent r p with
  | case1 r p e p' hr =>
    have hout := OpenPart.read_outcome hreading OpenPart.stretch
    rw [hr] at hout
    exact hout.leaves (OpenPart.own_error (h e rfl))
  | case2 r p p' hr =>
    have hout := OpenPart.read_outcome hreading OpenPart.stretch
    rw [hr] at hout
    exact hout
  | case3 r p b bytes p' hr _ ih =>
    have hout := OpenPart.read_outcome hreading OpenPart.stretch
    rw [hr] at hout
    have hleaves : p.session.Leaves p'.session := hout
    exact hleaves.trans (ih (hleaves.reading hreading) (h.later hleaves))

theorem listPart_leaves {field : String} {fileName : Option String}
    (h : listPart a r p field fileName = (.ok (), r', s')) : p.session.Leaves s' := by
  have hout := p.skip_outcome
  unfold listPart at h
  rcases hs : p.skip with ⟨e | size, q⟩ <;> rw [hs] at h hout
  · cases h
  · cases h
    exact hout

/-- A part above the limit on files is passed, too. -/
theorem pipePart_leaves {field : String} (hdisk : p.session.OnDisk) (hreading : p.session.phase = .reading)
    (h : pipePart a r p field = (.ok (), r', s')) : p.session.Leaves s' := by
  have hcopy := copyContent_passes (r := r.sayIf (showsMarkers a) ("--- " ++ field ++ " ---")) hreading
  unfold pipePart at h
  simp only at h
  rcases hc : copyContent (r.sayIf (showsMarkers a) ("--- " ++ field ++ " ---")) p with
    ⟨e | ⟨⟩, r₁, q⟩ <;> rw [hc] at h hcopy
  · simp only at h
    split at h
    · rename_i hcrossed
      cases h
      exact hcopy (OpenPart.own_of_crossed hdisk (by rw [hcrossed]; rfl))
    · cases h
  · cases h
    exact hcopy (OpenPart.own_ok ())

/-! ### What a visit leaves of the source -/

theorem copyContent_moves (r : Run) (p : OpenPart) : p.Moves (copyContent r p).2.2 := by
  fun_induction copyContent r p with
  | case1 r p e p' h | case2 r p p' h =>
    have hm := p.read_moves OpenPart.stretch
    rwa [h] at hm
  | case3 r p b bytes p' h _ ih =>
    have hm := p.read_moves OpenPart.stretch
    rw [h] at hm
    exact hm.trans ih

theorem followBody_failures (r : Run) (s : Session) (i : Item) (path : String) :
    (followBody r s i path).2.window.failures ⊆ s.window.failures := by
  unfold followBody
  split
  · split
    · split
      · exact s.window.feed.source.cutShort_failures
      · exact List.Subset.refl _
    · exact List.Subset.refl _
  · exact List.Subset.refl _

theorem saveItem_failures (a : Arguments) (r : Run) (s : Session) (i : Item) (field fileName : String) :
    (saveItem a r s i field fileName).2.2.1.window.failures ⊆ s.window.failures := by
  unfold saveItem
  split
  · exact List.Subset.refl _
  · simp only
    split
    · exact List.Subset.refl _
    · unfold saveTo
      split
      · exact List.Subset.refl _
      · simp only
        split
        · exact List.Subset.refl _
        · exact followBody_failures _ _ _ _

theorem extractPart_failures (a : Arguments) (r : Run) (p : OpenPart) (field : String)
    (fileName : Option String) :
    (extractPart a r p field fileName).2.2.window.failures ⊆ p.session.window.failures := by
  have hkeep := (p.keep_moves r.depot).failures
  unfold extractPart
  rcases hk : p.keep r.depot with ⟨e | item, q, depot⟩ <;> rw [hk] at hkeep
  · simp only
    split <;> exact hkeep
  · simp only
    split
    · exact hkeep
    · split
      · exact hkeep
      · exact fun e he => hkeep (saveItem_failures _ _ _ _ _ _ he)

theorem listPart_failures (a : Arguments) (r : Run) (p : OpenPart) (field : String)
    (fileName : Option String) :
    (listPart a r p field fileName).2.2.window.failures ⊆ p.session.window.failures := by
  have hskip := p.skip_scanned.moves.failures
  unfold listPart
  split <;> (rename_i h; rw [h] at hskip; exact hskip)

theorem pipePart_failures (a : Arguments) (r : Run) (p : OpenPart) (field : String) :
    (pipePart a r p field).2.2.window.failures ⊆ p.session.window.failures := by
  have hcopy := (copyContent_moves (r.sayIf (showsMarkers a) ("--- " ++ field ++ " ---")) p).failures
  unfold pipePart
  simp only
  split
  · rename_i h
    rw [h] at hcopy
    exact hcopy
  · rename_i h
    rw [h] at hcopy
    split <;> exact hcopy

/-- Whatever is done with a part, its source has no more errors to raise than before. -/
theorem visitPart_failures (a : Arguments) (r : Run) (p : OpenPart) :
    (visitPart a r p).2.2.window.failures ⊆ p.session.window.failures := by
  unfold visitPart
  simp only
  split
  · split
    · split <;> exact List.Subset.refl _
    · split
      · exact listPart_failures _ _ _ _ _
      · split
        · exact pipePart_failures _ _ _ _
        · exact extractPart_failures _ _ _ _ _
  · exact List.Subset.refl _

theorem visitPart_onDisk (hdisk : p.session.OnDisk) (h : visitPart a r p = (.ok (), r', s')) :
    s'.OnDisk := by
  have hsub := visitPart_failures a r p
  rw [h] at hsub
  exact fun e he => hdisk e (hsub he)

/-- The arguments ask to see the parts, not to save them. -/
def Views (a : Arguments) : Prop :=
  a.list = true ∨ a.verbose = true ∨ a.pipe = true

theorem visitPart_leaves (hviews : Views a) (hdisk : p.session.OnDisk)
    (hreading : p.session.phase = .reading) (h : visitPart a r p = (.ok (), r', s')) : p.session.Leaves s' := by
  unfold visitPart at h
  simp only at h
  split at h
  · split at h
    · split at h <;> cases h
      exact .refl _
    · split at h
      · exact listPart_leaves h
      · rename_i hlist
        split at h
        · exact pipePart_leaves hdisk hreading h
        · rename_i hpipe
          simp only [Bool.or_eq_true, not_or] at hlist
          obtain hl | hv | hp := hviews
          · exact absurd hl hlist.1
          · exact absurd hv hlist.2
          · exact absurd hp hpipe
  · cases h
    exact .refl _

/-! ## One visit after the other -/

theorem visitParts_end {e : Error} (h : s.nextPart = .error (e, s')) (hend : s'.phase = .exhausted) :
    visitParts a r s = (.ok (), r) := by
  obtain rfl := Session.error_eq_exhausted h hend
  have hnext := Session.next_ended_iff.2 ⟨h, hend⟩
  rw [visitParts]
  split <;> rename_i h' <;> cases hnext.symm.trans h'
  rfl

theorem visitParts_stopped {e : Error} (h : s.nextPart = .error (e, s')) (hne : s'.phase ≠ .exhausted) :
    visitParts a r s = (.error (.parser e), r) := by
  have hnext := Session.next_failed_iff.2 ⟨h, hne⟩
  rw [visitParts]
  split <;> rename_i h' <;> cases hnext.symm.trans h'
  rfl

theorem visitParts_failed {f : Failure} (h : s.nextPart = .ok p)
    (hv : visitPart a r p = (.error f, r', s')) : visitParts a r s = (.error f, r') := by
  have hnext := Session.next_part_iff.2 h
  rw [visitParts]
  split <;> rename_i h' <;> cases hnext.symm.trans h'
  split <;> rename_i hv' <;> cases hv.symm.trans hv'
  rfl

theorem visitParts_visited (h : s.nextPart = .ok p) (hv : visitPart a r p = (.ok (), r', s')) :
    visitParts a r s = visitParts a r' s' := by
  have hnext := Session.next_part_iff.2 h
  rw [visitParts]
  split <;> rename_i h' <;> cases hnext.symm.trans h'
  split <;> rename_i hv' <;> cases hv.symm.trans hv'
  rfl

theorem visitParts_congr {t : Session} (h : s.nextPart = t.nextPart) : visitParts a r s = visitParts a r t := by
  rcases ht : t.nextPart with ⟨e, t'⟩ | p
  · by_cases hend : t'.phase = .exhausted
    · rw [visitParts_end ht hend, visitParts_end (h.trans ht) hend]
    · rw [visitParts_stopped ht hend, visitParts_stopped (h.trans ht) hend]
  · rcases hv : visitPart a r p with ⟨f | ⟨⟩, r', s'⟩
    · rw [visitParts_failed ht hv, visitParts_failed (h.trans ht) hv]
    · rw [visitParts_visited ht hv, visitParts_visited (h.trans ht) hv]

/-- Only what can be passed is followed by a run that ends well. -/
theorem yields_of_visitParts {t : Session} (hpart : s.nextPart = .ok p) (hleaves : p.session.Leaves t)
    (h : visitParts a r t = (.ok (), r')) : ∃ content, (p.withFileLimit none).Yields content := by
  have hreading := Session.nextPart_reading hpart
  rcases hsettle : p.session.window.settle with ⟨e, w⟩
  rcases e with e | ⟨⟩
  · exfalso
    obtain ⟨u, hu⟩ := Session.hasNext_of_settle_error hreading hsettle
    have hnext := (hleaves.hasNext_eq hreading).trans hu
    rw [visitParts_stopped (Session.nextPart_of_hasNext_error hnext) (Session.hasNext_error hnext).1] at h
    cases h
  · exact OpenPart.yields_of_settle hreading (Session.nextPart_unread hpart).2 hsettle

/-- By induction on the visits: the body of a run that ends well decodes, limit on files or not. -/
theorem decodes_of_visitParts (hviews : Views a) (hdisk : s.OnDisk) (h : visitParts a r s = (.ok (), r')) :
    ∃ parts, s.Decodes parts := by
  fun_induction visitParts a r s with
  | case1 r s s' hs =>
    obtain ⟨hend, hphase⟩ := Session.next_ended_iff.1 hs
    exact ⟨[], Session.Stops.stop hend fun _ => hphase⟩
  | case2 => cases h
  | case3 => cases h
  | case4 r s p hs r₁ s₁ hv _ ih =>
    have hpart := Session.next_part_iff.1 hs
    have hdisk' := hdisk.part hpart
    have hleaves := visitPart_leaves hviews hdisk' (Session.nextPart_reading hpart) hv
    obtain ⟨content, hyields⟩ := yields_of_visitParts hpart hleaves h
    obtain ⟨rest, hrest⟩ := ih (visitPart_onDisk hdisk' hv) h
    exact ⟨_, Session.Stops.part hpart hyields hleaves hrest⟩

/-! ## Whole runs -/

/-- What becomes of the run before it cleans up. -/
def rawRun (a : Arguments) (foreign : List String) (tree : FileTree) : Except Failure Unit × Run :=
  runBody a { depot := startingDepot a foreign tree }

section

variable (a : Arguments) (foreign : List String) (tree : FileTree)

theorem runWith_exitCode : (runWith a foreign tree).exitCode = 0 ↔ (rawRun a foreign tree).1 = .ok () := by
  unfold runWith rawRun
  simp only
  split <;> rename_i h <;> simp [h]

theorem runWith_stdout : (runWith a foreign tree).stdout = (rawRun a foreign tree).2.stdout := by
  unfold runWith rawRun
  simp only
  split <;> rfl

theorem runWith_tree : (runWith a foreign tree).tree = (rawRun a foreign tree).2.depot.tree := by
  unfold runWith rawRun
  simp only
  split <;> rfl

theorem runWith_temps :
    (runWith a foreign tree).temps = (rawRun a foreign tree).2.depot.shutdown.2.temps := by
  unfold runWith rawRun
  simp only
  split <;> rfl

end

/-- The arguments lead to a body in the tree: its place, where it is read from, and its content
type, given or told from the body. -/
structure Opens (a : Arguments) (tree : FileTree) (source : Source) (contentType : String)
    (place : Place) : Prop where
  isLocal : a.isUrl = false
  opens : ∃ captured, openBody tree a.file = .ok (captured, place) ∧
    contentTypeOf a captured = (.ok contentType, source)

variable {foreign : List String} {tree : FileTree} {source : Source} {contentType : String} {place : Place}

/-- Arguments that name the same file and the same content type open the same. -/
theorem Opens.congr {b : Arguments} (h : Opens a tree source contentType place)
    (hfile : b.file = a.file) (htype : b.explicitContentType = a.explicitContentType) :
    Opens b tree source contentType place := by
  obtain ⟨hlocal, captured, hopen, hsniff⟩ := h
  refine ⟨?_, captured, hfile ▸ hopen, ?_⟩
  · unfold Arguments.isUrl at hlocal ⊢
    rw [hfile]
    exact hlocal
  · unfold contentTypeOf at hsniff ⊢
    rw [htype]
    exact hsniff

/-- What sniffing reads on it reads for good, failures included. -/
theorem sniffBoundary_failures (s : Source) : s.sniffBoundary.2.failures ⊆ s.failures := by
  have hfill := s.fillBuffer_raises.left
  unfold Source.sniffBoundary
  split <;> (rename_i h; rw [h] at hfill; exact hfill)

theorem openBody_failures {path : String} {captured : Source} (h : openBody tree path = .ok (captured, place)) :
    ∀ e ∈ captured.failures, ∃ fault, e = .io (.system fault) := by
  unfold openBody FileTree.onPath at h
  rcases hread : Path.read path with fault | q <;> simp only [hread] at h
  · cases h
  · rcases hfind : tree.find q with fault | ⟨found, node⟩ <;> simp only [hfind, Except.map] at h
    · cases h
    · cases node with
      | file content =>
        cases h
        exact fun e he => absurd he List.not_mem_nil
      | directory =>
        cases h
        exact fun e he => ⟨_, List.mem_singleton.1 he⟩

/-- A captured body is on a disk. -/
theorem Opens.onDisk (h : Opens a tree source contentType place) :
    ∀ e ∈ source.failures, ∃ fault, e = .io (.system fault) := by
  obtain ⟨captured, hopen, htype⟩ := h.opens
  have hsub : source.failures ⊆ captured.failures := by
    have hsniff := sniffBoundary_failures captured
    unfold contentTypeOf at htype
    split at htype
    · cases htype
      exact List.Subset.refl _
    · split at htype <;> cases htype
      rename_i hs
      rw [hs] at hsniff
      exact hsniff
  exact fun e he => openBody_failures hopen e (hsub he)

theorem Opens.rawRun_eq (h : Opens a tree source contentType place) (foreign : List String) :
    rawRun a foreign tree =
      processBody a { depot := startingDepot a foreign tree, body := some place } source contentType := by
  obtain ⟨captured, hopen, htype⟩ := h.opens
  unfold rawRun runBody
  simp only [h.isLocal, Bool.false_eq_true, if_false]
  rw [show ({ depot := startingDepot a foreign tree } : Run).depot.tree = tree from rfl, hopen]
  simp only [htype]

/-- A run that ends well opened its body. -/
theorem opens_of_rawRun (h : (rawRun a foreign tree).1 = .ok ()) :
    ∃ source contentType place, Opens a tree source contentType place := by
  unfold rawRun runBody at h
  split at h
  · cases h
  · rename_i hlocal
    rcases hopen : openBody tree a.file with e | ⟨captured, place⟩
    · rw [show ({ depot := startingDepot a foreign tree } : Run).depot.tree = tree from rfl, hopen] at h
      cases h
    · rw [show ({ depot := startingDepot a foreign tree } : Run).depot.tree = tree from rfl, hopen] at h
      simp only at h
      rcases htype : contentTypeOf a captured with ⟨f | contentType, source⟩ <;> rw [htype] at h
      · cases h
      · exact ⟨source, contentType, place, by simpa using hlocal, captured, hopen, htype⟩

end CommandLine

end FormData
