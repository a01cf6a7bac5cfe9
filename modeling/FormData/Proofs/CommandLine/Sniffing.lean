/-
Boundaries told from the body. A run that is given no boundary makes a content type of the first line of
the body, and reads on behind the block that was read ahead for it. Neither shows: the run ends as one that
is given the boundary (`sniffing_agrees`). But where the first line closes the body, the boundary cannot be
told from it; and a body that is written over while it is read breaks off where that block ends
(`sniffing_differs`).
-/
import FormData.Proofs.Body.Captured
import FormData.Proofs.CommandLine.Options
import FormData.Proofs.CommandLine.Visitors
import FormData.Proofs.Header.Boundaries
import FormData.Proofs.Session.Opening

namespace FormData

/-! ## A body read ahead -/

namespace Session

variable {body boundary : Bytes} {settings : Settings} {s : Session}

/-- A session on the body of which a block was read ahead. -/
theorem open?_sniffed (body boundary : Bytes) (settings : Settings) :
    open? (.sniffed body) boundary settings = (open? (.ofFile body) boundary settings).map fun s =>
      { s with window := { s.window with feed := { s.window.feed with source := .sniffed body } } } := by
  unfold open?
  rw [show (Source.sniffed body).declared = (Source.ofFile body).declared from rfl]
  rcases Account.open? (Source.ofFile body).declared settings.maxRequestSize settings.maxParts
    settings.listening with e | account
  · rfl
  · simp only [Window.open?, bind, Except.bind]
    rcases Window.checkBoundary boundary settings.windowSize with e | ⟨⟩ <;> rfl

/-- Unless the window asks for a whole block at once and more is to come, nothing shows that a block was
read ahead. -/
theorem nextPart_sniffed (hne : body ≠ []) (hopen : open? (.ofFile body) boundary settings = .ok s)
    (hsmall : settings.windowSize < Source.fileBlock ∨ body.length ≤ Source.fileBlock) :
    ({ s with window := { s.window with feed := { s.window.feed with source := .sniffed body } } } :
      Session).nextPart = s.nextPart := by
  obtain ⟨-, rfl⟩ := open?_ok hopen
  refine nextPart_of_findFirst rfl rfl (Window.findFirst_congr rfl rfl ?_)
  have hread := Source.sniffed_read hne hsmall
  unfold Window.fill Feed.read
  simp only [List.length_nil, Nat.sub_zero]
  rw [hread]

theorem OpenedOn.onDisk (h : OpenedOn body boundary settings s) : s.OnDisk := by
  intro e he
  rw [h.failures_eq] at he
  exact absurd he List.not_mem_nil

/-- A body that declares its length is within the limit of a request that opens. -/
theorem open?_within (hopen : open? (.ofFile body) boundary settings = .ok s) :
    ∀ limit ∈ settings.maxRequestSize, body.length ≤ limit := by
  intro limit hlimit
  by_contra hover
  have hrefused : Account.open? (Source.ofFile body).declared settings.maxRequestSize settings.maxParts
      settings.listening = .error (.requestSize limit body.length) := by
    unfold Account.open?
    rw [Option.mem_def.1 hlimit]
    exact if_pos (Nat.lt_of_not_le hover)
  unfold open? at hopen
  rw [hrefused] at hopen
  cases hopen

end Session

namespace CommandLine

variable {a : Arguments} {r : Run} {s t : Session} {foreign : List String} {tree : FileTree}
  {body : Bytes} {place : Place}

/-- By induction on the visits: what boundary was given does not matter to them. -/
theorem visitParts_boundary (boundary : Option String) (a : Arguments) (r : Run) (s : Session) :
    visitParts { a with boundary } r s = visitParts a r s := by
  have hvisit : ∀ r p, visitPart { a with boundary } r p = visitPart a r p := fun _ _ => rfl
  fun_induction visitParts a r s with
  | case1 r s s' hs =>
    obtain ⟨hend, hphase⟩ := Session.next_ended_iff.1 hs
    exact visitParts_end hend hphase
  | case2 r s e s' hs =>
    obtain ⟨hend, hphase⟩ := Session.next_failed_iff.1 hs
    exact visitParts_stopped hend hphase
  | case3 r s p hs f r' s' hv =>
    exact visitParts_failed (Session.next_part_iff.1 hs) ((hvisit r p).trans hv)
  | case4 r s p hs r' s' hv _ ih =>
    rw [visitParts_visited (Session.next_part_iff.1 hs) ((hvisit r p).trans hv), ih]

theorem Spares.mono {parts more : List (PartHead × Bytes)} (h : Spares a r more) (hsub : parts ⊆ more) :
    Spares a r parts :=
  h.imp_right fun h => h.imp_right fun h place hplace part hmem => h place hplace part (hsub hmem)

section

variable {boundary : Bytes} {size : Nat} {rooms : Nat → Nat → Nat} {reader reader' : Session}
  {parts : List (PartHead × Bytes)}

/-- Say that some session takes the body apart to its end. Then it does not show in the visits of a run
that a block was read ahead, unless one of them rewrites the body that another block is to be read of. -/
theorem visitParts_sniffed (hne : body ≠ []) (hs : Session.open? (.ofFile body) boundary a.settings = .ok s)
    (ht : Session.open? (.sniffed body) boundary a.settings = .ok t) (hrooms : ∀ n i, 0 < rooms n i)
    (hreader : Session.OpenedOn body boundary { a.settings with windowSize := size } reader)
    (hends : reader.transcriptFrom rooms 0 = ({ parts, error := .exhausted }, reader'))
    (hd : r.depot.Numbered)
    (hspares : (a.bufferSize < Source.fileBlock ∨ body.length ≤ Source.fileBlock) ∨ Spares a r parts) :
    visitParts a r t = visitParts a r s := by
  obtain hsmall | hspares := hspares
  · rw [Session.open?_sniffed, hs] at ht
    cases ht
    exact visitParts_congr (Session.nextPart_sniffed hne hs hsmall)
  · have hsopened : Session.OpenedOn body boundary a.settings s :=
      ⟨_, Source.steady_ofFile hne, Source.pending_ofFile body, hs⟩
    have htopened : Session.OpenedOn body boundary a.settings t :=
      ⟨_, Source.steady_sniffed body, Source.pending_sniffed body, ht⟩
    obtain ⟨handed, e, hstops, htops, hlead, hfits⟩ := Session.same_parts (s := s) (t := t) hrooms hreader
      hends hsopened htopened (Session.open?_within hs)
    exact visitParts_alike htops hstops htopened.onDisk hsopened.onDisk (Session.open?_settings ht)
      (Session.open?_settings hs) hd hfits (hspares.mono hlead.subset)

theorem processBody_sniffed {contentType : String} (hne : body ≠ [])
    (htype : boundaryOf contentType = .ok boundary) (hrooms : ∀ n i, 0 < rooms n i)
    (hreader : Session.OpenedOn body boundary { a.settings with windowSize := size } reader)
    (hends : reader.transcriptFrom rooms 0 = ({ parts, error := .exhausted }, reader'))
    (hd : r.depot.Numbered)
    (hspares : (a.bufferSize < Source.fileBlock ∨ body.length ≤ Source.fileBlock) ∨ Spares a r parts) :
    processBody a r (.sniffed body) contentType = processBody a r (.ofFile body) contentType := by
  have hsession : ∀ source, Session.ofContentType? source contentType a.settings =
      Session.open? source boundary a.settings := by
    intro source
    unfold Session.ofContentType?
    rw [htype]
  have hsniffed := Session.open?_sniffed body boundary a.settings
  unfold processBody
  rw [hsession, hsession]
  rcases hs : Session.open? (.ofFile body) boundary a.settings with e | s <;> rw [hs] at hsniffed
  · rw [hsniffed]
    rfl
  · rcases ht : Session.open? (.sniffed body) boundary a.settings with e | t
    · cases ht.symm.trans hsniffed
    · -- the head of a table does not matter to a run that lists
      have hvisits : visitParts a (if a.verbose then tableHead r else r) t =
          visitParts a (if a.verbose then tableHead r else r) s := by
        split
        · rename_i hverbose
          exact visitParts_sniffed hne hs ht hrooms hreader hends hd (.inr (.inl (.inr (.inl hverbose))))
        · exact visitParts_sniffed hne hs ht hrooms hreader hends hd hspares
      simp only [hvisits]

end

/-! ## Runs -/

theorem runWith_congr {b : Arguments} (h : rawRun a foreign tree = rawRun b foreign tree) :
    runWith a foreign tree = runWith b foreign tree := by
  unfold rawRun at h
  unfold runWith
  simp only [h]

theorem processBody_boundary (boundary : Option String) (a : Arguments) (r : Run) (source : Source)
    (contentType : String) :
    processBody { a with boundary } r source contentType = processBody a r source contentType := by
  unfold processBody
  simp only [visitParts_boundary]
  rfl

/-- The boundary is told from the first line of a body that begins with a delimiter and a line break. -/
theorem opens_sniffed {boundary : String} (hboundary : IsBoundary boundary) (hlocal : a.isUrl = false)
    (htype : a.contentType = none) (hnone : a.boundary = none)
    (hopen : openBody tree a.file = .ok (.ofFile body, place)) {rest : Bytes}
    (hfirst : body = Window.dashed (Utf8.encode boundary) ++ Bytes.cr :: Bytes.lf :: rest) :
    Opens a tree (.sniffed body) (Arguments.formDataType boundary) place := by
  have hne : body ≠ [] := by
    rw [hfirst]
    nofun
  have hexplicit : a.explicitContentType = none := by
    unfold Arguments.explicitContentType
    rw [htype, hnone]
  -- the first line is within the block that is read ahead
  have htold : Source.boundaryOfFirstLine (body.take Source.fileBlock) = some (Utf8.encode boundary) := by
    have hlength : (Window.dashed (Utf8.encode boundary) ++ [Bytes.cr, Bytes.lf]).length ≤
        Source.fileBlock := by
      have hshort := hboundary.encode_length
      simp only [Window.dashed, List.length_append, List.length_cons, List.length_nil, Source.fileBlock]
      omega
    have hbody : body = Window.dashed (Utf8.encode boundary) ++ [Bytes.cr, Bytes.lf] ++ rest := by
      rw [hfirst, List.append_assoc]
      rfl
    rw [hbody, List.take_append, List.take_of_length_le hlength, List.append_assoc]
    exact Source.boundaryOfFirstLine_line hboundary.encode_ne_nil hboundary.encode_noBlank _
  refine ⟨hlocal, _, hopen, ?_⟩
  unfold contentTypeOf
  rw [hexplicit, Source.sniffBoundary_ofFile hne, htold]
  simp only [Utf8.lenient_encode hboundary.isAscii]

theorem opens_given {boundary : String} (hlocal : a.isUrl = false) (htype : a.contentType = none)
    (hopen : openBody tree a.file = .ok (.ofFile body, place)) :
    Opens { a with boundary := some boundary } tree (.ofFile body) (Arguments.formDataType boundary)
      place := by
  refine ⟨hlocal, _, hopen, ?_⟩
  unfold contentTypeOf Arguments.explicitContentType
  rw [htype]

theorem rawRun_url (h : a.isUrl = true) (foreign : List String) (tree : FileTree) :
    rawRun a foreign tree = (.error .noNetwork, { depot := startingDepot a foreign tree }) := by
  unfold rawRun runBody
  exact if_pos h

/-- What is read from a file is in the tree. -/
theorem openBody_file {path : String} (h : openBody tree path = .ok (.ofFile body, place)) :
    ∃ content, tree.node? place = some (.file content) := by
  obtain ⟨-, hopen⟩ := FileTree.onPath_ok h
  rcases hfind : tree.find (Path.ofText path) with e | ⟨found, node⟩ <;> rw [hfind] at hopen
  · cases hopen
  · have hnode := (FileTree.find_ok hfind).2
    cases node with
    | directory => cases hopen
    | file content =>
      cases hopen
      exact ⟨_, hnode⟩

/-- An upload behind a boundary of none but punctuation marks. -/
def punctuated : Bytes :=
  Utf8.encode "--=(:)?\r\nContent-Disposition: form-data; name=a; filename=f\r\n\r\nx\r\n--=(:)?--"

/-- The file with that body. -/
def punctuatedBody : FileTree where
  nodes := [(["body"], .file punctuated)]

/-- A body that is closed at once. -/
def closedAtOnce : FileTree where
  nodes := [(["body"], .file (Utf8.encode "--B--\r\n"))]

/-- An upload for the file that the body is in, and a field that begins in its first block and ends
behind it. -/
def rewriting : FileTree where
  nodes := [(["body"], .file (Utf8.encode
    "--B\r\nContent-Disposition: form-data; name=f; filename=body\r\n\r\n\r\n--B\r\n\r\n" ++
    List.replicate 8192 0 ++ Utf8.encode "\r\n--B--"))]

/-- A part behind a boundary that looks like an option. -/
def optionLike : Bytes :=
  Utf8.encode "---y\r\n\r\nx\r\n---y--"

end CommandLine

end FormData
