/-
A request is kept whole or not at all. If the parts of a body can be read one after the other and kept,
there is one item for each, in their order and with their contents (`Item.Of`); otherwise the depot is
as it was before, whichever items it had and whatever went wrong (`parse_allOrNothing`). The items
kept so far are carried along with what the depot is without them (`Request.Holding`).
-/
import Mathlib.Data.List.Forall2
import FormData.Request
import FormData.Proofs.Depot.Keeping

namespace FormData

/-! ## Sessions keep their settings -/

namespace Session

variable {s : Session}

theorem leaveBody_settings (s : Session) : s.leaveBody.2.settings = s.settings := by
  unfold leaveBody
  split
  · rfl
  · split
    · rfl
    · split <;> rfl

theorem locatePart_settings (s : Session) (headers : Headers) :
    (s.locatePart headers).2.settings = s.settings := by
  unfold locatePart
  simp only
  split
  · split <;> rfl
  · split <;> rfl

theorem turn_settings (s : Session) : s.turn.2.settings = s.settings := by
  unfold turn
  split
  · rfl
  · exact leaveBody_settings _
  · unfold openPart
    split
    · rfl
    · unfold enterPart
      split
      · rfl
      · split <;> rfl
      · exact locatePart_settings _ _

theorem locate_settings (s : Session) : s.locate.2.settings = s.settings := by
  fun_induction locate s with
  | case1 s r s' ht =>
    have h := turn_settings s
    rwa [ht] at h
  | case2 s s' ht _ ih =>
    have h := turn_settings s
    rw [ht] at h
    exact ih.trans h

theorem search_settings (s : Session) : s.search.2.settings = s.settings := by
  have hadvance : s.advance.2.settings = s.settings := by
    unfold advance
    split
    · split
      · rfl
      · exact locate_settings _
    · exact locate_settings _
  unfold search
  rcases ha : s.advance with ⟨e | more, s'⟩ <;> rw [ha] at hadvance
  · simp only [afterError]
    split <;> exact hadvance
  · exact hadvance

theorem nextPart_settings {p : OpenPart} (h : s.nextPart = .ok p) :
    p.session.settings = s.settings := by
  have hnext : s.hasNext.2.settings = s.settings := by
    rw [hasNext_eq]
    cases s.phase with
    | start | reading => exact search_settings s
    | _ => rfl
  unfold nextPart at h
  rcases hn : s.hasNext with ⟨e | _ | _, s'⟩ <;> simp only [hn] at h hnext
  · cases h
  · cases h
  · split at h
    · cases h
      exact hnext
    · cases h

end Session

/-! ## Items of parts -/

/-- The decoded file name of a part, if it has one. -/
def PartHead.fileName (decoder : FileName.Decoder) (head : PartHead) :
    Except Error (Option String) :=
  match head.rawFileName with
  | none => .ok none
  | some raw => (decoder.decode raw).map some

/-- The item is this part with this content. -/
structure Item.Of (decoder : FileName.Decoder) (depot : Depot) (part : PartHead × Bytes) (item : Item) :
    Prop where
  field : item.field = part.1.field
  fileName : part.1.fileName decoder = .ok item.fileName
  headers : item.headers = part.1.headers
  isFormField : item.isFormField = part.1.rawFileName.isNone
  size : item.size = part.2.length
  content : item.content depot = .ok part.2

/-- What an item of a depot holds it holds beside any later file. -/
theorem Item.content_withTemp {d : Depot} {i : Item} {content : Bytes} (h : i.content d = .ok content)
    (more : Bytes) : i.content (d.withTemp more) = .ok content := by
  unfold Item.content at h ⊢
  cases hs : i.storage with
  | temp id =>
    simp only [hs] at h ⊢
    rcases ht : d.temp? id with _ | held <;> rw [ht] at h
    · cases h
    · have hlookup : (d.withTemp more).temp? id = some held := by
        unfold Depot.temp? Depot.withTemp at *
        rw [List.lookup_append, ht]
        rfl
      rw [hlookup]
      exact h
  | memory held => rwa [hs] at h
  | stored path => rwa [hs] at h
  | deleted => rwa [hs] at h

theorem OpenPart.toItem_of {p : OpenPart} {depot : Depot} {name : Option String} {content : Bytes}
    {storage : Storage} (hname : p.fileName = .ok name)
    (hcontent : (p.toItem name content.length storage).content depot = .ok content) :
    (p.toItem name content.length storage).Of p.session.settings.decoder depot (p.head, content) where
  field := rfl
  fileName := hname
  headers := rfl
  isFormField := rfl
  size := rfl
  content := hcontent

/-- Nothing but its body keeps a part from being kept: its name decodes, and its content fits in memory
or files can be made. -/
structure Keepable (decoder : FileName.Decoder) (d : Depot) (part : PartHead × Bytes) : Prop where
  name : ∃ name, part.1.fileName decoder = .ok name
  room : part.2.length ≤ d.threshold ∨ ∀ issued, ({ d with issued } : Depot).Spills

theorem OpenPart.Yields.not_keep_error {p q : OpenPart} {d d' : Depot} {content : Bytes} {e : Error}
    (h : p.Yields content) (hd : d.Numbered)
    (hkeepable : Keepable p.session.settings.decoder d (p.head, content)) :
    p.keep d ≠ (.error e, q, d') := by
  intro hk
  obtain ⟨name, hname⟩ := hkeepable.name
  obtain ⟨-, q', -, hkeep⟩ | ⟨-, -, q', -, hkeep⟩ | ⟨hlong, hspills, -⟩ := h.keep hname hd
  · cases hk.symm.trans hkeep
  · cases hk.symm.trans hkeep
  · obtain hshort | hall := hkeepable.room
    · exact absurd hshort (Nat.not_le.2 hlong)
    · exact hspills (hall d.issued)

namespace Request

variable {d₀ d d' : Depot} {items : List Item}

theorem releaseAll_issued (items : List Item) (d : Depot) (issued : Nat) :
    releaseAll items { d with issued } = { releaseAll items d with issued } := by
  induction items generalizing d with
  | nil => rfl
  | cons item items ih =>
    have hone : item.release { d with issued } = { item.release d with issued } := by
      unfold Item.release
      split <;> rfl
    show releaseAll items (item.release _) = _
    rw [hone, ih]
    rfl

theorem releaseAll_restored (items : List Item) (h : d.Restored d') :
    (releaseAll items d).Restored (releaseAll items d') := by
  obtain ⟨n, hn, rfl⟩ := h
  refine ⟨n, ?_, releaseAll_issued items d n⟩
  have hsame : releaseAll items d = { releaseAll items d with issued := d.issued } :=
    releaseAll_issued items d d.issued
  rw [hsame]
  exact hn

/-! ## What is left of a body -/

/-- The parts of a body, of which some were read and the rest can be, from this session on. -/
def Completes (rooms : Nat → Nat → Nat) (count : Nat) (t : Session) (done all : List (PartHead × Bytes)) :
    Prop :=
  ∃ rest t', all = done ++ rest ∧
    t.transcriptFrom rooms count = ({ parts := rest, error := .exhausted }, t') ∧ t'.phase = .exhausted

section

variable {rooms : Nat → Nat → Nat} {count : Nat} {t t' : Session} {p q : OpenPart} {e : Error}
  {content : Bytes} {done all : List (PartHead × Bytes)}

theorem completes_exhausted (h : t.nextPart = .error (.exhausted, t')) (hend : t'.phase = .exhausted) :
    Completes rooms count t done done :=
  ⟨[], t', (List.append_nil done).symm, Session.transcriptFrom_error h, hend⟩

theorem not_completes_error (h : t.nextPart = .error (e, t')) (hne : t'.phase ≠ .exhausted) :
    ¬ Completes rooms count t done all := by
  rintro ⟨rest, t'', -, htranscript, hend⟩
  rw [Session.transcriptFrom_error h] at htranscript
  cases htranscript
  exact hne hend

/-- A body of which a part is next has that part read to its end. -/
theorem Completes.drain (hnext : t.nextPart = .ok p) (h : Completes rooms count t done all) :
    ∃ content q, p.drain (rooms count) 0 = ((content, none), q) ∧ (p.head, content) ∈ all := by
  obtain ⟨rest, t'', rfl, htranscript, -⟩ := h
  rcases hd : p.drain (rooms count) 0 with ⟨⟨content, _ | e⟩, q⟩
  · rw [Session.transcriptFrom_part hnext hd] at htranscript
    have hrest := congrArg (fun x : Transcript × Session => x.1.parts) htranscript
    refine ⟨content, q, rfl, ?_⟩
    rw [← show (p.head, content) :: _ = rest from hrest]
    exact List.mem_append_right _ (List.mem_cons_self ..)
  · rw [Session.transcriptFrom_broken hnext hd] at htranscript
    cases htranscript

theorem completes_part (hnext : t.nextPart = .ok p)
    (hd : p.drain (rooms count) 0 = ((content, none), q)) :
    Completes rooms count t done all ↔
      Completes rooms (count + 1) q.session (done ++ [(p.head, content)]) all := by
  unfold Completes
  rw [Session.transcriptFrom_part hnext hd]
  constructor
  · rintro ⟨rest, t'', rfl, htranscript, hend⟩
    rcases hq : q.session.transcriptFrom rooms (count + 1) with ⟨⟨parts, broken, error⟩, t3⟩
    rw [hq] at htranscript
    cases htranscript
    exact ⟨parts, _, by simp, rfl, hend⟩
  · rintro ⟨rest, t'', rfl, htranscript, hend⟩
    rw [htranscript]
    exact ⟨(p.head, content) :: rest, t'', by simp, rfl, hend⟩

end

/-! ## The items kept so far -/

/-- The items kept so far, the last one first: each is the part it was made of, and without them the
depot is as it was. -/
structure Holding (decoder : FileName.Decoder) (d₀ d : Depot) (done : List (PartHead × Bytes))
    (items : List Item) : Prop where
  numbered : d.Numbered
  released : d₀.Restored (releaseAll items d)
  alike : ∀ part, Keepable decoder d₀ part → Keepable decoder d part
  kept : List.Forall₂ (Item.Of decoder d) done items.reverse

variable {decoder : FileName.Decoder} {done : List (PartHead × Bytes)} {part : PartHead × Bytes}
  {item : Item}

theorem Holding.inMemory (h : Holding decoder d₀ d done items) (hitem : item.Of decoder d part)
    {content : Bytes} (hs : item.storage = .memory content) :
    Holding decoder d₀ d (done ++ [part]) (item :: items) where
  numbered := h.numbered
  released := by
    have hrelease : item.release d = d := by
      unfold Item.release
      rw [hs]
    show d₀.Restored (releaseAll items (item.release d))
    rw [hrelease]
    exact h.released
  alike := h.alike
  kept := by
    rw [List.reverse_cons]
    exact List.rel_append h.kept (.cons hitem .nil)

theorem Holding.inFile (h : Holding decoder d₀ d done items) {content : Bytes}
    (hitem : item.Of decoder (d.withTemp content) part) (hs : item.storage = .temp d.issued) :
    Holding decoder d₀ (d.withTemp content) (done ++ [part]) (item :: items) where
  numbered := h.numbered.withTemp content
  released := by
    have hrelease : item.release (d.withTemp content) = (d.withTemp content).dropTemp d.issued := by
      unfold Item.release
      rw [hs]
    show d₀.Restored (releaseAll items (item.release (d.withTemp content)))
    rw [hrelease]
    exact h.released.trans (releaseAll_restored items (h.numbered.dropTemp_withTemp content))
  alike part hpart := ⟨(h.alike part hpart).name, (h.alike part hpart).room⟩
  kept := by
    rw [List.reverse_cons]
    refine List.rel_append (h.kept.imp ?_) (.cons hitem .nil)
    rintro part item ⟨hfield, hname, hheaders, hform, hsize, hcontent⟩
    exact ⟨hfield, hname, hheaders, hform, hsize, Item.content_withTemp hcontent content⟩

/-- A part that is kept is held beside the items kept before, and left behind. -/
theorem Holding.keep (h : Holding decoder d₀ d done items) {p p' : OpenPart} {content : Bytes}
    (hyields : p.Yields content) (hdecoder : p.session.settings.decoder = decoder)
    (hk : p.keep d = (.ok item, p', d')) :
    Holding decoder d₀ d' (done ++ [(p.head, content)]) (item :: items) ∧
      p.session.Leaves p'.session := by
  subst hdecoder
  obtain ⟨name, hname⟩ : ∃ name, p.fileName = .ok name := ⟨_, (OpenPart.keep_ok hk).2.2.1⟩
  obtain ⟨-, q, hleaves, hkeep⟩ | ⟨-, -, q, hleaves, hkeep⟩ | ⟨-, -, e, q, -, hkeep⟩ :=
    hyields.keep hname h.numbered
  · cases hk.symm.trans hkeep
    have hcontent : (p.toItem name content.length (.memory content)).content d = .ok content := rfl
    exact ⟨h.inMemory (OpenPart.toItem_of hname hcontent) rfl, hleaves⟩
  · cases hk.symm.trans hkeep
    have hcontent : (p.toItem name content.length (.temp d.issued)).content (d.withTemp content) =
        .ok content := by
      simp only [Item.content, OpenPart.toItem, h.numbered.temp?_withTemp]
    exact ⟨h.inFile (OpenPart.toItem_of hname hcontent) rfl, hleaves⟩
  · cases hk.symm.trans hkeep

/-! ## The whole request -/

/-- The request is kept whole, or the depot is as it was and not all of the request could be kept. -/
def Outcome.AllOrNothing (decoder : FileName.Decoder) (d₀ : Depot)
    (complete : List (PartHead × Bytes) → Prop) (o : Outcome) : Prop :=
  match o.result with
  | .ok items => ∃ parts, complete parts ∧ List.Forall₂ (Item.Of decoder o.depot) parts items
  | .error _ => d₀.Restored o.depot ∧
      ∀ parts, complete parts → ¬ ∀ part ∈ parts, Keepable decoder d₀ part

/-- By induction on the parts, along with the session of a caller who reads each to its end. -/
theorem keepFrom_allOrNothing {rooms : Nat → Nat → Nat} (hrooms : ∀ n i, 0 < rooms n i) {count : Nat}
    {s t : Session} (hnext : t.hasNext = s.hasNext) (hdecoder : s.settings.decoder = decoder)
    (h : Holding decoder d₀ d done items) :
    (keepFrom s d items).AllOrNothing decoder d₀ (Completes rooms count t done) := by
  have hpart := Session.nextPart_eq_of_hasNext hnext
  fun_induction keepFrom s d items generalizing t count done with
  | case1 s d items s' hs =>
    obtain ⟨hs, hend⟩ := Session.next_ended_iff.1 hs
    rw [hs] at hpart
    exact ⟨done, completes_exhausted hpart hend, h.kept⟩
  | case2 s d items e s' hs =>
    obtain ⟨hs, hne⟩ := Session.next_failed_iff.1 hs
    rw [hs] at hpart
    refine ⟨h.released, fun parts hparts => ?_⟩
    exact absurd hparts (not_completes_error hpart hne)
  | case3 s d items p hs e p' d' hk =>
    have hs := Session.next_part_iff.1 hs
    rw [hs] at hpart
    have hrestored := OpenPart.keep_error h.numbered hk
    refine ⟨h.released.trans (releaseAll_restored items hrestored), fun parts hparts hkeepable => ?_⟩
    -- a part that is read to its end and could be kept would have been
    obtain ⟨content, q, hd, hmem⟩ := hparts.drain hpart
    have hyields := OpenPart.yields_of_drain (hrooms count) (Session.nextPart_reading hs)
      (Session.nextPart_unread hs).2 hd
    have hkeepable' := h.alike _ (hkeepable _ hmem)
    rw [← hdecoder, ← Session.nextPart_settings hs] at hkeepable'
    exact hyields.not_keep_error h.numbered hkeepable' hk
  | case4 s d items p hs item p' d' hk _ ih =>
    have hs := Session.next_part_iff.1 hs
    rw [hs] at hpart
    have hreading := Session.nextPart_reading hs
    have hsettings : p.session.settings.decoder = decoder :=
      (congrArg Settings.decoder (Session.nextPart_settings hs)).trans hdecoder
    obtain ⟨content, hyields⟩ := OpenPart.yields_of_keep hreading (Session.nextPart_unread hs).2 hk
    obtain ⟨hholding, hleaves⟩ := h.keep hyields hsettings hk
    obtain ⟨q, hd, hq⟩ := hyields.drain (hrooms count) 0
    -- both callers leave the part behind, so the same comes next for them
    have hsame : q.session.hasNext = p'.session.hasNext :=
      (hq.hasNext_eq hreading).trans (hleaves.hasNext_eq hreading).symm
    have hcompletes : Completes rooms count t done =
        Completes rooms (count + 1) q.session (done ++ [(p.head, content)]) :=
      funext fun all => propext (completes_part hpart hd)
    rw [hcompletes]
    exact ih hsame (hleaves.settings_eq ▸ hsettings) hholding (Session.nextPart_eq_of_hasNext hsame)

/-- A body of this content type is well-formed under these settings and has these parts, as a caller
finds who reads each of them to its end by reads of such sizes. -/
def HasParts (rooms : Nat → Nat → Nat) (source : Source) (contentType : String) (settings : Settings)
    (parts : List (PartHead × Bytes)) : Prop :=
  ∃ s s', Session.ofContentType? source contentType settings = .ok s ∧
    s.transcriptFrom rooms 0 = ({ parts, error := .exhausted }, s') ∧ s'.phase = .exhausted

end Request

/-- Whatever the source, the content type, the settings and the depot, a request is kept whole or not
at all. Kept, it has an item for each part of the body, in order, with what is known of the part and
with its content; else the depot holds the files it held before and tracks those it tracked before. It
fails only if the body has no such parts, or one of them cannot be kept. -/
theorem parse_allOrNothing (source : Source) (contentType : String) (settings : Settings) {d : Depot}
    (hd : d.Numbered) {rooms : Nat → Nat → Nat} (hrooms : ∀ n i, 0 < rooms n i) :
    (Request.parse source contentType settings d).AllOrNothing settings.decoder d
      (Request.HasParts rooms source contentType settings) := by
  unfold Request.parse
  rcases hopen : Session.ofContentType? source contentType settings with e | s
  · refine ⟨.refl d, ?_⟩
    rintro parts ⟨s, s', hs, -⟩
    cases hopen.symm.trans hs
  · have hsettings : s.settings = settings := by
      unfold Session.ofContentType? at hopen
      split at hopen
      · cases hopen
      · rw [(Session.open?_ok hopen).2]
    have hparts : Request.HasParts rooms source contentType settings =
        Request.Completes rooms 0 s [] := by
      funext parts
      unfold Request.HasParts Request.Completes
      rw [hopen]
      simp
    rw [hparts]
    exact Request.keepFrom_allOrNothing hrooms rfl (congrArg Settings.decoder hsettings)
      ⟨hd, .refl d, fun _ hpart => hpart, .nil⟩

/-- A depot that tracks a file already. -/
def shared : Depot where
  tree := { nodes := [(["tmp"], .directory)] }
  repository := "/tmp"
  threshold := 2
  temps := [(0, [120])]
  tracked := [0]
  issued := 1

/-- A body with a short and a long content. -/
def shortAndLong (ending : String) : Source where
  transport := { segments := [.data (Utf8.encode ("--B\r\n\r\nab\r\n--B\r\n\r\nabcd" ++ ending))] }

def boundaryB : String :=
  "multipart/form-data; boundary=B"

/-- The body is kept beside the file of another item, and one that breaks off behind the long content
leaves that file alone. -/
theorem parse_allOrNothing_shared :
    shared.Numbered ∧
      (Request.parse (shortAndLong "\r\n--B--") boundaryB {} shared).AllOrNothing
        ({} : Settings).decoder shared
        (Request.HasParts (fun _ _ => 3) (shortAndLong "\r\n--B--") boundaryB {}) ∧
      (Request.parse (shortAndLong "\r\n--") boundaryB {} shared).AllOrNothing
        ({} : Settings).decoder shared
        (Request.HasParts (fun _ _ => 3) (shortAndLong "\r\n--") boundaryB {}) ∧
      (Request.parse (shortAndLong "\r\n--B--") boundaryB {} shared).depot.temps =
        [(0, [120]), (1, [97, 98, 99, 100])] ∧
      (Request.parse (shortAndLong "\r\n--") boundaryB {} shared).depot.temps = [(0, [120])] := by
  have hd : shared.Numbered := ⟨by decide, by decide⟩
  refine ⟨hd, ?_, ?_, by decide +kernel, by decide +kernel⟩
  · exact parse_allOrNothing (shortAndLong "\r\n--B--") boundaryB {} hd fun _ _ => Nat.succ_pos 2
  · exact parse_allOrNothing (shortAndLong "\r\n--") boundaryB {} hd fun _ _ => Nat.succ_pos 2

end FormData
