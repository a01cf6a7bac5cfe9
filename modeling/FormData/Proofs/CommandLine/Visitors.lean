/-
Runs on sessions that hand out the same parts. What a visit does to the run depends on the part alone,
not on the session it was handed out by (`visitPart_run`). So two runs that start alike end alike, in
every mode (`visitParts_alike`), unless a visit rewrites the file that the body is read from.
-/
import FormData.Proofs.CommandLine.Modes
import FormData.Proofs.CommandLine.Confinement

namespace FormData

/-- A part is kept as the same item by whatever session hands it out. -/
theorem OpenPart.keep_alike {p q : OpenPart} {content : Bytes} {d : Depot} (hp : p.Yields content)
    (hq : q.Yields content) (hhead : p.head = q.head) (hsettings : p.session.settings = q.session.settings)
    (hd : d.Numbered) : (p.keep d).1 = (q.keep d).1 ∧ (p.keep d).2.2 = (q.keep d).2.2 := by
  have hsame : p.fileName = q.fileName := by
    unfold fileName
    rw [hhead, hsettings]
  have hitem : p.toItem = q.toItem := by
    unfold toItem isFormField
    rw [hhead]
  rcases hname : p.fileName with e | name
  · unfold keep
    simp only [← hsame, hname, and_self]
  · have hkp := hp.keep hname hd
    have hkq := hq.keep (hsame.symm.trans hname) hd
    obtain ⟨hshort, _, -, hkp⟩ | ⟨hlong, hspills, _, -, hkp⟩ | ⟨hlong, hspills, e, _, hnew, hkp⟩ := hkp <;>
      obtain ⟨hshort', _, -, hkq⟩ | ⟨hlong', hspills', _, -, hkq⟩ | ⟨hlong', hspills', e', _, hnew', hkq⟩ :=
        hkq
    -- the length of the content and the depot decide which case it is, for both sessions alike
    · rw [hkp, hkq, hitem]
      exact ⟨rfl, rfl⟩
    · omega
    · omega
    · omega
    · rw [hkp, hkq, hitem]
      exact ⟨rfl, rfl⟩
    · exact absurd hspills hspills'
    · omega
    · exact absurd hspills' hspills
    · cases hnew.symm.trans hnew'
      rw [hkp, hkq]
      exact ⟨rfl, rfl⟩

namespace CommandLine

variable {a : Arguments} {r r' : Run} {p q : OpenPart} {s t : Session} {content : Bytes}

/-! ## The run after a visit -/

theorem followBody_run (r : Run) (s t : Session) (i : Item) (path : String) :
    (followBody r s i path).1 = (followBody r t i path).1 := by
  unfold followBody
  split
  · split
    · split <;> rfl
    · rfl
  · rfl

theorem saveItem_run (a : Arguments) (r : Run) (s t : Session) (i : Item) (field fileName : String) :
    (saveItem a r s i field fileName).1 = (saveItem a r t i field fileName).1 ∧
      (saveItem a r s i field fileName).2.1 = (saveItem a r t i field fileName).2.1 ∧
      (saveItem a r s i field fileName).2.2.2 = (saveItem a r t i field fileName).2.2.2 := by
  unfold saveItem
  split
  · exact ⟨rfl, rfl, rfl⟩
  · simp only
    split
    · exact ⟨rfl, rfl, rfl⟩
    · unfold saveTo
      split
      · exact ⟨rfl, rfl, rfl⟩
      · simp only
        split
        · exact ⟨rfl, rfl, rfl⟩
        · exact ⟨rfl, followBody_run _ _ _ _ _, rfl⟩

theorem extractPart_run (hp : p.Yields content) (hq : q.Yields content) (hhead : p.head = q.head)
    (hsettings : p.session.settings = q.session.settings) (hd : r.depot.Numbered) (field : String)
    (fileName : Option String) :
    (extractPart a r p field fileName).1 = (extractPart a r q field fileName).1 ∧
      (extractPart a r p field fileName).2.1 = (extractPart a r q field fileName).2.1 := by
  obtain ⟨hresult, hdepot⟩ := OpenPart.keep_alike hp hq hhead hsettings hd
  unfold extractPart
  rcases hkp : p.keep r.depot with ⟨e | item, p', d⟩ <;>
    rcases hkq : q.keep r.depot with ⟨e' | item', q', d'⟩ <;> rw [hkp, hkq] at hresult hdepot <;>
    cases hresult <;> cases hdepot
  · cases e <;> exact ⟨rfl, rfl⟩
  · rcases fileName with _ | name
    · exact ⟨rfl, rfl⟩
    · simp only
      split
      · exact ⟨rfl, rfl⟩
      · obtain ⟨h1, h2, h3⟩ := saveItem_run a { r with depot := d } p'.session q'.session item field name
        exact ⟨h1, by rw [h2, h3]⟩

/-- What a visit of a part that fits does to the run does not depend on the session of the part. -/
theorem visitPart_run (hp : (p.withFileLimit none).Yields content)
    (hq : (q.withFileLimit none).Yields content) (hhead : p.head = q.head) (hpunread : p.bytesRead = 0)
    (hqunread : q.bytesRead = 0) (hpsettings : p.session.settings = a.settings)
    (hqsettings : q.session.settings = a.settings) (hd : r.depot.Numbered)
    (hfits : PartHead.Fits a.settings.maxFileSize (p.head, content)) :
    (visitPart a r p).1 = (visitPart a r q).1 ∧ (visitPart a r p).2.1 = (visitPart a r q).2.1 := by
  by_cases hviews : Views a
  · -- what is shown is a function of the head and the content
    obtain ⟨s, hvp, -⟩ := visitPart_eq_view (r := r) hviews hp hpunread hpsettings fun _ => hfits
    obtain ⟨t, hvq, -⟩ := visitPart_eq_view (r := r) hviews hq hqunread hqsettings
      fun _ => hhead ▸ hfits
    rw [hvp, hvq, hhead]
    exact ⟨rfl, rfl⟩
  · obtain ⟨hlists, hpipes⟩ := not_views hviews
    have hyp := hp.withFileLimit hpunread (hpsettings ▸ hfits)
    have hyq := hq.withFileLimit hqunread (hqsettings ▸ hhead ▸ hfits)
    have hsettings : p.session.settings = q.session.settings := hpsettings.trans hqsettings.symm
    have hname : p.fileName = q.fileName := by
      unfold OpenPart.fileName
      rw [hhead, hsettings]
    unfold visitPart
    simp only [hlists, hpipes, Bool.false_eq_true, if_false, hname, hhead]
    split
    · rcases q.fileName with e | fileName
      · simp only
        split <;> exact ⟨rfl, rfl⟩
      · exact extractPart_run hyp hyq hhead hsettings hd _ _
    · exact ⟨rfl, rfl⟩

/-! ## From the first part to the last -/

/-- The file that the body is read from is there, and must not be overwritten. -/
structure Guards (a : Arguments) (r : Run) : Prop where
  keeps : ¬ Overwrites a
  rooted : r.depot.tree.Rooted
  reaches : ReachesOutput a r.depot.tree
  there : ∀ place ∈ r.body, ∃ content, r.depot.tree.node? place = some (.file content)

/-- No visit of these parts rewrites the file that the body is read from: the parts are only looked at, or
the file is guarded, or those parts that are short enough to be written from memory go to other places. -/
def Spares (a : Arguments) (r : Run) (parts : List (PartHead × Bytes)) : Prop :=
  Views a ∨ Guards a r ∨ ∀ place ∈ r.body, ∀ part ∈ parts, part.2.length ≤ r.depot.threshold →
    place? a r.depot.tree part.1 ≠ some place

theorem Guards.saving {name : String} {content : Bytes} {result : Except Failure Unit} (h : Guards a r)
    (hs : Saving a name content r.depot.tree result r'.depot.tree)
    (hbody : ∀ place ∈ r'.body, place ∈ r.body) : Guards a r' := by
  have hconfined := (Confined.refl h.rooted).saving hs
  refine ⟨h.keeps, hconfined.rooted, h.reaches.grows hconfined.grows, fun place hplace => ?_⟩
  obtain ⟨held, hheld⟩ := h.there place (hbody place hplace)
  exact ⟨held, hconfined.kept h.keeps h.reaches place held hheld⟩

/-- A file that is guarded is not written. -/
theorem Guards.spares {name relative : String} {made : FileTree} {place : Place} (h : Guards a r)
    (hplace : place ∈ r.body) : ¬ Writes a name r.depot.tree made relative place := by
  intro hwrites
  obtain ⟨held, hheld⟩ := h.there place hplace
  exact h.keeps (hwrites.overwrites h.rooted h.reaches (by rw [hheld]; nofun))

/-- A visit that spares the body leaves the rest of its part to be passed, and spares it further on. -/
theorem visitPart_spares {parts : List (PartHead × Bytes)} (hdisk : s.OnDisk) (hpart : s.nextPart = .ok p)
    (hcontent : (p.withFileLimit none).Yields content) (hd : r.depot.Numbered)
    (hsettings : s.settings = a.settings) (hspares : Spares a r ((p.head, content) :: parts)) {s' : Session}
    (hv : visitPart a r p = (.ok (), r', s')) :
    p.session.Leaves s' ∧ r'.depot.Numbered ∧ Spares a r' parts := by
  by_cases hviews : Views a
  · have hdepot := visitPart_depot hviews r p
    rw [hv] at hdepot
    exact ⟨visitPart_leaves hviews (hdisk.part hpart) (Session.nextPart_reading hpart) hv, hdepot ▸ hd,
      .inl hviews⟩
  · have hspared := hspares.resolve_left hviews
    have hvisit := nextPart_extracts (r := r) hviews hdisk hpart hd hsettings
    rw [hv] at hvisit
    obtain ⟨tree, hleaves, hsaved⟩ := hvisit.saved
    have hbody := hvisit.body
    obtain rfl := hleaves.tree
    refine ⟨?_, hleaves.numbered hd, .inr ?_⟩
    · obtain ⟨-, hleaves | ⟨name, content', huploads, hyields, hshort, made, relative, place, hplace,
        hwrites⟩⟩ := hvisit.session rfl
      · exact hleaves
      · -- the part is written over the body
        exfalso
        obtain hguards | helsewhere := hspared
        · exact hguards.spares hplace hwrites
        · obtain rfl := hyields.withoutFileLimit.unique hcontent
          exact helsewhere place hplace (p.head, content') List.mem_cons_self hshort
            (hwrites.place?_eq huploads)
    · -- further on, the tree has grown and the body is where it was, or nowhere
      obtain hguards | helsewhere := hspared
      · left
        obtain ⟨htree, -⟩ | ⟨name, content, -, -, hsaving⟩ := hsaved
        · exact ⟨hguards.keeps, htree ▸ hguards.rooted, htree ▸ hguards.reaches, fun place hplace =>
            htree ▸ hguards.there place (hbody place hplace)⟩
        · exact hguards.saving hsaving hbody
      · right
        have hhere : r'.depot.tree.here = r.depot.tree.here := by
          obtain ⟨htree, -⟩ | ⟨name, content, -, -, hsaving⟩ := hsaved
          · rw [htree]
          · exact hsaving.here
        intro place hplace part hmem hshort
        rw [place?_eq hhere]
        refine helsewhere place (hbody place hplace) part (List.mem_cons_of_mem _ hmem) ?_
        rwa [← hleaves.threshold]

/-- By induction on the parts: runs that start alike, on sessions that hand out the same parts, end
alike. -/
theorem visitParts_alike {parts : List (PartHead × Bytes)} {e : Error} (hs : s.Stops parts e)
    (ht : t.Stops parts e) (hsdisk : s.OnDisk) (htdisk : t.OnDisk)
    (hssettings : s.settings = a.settings) (htsettings : t.settings = a.settings)
    (hd : r.depot.Numbered) (hfits : ∀ part ∈ parts, PartHead.Fits a.settings.maxFileSize part)
    (hspares : Spares a r parts) : visitParts a r s = visitParts a r t := by
  induction parts generalizing r s t with
  | nil =>
    cases hs with
    | stop hs hsphase =>
      cases ht with
      | stop ht htphase =>
        by_cases he : e = .exhausted
        · rw [visitParts_end hs (hsphase he), visitParts_end ht (htphase he)]
        · rw [visitParts_stopped hs (mt (Session.error_eq_exhausted hs) he),
            visitParts_stopped ht (mt (Session.error_eq_exhausted ht) he)]
  | cons part rest ih =>
    obtain ⟨head, content⟩ := part
    obtain ⟨p, hp, rfl, hpyields, hprest⟩ := hs.first
    obtain ⟨q, hq, hhead, hqyields, hqrest⟩ := ht.first
    have hpsettings := (Session.nextPart_settings hp).trans hssettings
    have hqsettings := (Session.nextPart_settings hq).trans htsettings
    obtain ⟨hresult, hrun⟩ := visitPart_run (r := r) hpyields hqyields hhead.symm
      (Session.nextPart_unread hp).1 (Session.nextPart_unread hq).1 hpsettings hqsettings hd
      (hfits _ List.mem_cons_self)
    rcases hvp : visitPart a r p with ⟨f | ⟨⟩, r₁, s₁⟩ <;>
      rcases hvq : visitPart a r q with ⟨f' | ⟨⟩, r₂, t₁⟩ <;> rw [hvp, hvq] at hresult hrun <;>
      cases hresult <;> cases hrun
    · rw [visitParts_failed hp hvp, visitParts_failed hq hvq]
    · rw [visitParts_visited hp hvp, visitParts_visited hq hvq]
      obtain ⟨hpleaves, hd', hspares'⟩ := visitPart_spares hsdisk hp hpyields hd hssettings hspares hvp
      obtain ⟨hqleaves, -, -⟩ := visitPart_spares htdisk hq hqyields hd htsettings
        (by rw [hhead]; exact hspares) hvq
      exact ih (hprest _ hpleaves) (hqrest _ hqleaves) (visitPart_onDisk (hsdisk.part hp) hvp)
        (visitPart_onDisk (htdisk.part hq) hvq) (hpleaves.settings_eq.trans hpsettings)
        (hqleaves.settings_eq.trans hqsettings) hd' (fun part hmem => hfits part (List.mem_cons_of_mem _ hmem))
        hspares'

end CommandLine

end FormData
