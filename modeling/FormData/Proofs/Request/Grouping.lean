/-
Items by field. Adding an item to the groups puts it behind the others of its field and leaves every
other group alone (`Grouped.add`), so the groups are a stable partition of the items: one for each
field name that occurs, with the items of that field in the order of transmission. Grouping a request
is keeping it, and touches no file of an item (`parseByField_partitions`).
-/
import Mathlib.Data.List.Induction
import FormData.Proofs.Depot.Registry
import FormData.Proofs.Request.AllOrNothing

namespace FormData

/-- The name that an item is grouped under. -/
def Item.fieldName (i : Item) : String :=
  i.field.getD ""

namespace Request

variable {items : List Item} {fields : List (String × List Item)}

/-! ## Adding one item -/

theorem addToField_cons (item : Item) (group : String × List Item) :
    addToField item (group :: fields) =
      if group.1 = item.fieldName then (group.1, group.2 ++ [item]) :: fields
      else group :: addToField item fields := rfl

/-- A name that is there keeps its place, and any other comes last. -/
theorem names_addToField (item : Item) (fields : List (String × List Item)) :
    (addToField item fields).map Prod.fst =
      if item.fieldName ∈ fields.map Prod.fst then fields.map Prod.fst
      else fields.map Prod.fst ++ [item.fieldName] := by
  induction fields with
  | nil => rfl
  | cons group fields ih =>
    rw [addToField_cons]
    by_cases hname : group.1 = item.fieldName
    · simp [hname]
    · rw [if_neg hname, List.map_cons, ih]
      by_cases hmem : item.fieldName ∈ fields.map Prod.fst
      · simp [hmem]
      · have hnot : item.fieldName ∉ (group :: fields).map Prod.fst := by
          simpa [Ne.symm hname] using hmem
        rw [if_neg hmem, if_neg hnot]
        rfl

/-- The item is one more, and none is lost. -/
theorem perm_addToField (item : Item) (fields : List (String × List Item)) :
    ((addToField item fields).flatMap Prod.snd).Perm (fields.flatMap Prod.snd ++ [item]) := by
  induction fields with
  | nil => exact .refl _
  | cons group fields ih =>
    rw [addToField_cons, List.flatMap_cons, List.append_assoc]
    split
    · rw [List.flatMap_cons, List.append_assoc]
      exact List.perm_append_comm.append_left _
    · rw [List.flatMap_cons]
      exact ih.append_left _

/-- What a group is after the item was added: as before if it is of another field, else what it was, if
there was one, with the item behind. -/
theorem mem_addToField {item : Item} {group : String × List Item}
    (hdistinct : (fields.map Prod.fst).Nodup) (h : group ∈ addToField item fields) :
    (group.1 ≠ item.fieldName ∧ group ∈ fields) ∨
      ∃ others, group = (item.fieldName, others ++ [item]) ∧
        ((item.fieldName, others) ∈ fields ∨ item.fieldName ∉ fields.map Prod.fst ∧ others = []) := by
  induction fields with
  | nil =>
    rw [List.mem_singleton.1 h]
    exact .inr ⟨[], rfl, .inr ⟨List.not_mem_nil, rfl⟩⟩
  | cons first fields ih =>
    obtain ⟨hfirst, hrest⟩ := List.nodup_cons.1 hdistinct
    rw [addToField_cons] at h
    by_cases hname : first.1 = item.fieldName
    · rw [if_pos hname] at h
      rcases List.mem_cons.1 h with rfl | hmem
      · exact .inr ⟨first.2, by rw [hname], .inl (by rw [← hname]; exact List.mem_cons_self)⟩
      · left
        refine ⟨?_, List.mem_cons_of_mem _ hmem⟩
        -- the names are distinct, so no other group has the item's
        rintro heq
        exact hfirst (hname.trans heq.symm ▸ List.mem_map_of_mem hmem)
    · rw [if_neg hname] at h
      rcases List.mem_cons.1 h with rfl | hmem
      · exact .inl ⟨hname, List.mem_cons_self⟩
      · obtain ⟨hne, hold⟩ | ⟨others, rfl, hothers⟩ := ih hrest hmem
        · exact .inl ⟨hne, List.mem_cons_of_mem _ hold⟩
        · refine .inr ⟨others, rfl, ?_⟩
          obtain hold | ⟨hnew, hnil⟩ := hothers
          · exact .inl (List.mem_cons_of_mem _ hold)
          · refine .inr ⟨?_, hnil⟩
            simpa [Ne.symm hname] using hnew

/-! ## Groups of items -/

/-- These are the items by field: each name that occurs has one group, which is not empty and holds the
items of that name in their order, and all groups together hold each item once. -/
structure Grouped (items : List Item) (fields : List (String × List Item)) : Prop where
  distinct : (fields.map Prod.fst).Nodup
  names : ∀ name, name ∈ fields.map Prod.fst ↔ ∃ item ∈ items, item.fieldName = name
  nonempty : ∀ group ∈ fields, group.2 ≠ []
  ordered : ∀ group ∈ fields, group.2 = items.filter fun item => item.fieldName = group.1
  once : (fields.flatMap Prod.snd).Perm items

theorem Grouped.add (h : Grouped items fields) (item : Item) :
    Grouped (items ++ [item]) (addToField item fields) where
  distinct := by
    rw [names_addToField]
    split
    · exact h.distinct
    · rename_i hnew
      rw [List.nodup_append]
      refine ⟨h.distinct, List.nodup_singleton _, ?_⟩
      rintro name hname _ hlast rfl
      exact hnew (List.mem_singleton.1 hlast ▸ hname)
  names name := by
    have hold := h.names name
    have hown := h.names item.fieldName
    rw [names_addToField]
    split
    · rename_i hmem
      rw [hold]
      constructor
      · rintro ⟨i, hi, rfl⟩
        exact ⟨i, List.mem_append_left _ hi, rfl⟩
      · rintro ⟨i, hi, rfl⟩
        rcases List.mem_append.1 hi with hi | hi
        · exact ⟨i, hi, rfl⟩
        · rw [List.mem_singleton.1 hi]
          exact hown.1 hmem
    · simp only [List.mem_append, hold, List.mem_singleton, or_and_right, exists_or, exists_eq_left,
        @eq_comm _ name]
  nonempty group hgroup := by
    obtain ⟨-, hold⟩ | ⟨others, rfl, -⟩ := mem_addToField h.distinct hgroup
    · exact h.nonempty group hold
    · simp
  ordered group hgroup := by
    rw [List.filter_append]
    obtain ⟨hne, hold⟩ | ⟨others, rfl, hothers⟩ := mem_addToField h.distinct hgroup
    · have hnot : [item].filter (fun item => item.fieldName = group.1) = [] := by
        simp [Ne.symm hne]
      rw [hnot, List.append_nil]
      exact h.ordered group hold
    · have hothers' : others = items.filter fun i => i.fieldName = item.fieldName := by
        obtain hold | ⟨hnew, rfl⟩ := hothers
        · exact h.ordered _ hold
        · -- no item had this name yet
          rw [eq_comm, List.filter_eq_nil_iff]
          intro i hi hname
          exact hnew ((h.names _).2 ⟨i, hi, by simpa using hname⟩)
      have hlast : [item].filter (fun i => i.fieldName = item.fieldName) = [item] := by simp
      rw [hlast, ← hothers']
  once := (perm_addToField item fields).trans (h.once.append_right _)

/-- By induction on the items, the last one split off. -/
theorem grouped_byField (items : List Item) : Grouped items (byField items) := by
  induction items using List.reverseRecOn with
  | nil => exact ⟨List.nodup_nil, by simp [byField], nofun, nofun, .refl _⟩
  | append_singleton items item ih =>
    have hadd := ih.add item
    rwa [← show byField (items ++ [item]) = addToField item (byField items) from List.foldl_append]
      at hadd

/-! ## Temp files of the items -/

/-- The depot tracks the temp files of these items besides those it tracked before, and they are there. -/
structure Tracks (d₀ d : Depot) (items : List Item) : Prop where
  numbered : d.Numbered
  tracked : d.tracked = d₀.tracked ++ items.filterMap Item.tempFile?
  present : d.temps.map Prod.fst = d₀.temps.map Prod.fst ++ items.filterMap Item.tempFile?

variable {d₀ d d' : Depot}

theorem Tracks.keep (h : Tracks d₀ d items) {p q : OpenPart} {item : Item}
    (hk : p.keep d = (.ok item, q, d')) : Tracks d₀ d' (items ++ [item]) := by
  obtain ⟨content, hs, rfl⟩ | ⟨hs, -, content, rfl⟩ := OpenPart.keep_ok_depot h.numbered hk
  · have hnone : item.tempFile? = none := by
      rw [Item.tempFile?, hs]
    refine ⟨h.numbered, ?_, ?_⟩ <;>
      rw [List.filterMap_append, filterMap_singleton, hnone, Option.toList_none, List.append_nil]
    · exact h.tracked
    · exact h.present
  · have hsome : item.tempFile? = some d.issued := by
      rw [Item.tempFile?, hs]
    refine ⟨h.numbered.withTemp content, ?_, ?_⟩ <;>
      rw [List.filterMap_append, filterMap_singleton, hsome, Option.toList_some, ← List.append_assoc]
    · rw [← h.tracked]
      rfl
    · rw [← h.present, Depot.withTemp, List.map_append]
      rfl

/-- The temp file of an item is tracked, and there. -/
theorem Tracks.tempFile (h : Tracks d₀ d items) {item : Item} {id : Nat} (hitem : item ∈ items)
    (hs : item.storage = .temp id) : id ∈ d.tracked ∧ (d.temp? id).isSome := by
  have hfile : id ∈ items.filterMap Item.tempFile? :=
    List.mem_filterMap.2 ⟨item, hitem, by rw [Item.tempFile?, hs]⟩
  constructor
  · rw [h.tracked]
    exact List.mem_append_right _ hfile
  · have hkey : id ∈ d.temps.map Prod.fst := by
      rw [h.present]
      exact List.mem_append_right _ hfile
    obtain ⟨⟨_, content⟩, hmem, rfl⟩ := List.mem_map.1 hkey
    unfold Depot.temp?
    rw [List.lookup_isSome_iff]
    exact ⟨_, hmem, by simp⟩

/-- By induction on the parts. -/
theorem keepFrom_tracks {s : Session} {kept all : List Item} (h : Tracks d₀ d kept.reverse)
    (hall : (keepFrom s d kept).result = .ok all) : Tracks d₀ (keepFrom s d kept).depot all := by
  fun_induction keepFrom s d kept with
  | case1 s d kept s' hs =>
    cases hall
    exact h
  | case2 => cases hall
  | case3 => cases hall
  | case4 s d kept p hs item p' d' hk _ ih =>
    refine ih ?_ hall
    rw [List.reverse_cons]
    exact h.keep hk

/-- A request that is not kept leaves the depot as it was, one that is kept its files. -/
theorem parse_leaves (source : Source) (contentType : String) (settings : Settings) (hd : d.Numbered) :
    match (parse source contentType settings d).result with
    | .error _ => d.Restored (parse source contentType settings d).depot
    | .ok items => Tracks d (parse source contentType settings d).depot items := by
  unfold parse
  rcases Session.ofContentType? source contentType settings with e | s
  · exact .refl d
  · have hwhole : (keepFrom s d []).AllOrNothing s.settings.decoder d (Completes (fun _ _ => 1) 0 s []) :=
      keepFrom_allOrNothing (fun _ _ => Nat.one_pos) rfl rfl ⟨hd, .refl d, fun _ hpart => hpart, .nil⟩
    unfold Outcome.AllOrNothing at hwhole
    have htracks : Tracks d d ([] : List Item).reverse := ⟨hd, by simp, by simp⟩
    simp only
    split
    · rename_i e he
      rw [he] at hwhole
      exact hwhole.1
    · rename_i items hitems
      exact keepFrom_tracks htracks hitems

end Request

/-- A request whose items are grouped by field. It fails exactly where the request itself would, with
the same error, and leaves the depot as it was. Otherwise the groups are a stable partition of the items
of the request, those without a field under the empty name, and the temp file of every item is still
tracked, and there. -/
theorem parseByField_partitions (source : Source) (contentType : String) (settings : Settings)
    {d : Depot} (hd : d.Numbered) :
    (∀ e, (Request.parseByField source contentType settings d).result = .error e ↔
      (Request.parse source contentType settings d).result = .error e) ∧
    (Request.parseByField source contentType settings d).depot =
      (Request.parse source contentType settings d).depot ∧
    (∀ e, (Request.parseByField source contentType settings d).result = .error e →
      d.Restored (Request.parseByField source contentType settings d).depot) ∧
    ∀ items, (Request.parse source contentType settings d).result = .ok items →
      ∃ fields, (Request.parseByField source contentType settings d).result = .ok fields ∧
        Request.Grouped items fields ∧
        ∀ group ∈ fields, ∀ item ∈ group.2, ∀ id, item.storage = .temp id →
          id ∈ (Request.parseByField source contentType settings d).depot.tracked ∧
          ((Request.parseByField source contentType settings d).depot.temp? id).isSome := by
  have hleaves := Request.parse_leaves source contentType settings hd
  unfold Request.parseByField
  generalize Request.parse source contentType settings d = whole at hleaves ⊢
  obtain ⟨e | items, depot, reports⟩ := whole
  · refine ⟨fun e' => ⟨?_, ?_⟩, rfl, fun _ _ => hleaves, nofun⟩
    · rintro ⟨⟩
      rfl
    · rintro ⟨⟩
      rfl
  · refine ⟨fun e => ⟨nofun, nofun⟩, rfl, nofun, ?_⟩
    rintro _ ⟨⟩
    have hgrouped := Request.grouped_byField items
    refine ⟨_, rfl, hgrouped, fun group hgroup item hitem id hs => ?_⟩
    exact hleaves.tempFile (hgrouped.once.mem_iff.1 (List.mem_flatMap.2 ⟨group, hgroup, hitem⟩)) hs

/-- A field that occurs twice with another in between, and two parts of no name: one has none, the other
the empty one. -/
def repeatedFields : Source where
  transport := { segments := [.data (Utf8.encode (
    "--B\r\nContent-Disposition: form-data; name=a\r\n\r\nabcd\r\n" ++
    "--B\r\n\r\nx\r\n" ++
    "--B\r\nContent-Disposition: form-data; name=b\r\n\r\ny\r\n" ++
    "--B\r\nContent-Disposition: form-data; name=a\r\n\r\nz\r\n" ++
    "--B\r\nContent-Disposition: form-data; name=\"\"\r\n\r\nefgh\r\n--B--"))] }

/-- Two of the items are in files, beside that of another request. -/
theorem parseByField_partitions_repeated :
    shared.Numbered ∧ ∃ items fields,
      (Request.parse repeatedFields boundaryB {} shared).result = .ok items ∧
      (Request.parseByField repeatedFields boundaryB {} shared).result = .ok fields ∧
      Request.Grouped items fields ∧
      fields.map (fun group => (group.1, group.2.map Item.storage)) =
        [("a", [.temp 1, .memory [122]]), ("", [.memory [120], .temp 2]), ("b", [.memory [121]])] ∧
      (Request.parseByField repeatedFields boundaryB {} shared).depot.tracked = [0, 1, 2] := by
  have hd : shared.Numbered := ⟨by decide, by decide⟩
  obtain ⟨hfails, -, -, hgroups⟩ := parseByField_partitions repeatedFields boundaryB {} hd
  have hstored : (Request.parseByField repeatedFields boundaryB {} shared).result.map
      (fun fields => fields.map fun group => (group.1, group.2.map Item.storage)) =
      .ok [("a", [.temp 1, .memory [122]]), ("", [.memory [120], .temp 2]), ("b", [.memory [121]])] := by
    decide +kernel
  obtain ⟨items, hitems⟩ : ∃ items, (Request.parse repeatedFields boundaryB {} shared).result = .ok items := by
    rcases hresult : (Request.parse repeatedFields boundaryB {} shared).result with e | items
    · rw [(hfails e).2 hresult] at hstored
      cases hstored
    · exact ⟨items, rfl⟩
  obtain ⟨fields, hfields, hgrouped, -⟩ := hgroups items hitems
  rw [hfields] at hstored
  exact ⟨hd, items, fields, hitems, hfields, hgrouped, Except.ok.inj hstored, by decide +kernel⟩

end FormData
