/-
Items that are written to where they are already. The tree of files is in good order whatever is done
with items (`Inventory.after_rooted`), so a file that is there can be written to by every path that leads
to it (`Item.writeTo_respelled`). But paths are compared as they are spelled: by another spelling of its
own path an item is copied onto itself, and is empty then. So what it had is kept exactly by the spellings
that are the same path (`rewritten_onto_itself_iff`).
-/
import FormData.Proofs.Depot.Shelf

namespace FormData

namespace FileTree

variable {t : FileTree} {path other source : String} {place : Place} {content held : Bytes}

/-- The path resolves to a file, which is at this place and has this content. -/
def LeadsTo (t : FileTree) (path : String) (place : Place) (content : Bytes) : Prop :=
  onPath path t.find = .ok (place, .file content)

theorem leadsTo_iff :
    t.LeadsTo path place content ↔ t.contentOf path = .ok content ∧ t.placeOf path = place := by
  rw [contentOf_eq_ok_iff]
  constructor
  · intro h
    obtain ⟨hread, hfind⟩ := onPath_ok h
    obtain ⟨hwalk, hnode, hslash⟩ := find_file_iff.1 hfind
    obtain rfl : place = t.placeOf path := walk_ok hwalk
    exact ⟨⟨hread, hwalk, hnode, hslash⟩, rfl⟩
  · rintro ⟨⟨hread, hwalk, hnode, hslash⟩, rfl⟩
    exact onPath_of_read hread (find_file_iff.2 ⟨hwalk, hnode, hslash⟩)

theorem LeadsTo.node (h : t.LeadsTo path place content) : t.node? place = some (.file content) := by
  obtain ⟨hcontent, rfl⟩ := leadsTo_iff.1 h
  exact (contentOf_eq_ok_iff.1 hcontent).2.2.1

/-- A file that is copied to where it is is emptied, and no other file is changed. -/
theorem copyFile_onto_itself (hrooted : t.Rooted) (hsource : t.LeadsTo source place content)
    (hpath : t.LeadsTo path place content) :
    ∃ copied, t.copyFile source path = (.ok (), copied) ∧ ∀ other q held, t.LeadsTo other q held →
      copied.LeadsTo other q (if q = place then [] else held) := by
  obtain ⟨hcontent, rfl⟩ := leadsTo_iff.1 hsource
  obtain ⟨hthere, hplace⟩ := leadsTo_iff.1 hpath
  obtain ⟨-, copied, hcopy⟩ | ⟨hcannot, -⟩ := t.copyFile_cases source path
  · obtain ⟨hgrows, -, hothers⟩ := copyFile_ok hcontent hcopy
    refine ⟨copied, hcopy, fun other q held hother => ?_⟩
    obtain ⟨hheld, rfl⟩ := leadsTo_iff.1 hother
    rw [leadsTo_iff, hothers other held hheld, copyOf, if_pos hplace.symm, hplace, hgrows.placeOf]
    exact ⟨rfl, rfl⟩
  · exact absurd ⟨⟨content, hcontent⟩, hrooted.writable hthere⟩ hcannot

end FileTree

namespace Item

variable {i : Item} {d : Depot} {own path : String} {place : Place} {content : Bytes}

/-- What an item has once it was written to a path of the file that it is in. -/
def respelled (own path : String) (content : Bytes) : Bytes :=
  if Path.same own path then content else []

/-- Writing an item to where it is works out by every spelling, and no other file is changed. -/
theorem writeTo_respelled (hrooted : d.tree.Rooted) (hstored : i.storage = .stored own)
    (hown : d.tree.LeadsTo own place content) (hpath : d.tree.LeadsTo path place content) :
    ∃ tree, i.writeTo d path = (.ok (), i, { d with tree }) ∧
      ∀ other q held, d.tree.LeadsTo other q held →
        tree.LeadsTo other q (if q = place then respelled own path content else held) := by
  unfold writeTo respelled
  simp only [hstored]
  by_cases hsame : Path.same own path = true
  · refine ⟨d.tree, by rw [if_pos hsame], fun other q held hother => ?_⟩
    rw [if_pos hsame]
    split
    · -- there is one file at the place
      rename_i hq
      subst hq
      have hnode := hother.node
      rw [hown.node] at hnode
      cases hnode
      exact hother
    · exact hother
  · obtain ⟨copied, hcopy, hothers⟩ := FileTree.copyFile_onto_itself hrooted hown hpath
    refine ⟨copied, by simp only [if_neg hsame, hcopy], fun other q held hother => ?_⟩
    rw [if_neg hsame]
    exact hothers other q held hother

/-! ## Trees that stay in good order -/

theorem writeTo_rooted (h : d.tree.Rooted) (i : Item) (path : String) :
    (i.writeTo d path).2.2.tree.Rooted := by
  unfold writeTo
  cases i.storage with
  | memory content =>
    simp only
    rcases hwrite : d.tree.writeFile path content with e | tree
    · exact h
    · exact h.rewritten hwrite
  | temp id =>
    simp only [Depot.moveTemp_eq]
    rcases d.temp? id with _ | content
    · exact h
    · simp only
      rcases hwrite : d.tree.writeFile path content with e | tree
      · exact h
      · exact h.rewritten hwrite
  | stored own =>
    have hcopied := h.copied own path
    simp only
    split
    · exact h
    · rcases hcopy : d.tree.copyFile own path with ⟨e | _, tree⟩ <;> rw [hcopy] at hcopied <;>
        exact hcopied
  | deleted => exact h

end Item

namespace Inventory

variable {v : Inventory}

theorem act_rooted (h : v.depot.tree.Rooted) (a : Act) : (v.act a).depot.tree.Rooted := by
  cases a with
  | keep repository threshold part =>
    have htree := (part.keep_leaves { v.depot with repository, threshold }).1
    simp only [act]
    rcases hk : part.keep { v.depot with repository, threshold } with ⟨e | item, q, d'⟩ <;>
      rw [hk] at htree <;> exact htree ▸ h
  | writeTo index path =>
    simp only [act]
    split
    · exact h
    · exact Item.writeTo_rooted h _ path
  | delete index =>
    simp only [act]
    split
    · exact h
    · rename_i item _
      obtain ⟨hsame, -⟩ | ⟨id, -, hdeleted⟩ := item.delete_cases v.depot
      · rw [hsame]
        exact h
      · rw [hdeleted]
        exact (item.release_tree v.depot) ▸ h
  | release index =>
    simp only [act]
    split
    · exact h
    · rename_i item _
      exact (item.release_tree v.depot) ▸ h
  | shutdown => exact h

/-- Whatever is done with a depot and its items. By induction on the acts. -/
theorem after_rooted (h : v.depot.tree.Rooted) (acts : List Act) : (v.after acts).depot.tree.Rooted := by
  induction acts generalizing v with
  | nil => exact h
  | cons a acts ih =>
    rw [after_cons]
    exact ih (act_rooted h a)

end Inventory

/-- An item that is in a file can be written to every path of this file, and the write works out. What
the file had is kept, and the item still has it, exactly if the path is the same as the one that the item
is at, or there was nothing to keep. Else the file and the item are empty. Every other file is as it was. -/
theorem rewritten_onto_itself_iff {i : Item} {d : Depot} {own path : String} {place : Place}
    {content : Bytes} (hrooted : d.tree.Rooted) (hstored : i.storage = .stored own)
    (hown : d.tree.LeadsTo own place content) (hpath : d.tree.LeadsTo path place content) :
    ∃ tree, i.writeTo d path = (.ok (), i, { d with tree }) ∧
      (∀ other q held, d.tree.LeadsTo other q held →
        tree.LeadsTo other q (if q = place then Item.respelled own path content else held)) ∧
      i.content { d with tree } = .ok (Item.respelled own path content) ∧
      (tree.LeadsTo path place content ∧ i.content { d with tree } = .ok content ↔
        Path.same own path = true ∨ content = []) := by
  obtain ⟨tree, hwrite, hothers⟩ := Item.writeTo_respelled hrooted hstored hown hpath
  have hkept : tree.LeadsTo own place (Item.respelled own path content) := by
    simpa using hothers own place content hown
  have hpathKept : tree.LeadsTo path place (Item.respelled own path content) := by
    simpa using hothers path place content hpath
  have hcontent : i.content { d with tree } = .ok (Item.respelled own path content) := by
    unfold Item.content
    simp only [hstored, (FileTree.leadsTo_iff.1 hkept).1]
    rfl
  have hsame : Item.respelled own path content = content ↔ Path.same own path = true ∨ content = [] := by
    unfold Item.respelled
    split
    · rename_i h
      simp [h]
    · rename_i h
      simp [h, eq_comm]
  refine ⟨tree, hwrite, hothers, hcontent, ?_⟩
  rw [← hsame, hcontent, Except.ok.injEq]
  constructor
  · exact And.right
  · intro h
    rw [h] at hpathKept ⊢
    exact ⟨hpathKept, rfl⟩

/-- Two files, and an item in each. -/
def shelved : Depot where
  tree := { nodes := [(["x"], .file [97, 98, 99]), (["d"], .directory), (["d", "x"], .file [100])] }
  repository := "/"
  threshold := 2

def itemAt (path : String) : Item where
  field := some "a"
  fileName := some "b"
  isFormField := false
  headers := {}
  size := 3
  storage := .stored path

/-- Up from a directory that is there is another spelling, and a step that stays further on is none. -/
theorem rewritten_onto_itself_iff_detour :
    (∃ tree, (itemAt "x").writeTo shelved "d/../x" = (.ok (), itemAt "x", { shelved with tree }) ∧
      (itemAt "x").content { shelved with tree } = .ok [] ∧ tree.LeadsTo "d/x" ["d", "x"] [100]) ∧
    ∃ tree, (itemAt "d/x").writeTo shelved "d//./x" = (.ok (), itemAt "d/x", { shelved with tree }) ∧
      (itemAt "d/x").content { shelved with tree } = .ok [100] := by
  have hrooted : shelved.tree.Rooted := FileTree.rooted_of_nodes (by decide) (by decide)
  constructor
  · obtain ⟨tree, hwrite, hothers, hcontent, -⟩ := @rewritten_onto_itself_iff (itemAt "x") shelved "x"
      "d/../x" ["x"] [97, 98, 99] hrooted rfl rfl rfl
    exact ⟨tree, hwrite, hcontent, hothers "d/x" ["d", "x"] [100] rfl⟩
  · obtain ⟨tree, hwrite, -, hcontent, -⟩ := @rewritten_onto_itself_iff (itemAt "d/x") shelved "d/x"
      "d//./x" ["d", "x"] [100] hrooted rfl rfl rfl
    exact ⟨tree, hwrite, hcontent⟩

/-- A temp file that was moved is lost when it is written to where it is now. -/
theorem respelled_item_lost :
    let item : Item := { itemAt "" with storage := .temp 0 }
    let d : Depot :=
      { tree := { nodes := [(["repo"], .directory)] }, repository := "repo", threshold := 2
        temps := [(0, [97, 98, 99])], tracked := [0], issued := 1 }
    ∃ d' d'', item.writeTo d "x" = (.ok (), itemAt "x", d') ∧
      d'.tree.LeadsTo "x" ["x"] [97, 98, 99] ∧ d'.tree.LeadsTo "repo/../x" ["x"] [97, 98, 99] ∧
      (itemAt "x").content d' = .ok [97, 98, 99] ∧
      (itemAt "x").writeTo d' "repo/../x" = (.ok (), itemAt "x", d'') ∧
      d''.tree.LeadsTo "x" ["x"] [] ∧ (itemAt "x").content d'' = .ok [] :=
  ⟨_, _, rfl, rfl, rfl, rfl, rfl, rfl, rfl⟩

end FormData
