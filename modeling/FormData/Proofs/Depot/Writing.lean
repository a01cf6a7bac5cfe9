/-
Writing items somewhere. It works out exactly if the item can be written (`Item.CanBeWritten`): its
content is to be had and the path ends in a name that is free, or a file's, in a directory that is
there. Otherwise nothing is changed, wherever the content is (`Item.writeTo_outcome`): a temp file that
is neither renamed nor copied stays, still registered, and the item still points to it.
-/
import FormData.Item
import FormData.Proofs.Files.Contents

namespace FormData

/-- However a temp file gets to a path, in the end it is there and no longer in the repository. -/
theorem Depot.moveTemp_eq (d : Depot) (id : Nat) (path : String) :
    d.moveTemp id path = match d.temp? id with
      | none => (.error (.system .noSuchFile), d)
      | some content =>
        match d.tree.writeFile path content with
        | .error e => (.error e, d)
        | .ok tree => (.ok (), { d.dropTemp id with tree }) := by
  unfold Depot.moveTemp Depot.renameTemp Depot.copyTemp
  rcases d.temp? id with _ | content
  · cases d.foreign.contains path <;> rfl
  · rcases hwrite : d.tree.writeFile path content with e | tree
    · cases d.foreign.contains path <;> simp only [hwrite] <;> rfl
    · cases d.foreign.contains path <;> simp only [hwrite] <;> rfl

namespace Item

variable {i i' : Item} {d d' : Depot} {path : String}

/-- An item can be written to where it is already, and if its content can be read to every path that a
file can be written to. -/
def CanBeWritten (i : Item) (d : Depot) (path : String) : Prop :=
  (∃ own, i.storage = .stored own ∧ Path.same own path = true) ∨
    (∃ content, i.content d = .ok content) ∧ d.tree.Writable path

theorem canBeWritten_iff (h : ∀ own, i.storage = .stored own → ¬ Path.same own path = true) :
    i.CanBeWritten d path ↔ (∃ content, i.content d = .ok content) ∧ d.tree.Writable path :=
  or_iff_right fun ⟨own, hs, hsame⟩ => h own hs hsame

/-- Writing an item changes the tree, and a temp file is in it then and no longer the item's; or it
changes nothing. By cases on where the content is. -/
theorem writeTo_outcome (i : Item) (d : Depot) (path : String) :
    (i.CanBeWritten d path ∧
      ((∃ tree, i.writeTo d path = (.ok (), i, { d with tree })) ∨
        ∃ id tree, i.storage = .temp id ∧ i.writeTo d path =
          (.ok (), { i with storage := .stored path }, { d.dropTemp id with tree }))) ∨
      ¬ i.CanBeWritten d path ∧ ∃ e, i.writeTo d path = (.error e, i, d) := by
  cases hs : i.storage with
  | memory content =>
    rw [canBeWritten_iff (by simp [hs]), d.tree.writable_iff content]
    unfold writeTo Item.content
    simp only [hs]
    rcases d.tree.writeFile path content with e | tree
    · refine .inr ⟨?_, _, rfl⟩
      rintro ⟨-, tree, hwrite⟩
      cases hwrite
    · exact .inl ⟨⟨⟨content, rfl⟩, tree, rfl⟩, .inl ⟨tree, rfl⟩⟩
  | temp id =>
    rw [canBeWritten_iff (by simp [hs])]
    unfold writeTo Item.content
    simp only [hs, Depot.moveTemp_eq]
    rcases d.temp? id with _ | content
    · refine .inr ⟨?_, _, rfl⟩
      rintro ⟨⟨content, hcontent⟩, -⟩
      cases hcontent
    · rw [d.tree.writable_iff content]
      simp only
      rcases d.tree.writeFile path content with e | tree
      · refine .inr ⟨?_, _, rfl⟩
        rintro ⟨-, tree, hwrite⟩
        cases hwrite
      · exact .inl ⟨⟨⟨content, rfl⟩, tree, rfl⟩, .inr ⟨id, tree, rfl, rfl⟩⟩
  | stored own =>
    by_cases hsame : Path.same own path = true
    · refine .inl ⟨.inl ⟨own, hs, hsame⟩, .inl ⟨d.tree, ?_⟩⟩
      unfold writeTo
      simp only [hs, hsame, if_true]
    · rw [canBeWritten_iff (by simp [hs, hsame])]
      unfold writeTo Item.content
      simp only [hs, if_neg hsame]
      have hcontent : (∃ content, (d.tree.contentOf own).mapError Error.io = .ok content) ↔
          ∃ content, d.tree.contentOf own = .ok content := by
        rcases d.tree.contentOf own with e | content
        · constructor <;> rintro ⟨content, h⟩ <;> cases h
        · exact ⟨fun _ => ⟨content, rfl⟩, fun _ => ⟨content, rfl⟩⟩
      rw [hcontent]
      obtain ⟨hcan, copied, hcopy⟩ | ⟨hcannot, e, hcopy⟩ := d.tree.copyFile_cases own path
      · rw [hcopy]
        exact .inl ⟨hcan, .inl ⟨copied, rfl⟩⟩
      · rw [hcopy]
        exact .inr ⟨hcannot, _, rfl⟩
  | deleted =>
    rw [canBeWritten_iff (by simp [hs])]
    unfold writeTo Item.content
    simp only [hs]
    refine .inr ⟨?_, _, rfl⟩
    rintro ⟨⟨content, hcontent⟩, -⟩
    cases hcontent

/-- However it goes, nothing else than the tree changes, unless a temp file is moved. -/
theorem writeTo_leaves (i : Item) (d : Depot) (path : String) :
    (∃ tree, (i.writeTo d path).2 = (i, { d with tree })) ∨
      ∃ id tree, i.storage = .temp id ∧
        (i.writeTo d path).2 = ({ i with storage := .stored path }, { d.dropTemp id with tree }) := by
  obtain ⟨-, ⟨tree, hw⟩ | ⟨id, tree, hs, hw⟩⟩ | ⟨-, e, hw⟩ := i.writeTo_outcome d path
  · exact .inl ⟨tree, by rw [hw]⟩
  · exact .inr ⟨id, tree, hs, by rw [hw]⟩
  · exact .inl ⟨d.tree, by rw [hw]⟩

theorem writeTo_ok (h : i.CanBeWritten d path) : (i.writeTo d path).1 = .ok () := by
  obtain ⟨-, ⟨tree, hw⟩ | ⟨id, tree, hs, hw⟩⟩ | ⟨hcannot, -⟩ := i.writeTo_outcome d path
  · rw [hw]
  · rw [hw]
  · exact absurd h hcannot

/-- A write that fails is one of an item that cannot be written, and leaves the item and the depot as they
were. -/
theorem writeTo_failed {e : Error} (hw : (i.writeTo d path).1 = .error e) :
    ¬ i.CanBeWritten d path ∧ i.writeTo d path = (.error e, i, d) := by
  have hcannot : ¬ i.CanBeWritten d path := by
    intro h
    rw [writeTo_ok h] at hw
    cases hw
  obtain ⟨hcan, -⟩ | ⟨-, e', hw'⟩ := i.writeTo_outcome d path
  · exact absurd hcan hcannot
  · rw [hw'] at hw ⊢
    cases hw
    exact ⟨hcannot, rfl⟩

theorem writeTo_error {e : Error} (hw : i.writeTo d path = (.error e, i', d')) : i' = i ∧ d' = d := by
  have hfailed := (writeTo_failed (congrArg Prod.fst hw)).2
  rw [hw] at hfailed
  cases hfailed
  exact ⟨rfl, rfl⟩

end Item

end FormData
