/-
The content of items while they are moved about. An item keeps its content where it is, in memory, in
its temp file or in the file that this became, and every file it was written to keeps it too, as long
as each path belongs to one item (`Kept.Sound`, `Shelf.act_sound`). Only a temp file can be lost, to a
delete or to the shutdown (`items_keep_content`). Reading an item changes nothing, so it is not among
what is done here.
-/
import FormData.Proofs.CommandLine.Saving
import FormData.Proofs.Depot.Registry
import FormData.Proofs.Files.Contents

namespace FormData

/-! ## Temp files of others -/

namespace Depot

variable {d d' : Depot} {own : Option Nat} {id other : Nat}

/-- No temp file but this one is touched. -/
structure Spares (own : Option Nat) (d d' : Depot) : Prop where
  temp : ∀ id, own ≠ some id → d'.temp? id = d.temp? id
  isShutDown : d'.isShutDown = d.isShutDown

theorem Spares.refl (own : Option Nat) (d : Depot) : d.Spares own d := ⟨fun _ _ => rfl, rfl⟩

theorem temp?_dropTemp (h : other ≠ id) : (d.dropTemp id).temp? other = d.temp? other := by
  unfold temp? dropTemp
  simp only
  induction d.temps with
  | nil => rfl
  | cons t temps ih =>
    by_cases ht : t.1 = id
    · have hne : other ≠ t.1 := ht ▸ h
      rw [List.filter_cons_of_neg (by simp [ht]), ih, List.lookup_cons, beq_false_of_ne hne]
    · rw [List.filter_cons_of_pos (by simpa using ht), List.lookup_cons, List.lookup_cons, ih]

theorem spares_dropTemp (d : Depot) (id : Nat) : d.Spares (some id) (d.dropTemp id) := by
  refine ⟨fun other hne => ?_, rfl⟩
  refine temp?_dropTemp ?_
  rintro rfl
  exact hne rfl

theorem spares_withTemp (d : Depot) (content : Bytes) : d.Spares (some d.issued) (d.withTemp content) := by
  refine ⟨fun id hne => ?_, rfl⟩
  have hid : id ≠ d.issued := by
    rintro rfl
    exact hne rfl
  unfold temp? Depot.withTemp
  rw [List.lookup_append, List.lookup_cons, beq_false_of_ne hid]
  simp

/-- A depot that is shut down has no temp file. -/
theorem Accounts.temp?_eq_none {files : List Nat} (h : d.Accounts files) (hshut : d.isShutDown = true)
    (id : Nat) : d.temp? id = none := by
  unfold temp?
  rw [(h.gone hshut).2]
  rfl

end Depot

/-- Keeping a part makes a new temp file at most. -/
theorem OpenPart.keep_spares {p q : OpenPart} {d d' : Depot} {r : Except Error Item} (hd : d.Numbered)
    (h : p.keep d = (r, q, d')) : d.Spares (some d.issued) d' := by
  rcases r with e | item
  · obtain ⟨n, -, rfl⟩ := keep_error hd h
    exact ⟨fun _ _ => rfl, rfl⟩
  · obtain ⟨-, -, rfl⟩ | ⟨-, -, content, rfl⟩ := keep_ok_depot hd h
    · exact .refl _ _
    · exact d.spares_withTemp content

/-! ## What is done with one item -/

/-- Where the content of an item may go: out of a temp file, to a path that is written or nowhere. In
memory and in a file outside the repository it stays. -/
inductive Storage.Leads (written : String → Prop) (deleted : Prop) : Storage → Storage → Prop
  | stays (s : Storage) : Leads written deleted s s
  | stored (id : Nat) (path : String) : written path → Leads written deleted (.temp id) (.stored path)
  | deleted (id : Nat) : deleted → Leads written deleted (.temp id) .deleted

namespace Storage.Leads

variable {written written' : String → Prop} {deleted deleted' : Prop} {s s' s'' : Storage}

theorem mono (h : Leads written deleted s s') (hwritten : ∀ path, written path → written' path)
    (hdeleted : deleted → deleted') : Leads written' deleted' s s' := by
  cases h with
  | stays => exact .stays s
  | stored id path h => exact .stored id path (hwritten path h)
  | deleted id h => exact .deleted id (hdeleted h)

theorem trans (h1 : Leads written deleted s s') (h2 : Leads written deleted s' s'') :
    Leads written deleted s s'' := by
  cases h1 with
  | stays => exact h2
  | stored id path h =>
    cases h2
    exact .stored id path h
  | deleted id h =>
    cases h2
    exact .deleted id h

end Storage.Leads

namespace Item

variable {i i' : Item} {d d' : Depot} {saved : List String} {content : Bytes} {directory path : String}

theorem release_spares (i : Item) (d : Depot) : d.Spares i.tempFile? (i.release d) := by
  unfold release tempFile?
  cases i.storage with
  | temp id => exact d.spares_dropTemp id
  | memory | stored | deleted => exact .refl _ d

theorem release_tree (i : Item) (d : Depot) : (i.release d).tree = d.tree := by
  unfold release
  split <;> rfl

theorem writeTo_spares (i : Item) (d : Depot) (path : String) :
    d.Spares i.tempFile? (i.writeTo d path).2.2 := by
  refine ⟨?_, Inventory.writeTo_isShutDown i d path⟩
  intro id hid
  obtain ⟨tree, hw⟩ | ⟨own, tree, hs, hw⟩ := i.writeTo_leaves d path
  · rw [hw]
    rfl
  · rw [hw]
    rw [tempFile?, hs] at hid
    exact (d.spares_dropTemp own).temp id hid

theorem writeTo_leads (i : Item) (d : Depot) (path : String) :
    i.storage.Leads (· = path) False (i.writeTo d path).2.1.storage ∧
      (i.writeTo d path).2.1.size = i.size := by
  obtain ⟨tree, hw⟩ | ⟨id, tree, hs, hw⟩ := i.writeTo_leaves d path
  · rw [hw]
    exact ⟨.stays _, rfl⟩
  · rw [hs, hw]
    exact ⟨.stored id path rfl, rfl⟩

/-- Deleting changes nothing of an item that has no temp file. -/
theorem delete_cases (i : Item) (d : Depot) :
    i.delete d = (i, d) ∧ i.tempFile? = none ∨
      ∃ id, i.storage = .temp id ∧ i.delete d = ({ i with storage := .deleted }, i.release d) := by
  unfold delete tempFile?
  cases hs : i.storage with
  | temp id => exact .inr ⟨id, rfl, rfl⟩
  | memory | stored | deleted => exact .inl ⟨rfl, rfl⟩

theorem delete_leads (i : Item) (d : Depot) :
    i.storage.Leads (fun _ => False) True (i.delete d).1.storage ∧ (i.delete d).1.size = i.size := by
  obtain ⟨hsame, -⟩ | ⟨id, hs, hdeleted⟩ := i.delete_cases d
  · rw [hsame]
    exact ⟨.stays _, rfl⟩
  · rw [hs, hdeleted]
    exact ⟨.deleted id trivial, rfl⟩

/-- The content is where the item looks for it, if it is anywhere: a shutdown removes a temp file. A
file of the item's is one of those it was written to. -/
inductive Rests (saved : List String) (content : Bytes) (d : Depot) (i : Item) : Prop
  | memory : i.storage = .memory content → Rests saved content d i
  | temp (id : Nat) : i.storage = .temp id →
    d.temp? id = (if d.isShutDown then none else some content) → Rests saved content d i
  | stored (path : String) : i.storage = .stored path → path ∈ saved → Rests saved content d i
  | deleted : i.storage = .deleted → Rests saved content d i

/-- The temp file is gone, by a delete or by the shutdown. -/
def IsLost (i : Item) (d : Depot) : Prop :=
  i.storage = .deleted ∨ (∃ id, i.storage = .temp id) ∧ d.isShutDown = true

/-- The content is read unless the temp file is gone. -/
theorem Rests.reads (h : i.Rests saved content d)
    (hsaved : ∀ path ∈ saved, d.tree.contentOf path = .ok content) :
    (¬ i.IsLost d → i.content d = .ok content) ∧ (i.IsLost d → ∃ e, i.content d = .error e) := by
  unfold Item.content
  cases h with
  | memory hs =>
    have hlost : ¬ i.IsLost d := by simp [IsLost, hs]
    simp only [hs]
    exact ⟨fun _ => trivial, fun h => absurd h hlost⟩
  | temp id hs ht =>
    have hlost : i.IsLost d ↔ d.isShutDown = true := by simp [IsLost, hs]
    rw [hlost]
    simp only [hs, ht]
    cases d.isShutDown <;> simp
  | stored path hs hmem =>
    have hlost : ¬ i.IsLost d := by simp [IsLost, hs]
    simp only [hs, hsaved path hmem]
    exact ⟨fun _ => rfl, fun h => absurd h hlost⟩
  | deleted hs =>
    have hlost : i.IsLost d := .inl hs
    simp only [hs]
    exact ⟨fun h => absurd hlost h, fun _ => ⟨_, rfl⟩⟩

/-- What is done elsewhere does not matter. -/
theorem Rests.spared {own : Option Nat} (h : i.Rests saved content d) (hd : d.Spares own d')
    (hne : ∀ id, i.tempFile? = some id → own ≠ some id) : i.Rests saved content d' := by
  cases h with
  | memory hs => exact .memory hs
  | temp id hs ht =>
    refine .temp id hs ?_
    rw [hd.isShutDown, hd.temp id (hne id (by rw [tempFile?, hs])), ht]
  | stored path hs hmem => exact .stored path hs hmem
  | deleted hs => exact .deleted hs

theorem Rests.shutdown (h : i.Rests saved content d) {files : List Nat} (hd : d'.Accounts files)
    (hshut : d'.isShutDown = true) : i.Rests saved content d' := by
  cases h with
  | memory hs => exact .memory hs
  | temp id hs _ =>
    refine .temp id hs ?_
    rw [hshut, hd.temp?_eq_none hshut]
    rfl
  | stored path hs hmem => exact .stored path hs hmem
  | deleted hs => exact .deleted hs

/-- Wherever the content is, a path in the directory that it is written to has it then. -/
theorem Rests.writeTo (h : i.Rests saved content d)
    (hsaved : ∀ own ∈ saved, Path.IsIn directory own ∧ d.tree.contentOf own = .ok content)
    (hpath : Path.IsIn directory path) (hw : i.writeTo d path = (.ok (), i', d')) :
    FileTree.Puts directory path content d.tree d'.tree ∧ i'.Rests (saved ++ [path]) content d' := by
  unfold Item.writeTo at hw
  cases h with
  | memory hs =>
    simp only [hs] at hw
    rcases hf : d.tree.writeFile path content with e | tree <;> simp only [hf] at hw <;> cases hw
    exact ⟨FileTree.puts_of_writeFile hpath hf, .memory hs⟩
  | temp id hs ht =>
    simp only [hs, Depot.moveTemp_eq, ht] at hw
    rcases hshut : d.isShutDown with _ | _ <;> simp [hshut] at hw
    rcases hf : d.tree.writeFile path content with e | tree <;> simp [hf] at hw
    obtain ⟨rfl, rfl⟩ := hw
    exact ⟨FileTree.puts_of_writeFile hpath hf, .stored path rfl (by simp)⟩
  | stored own hs hmem =>
    obtain ⟨hown, hcontent⟩ := hsaved own hmem
    simp only [hs] at hw
    split at hw
    · -- the file is there already
      rename_i hsame
      cases hw
      rw [← hown.eq_of_same hpath hsame]
      exact ⟨⟨hcontent, fun _ _ _ _ hheld => hheld⟩, .stored own hs (by simp [hmem])⟩
    · rename_i hsame
      have hne : own ≠ path := by
        rintro rfl
        exact hsame (Path.same_refl own)
      rcases hf : d.tree.copyFile own path with ⟨_ | _, tree⟩ <;> simp only [hf] at hw <;> cases hw
      exact ⟨FileTree.puts_of_copyFile hpath hown hne hcontent hf, .stored own hs (by simp [hmem])⟩
  | deleted hs =>
    simp only [hs] at hw
    cases hw

end Item

/-! ## Items on a shelf -/

/-- An item, what is known of where it comes from, and the paths it was written to. -/
structure Kept where
  /-- The part it was made of. -/
  part : OpenPart
  item : Item
  /-- Where its content was when it was new, and what that was. -/
  first : Storage
  original : Except Error Bytes
  saved : List String := []
  /-- Whether it is not given up yet. -/
  isHeld : Bool := true

namespace Kept

def writeTo (path : String) (e : Kept) (d : Depot) : Kept × Depot :=
  match e.item.writeTo d path with
  | (.error _, item, d) => ({ e with item }, d)
  | (.ok (), item, d) => ({ e with item, saved := e.saved ++ [path] }, d)

def delete (e : Kept) (d : Depot) : Kept × Depot :=
  ({ e with item := (e.item.delete d).1 }, (e.item.delete d).2)

def release (e : Kept) (d : Depot) : Kept × Depot :=
  ({ e with isHeld := false }, e.item.release d)

/-- The temp file that is still the item's. -/
def tempFile? (e : Kept) : Option Nat :=
  if e.isHeld then e.item.tempFile? else none

end Kept

/-- A depot with all items ever kept in it. -/
structure Shelf where
  depot : Depot
  kept : List Kept := []

namespace Shelf

/-- Something is done with one item, if it is there. -/
def turn (v : Shelf) (index : Nat) (f : Kept → Depot → Kept × Depot) : Shelf :=
  match v.kept[index]? with
  | none => v
  | some e =>
    if e.isHeld then { depot := (f e v.depot).2, kept := v.kept.set index (f e v.depot).1 } else v

/-- What is done with a depot and its items, each under the number it was given first. -/
def act (v : Shelf) : Inventory.Act → Shelf
  | .keep repository threshold part =>
    match part.keep { v.depot with repository, threshold } with
    | (.error _, _, depot) => { v with depot }
    | (.ok item, _, depot) =>
      { depot, kept := v.kept ++ [{ part, item, first := item.storage, original := item.content depot }] }
  | .writeTo index path => v.turn index (Kept.writeTo path)
  | .delete index => v.turn index Kept.delete
  | .release index => v.turn index Kept.release
  | .shutdown => { v with depot := v.depot.shutdown.2 }

def after (v : Shelf) (acts : List Inventory.Act) : Shelf :=
  acts.foldl act v

/-- The temp files of the items there are. -/
def files (v : Shelf) : List Nat :=
  v.kept.filterMap Kept.tempFile?

end Shelf

/-! ## What holds of one of them -/

namespace Kept

variable {e e' : Kept} {d d' : Depot} {content : Bytes} {directory path : String} {files : List Nat}
variable {owned : String → Prop}

/-- The item was made with this content, in memory or in a temp file, still has it where it looks for
it, and so have the files it was written to. -/
structure Sound (content : Bytes) (d : Depot) (e : Kept) : Prop where
  first : e.first = .memory content ∨ ∃ id, e.first = .temp id
  original : e.original = .ok content
  size : e.item.size = content.length
  yields : ∀ yielded, e.part.Yields yielded → yielded = content
  moved : e.first.Leads (· ∈ e.saved) True e.item.storage
  saved : ∀ path ∈ e.saved, d.tree.contentOf path = .ok content
  rests : e.isHeld = true → e.item.Rests e.saved content d

/-- What was kept of a part is its content, if it yields any. -/
theorem sound_of_keep {p q : OpenPart} {item : Item} (hd : d.Numbered)
    (h : p.keep d = (.ok item, q, d')) :
    ∃ content, ({ part := p, item, first := item.storage, original := item.content d' } :
      Kept).Sound content d' := by
  obtain ⟨-, -, hname, content, hcontent, hsize, -⟩ := OpenPart.keep_ok h
  obtain ⟨name, hname⟩ : ∃ name, p.fileName = .ok name := ⟨_, hname⟩
  have hyields : ∀ yielded, p.Yields yielded → yielded = content := by
    intro yielded hyields
    have hread : item.content d' = .ok yielded := by
      obtain ⟨-, q', -, hk⟩ | ⟨-, -, q', -, hk⟩ | ⟨-, -, e, q', -, hk⟩ := hyields.keep hname hd
      · cases h.symm.trans hk
        rfl
      · cases h.symm.trans hk
        simp only [Item.content, OpenPart.toItem, hd.temp?_withTemp]
      · cases h.symm.trans hk
    rw [hcontent] at hread
    exact (Except.ok.inj hread).symm
  have hrests : item.Rests [] content d' ∧
      (item.storage = .memory content ∨ ∃ id, item.storage = .temp id) := by
    obtain ⟨held, hs, -⟩ | ⟨hs, hspills, held, rfl⟩ := OpenPart.keep_ok_depot hd h
    · simp only [Item.content, hs] at hcontent
      cases hcontent
      exact ⟨.memory hs, .inl hs⟩
    · simp only [Item.content, hs, hd.temp?_withTemp] at hcontent
      cases hcontent
      refine ⟨.temp _ hs ?_, .inr ⟨_, hs⟩⟩
      rw [hd.temp?_withTemp, show (d.withTemp content).isShutDown = false from hspills.1]
      rfl
  refine ⟨content, hrests.2, hcontent, hsize, hyields, .stays _, ?_, fun _ => hrests.1⟩
  intro path hpath
  cases hpath

/-- What is done with the depot elsewhere, up to a shutdown, leaves the item sound. -/
theorem Sound.spared {own : Option Nat} (h : e.Sound content d) (hd : d.Spares own d')
    (haccounts : d'.Accounts files)
    (hne : d.isShutDown = false → ∀ id, e.tempFile? = some id → own ≠ some id)
    (hsaved : ∀ path ∈ e.saved, d.tree.contentOf path = .ok content →
      d'.tree.contentOf path = .ok content) : e.Sound content d' := by
  refine { h with saved := fun path hpath => hsaved path hpath (h.saved path hpath), rests := ?_ }
  intro hheld
  rcases hs : d.isShutDown with _ | _
  · refine (h.rests hheld).spared hd ?_
    intro id hid
    refine hne hs id ?_
    rw [tempFile?, if_pos hheld, hid]
  · exact (h.rests hheld).shutdown haccounts (hd.isShutDown.trans hs)

theorem Sound.shutdown (h : e.Sound content d) (haccounts : d.shutdown.2.Accounts files) :
    e.Sound content d.shutdown.2 :=
  { h with rests := fun hheld => (h.rests hheld).shutdown haccounts rfl }

/-- What may become of an item and of the depot when something is done with it: the temp files of other
items stay, and so do the files of the directory that are not its own. -/
structure Handled (directory : String) (owned : String → Prop) (content : Bytes) (e : Kept) (d : Depot)
    (r : Kept × Depot) : Prop where
  accounts : ∀ files, d.Accounts (e.item.tempFile?.toList ++ files) →
    r.2.Accounts (r.1.tempFile?.toList ++ files)
  spares : d.Spares e.item.tempFile? r.2
  sound : r.1.Sound content r.2
  assigned : ∀ path ∈ r.1.saved, owned path
  others : ∀ other held, Path.IsIn directory other → ¬ owned other → d.tree.contentOf other = .ok held →
    r.2.tree.contentOf other = .ok held

theorem tempFile?_of_held (h : e.isHeld = true) (item : Item) (saved : List String) :
    ({ e with item, saved } : Kept).tempFile? = item.tempFile? :=
  if_pos h

theorem Handled.refl (hheld : e.isHeld = true) (h : e.Sound content d)
    (howned : ∀ path ∈ e.saved, owned path) : Handled directory owned content e d (e, d) where
  accounts files hd := by
    rwa [tempFile?_of_held hheld e.item e.saved]
  spares := .refl _ d
  sound := h
  assigned := howned
  others _ _ _ _ hcontent := hcontent

theorem writeTo_handled (hinside : ∀ path, owned path → Path.IsIn directory path) (hpath : owned path)
    (hheld : e.isHeld = true) (h : e.Sound content d) (howned : ∀ path ∈ e.saved, owned path) :
    Handled directory owned content e d (e.writeTo path d) := by
  have hsaved : ∀ own ∈ e.saved, Path.IsIn directory own ∧ d.tree.contentOf own = .ok content :=
    fun own hown => ⟨hinside own (howned own hown), h.saved own hown⟩
  have haccounts := fun files (hd : d.Accounts (e.item.tempFile?.toList ++ files)) =>
    Item.writeTo_accounts hd path
  have hspares := e.item.writeTo_spares d path
  have hleads := e.item.writeTo_leads d path
  unfold writeTo
  rcases hw : e.item.writeTo d path with ⟨err | ⟨⟩, item, d'⟩
  · obtain ⟨rfl, rfl⟩ := Item.writeTo_error hw
    exact .refl hheld h howned
  · rw [hw] at haccounts hspares hleads
    obtain ⟨hputs, hrests⟩ := (h.rests hheld).writeTo hsaved (hinside path hpath) hw
    have hsound : ({ e with item, saved := e.saved ++ [path] } : Kept).Sound content d' := by
      refine { h with size := hleads.2.trans h.size, moved := ?_, saved := ?_, rests := fun _ => hrests }
      · refine (h.moved.mono ?_ id).trans (hleads.1.mono ?_ False.elim)
        · exact fun own hown => List.mem_append_left _ hown
        · rintro own rfl
          exact List.mem_append_right _ List.mem_cons_self
      · -- the file just written has the content, and those written before are spared
        intro own hown
        by_cases hne : own = path
        · rw [hne]
          exact hputs.itself
        · have hmem : own ∈ e.saved := by simpa [hne] using hown
          exact hputs.others own content (hsaved own hmem).1 hne (hsaved own hmem).2
    refine ⟨fun files hd => ?_, hspares, hsound, ?_, ?_⟩
    · simp only [tempFile?_of_held hheld]
      exact haccounts files hd
    · intro own hown
      obtain hmem | hlast := List.mem_append.1 hown
      · exact howned own hmem
      · rw [List.mem_singleton.1 hlast]
        exact hpath
    · intro other held hother hnot hcontent
      refine hputs.others other held hother ?_ hcontent
      rintro rfl
      exact hnot hpath

theorem delete_handled (hheld : e.isHeld = true) (h : e.Sound content d)
    (howned : ∀ path ∈ e.saved, owned path) :
    Handled directory owned content e d (e.delete d) := by
  obtain ⟨hsame, -⟩ | ⟨id, hs, hdeleted⟩ := e.item.delete_cases d
  · have hkept : e.delete d = (e, d) := by rw [delete, hsame]
    rw [hkept]
    exact .refl hheld h howned
  · have htree := e.item.release_tree d
    have hleads := (e.item.delete_leads d).1
    have hkept : e.delete d = ({ e with item := { e.item with storage := .deleted } }, e.item.release d) := by
      rw [delete, hdeleted]
    rw [hdeleted] at hleads
    rw [hkept]
    have hsound : ({ e with item := { e.item with storage := .deleted } } : Kept).Sound content
        (e.item.release d) := by
      refine { h with moved := ?_, saved := ?_, rests := fun _ => .deleted rfl }
      · exact h.moved.trans (hleads.mono (fun _ => False.elim) fun h => h)
      · rw [htree]
        exact h.saved
    refine ⟨fun files hd => ?_, e.item.release_spares d, hsound, howned, ?_⟩
    · simp only [tempFile?_of_held hheld _ e.saved]
      exact e.item.release_accounts hd
    · rw [htree]
      exact fun _ _ _ _ hcontent => hcontent

theorem release_handled (h : e.Sound content d) (howned : ∀ path ∈ e.saved, owned path) :
    Handled directory owned content e d (e.release d) := by
  have htree := e.item.release_tree d
  unfold release
  refine ⟨?_, e.item.release_spares d, { h with saved := ?_, rests := nofun }, howned, ?_⟩
  · intro files hd
    exact e.item.release_accounts hd
  · rw [htree]
    exact h.saved
  · rw [htree]
    exact fun _ _ _ _ hcontent => hcontent

end Kept

/-! ## What holds of all of them -/

namespace Shelf

/-- Each path is that of a plain name in the directory, and belongs to one item. -/
structure Assigned (directory : String) (owns : Nat → String → Prop) : Prop where
  inside : ∀ index path, owns index path → Path.IsIn directory path
  single : ∀ i j path, owns i path → owns j path → i = j

/-- The depot accounts for the temp files of the items, and each item is sound and was written to paths
of its own. -/
structure Sound (owns : Nat → String → Prop) (v : Shelf) : Prop where
  accounts : v.depot.Accounts v.files
  kept : ∀ index e, v.kept[index]? = some e →
    (∃ content, e.Sound content v.depot) ∧ ∀ path ∈ e.saved, owns index path

variable {v : Shelf} {directory : String} {owns : Nat → String → Prop} {index : Nat}
variable {f : Kept → Depot → Kept × Depot}

/-- What is done with one item leaves the others sound. -/
theorem turn_sound (hassigned : Assigned directory owns) (h : v.Sound owns)
    (hf : ∀ (e : Kept) (content : Bytes), e.isHeld = true → e.Sound content v.depot →
      (∀ path ∈ e.saved, owns index path) →
      e.Handled directory (owns index) content v.depot (f e v.depot)) : (v.turn index f).Sound owns := by
  unfold turn
  split
  · exact h
  · rename_i e he
    split
    · rename_i hheld
      obtain ⟨⟨content, hsound⟩, howned⟩ := h.kept index e he
      have hr := hf e content hheld hsound howned
      have hd := h.accounts.perm (perm_files he)
      rw [Kept.tempFile?, if_pos hheld] at hd
      have hd' := hr.accounts _ hd
      refine ⟨hd'.perm (perm_files_set he _).symm, ?_⟩
      intro i e' he'
      rw [List.getElem?_set] at he'
      split at he'
      · -- the item itself
        rename_i heq
        split at he'
        · cases he'
          exact heq ▸ ⟨⟨content, hr.sound⟩, hr.assigned⟩
        · cases he'
      · -- another item, whose temp file and paths are others
        rename_i hne
        obtain ⟨⟨content', hsound'⟩, howned'⟩ := h.kept i e' he'
        refine ⟨⟨content', hsound'.spared hr.spares hd' ?_ ?_⟩, howned'⟩
        · intro hopen id hid hown
          have hnodup := hd.distinct hopen
          rw [hown, Option.toList_some, List.singleton_append, List.nodup_cons] at hnodup
          refine hnodup.1 (List.mem_filterMap.2 ⟨e', ?_, hid⟩)
          exact List.mem_eraseIdx_iff_getElem?.2 ⟨i, Ne.symm hne, he'⟩
        · intro path hpath hcontent
          have hmine := howned' path hpath
          refine hr.others path content' (hassigned.inside i path hmine) ?_ hcontent
          intro htheirs
          exact hne (hassigned.single _ _ path htheirs hmine)
    · exact h

/-- A part that is kept, or refused, leaves the items sound that were kept before. -/
theorem Sound.spared {d : Depot} {files : List Nat} {e : Kept} (h : v.Sound owns)
    (hd : v.depot.Spares (some v.depot.issued) d) (haccounts : d.Accounts files)
    (htree : d.tree = v.depot.tree) (he : v.kept[index]? = some e) :
    (∃ content, e.Sound content d) ∧ ∀ path ∈ e.saved, owns index path := by
  obtain ⟨⟨content, hsound⟩, howned⟩ := h.kept index e he
  refine ⟨⟨content, hsound.spared hd haccounts ?_ ?_⟩, howned⟩
  · -- the new file has a number that none had
    rintro hopen id hid ⟨⟩
    have hlt := h.accounts.lt_issued hopen (List.mem_filterMap.2 ⟨e, List.mem_of_getElem? he, hid⟩)
    exact Nat.lt_irrefl _ hlt
  · intro path _ hcontent
    rw [htree]
    exact hcontent

theorem keep_sound (h : v.Sound owns) (repository : String) (threshold : Nat) (part : OpenPart) :
    (v.act (.keep repository threshold part)).Sound owns := by
  have hd := Depot.Accounts.elsewhere h.accounts v.depot.tree repository threshold
  have htree := (part.keep_leaves { v.depot with repository, threshold }).1
  simp only [act]
  rcases hk : part.keep { v.depot with repository, threshold } with ⟨err | item, q, d'⟩ <;>
    rw [hk] at htree <;> obtain ⟨htemp, hshut⟩ := OpenPart.keep_spares hd.numbered hk
  · have hd' := hd.restored (OpenPart.keep_error hd.numbered hk)
    exact ⟨hd', fun i e he => h.spared ⟨htemp, hshut⟩ hd' htree he⟩
  · have hd' := OpenPart.keep_accounts hd hk
    refine ⟨?_, fun i e he => ?_⟩
    · unfold files
      rw [List.filterMap_append, filterMap_singleton]
      exact hd'
    · rw [List.getElem?_append] at he
      split at he
      · exact h.spared ⟨htemp, hshut⟩ hd' htree he
      · rw [List.getElem?_singleton] at he
        split at he
        · cases he
          exact ⟨Kept.sound_of_keep hd.numbered hk, nofun⟩
        · cases he

/-- Whatever is done with a depot and its items, each to paths of its own, the items stay sound. -/
theorem act_sound (hassigned : Assigned directory owns) (h : v.Sound owns) (a : Inventory.Act)
    (ha : ∀ index path, a = .writeTo index path → owns index path) : (v.act a).Sound owns := by
  cases a with
  | keep repository threshold part => exact keep_sound h repository threshold part
  | writeTo index path =>
    refine turn_sound hassigned h fun e content hheld hsound howned => ?_
    exact Kept.writeTo_handled (hassigned.inside index) (ha index path rfl) hheld hsound howned
  | delete index =>
    exact turn_sound hassigned h fun e content hheld hsound howned =>
      Kept.delete_handled hheld hsound howned
  | release index =>
    exact turn_sound hassigned h fun e content _ hsound howned => Kept.release_handled hsound howned
  | shutdown =>
    have hd' := (Depot.Accounts.shutdown h.accounts v.files).2
    refine ⟨hd', fun i e he => ?_⟩
    obtain ⟨⟨content, hsound⟩, howned⟩ := h.kept i e he
    exact ⟨⟨content, hsound.shutdown hd'⟩, howned⟩

/-- By induction on the acts. -/
theorem after_sound (hassigned : Assigned directory owns) (h : v.Sound owns) (acts : List Inventory.Act)
    (hacts : ∀ index path, .writeTo index path ∈ acts → owns index path) : (v.after acts).Sound owns := by
  induction acts generalizing v with
  | nil => exact h
  | cons a acts ih =>
    refine ih (act_sound hassigned h a ?_) fun index path hmem => hacts index path (.tail a hmem)
    rintro index path rfl
    exact hacts index path List.mem_cons_self

end Shelf

/-! ## From one moment to a later one -/

namespace Kept

variable {e e' e'' : Kept} {acts more : List Inventory.Act} {index : Nat} {d : Depot} {content : Bytes}

/-- How an item comes through what is done with a depot: what is known of its origin stays, so do the
files it was written to, and its content moves only if it is written or deleted. -/
structure Fares (acts : List Inventory.Act) (index : Nat) (e e' : Kept) : Prop where
  part : e'.part = e.part
  first : e'.first = e.first
  original : e'.original = e.original
  size : e'.item.size = e.item.size
  saved : e.saved <+: e'.saved
  held : e'.isHeld = true → e.isHeld = true
  storage : e.item.storage.Leads (fun path => .writeTo index path ∈ acts) (.delete index ∈ acts)
    e'.item.storage

theorem Fares.refl (acts : List Inventory.Act) (index : Nat) (e : Kept) : e.Fares acts index e :=
  ⟨rfl, rfl, rfl, rfl, List.prefix_refl _, id, .stays _⟩

theorem Fares.trans (h1 : e.Fares acts index e') (h2 : e'.Fares more index e'') :
    e.Fares (acts ++ more) index e'' where
  part := h2.part.trans h1.part
  first := h2.first.trans h1.first
  original := h2.original.trans h1.original
  size := h2.size.trans h1.size
  saved := h1.saved.trans h2.saved
  held hheld := h1.held (h2.held hheld)
  storage := by
    have h1' := h1.storage.mono (fun _ => List.mem_append_left more) (List.mem_append_left more)
    have h2' := h2.storage.mono (fun _ => List.mem_append_right acts) (List.mem_append_right acts)
    exact h1'.trans h2'

theorem writeTo_fares (e : Kept) (d : Depot) (index : Nat) (path : String) :
    e.Fares [.writeTo index path] index (e.writeTo path d).1 := by
  have hleads := e.item.writeTo_leads d path
  unfold writeTo
  rcases hw : e.item.writeTo d path with ⟨err | ⟨⟩, item, d'⟩ <;> rw [hw] at hleads <;>
    obtain ⟨hstorage, hsize⟩ := hleads
  · obtain ⟨rfl, -⟩ := Item.writeTo_error hw
    exact .refl _ _ e
  · refine ⟨rfl, rfl, rfl, hsize, List.prefix_append _ _, id, hstorage.mono ?_ False.elim⟩
    rintro own rfl
    exact List.mem_singleton_self _

theorem delete_fares (e : Kept) (d : Depot) (index : Nat) :
    e.Fares [.delete index] index (e.delete d).1 := by
  obtain ⟨hstorage, hsize⟩ := e.item.delete_leads d
  refine ⟨rfl, rfl, rfl, hsize, List.prefix_refl _, id, hstorage.mono ?_ ?_⟩
  · exact fun _ => False.elim
  · exact fun _ => List.mem_singleton_self _

theorem release_fares (e : Kept) (d : Depot) (index : Nat) :
    e.Fares [.release index] index (e.release d).1 :=
  ⟨rfl, rfl, rfl, rfl, List.prefix_refl _, nofun, .stays _⟩

/-- What is read of an item at a moment: the content it was made with, unless its temp file is gone by
then; and in any case every file it was written to has that content. -/
structure Intact (content : Bytes) (d : Depot) (e : Kept) : Prop where
  first : e.first = .memory content ∨ ∃ id, e.first = .temp id
  original : e.original = .ok content
  size : content.length = e.item.size
  yields : ∀ yielded, e.part.Yields yielded → yielded = content
  moved : e.first.Leads (· ∈ e.saved) True e.item.storage
  read : e.isHeld = true → ¬ e.item.IsLost d → e.item.content d = .ok content
  lost : e.isHeld = true → e.item.IsLost d → ∃ err, e.item.content d = .error err
  saved : ∀ path ∈ e.saved, d.tree.contentOf path = .ok content

theorem Sound.intact (h : e.Sound content d) : e.Intact content d where
  first := h.first
  original := h.original
  size := h.size.symm
  yields := h.yields
  moved := h.moved
  read hheld := ((h.rests hheld).reads h.saved).1
  lost hheld := ((h.rests hheld).reads h.saved).2
  saved := h.saved

end Kept

namespace Shelf

variable {v : Shelf} {acts : List Inventory.Act} {index i : Nat} {e : Kept}
variable {f : Kept → Depot → Kept × Depot}

theorem turn_fares (hf : ∀ (e : Kept) (d : Depot), e.Fares acts index (f e d).1)
    (he : v.kept[i]? = some e) :
    ∃ e', (v.turn index f).kept[i]? = some e' ∧ e.Fares acts i e' := by
  unfold turn
  split
  · exact ⟨e, he, .refl _ _ e⟩
  · rename_i e₀ he₀
    split
    · by_cases hi : index = i
      · subst hi
        cases he₀.symm.trans he
        have hlt := (List.getElem?_eq_some_iff.1 he).1
        exact ⟨_, List.getElem?_set_self hlt, hf _ v.depot⟩
      · refine ⟨e, ?_, .refl _ _ e⟩
        simp only [List.getElem?_set_ne hi]
        exact he
    · exact ⟨e, he, .refl _ _ e⟩

theorem act_fares (a : Inventory.Act) (he : v.kept[i]? = some e) :
    ∃ e', (v.act a).kept[i]? = some e' ∧ e.Fares [a] i e' := by
  cases a with
  | keep repository threshold part =>
    refine ⟨e, ?_, .refl _ _ e⟩
    simp only [act]
    split
    · exact he
    · have hlt := (List.getElem?_eq_some_iff.1 he).1
      rw [List.getElem?_append_left hlt]
      exact he
  | writeTo index path => exact turn_fares (fun e d => e.writeTo_fares d index path) he
  | delete index => exact turn_fares (fun e d => e.delete_fares d index) he
  | release index => exact turn_fares (fun e d => e.release_fares d index) he
  | shutdown => exact ⟨e, he, .refl _ _ e⟩

theorem after_fares (acts : List Inventory.Act) (he : v.kept[i]? = some e) :
    ∃ e', (v.after acts).kept[i]? = some e' ∧ e.Fares acts i e' := by
  induction acts generalizing v e with
  | nil => exact ⟨e, he, .refl _ _ e⟩
  | cons a acts ih =>
    obtain ⟨e₁, he₁, h1⟩ := act_fares a he
    obtain ⟨e₂, he₂, h2⟩ := ih he₁
    exact ⟨e₂, he₂, h1.trans h2⟩

/-- Deleting an item loses what is in its temp file. -/
theorem act_delete_temp (he : v.kept[index]? = some e) (hheld : e.isHeld = true) {id : Nat}
    (hs : e.item.storage = .temp id) :
    ∃ e', (v.act (.delete index)).kept[index]? = some e' ∧ e'.item.storage = .deleted := by
  have hlt := (List.getElem?_eq_some_iff.1 he).1
  simp only [act, turn, he, hheld, if_true]
  refine ⟨_, List.getElem?_set_self hlt, ?_⟩
  simp only [Kept.delete, Item.delete, hs]

theorem turn_isShutDown (hf : ∀ (e : Kept) (d : Depot), (f e d).2.isShutDown = d.isShutDown)
    (v : Shelf) (index : Nat) : (v.turn index f).depot.isShutDown = v.depot.isShutDown := by
  unfold turn
  split
  · rfl
  · split
    · exact hf _ _
    · rfl

theorem act_isShutDown (v : Shelf) (a : Inventory.Act) :
    (v.act a).depot.isShutDown = true ↔ v.depot.isShutDown = true ∨ a = .shutdown := by
  cases a with
  | keep repository threshold part =>
    have hsame := (part.keep_leaves { v.depot with repository, threshold }).2
    simp only [act, reduceCtorEq, or_false]
    rcases hk : part.keep { v.depot with repository, threshold } with ⟨err | item, q, d'⟩ <;>
      rw [hk] at hsame
    · exact Bool.eq_iff_iff.1 hsame
    · exact Bool.eq_iff_iff.1 hsame
  | writeTo index path =>
    have hsame : ∀ (e : Kept) (d : Depot), (e.writeTo path d).2.isShutDown = d.isShutDown := by
      intro e d
      have hitem := Inventory.writeTo_isShutDown e.item d path
      unfold Kept.writeTo
      rcases hw : e.item.writeTo d path with ⟨err | ⟨⟩, item, d'⟩ <;> rwa [hw] at hitem
    simp only [act, reduceCtorEq, or_false, turn_isShutDown hsame]
  | delete index =>
    have hsame : ∀ (e : Kept) (d : Depot), (e.delete d).2.isShutDown = d.isShutDown :=
      fun e d => Inventory.delete_isShutDown e.item d
    simp only [act, reduceCtorEq, or_false, turn_isShutDown hsame]
  | release index =>
    have hsame : ∀ (e : Kept) (d : Depot), (e.release d).2.isShutDown = d.isShutDown :=
      fun e d => Inventory.release_isShutDown e.item d
    simp only [act, reduceCtorEq, or_false, turn_isShutDown hsame]
  | shutdown => exact ⟨fun _ => .inr rfl, fun _ => rfl⟩

theorem after_isShutDown (v : Shelf) (acts : List Inventory.Act) :
    (v.after acts).depot.isShutDown = true ↔ v.depot.isShutDown = true ∨ .shutdown ∈ acts := by
  induction acts generalizing v with
  | nil => simp [after]
  | cons a acts ih =>
    rw [List.mem_cons, ← or_assoc, @eq_comm _ Inventory.Act.shutdown, ← v.act_isShutDown a]
    exact ih (v.act a)

/-- A depot that nothing was kept in yet. -/
def fresh (tree : FileTree) (foreign : List String) (repository : String) (threshold : Nat) : Shelf where
  depot := { tree, repository, threshold, foreign }

theorem fresh_sound (tree : FileTree) (foreign : List String) (repository : String) (threshold : Nat)
    (owns : Nat → String → Prop) : (fresh tree foreign repository threshold).Sound owns := by
  have haccounts : ({ tree, repository, threshold, foreign } : Depot).Accounts [] :=
    Inventory.fresh_accounted tree foreign repository threshold
  refine ⟨haccounts, fun index e he => ?_⟩
  simp [fresh] at he

end Shelf

/-- Items keep their content. Whatever is done with a depot and its items, if they are written only to
plain names in one directory and no two of them to the same, then at every moment each item is read as
when it was new, unless it was deleted in its temp file or the shutdown came while it was there; and
every file it was written to, be it by renaming a temp file or by copying one, has that content from then on,
whatever becomes of the item. -/
theorem items_keep_content (tree : FileTree) (foreign : List String) (repository : String) (threshold : Nat)
    (directory : String) (acts later : List Inventory.Act)
    (hinside : ∀ index path, .writeTo index path ∈ acts ++ later → Path.IsIn directory path)
    (hsingle : ∀ i j path, .writeTo i path ∈ acts ++ later → .writeTo j path ∈ acts ++ later → i = j) :
    let v := (Shelf.fresh tree foreign repository threshold).after acts
    let w := v.after later
    (w.depot.isShutDown = true ↔ .shutdown ∈ acts ++ later) ∧
    ∀ index e, v.kept[index]? = some e → ∃ content e', w.kept[index]? = some e' ∧
      e'.Intact content w.depot ∧ e.Fares later index e' ∧
      ∀ id rest, e.isHeld = true → e.item.storage = .temp id → later = .delete index :: rest →
        e'.item.storage = .deleted := by
  intro v w
  have hassigned : Shelf.Assigned directory fun index path => .writeTo index path ∈ acts ++ later :=
    ⟨hinside, hsingle⟩
  have hv : v.Sound _ := Shelf.after_sound hassigned
    (Shelf.fresh_sound tree foreign repository threshold _) acts fun _ _ hmem => List.mem_append_left later hmem
  have hw : w.Sound _ := Shelf.after_sound hassigned hv later
    fun _ _ hmem => List.mem_append_right acts hmem
  refine ⟨?_, fun index e he => ?_⟩
  · rw [Shelf.after_isShutDown, Shelf.after_isShutDown, List.mem_append]
    simp [Shelf.fresh]
  · obtain ⟨e', he', hfares⟩ := Shelf.after_fares later he
    obtain ⟨⟨content, hsound⟩, -⟩ := hw.kept index e' he'
    refine ⟨content, e', he', hsound.intact, hfares, ?_⟩
    rintro id rest hheld hs rfl
    -- what is deleted stays deleted
    obtain ⟨e₁, he₁, hdeleted⟩ := Shelf.act_delete_temp he hheld hs
    obtain ⟨e₂, he₂, hfares₂⟩ := Shelf.after_fares rest he₁
    cases he₂.symm.trans he'
    have hstorage := hfares₂.storage
    rw [hdeleted] at hstorage
    generalize e'.item.storage = storage at hstorage
    cases hstorage
    rfl

/-- A body with four bytes of content in its one part. -/
def fourBytes : Source where
  transport := { segments := [.data (Utf8.encode "--B\r\n\r\nabcd\r\n--B--")] }

/-- A tree with a directory for temp files and one for others. -/
def twoDirectories : FileTree where
  nodes := [(["tmp"], .directory), (["out"], .directory)]

/-- Of four items with the same content, one in memory and three in temp files, the first two are
written, one of them to a path that no file can be renamed to. -/
def fourItems (p : OpenPart) : List Inventory.Act :=
  [.keep "/tmp" 100 p, .keep "/tmp" 2 p, .keep "/tmp" 2 p, .keep "/tmp" 2 p,
    .writeTo 0 "/out/a", .writeTo 1 "/out/b"]

/-- The second item is written once more, and two are deleted, before the depot is shut down. -/
def moves : List Inventory.Act :=
  [.delete 2, .writeTo 1 "/out/c", .delete 1, .release 0, .shutdown]

/-- What is left then: the item in memory is given up, the one that was moved to a file is read from
there, and of the others the content is lost. -/
theorem items_keep_content_fourItems :
    ∃ s p, Session.open? fourBytes [66] {} = .ok s ∧
      (Standing.between s).after [.nextPart] = .within p ∧
      let v := (Shelf.fresh twoDirectories ["/out/b"] "/tmp" 0).after (fourItems p)
      let w := v.after moves
      (w.kept.map fun e => (e.item.storage, e.saved, e.isHeld)) =
        [(.memory [97, 98, 99, 100], ["/out/a"], false), (.stored "/out/b", ["/out/b", "/out/c"], true),
          (.deleted, [], true), (.temp 2, [], true)] ∧
      (["/out/a", "/out/b", "/out/c"].map w.depot.tree.contentOf) =
        List.replicate 3 (.ok [97, 98, 99, 100]) ∧
      ∀ (index : Nat) (e : Kept), v.kept[index]? = some e → ∃ (content : Bytes) (e' : Kept),
        w.kept[index]? = some e' ∧ e'.Intact content w.depot ∧ e.Fares moves index e' := by
  obtain ⟨s, hs⟩ : ∃ s, Session.open? fourBytes [66] {} = .ok s := ⟨_, rfl⟩
  obtain ⟨p, hp, hrun⟩ := Standing.exists_of_partSatisfies
    (g := (Standing.between s).after [.nextPart])
    (fun p =>
      let w := ((Shelf.fresh twoDirectories ["/out/b"] "/tmp" 0).after (fourItems p)).after moves
      (w.kept.map fun e => (e.item.storage, e.saved, e.isHeld)) =
        [(.memory [97, 98, 99, 100], ["/out/a"], false), (.stored "/out/b", ["/out/b", "/out/c"], true),
          (.deleted, [], true), (.temp 2, [], true)] ∧
      (["/out/a", "/out/b", "/out/c"].map w.depot.tree.contentOf) =
        List.replicate 3 (.ok [97, 98, 99, 100])) (by
      cases hs
      decide +kernel)
  obtain ⟨hitems, hcontents⟩ := of_decide_eq_true hrun
  refine ⟨s, p, hs, hp, hitems, hcontents, fun index e he => ?_⟩
  have hwrites : ∀ index path, .writeTo index path ∈ fourItems p ++ moves →
      (index, path) ∈ [(0, "/out/a"), (1, "/out/b"), (1, "/out/c")] := by
    intro index path hmem
    simpa [fourItems, moves] using hmem
  obtain ⟨-, hkept⟩ := items_keep_content twoDirectories ["/out/b"] "/tmp" 0 "/out" (fourItems p) moves (by
      intro index path hmem
      have hpath := hwrites index path hmem
      simp only [List.mem_cons, Prod.mk.injEq, List.not_mem_nil, or_false] at hpath
      obtain ⟨-, rfl⟩ | ⟨-, rfl⟩ | ⟨-, rfl⟩ := hpath
      · exact ⟨"a", ⟨by decide, by decide⟩, by decide⟩
      · exact ⟨"b", ⟨by decide, by decide⟩, by decide⟩
      · exact ⟨"c", ⟨by decide, by decide⟩, by decide⟩)
    (by
      intro i j path hi hj
      have hpath := hwrites i path hi
      have hpath' := hwrites j path hj
      simp only [List.mem_cons, Prod.mk.injEq, List.not_mem_nil, or_false] at hpath hpath'
      obtain ⟨rfl, rfl⟩ | ⟨rfl, rfl⟩ | ⟨rfl, rfl⟩ := hpath <;> simp at hpath' <;> omega)
  obtain ⟨content, e', he', hintact, hfares, -⟩ := hkept index e he
  exact ⟨content, e', he', hintact, hfares⟩

end FormData
