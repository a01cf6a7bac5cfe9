/-
The registry of temp files. Whatever is done with the items of a depot, in any order, the registered
files are those of the items that still have one, they all exist, and the repository holds no other
(`Depot.Accounts`, `Inventory.act_accounted`). After the shutdown there are none and none is made
(`registry_accounts`).
-/
import Mathlib.Data.List.Nodup
import Mathlib.Data.List.Perm.Basic
import FormData.Proofs.Depot.Keeping
import FormData.Proofs.Depot.Writing

namespace FormData

/-! ## Depots -/

namespace Depot

/-- The registered files are these ones, each exists and no other does; none are left behind the
shutdown. -/
structure Accounts (d : Depot) (files : List Nat) : Prop where
  numbered : d.Numbered
  tracked : d.isShutDown = false → d.tracked.Perm files
  distinct : d.isShutDown = false → files.Nodup
  present : d.isShutDown = false → (d.temps.map Prod.fst).Perm files
  gone : d.isShutDown = true → d.tracked = [] ∧ d.temps = []

variable {d d' : Depot} {files files' : List Nat} {id : Nat}

theorem Accounts.perm (h : d.Accounts files) (hp : files.Perm files') : d.Accounts files' where
  numbered := h.numbered
  tracked hopen := (h.tracked hopen).trans hp
  distinct hopen := hp.nodup_iff.1 (h.distinct hopen)
  present hopen := (h.present hopen).trans hp
  gone := h.gone

/-- Only the temp files matter, and how many were made. -/
theorem Accounts.elsewhere (h : d.Accounts files) (tree : FileTree) (repository : String)
    (threshold : Nat) : ({ d with tree, repository, threshold } : Depot).Accounts files :=
  ⟨⟨h.numbered.temps, h.numbered.tracked⟩, h.tracked, h.distinct, h.present, h.gone⟩

theorem Accounts.restored (h : d.Accounts files) (hr : d.Restored d') : d'.Accounts files := by
  have hn := hr.numbered h.numbered
  obtain ⟨n, -, rfl⟩ := hr
  exact ⟨hn, h.tracked, h.distinct, h.present, h.gone⟩

theorem Accounts.lt_issued (h : d.Accounts files) (hopen : d.isShutDown = false) (hid : id ∈ files) :
    id < d.issued :=
  h.numbered.tracked id ((h.tracked hopen).mem_iff.2 hid)

/-- A file that is made gets a number that none has. -/
theorem Accounts.withTemp (h : d.Accounts files) (hopen : d.isShutDown = false) (content : Bytes) :
    (d.withTemp content).Accounts (files ++ [d.issued]) where
  numbered := h.numbered.withTemp content
  tracked _ := (h.tracked hopen).append_right _
  distinct _ := by
    rw [List.nodup_append]
    refine ⟨h.distinct hopen, List.nodup_singleton _, ?_⟩
    intro id hid n hn
    have := h.lt_issued hopen hid
    rw [List.mem_singleton.1 hn]
    omega
  present _ := by
    unfold Depot.withTemp
    rw [List.map_append]
    exact (h.present hopen).append_right _
  gone hclosed := by
    cases hopen.symm.trans hclosed

theorem filter_ne_perm {l : List Nat} (h : l.Perm (id :: files)) (hnodup : (id :: files).Nodup) :
    (l.filter (· != id)).Perm files := by
  have hrest : files.filter (· != id) = files := by
    refine List.filter_eq_self.2 fun n hn => ?_
    simp only [bne_iff_ne, ne_eq]
    rintro rfl
    exact (List.nodup_cons.1 hnodup).1 hn
  have hp := h.filter (· != id)
  rwa [List.filter_cons_of_neg (by simp), hrest] at hp

/-- A file that is dropped is registered no longer. -/
theorem Accounts.dropTemp (h : d.Accounts (id :: files)) : (d.dropTemp id).Accounts files where
  numbered :=
    ⟨fun t ht => h.numbered.temps t (List.mem_of_mem_filter ht),
      fun n hn => h.numbered.tracked n (List.mem_of_mem_filter hn)⟩
  tracked hopen := filter_ne_perm (h.tracked hopen) (h.distinct hopen)
  distinct hopen := (List.nodup_cons.1 (h.distinct hopen)).2
  present hopen := by
    have hp := filter_ne_perm (h.present hopen) (h.distinct hopen)
    rw [List.filter_map] at hp
    exact hp
  gone hclosed := by
    obtain ⟨htracked, htemps⟩ := h.gone hclosed
    simp [Depot.dropTemp, htracked, htemps]

/-- Every registered file is there. -/
theorem Accounts.temp?_isSome (h : d.Accounts files) (hid : id ∈ d.tracked) :
    (d.temp? id).isSome := by
  rcases hs : d.isShutDown with _ | _
  · have hkey := (h.present hs).mem_iff.2 ((h.tracked hs).mem_iff.1 hid)
    obtain ⟨⟨_, content⟩, hmem, rfl⟩ := List.mem_map.1 hkey
    unfold temp?
    rw [List.lookup_isSome_iff]
    exact ⟨_, hmem, by simp⟩
  · rw [(h.gone hs).1] at hid
    cases hid

/-- The shutdown removes every registered file, and all temp files are registered. -/
theorem Accounts.shutdown (h : d.Accounts files) (files' : List Nat) :
    d.shutdown.1 = d.tracked.length ∧ d.shutdown.2.Accounts files' := by
  have hall : d.tracked.filter (fun id => (d.temp? id).isSome) = d.tracked :=
    List.filter_eq_self.2 fun id hid => h.temp?_isSome hid
  have hnone : d.temps.filter (fun t => !d.tracked.contains t.1) = [] := by
    rcases hs : d.isShutDown with _ | _
    · refine List.filter_eq_nil_iff.2 fun t ht => ?_
      have hkey := (h.present hs).mem_iff.1 (List.mem_map_of_mem ht)
      have htracked := (h.tracked hs).mem_iff.2 hkey
      simp [htracked]
    · rw [(h.gone hs).2]
      rfl
  refine ⟨congrArg List.length hall, ?_⟩
  unfold Depot.shutdown
  rw [hnone]
  exact {
    numbered := ⟨nofun, nofun⟩
    tracked := nofun
    distinct := nofun
    present := nofun
    gone := fun _ => ⟨rfl, rfl⟩ }

end Depot

/-! ## Items -/

namespace Item

/-- The temp file of an item that has one. -/
def tempFile? (i : Item) : Option Nat :=
  match i.storage with
  | .temp id => some id
  | _ => none

variable {i : Item} {d : Depot} {files : List Nat}

theorem release_accounts (h : d.Accounts (i.tempFile?.toList ++ files)) :
    (i.release d).Accounts files := by
  unfold tempFile? at h
  unfold release
  cases hs : i.storage <;> rw [hs] at h
  case temp id => exact h.dropTemp
  all_goals exact h

theorem delete_accounts (h : d.Accounts (i.tempFile?.toList ++ files)) :
    (i.delete d).2.Accounts ((i.delete d).1.tempFile?.toList ++ files) := by
  have hr := i.release_accounts h
  unfold delete
  split
  · exact hr
  · exact h

/-- Writing an item somewhere takes its file out of the repository, or leaves it where it is. -/
theorem writeTo_accounts (h : d.Accounts (i.tempFile?.toList ++ files)) (path : String) :
    (i.writeTo d path).2.2.Accounts ((i.writeTo d path).2.1.tempFile?.toList ++ files) := by
  obtain ⟨tree, hw⟩ | ⟨id, tree, hs, hw⟩ := i.writeTo_leaves d path
  · rw [hw]
    exact h.elsewhere tree d.repository d.threshold
  · rw [hw]
    rw [tempFile?, hs] at h
    exact h.dropTemp.elsewhere tree d.repository d.threshold

end Item

/-- The file of an item that was kept is one more. -/
theorem OpenPart.keep_accounts {p q : OpenPart} {d d' : Depot} {item : Item} {files : List Nat}
    (h : d.Accounts files) (hk : p.keep d = (.ok item, q, d')) :
    d'.Accounts (files ++ item.tempFile?.toList) := by
  obtain ⟨content, hs, rfl⟩ | ⟨hs, hspills, content, rfl⟩ := keep_ok_depot h.numbered hk
  · rw [Item.tempFile?, hs, Option.toList_none, List.append_nil]
    exact h
  · rw [Item.tempFile?, hs]
    exact h.withTemp hspills.1 content

/-! ## Files of several holders -/

section Holders

variable {α : Type} {file? : α → Option Nat} {holders : List α} {holder : α} {index : Nat}

/-- The file of one holder, and those of the others. -/
theorem perm_files (h : holders[index]? = some holder) :
    (holders.filterMap file?).Perm
      ((file? holder).toList ++ (holders.eraseIdx index).filterMap file?) := by
  obtain ⟨hlt, rfl⟩ := List.getElem?_eq_some_iff.1 h
  have hp := (List.getElem_cons_eraseIdx_perm hlt).symm.filterMap file?
  rw [List.filterMap_cons] at hp
  cases hf : file? holders[index] <;> rw [hf] at hp <;> exact hp

theorem filterMap_singleton (holder : α) : [holder].filterMap file? = (file? holder).toList := by
  cases hf : file? holder <;> simp [hf]

theorem perm_files_set (h : holders[index]? = some holder) (holder' : α) :
    ((holders.set index holder').filterMap file?).Perm
      ((file? holder').toList ++ (holders.eraseIdx index).filterMap file?) := by
  obtain ⟨hlt, -⟩ := List.getElem?_eq_some_iff.1 h
  have hp := (List.set_perm_cons_eraseIdx hlt holder').filterMap file?
  rw [List.filterMap_cons] at hp
  cases hf : file? holder' <;> rw [hf] at hp <;> exact hp

end Holders

/-! ## Inventories -/

/-- A depot with the items kept in it. -/
structure Inventory where
  depot : Depot
  items : List Item := []

namespace Inventory

/-- What is done with a depot and its items. -/
inductive Act where
  /-- A part is kept, under a threshold and a repository of the caller's. -/
  | keep (repository : String) (threshold : Nat) (part : OpenPart)
  | writeTo (index : Nat) (path : String)
  | delete (index : Nat)
  /-- An item is given up. -/
  | release (index : Nat)
  | shutdown

def act (v : Inventory) : Act → Inventory
  | .keep repository threshold part =>
    match part.keep { v.depot with repository, threshold } with
    | (.error _, _, depot) => { v with depot }
    | (.ok item, _, depot) => { depot, items := v.items ++ [item] }
  | .writeTo index path =>
    match v.items[index]? with
    | none => v
    | some item =>
      { depot := (item.writeTo v.depot path).2.2
        items := v.items.set index (item.writeTo v.depot path).2.1 }
  | .delete index =>
    match v.items[index]? with
    | none => v
    | some item =>
      { depot := (item.delete v.depot).2, items := v.items.set index (item.delete v.depot).1 }
  | .release index =>
    match v.items[index]? with
    | none => v
    | some item => { depot := item.release v.depot, items := v.items.eraseIdx index }
  | .shutdown => { v with depot := v.depot.shutdown.2 }

/-- One act after the other. -/
def after (v : Inventory) (acts : List Act) : Inventory :=
  acts.foldl act v

theorem after_cons (v : Inventory) (a : Act) (acts : List Act) :
    v.after (a :: acts) = (v.act a).after acts := rfl

/-- The temp files of the items there are. -/
def files (v : Inventory) : List Nat :=
  v.items.filterMap Item.tempFile?

/-- The depot accounts for the files of the items. -/
def Accounted (v : Inventory) : Prop :=
  v.depot.Accounts v.files

variable {v : Inventory}

/-- Whatever is done, the depot accounts for the files of the items. -/
theorem act_accounted (h : v.Accounted) (a : Act) : (v.act a).Accounted := by
  cases a with
  | keep repository threshold part =>
    have hd := Depot.Accounts.elsewhere h v.depot.tree repository threshold
    simp only [act]
    rcases hk : part.keep { v.depot with repository, threshold } with ⟨e | item, q, d'⟩
    · exact hd.restored (OpenPart.keep_error hd.numbered hk)
    · unfold Accounted files
      rw [List.filterMap_append, filterMap_singleton]
      exact OpenPart.keep_accounts hd hk
  | writeTo index path =>
    simp only [act]
    split
    · exact h
    · rename_i item hitem
      exact (Item.writeTo_accounts (h.perm (perm_files hitem)) path).perm (perm_files_set hitem _).symm
  | delete index =>
    simp only [act]
    split
    · exact h
    · rename_i item hitem
      exact (Item.delete_accounts (h.perm (perm_files hitem))).perm (perm_files_set hitem _).symm
  | release index =>
    simp only [act]
    split
    · exact h
    · rename_i item hitem
      exact Item.release_accounts (h.perm (perm_files hitem))
  | shutdown => exact (Depot.Accounts.shutdown h _).2

/-- By induction on the acts. -/
theorem after_accounted (h : v.Accounted) (acts : List Act) : (v.after acts).Accounted := by
  induction acts generalizing v with
  | nil => exact h
  | cons a acts ih => exact ih (act_accounted h a)

/-! ### Shutdown -/

theorem release_isShutDown (i : Item) (d : Depot) : (i.release d).isShutDown = d.isShutDown := by
  unfold Item.release
  split <;> rfl

theorem delete_isShutDown (i : Item) (d : Depot) : (i.delete d).2.isShutDown = d.isShutDown := by
  unfold Item.delete
  split
  · exact release_isShutDown i d
  · rfl

theorem writeTo_isShutDown (i : Item) (d : Depot) (path : String) :
    (i.writeTo d path).2.2.isShutDown = d.isShutDown := by
  obtain ⟨tree, hw⟩ | ⟨id, tree, -, hw⟩ := i.writeTo_leaves d path
  · rw [hw]
  · rw [hw]
    rfl

/-- Only the shutdown shuts a depot down, and nothing opens it again. -/
theorem act_isShutDown (h : v.Accounted) (a : Act) :
    (v.act a).depot.isShutDown = true ↔ v.depot.isShutDown = true ∨ a = .shutdown := by
  cases a with
  | keep repository threshold part =>
    have hd := Depot.Accounts.elsewhere h v.depot.tree repository threshold
    simp only [act, reduceCtorEq, or_false]
    rcases hk : part.keep { v.depot with repository, threshold } with ⟨e | item, q, d'⟩
    · obtain ⟨n, -, rfl⟩ := OpenPart.keep_error hd.numbered hk
      exact Iff.rfl
    · obtain ⟨content, -, rfl⟩ | ⟨-, -, content, rfl⟩ := OpenPart.keep_ok_depot hd.numbered hk
      · exact Iff.rfl
      · exact Iff.rfl
  | writeTo index path =>
    simp only [act, reduceCtorEq, or_false]
    split
    · exact Iff.rfl
    · rw [writeTo_isShutDown]
  | delete index =>
    simp only [act, reduceCtorEq, or_false]
    split
    · exact Iff.rfl
    · rw [delete_isShutDown]
  | release index =>
    simp only [act, reduceCtorEq, or_false]
    split
    · exact Iff.rfl
    · rw [release_isShutDown]
  | shutdown => exact ⟨fun _ => .inr rfl, fun _ => rfl⟩

theorem after_isShutDown (h : v.Accounted) (acts : List Act) :
    (v.after acts).depot.isShutDown = true ↔ v.depot.isShutDown = true ∨ .shutdown ∈ acts := by
  induction acts generalizing v with
  | nil => simp [after]
  | cons a acts ih =>
    rw [List.mem_cons, ← or_assoc, @eq_comm _ Act.shutdown, ← act_isShutDown h a]
    exact ih (act_accounted h a)

/-- No temp file is left, and none is made any more: a part that would have to have one is refused. -/
structure Closed (v : Inventory) : Prop where
  tracked : v.depot.tracked = []
  temps : v.depot.temps = []
  refuses : ∀ (repository : String) (threshold : Nat) (part : OpenPart),
    part.KeptWithoutFile { v.depot with repository, threshold }

theorem Accounted.closed (h : v.Accounted) (hshut : v.depot.isShutDown = true) : v.Closed where
  tracked := (h.gone hshut).1
  temps := (h.gone hshut).2
  refuses _ _ part := part.keep_closed hshut

/-- Without items there are no files. -/
theorem Accounted.empty (h : v.Accounted) (hitems : v.items = []) :
    v.depot.tracked = [] ∧ v.depot.temps = [] := by
  have hfiles : v.files = [] := by
    unfold files
    rw [hitems]
    rfl
  rcases hs : v.depot.isShutDown with _ | _
  · have htracked := h.tracked hs
    have htemps := h.present hs
    rw [hfiles, List.perm_nil] at htracked htemps
    exact ⟨htracked, List.map_eq_nil_iff.1 htemps⟩
  · exact h.gone hs

/-- A depot that nothing was kept in yet. -/
def fresh (tree : FileTree) (foreign : List String) (repository : String) (threshold : Nat) : Inventory where
  depot := { tree, repository, threshold, foreign }

theorem fresh_accounted (tree : FileTree) (foreign : List String) (repository : String) (threshold : Nat) :
    (fresh tree foreign repository threshold).Accounted where
  numbered := ⟨nofun, nofun⟩
  tracked _ := .nil
  distinct _ := List.nodup_nil
  present _ := .nil
  gone := nofun

end Inventory

/-- Whatever is done with a depot and its items, and whether files are moved by renaming or by copying them,
until the shutdown the registered files are exactly those of the items that still have one, no two items
share a file, and these are all the temp files there are. The shutdown tells how many were registered; from
then on there is none and none is made. And there is none without items. -/
theorem registry_accounts (tree : FileTree) (foreign : List String) (repository : String) (threshold : Nat)
    (acts : List Inventory.Act) :
    let v := (Inventory.fresh tree foreign repository threshold).after acts
    (.shutdown ∉ acts → v.depot.tracked.Perm v.files ∧ v.files.Nodup ∧
      (v.depot.temps.map Prod.fst).Perm v.files) ∧
    v.depot.shutdown.1 = v.depot.tracked.length ∧
    (∀ later, ((v.act .shutdown).after later).Closed) ∧
    (v.items = [] → v.depot.tracked = [] ∧ v.depot.temps = []) := by
  intro v
  have hfresh := Inventory.fresh_accounted tree foreign repository threshold
  have hv : v.Accounted := Inventory.after_accounted hfresh acts
  refine ⟨?_, (Depot.Accounts.shutdown hv []).1, ?_, hv.empty⟩
  · intro hnot
    have hopen : v.depot.isShutDown = false := by
      rw [← Bool.not_eq_true, Inventory.after_isShutDown hfresh]
      rintro (hfalse | hmem)
      · cases hfalse
      · exact hnot hmem
    exact ⟨hv.tracked hopen, hv.distinct hopen, hv.present hopen⟩
  · intro later
    have hshut := Inventory.act_accounted hv .shutdown
    exact (Inventory.after_accounted hshut later).closed
      ((Inventory.after_isShutDown hshut later).2 (.inl rfl))

end FormData
