/-
Writes that fail. They change nothing of a depot and its items, whatever the state that these are in
(`act_failed`), so they can be struck out of everything that is done with them
(`after_withoutFailed`).
-/
import FormData.Proofs.Depot.Registry

namespace FormData

namespace Inventory

variable {v : Inventory}

/-- Whether an act is a write that fails. -/
def isFailedWrite (v : Inventory) : Act → Bool
  | .writeTo index path =>
    match v.items[index]? with
    | none => false
    | some item =>
      match (item.writeTo v.depot path).1 with
      | .error _ => true
      | .ok () => false
  | _ => false

/-- What is done, without the writes that fail. -/
def withoutFailed (v : Inventory) : List Act → List Act
  | [] => []
  | a :: acts =>
    if v.isFailedWrite a then v.withoutFailed acts else a :: (v.act a).withoutFailed acts

/-- A write that fails changes nothing. -/
theorem act_failed {a : Act} (h : v.isFailedWrite a = true) : v.act a = v := by
  cases a with
  | writeTo index path =>
    unfold isFailedWrite at h
    rcases hitem : v.items[index]? with _ | item <;> simp only [hitem] at h
    · cases h
    · rcases hw : (item.writeTo v.depot path).1 with e | ⟨⟩ <;> rw [hw] at h
      · obtain ⟨hlt, hget⟩ := List.getElem?_eq_some_iff.1 hitem
        simp only [act, hitem, (Item.writeTo_failed hw).2]
        rw [← hget, List.set_getElem_self]
      · cases h
  | keep | delete | release | shutdown => cases h

/-- Whatever is done, the writes that fail might as well not have been tried. By induction on the acts. -/
theorem after_withoutFailed (v : Inventory) (acts : List Act) :
    v.after (v.withoutFailed acts) = v.after acts := by
  induction acts generalizing v with
  | nil => rfl
  | cons a acts ih =>
    unfold withoutFailed
    split
    · rename_i hfailed
      rw [after_cons, act_failed hfailed]
      exact ih v
    · exact ih (v.act a)

end Inventory

/-- A write fails only if the content is gone, or the path is none that a file can be written to: what it
goes through is missing or no directory, or a directory is where it ends. Then the depot with its items
is what it was: the item with its content, the temp files and which of them are registered, and every
file of the tree. So a later write to a path that can be written to works out and comes to the same as
without the one that failed, as does whatever else is done later. -/
theorem failed_write_changes_nothing {v : Inventory} {index : Nat} {item : Item} {path : String}
    {e : Error} (hitem : v.items[index]? = some item)
    (hfails : (item.writeTo v.depot path).1 = .error e) :
    ¬ item.CanBeWritten v.depot path ∧
    v.act (.writeTo index path) = v ∧
    (∀ other, item.CanBeWritten v.depot other →
      (item.writeTo (v.act (.writeTo index path)).depot other).1 = .ok () ∧
        v.after [.writeTo index path, .writeTo index other] = v.act (.writeTo index other)) ∧
    ∀ later, v.after (.writeTo index path :: later) = v.after (v.withoutFailed later) := by
  have hfailed : v.isFailedWrite (.writeTo index path) = true := by
    unfold Inventory.isFailedWrite
    simp only [hitem, hfails]
  have hsame := Inventory.act_failed hfailed
  have hafter : ∀ later, v.after (.writeTo index path :: later) = v.after later := by
    intro later
    rw [Inventory.after_cons, hsame]
  refine ⟨(Item.writeTo_failed hfails).1, hsame, ?_, ?_⟩
  · intro other hother
    rw [hsame]
    exact ⟨Item.writeTo_ok hother, hafter _⟩
  · intro later
    rw [hafter, Inventory.after_withoutFailed]

/-- A temp file that is neither renamed nor copied into a directory that is missing stays with its
item. -/
theorem failed_write_changes_nothing_missingDirectory :
    let item : Item :=
      { field := some "a", fileName := some "b", isFormField := false, headers := {}, size := 3
        storage := .temp 0 }
    let v : Inventory :=
      { depot :=
          { tree := {}, repository := "/", threshold := 2, temps := [(0, [97, 98, 99])], tracked := [0]
            issued := 1 }
        items := [item] }
    (item.writeTo v.depot "missing/b").1 = .error (.io (.system .noSuchFile)) ∧
      ¬ item.CanBeWritten v.depot "missing/b" ∧
      v.act (.writeTo 0 "missing/b") = v ∧
      (∀ other, item.CanBeWritten v.depot other →
        (item.writeTo (v.act (.writeTo 0 "missing/b")).depot other).1 = .ok () ∧
          v.after [.writeTo 0 "missing/b", .writeTo 0 other] = v.act (.writeTo 0 other)) ∧
      ∀ later, v.after (.writeTo 0 "missing/b" :: later) = v.after (v.withoutFailed later) := by
  intro item v
  have hfails : (item.writeTo v.depot "missing/b").1 = .error (.io (.system .noSuchFile)) := by
    rfl
  exact ⟨hfails, failed_write_changes_nothing rfl hfails⟩

end FormData
