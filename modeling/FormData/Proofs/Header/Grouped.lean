/-
Headers as an ordered multimap. Adding a value keeps the names apart and leaves none without values
(`IsGrouped.add`). So what a multimap tells is told by the pairs that were added, in the order they
came in: the values of a name are those added under any spelling of it, the names are the first
spellings, and listing all pairs gives each value back once (`ofList_tells`).
-/
import Mathlib.Data.Finset.Card
import Mathlib.Data.List.Induction
import FormData.Proofs.Header.Lines

namespace FormData

namespace Text

variable {a b c : String}

theorem sameName_iff : sameName a b = true ↔ lower a.toList = lower b.toList := by
  rw [sameName, beq_iff_eq]

theorem sameName_comm (a b : String) : sameName a b = sameName b a := by
  rw [Bool.eq_iff_iff, sameName_iff, sameName_iff, eq_comm]

/-- Two spellings of one name are the same as the same others. -/
theorem sameName_congr (h : sameName a b = true) (c : String) : sameName a c = sameName b c := by
  rw [sameName_iff] at h
  rw [Bool.eq_iff_iff, sameName_iff, sameName_iff, h]

end Text

namespace Headers

variable {h : Headers} {name value : String}

/-! ## Entry by entry -/

variable (e : Entry) (es : List Entry)

theorem names_cons : names ⟨e :: es⟩ = e.name :: names ⟨es⟩ := rfl

theorem toList_cons : toList ⟨e :: es⟩ = e.values.map (e.name, ·) ++ toList ⟨es⟩ := rfl

theorem getAll_cons (other : String) :
    getAll ⟨e :: es⟩ other = if Text.sameName e.name other then e.values else getAll ⟨es⟩ other := by
  unfold getAll
  rw [List.find?_cons]
  cases Text.sameName e.name other <;> rfl

/-! ## Adding one value -/

/-- A value goes behind those that its name has, under whatever spelling. -/
theorem getAll_add (h : Headers) (name value other : String) :
    (h.add name value).getAll other =
      h.getAll other ++ if Text.sameName name other then [value] else [] := by
  obtain ⟨entries⟩ := h
  show getAll ⟨addTo name value entries⟩ other = _
  induction entries with
  | nil =>
    rw [addTo, getAll_cons]
    rfl
  | cons e es ih =>
    rw [addTo]
    by_cases hsame : Text.sameName e.name name
    · rw [if_pos hsame, getAll_cons, getAll_cons, Text.sameName_congr hsame]
      split
      · rfl
      · rw [List.append_nil]
    · rw [if_neg hsame, getAll_cons, getAll_cons]
      by_cases hother : Text.sameName e.name other
      · have hno : ¬ Text.sameName name other := by
          rwa [Text.sameName_congr hother, Text.sameName_comm] at hsame
        rw [if_pos hother, if_pos hother, if_neg hno, List.append_nil]
      · rw [if_neg hother, if_neg hother, ih]

/-- A name that is there under some spelling keeps that, and its place. -/
theorem names_add (h : Headers) (name value : String) :
    (h.add name value).names =
      if h.names.any (Text.sameName name) then h.names else h.names ++ [name] := by
  obtain ⟨entries⟩ := h
  show names ⟨addTo name value entries⟩ = _
  induction entries with
  | nil => rfl
  | cons e es ih =>
    rw [addTo, names_cons, List.any_cons, Text.sameName_comm name]
    by_cases hsame : Text.sameName e.name name
    · simp [hsame, names_cons]
    · rw [if_neg hsame, names_cons, ih]
      simp only [hsame, Bool.false_or]
      split <;> rfl

/-- A pair with its name in lower case. -/
def folded (pair : String × String) : List Char × String :=
  (Text.lower pair.1.toList, pair.2)

/-- The pair that was added is one more, under the spelling that its name has. -/
theorem toList_add (h : Headers) (name value : String) :
    ((h.add name value).toList.map folded).Perm (h.toList.map folded ++ [folded (name, value)]) := by
  obtain ⟨entries⟩ := h
  show ((toList ⟨addTo name value entries⟩).map _).Perm _
  induction entries with
  | nil => exact .refl _
  | cons e es ih =>
    rw [addTo, toList_cons, List.map_append, List.append_assoc]
    by_cases hsame : Text.sameName e.name name
    · rw [if_pos hsame, toList_cons, List.map_append, List.map_append, List.map_append,
        List.append_assoc, folded, ← Text.sameName_iff.1 hsame]
      exact List.perm_append_comm.append_left _
    · rw [if_neg hsame, toList_cons, List.map_append]
      exact ih.append_left _

/-- The names differ in more than their case, and each has a value. -/
structure IsGrouped (h : Headers) : Prop where
  distinct : h.names.Pairwise fun a b => Text.sameName a b = false
  valued : ∀ e ∈ h.entries, e.values ≠ []

theorem IsGrouped.add (hg : h.IsGrouped) (name value : String) : (h.add name value).IsGrouped where
  distinct := by
    rw [names_add]
    split
    · exact hg.distinct
    · rename_i hnew
      rw [List.pairwise_append]
      refine ⟨hg.distinct, List.pairwise_singleton _ _, ?_⟩
      intro a ha b hb
      rw [List.mem_singleton.1 hb, Text.sameName_comm]
      simpa using fun h => hnew (List.any_eq_true.2 ⟨a, ha, h⟩)
  valued := by
    obtain ⟨entries⟩ := h
    have hvalued := hg.valued
    show ∀ e ∈ addTo name value entries, e.values ≠ []
    clear hg
    induction entries with
    | nil => simp [addTo]
    | cons e es ih =>
      obtain ⟨he, hes⟩ := List.forall_mem_cons.1 hvalued
      rw [addTo]
      split
      · exact List.forall_mem_cons.2 ⟨by simp, hes⟩
      · exact List.forall_mem_cons.2 ⟨he, ih hes⟩

/-- In a multimap of one entry a name, the entry is what its name has. -/
theorem IsGrouped.getAll_name (hg : h.IsGrouped) {e : Entry} (he : e ∈ h.entries) :
    h.getAll e.name = e.values := by
  obtain ⟨entries⟩ := h
  have hdistinct := hg.distinct
  clear hg
  induction entries with
  | nil => cases he
  | cons e' es ih =>
    obtain ⟨hfirst, hrest⟩ := List.pairwise_cons.1 hdistinct
    rw [getAll_cons]
    rcases List.mem_cons.1 he with rfl | he
    · exact if_pos (Text.sameName_iff.2 rfl)
    · have hother := hfirst e.name (List.mem_map_of_mem he)
      rw [if_neg (by rw [hother]; exact Bool.false_ne_true)]
      exact ih he hrest

theorem IsGrouped.toList_eq (hg : h.IsGrouped) :
    h.toList = h.names.flatMap fun name => (h.getAll name).map (name, ·) := by
  rw [names, List.flatMap_map]
  refine List.flatMap_congr fun e he => ?_
  rw [hg.getAll_name he]

/-- Every name has values, so it is among the pairs. -/
theorem IsGrouped.mem_names_iff (hg : h.IsGrouped) (name : String) :
    name ∈ h.names ↔ ∃ pair ∈ h.toList, pair.1 = name := by
  constructor
  · intro hname
    obtain ⟨e, he, rfl⟩ := List.mem_map.1 hname
    obtain ⟨value, values, hvalues⟩ := List.exists_cons_of_ne_nil (hg.valued e he)
    refine ⟨(e.name, value), List.mem_flatMap.2 ⟨e, he, ?_⟩, rfl⟩
    rw [hvalues]
    exact List.mem_cons_self
  · rintro ⟨pair, hpair, rfl⟩
    obtain ⟨e, he, hvalue⟩ := List.mem_flatMap.1 hpair
    obtain ⟨value, -, rfl⟩ := List.mem_map.1 hvalue
    exact List.mem_map_of_mem he

/-! ## Adding one value after the other -/

theorem ofList_concat (pairs : List (String × String)) (pair : String × String) :
    ofList (pairs ++ [pair]) = (ofList pairs).add pair.1 pair.2 := by
  rw [ofList, List.foldl_append]
  rfl

theorem isGrouped_ofList (pairs : List (String × String)) : (ofList pairs).IsGrouped := by
  induction pairs using List.reverseRecOn with
  | nil => exact ⟨List.Pairwise.nil, nofun⟩
  | append_singleton pairs pair ih =>
    rw [ofList_concat]
    exact ih.add pair.1 pair.2

/-- The values added under a name, whatever the spelling, in the order they were added in. -/
def valuesOf (name : String) (pairs : List (String × String)) : List String :=
  (pairs.filter fun pair => Text.sameName pair.1 name).map Prod.snd

theorem getAll_ofList (pairs : List (String × String)) (name : String) :
    (ofList pairs).getAll name = valuesOf name pairs := by
  induction pairs using List.reverseRecOn with
  | nil => rfl
  | append_singleton pairs pair ih =>
    rw [ofList_concat, getAll_add, ih, valuesOf, valuesOf, List.filter_append, List.map_append,
      List.filter_singleton]
    cases Text.sameName pair.1 name <;> rfl

theorem eraseDupsBy_loop_concat {α : Type} (r : α → α → Bool) (as bs : List α) (a : α) :
    List.eraseDupsBy.loop r (as ++ [a]) bs =
      if (List.eraseDupsBy.loop r as bs).any (r a) then List.eraseDupsBy.loop r as bs
      else List.eraseDupsBy.loop r as bs ++ [a] := by
  induction as generalizing bs with
  | nil =>
    rw [List.nil_append, List.eraseDupsBy.loop, List.eraseDupsBy.loop, List.any_reverse]
    cases bs.any (r a) <;> simp [List.eraseDupsBy.loop]
  | cons b as ih =>
    rw [List.cons_append, List.eraseDupsBy.loop, List.eraseDupsBy.loop]
    cases bs.any (r b)
    · exact ih (b :: bs)
    · exact ih bs

theorem names_ofList (pairs : List (String × String)) :
    (ofList pairs).names = (pairs.map Prod.fst).eraseDupsBy Text.sameName := by
  induction pairs using List.reverseRecOn with
  | nil => rfl
  | append_singleton pairs pair ih =>
    rw [ofList_concat, names_add, ih, List.map_append, List.map_singleton]
    exact (eraseDupsBy_loop_concat _ _ [] _).symm

theorem toList_ofList_perm (pairs : List (String × String)) :
    ((ofList pairs).toList.map folded).Perm (pairs.map folded) := by
  induction pairs using List.reverseRecOn with
  | nil => exact .refl _
  | append_singleton pairs pair ih =>
    rw [ofList_concat, List.map_append]
    exact (toList_add _ _ _).trans (ih.append_right _)

/-- There are as many names as the names that were added differ in more than their case. -/
theorem size_ofList (pairs : List (String × String)) :
    (ofList pairs).size = (pairs.map fun pair => Text.lower pair.1.toList).toFinset.card := by
  have hg := isGrouped_ofList pairs
  have hnodup : ((ofList pairs).names.map fun name => Text.lower name.toList).Nodup := by
    refine List.pairwise_map.2 (hg.distinct.imp fun {a b} hne heq => ?_)
    rw [Text.sameName_iff.2 heq] at hne
    cases hne
  have hsame : (pairs.map fun pair => Text.lower pair.1.toList).toFinset =
      ((ofList pairs).names.map fun name => Text.lower name.toList).toFinset := by
    ext name
    have hperm := ((toList_ofList_perm pairs).map Prod.fst).mem_iff (a := name)
    rw [List.map_map, List.map_map] at hperm
    rw [List.mem_toFinset, List.mem_toFinset]
    refine Iff.trans hperm.symm ?_
    simp only [List.mem_map, hg.mem_names_iff]
    constructor
    · rintro ⟨pair, hpair, rfl⟩
      exact ⟨pair.1, ⟨pair, hpair, rfl⟩, rfl⟩
    · rintro ⟨_, ⟨pair, hpair, rfl⟩, rfl⟩
      exact ⟨pair, hpair, rfl⟩
  rw [hsame, List.toFinset_card_of_nodup hnodup, List.length_map]
  exact (List.length_map _).symm

/-- What the headers with these names and values tell of them. A name has the values added under any
spelling of it, in order. The names are the first spellings in the order they came in, and as many as
there are names that differ in more than their case. All pairs together are those that were added, up to
the spelling of the names, name after name. -/
theorem ofList_tells (pairs : List (String × String)) :
    (∀ name, (ofList pairs).getAll name = valuesOf name pairs ∧
      (ofList pairs).get? name = (valuesOf name pairs).head?) ∧
    (ofList pairs).names = (pairs.map Prod.fst).eraseDupsBy Text.sameName ∧
    (ofList pairs).IsGrouped ∧
    (ofList pairs).size = (pairs.map fun pair => Text.lower pair.1.toList).toFinset.card ∧
    (ofList pairs).toList =
      (ofList pairs).names.flatMap (fun name => (valuesOf name pairs).map (name, ·)) ∧
    ((ofList pairs).toList.map folded).Perm (pairs.map folded) := by
  have hg := isGrouped_ofList pairs
  refine ⟨?_, names_ofList pairs, hg, size_ofList pairs, ?_, toList_ofList_perm pairs⟩
  · intro name
    rw [get?, getAll_ofList]
    exact ⟨rfl, rfl⟩
  · rw [hg.toList_eq]
    simp only [getAll_ofList]

example : (ofList [("X-Tag", "one"), ("Host", "h"), ("x-tag", "two")]).toList =
    [("X-Tag", "one"), ("X-Tag", "two"), ("Host", "h")] := by decide +kernel

end Headers

end FormData
