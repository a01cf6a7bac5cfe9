/-
The first occurrence of a pattern in a text, and how it moves when the text grows at its end or is
cut at its front. A reader that sees only the first stretch of a text may pass every byte of it but
the last few, as many as the pattern has: no occurrence in the whole text begins before those
(`before_append_le`), and once one is seen the rest of the text does not matter (`before_append`).
-/
import FormData.Bytes

namespace FormData.Bytes

/-! ## Occurrences -/

theorem locate?_eq_none_iff (pattern text : Bytes) :
    locate? pattern text = none ↔ ¬ pattern <:+: text := by
  induction text with
  | nil => rw [locate?_nil]; simp
  | cons b rest ih =>
    rw [locate?_cons, List.infix_cons_iff]
    by_cases h : pattern <+: b :: rest
    · rw [if_pos (by simpa using h)]; simp [h]
    · rw [if_neg (by simpa using h), Option.map_eq_none_iff, ih]; simp [h]

theorem prefix_of_locate? {pattern text : Bytes} {k : Nat} (h : locate? pattern text = some k) :
    pattern <+: text.drop k :=
  ((locate?_eq_some_iff pattern text k).1 h).2.1

theorem locate?_add_length_le {pattern text : Bytes} {k : Nat} (h : locate? pattern text = some k) :
    k + pattern.length ≤ text.length := by
  have h1 := ((locate?_eq_some_iff pattern text k).1 h).1
  have h2 := (prefix_of_locate? h).length_le
  rw [List.length_drop] at h2
  omega

/-- What follows the stretch an occurrence lies in does not matter. -/
theorem locate?_append {pattern text : Bytes} {k : Nat} (h : locate? pattern text = some k)
    (more : Bytes) : locate? pattern (text ++ more) = some k := by
  obtain ⟨h1, h2, h3⟩ := (locate?_eq_some_iff pattern text k).1 h
  have hlen := locate?_add_length_le h
  refine (locate?_eq_some_iff _ _ _).2 ⟨by rw [List.length_append]; omega, ?_, fun j hj hp => ?_⟩
  · rw [List.drop_append_of_le_length h1]
    exact List.prefix_append_of_prefix h2
  · rw [List.drop_append_of_le_length (by omega)] at hp
    refine h3 j hj (List.prefix_of_prefix_length_le hp (List.prefix_append _ _) ?_)
    rw [List.length_drop]
    omega

/-- Bytes before the first occurrence may be cut off. -/
theorem locate?_drop {pattern text : Bytes} {k n : Nat} (h : locate? pattern text = some k)
    (hn : n ≤ k) : locate? pattern (text.drop n) = some (k - n) := by
  obtain ⟨h1, h2, h3⟩ := (locate?_eq_some_iff pattern text k).1 h
  refine (locate?_eq_some_iff _ _ _).2 ⟨by rw [List.length_drop]; omega, ?_, fun j hj hp => ?_⟩
  · rw [List.drop_drop, show n + (k - n) = k by omega]
    exact h2
  · rw [List.drop_drop] at hp
    exact h3 (n + j) (by omega) hp

theorem locate?_drop_none {pattern text : Bytes} (h : locate? pattern text = none) (n : Nat) :
    locate? pattern (text.drop n) = none := by
  rw [locate?_eq_none_iff] at h ⊢
  exact fun hp => h (hp.trans (List.drop_suffix n text).isInfix)

/-- An occurrence that begins in front of `text` would have to overlap the pattern at its head, which
a first byte that does not occur again rules out. -/
theorem locate?_append_self {b : UInt8} {tail content : Bytes} (hb : b ∉ tail)
    (hc : ¬ (b :: tail) <:+: content) (text : Bytes) :
    locate? (b :: tail) (content ++ (b :: tail ++ text)) = some content.length := by
  refine (locate?_eq_some_iff _ _ _).2 ⟨by simp, ?_, fun j hj hp => ?_⟩
  · rw [List.drop_left]
    exact List.prefix_append _ _
  · rw [List.drop_append_of_le_length (by omega)] at hp
    rcases Nat.lt_or_ge (content.drop j).length (b :: tail).length with hlt | hge
    · -- byte number `content.length - j` of the pattern is its first byte again
      have hpos : 0 < (content.drop j).length := by rw [List.length_drop]; omega
      have hget := (List.prefix_iff_getElem?.1 hp) (content.drop j).length hlt
      rw [List.getElem?_append_right (Nat.le_refl _), Nat.sub_self] at hget
      obtain ⟨m, hm⟩ : ∃ m, (content.drop j).length = m + 1 := ⟨_, (Nat.succ_pred_eq_of_pos hpos).symm⟩
      simp only [hm, List.cons_append, List.getElem?_cons_zero, List.getElem_cons_succ,
        Option.some.injEq] at hget
      exact hb (hget ▸ List.getElem_mem _)
    · have hin := List.prefix_of_prefix_length_le hp (List.prefix_append _ _) hge
      exact hc (hin.isInfix.trans (List.drop_suffix j content).isInfix)

/-! ## The bytes before an occurrence -/

/-- How many bytes of a text come before the pattern, and whether the pattern is there. Where it is
not, as many bytes as it has are held back. -/
def before (pattern text : Bytes) : Nat × Bool :=
  match locate? pattern text with
  | some offset => (offset, true)
  | none => (text.length - pattern.length, false)

theorem before_eq_true_iff {pattern text : Bytes} {n : Nat} :
    before pattern text = (n, true) ↔ locate? pattern text = some n := by
  unfold before
  split <;> rename_i h <;> simp [h]

theorem before_eq_false_iff {pattern text : Bytes} {n : Nat} :
    before pattern text = (n, false) ↔
      locate? pattern text = none ∧ text.length - pattern.length = n := by
  unfold before
  split <;> rename_i h <;> simp [h]

theorem before_append {pattern text : Bytes} {n : Nat} (h : before pattern text = (n, true))
    (more : Bytes) : before pattern (text ++ more) = (n, true) :=
  before_eq_true_iff.2 (locate?_append (before_eq_true_iff.1 h) more)

theorem before_append_le (pattern text more : Bytes) :
    (before pattern text).1 ≤ (before pattern (text ++ more)).1 := by
  rcases hb : before pattern text with ⟨n, _ | _⟩
  · obtain ⟨hnone, rfl⟩ := before_eq_false_iff.1 hb
    rcases hb' : before pattern (text ++ more) with ⟨m, _ | _⟩
    · obtain ⟨-, rfl⟩ := before_eq_false_iff.1 hb'
      rw [List.length_append]
      simp only
      omega
    · -- an occurrence in the longer text goes on past the shorter one
      have hm := before_eq_true_iff.1 hb'
      refine Nat.le_of_not_lt fun hlt => (locate?_eq_none_iff _ _).1 hnone ?_
      simp only at hlt
      have hp := prefix_of_locate? hm
      rw [List.drop_append_of_le_length (by omega)] at hp
      have hin := List.prefix_of_prefix_length_le hp (List.prefix_append _ _) (by
        rw [List.length_drop]; omega)
      exact hin.isInfix.trans (List.drop_suffix m text).isInfix
  · exact Nat.le_of_eq (congrArg Prod.fst (before_append hb more).symm)

theorem before_drop {pattern text : Bytes} {n k : Nat} {found : Bool}
    (h : before pattern text = (n, found)) (hk : k ≤ n) :
    before pattern (text.drop k) = (n - k, found) := by
  cases found with
  | true => exact before_eq_true_iff.2 (locate?_drop (before_eq_true_iff.1 h) hk)
  | false =>
    obtain ⟨hnone, rfl⟩ := before_eq_false_iff.1 h
    refine before_eq_false_iff.2 ⟨locate?_drop_none hnone k, ?_⟩
    rw [List.length_drop]
    omega

theorem before_le_length (pattern text : Bytes) : (before pattern text).1 ≤ text.length := by
  unfold before
  split
  · rename_i h
    have := locate?_add_length_le h
    simp only
    omega
  · exact Nat.sub_le _ _

end FormData.Bytes
