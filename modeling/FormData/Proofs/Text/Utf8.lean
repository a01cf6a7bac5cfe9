/-
Texts as bytes. The bytes of a text read back as that text (`decode?_encode`), and a byte of value
below 80 stands for the character of that value and nothing else (`mem_encode`), so line breaks
among the bytes are line breaks of the text.
-/
import FormData.Text.Utf8

namespace FormData.Utf8

theorem decode?_encode (text : String) : decode? (encode text) = some text := by
  have hbytes : (⟨(encode text).toArray⟩ : ByteArray) = text.toByteArray := by
    simp only [encode, String.toUTF8_eq_toByteArray, Array.toArray_toList]
  unfold decode?
  rw [hbytes, String.fromUTF8?, dif_pos text.isValidUTF8]
  rfl

/-- Nothing else reads as that text. -/
theorem decode?_eq_some_iff {bytes : Bytes} {text : String} :
    decode? bytes = some text ↔ bytes = encode text := by
  constructor
  · intro h
    unfold decode? String.fromUTF8? at h
    split at h
    · cases h
      rfl
    · cases h
  · rintro rfl
    exact decode?_encode text

theorem encode_ne_nil {text : String} (h : text ≠ "") : encode text ≠ [] := by
  intro hnil
  apply h
  have htext := decode?_encode text
  rw [hnil] at htext
  exact (Option.some.inj htext).symm

theorem encode_append (a b : String) : encode (a ++ b) = encode a ++ encode b := by
  simp [encode]

theorem encode_eq_flatMap (text : String) :
    encode text = text.toList.flatMap String.utf8EncodeChar := by
  obtain ⟨cs, rfl⟩ := text.exists_eq_ofList
  simp [encode, List.utf8Encode]

/-- A byte below 80 among those of a character is that character. -/
theorem toNat_of_mem_utf8EncodeChar {c : Char} {b : UInt8} (hb : b ∈ String.utf8EncodeChar c)
    (hlow : b.toNat < 0x80) : c.toNat = b.toNat := by
  have hval : c.toNat = c.val.toNat := rfl
  unfold String.utf8EncodeChar at hb
  simp only at hb
  split at hb
  · rename_i hle
    rw [List.mem_singleton.1 hb, UInt8.toNat_ofNat', hval]
    omega
  · -- the other forms have the top bit set in each byte
    exfalso
    split at hb
    · simp only [List.mem_cons, List.not_mem_nil, or_false] at hb
      rcases hb with rfl | rfl <;> (rw [UInt8.toNat_ofNat'] at hlow; omega)
    · split at hb
      · simp only [List.mem_cons, List.not_mem_nil, or_false] at hb
        rcases hb with rfl | rfl | rfl <;> (rw [UInt8.toNat_ofNat'] at hlow; omega)
      · simp only [List.mem_cons, List.not_mem_nil, or_false] at hb
        rcases hb with rfl | rfl | rfl | rfl <;> (rw [UInt8.toNat_ofNat'] at hlow; omega)

theorem mem_encode {text : String} {c : Char} {b : UInt8} (hb : b ∈ encode text)
    (hc : b.toNat = c.toNat) (hlow : b.toNat < 0x80) : c ∈ text.toList := by
  rw [encode_eq_flatMap] at hb
  obtain ⟨c', hmem, hb⟩ := List.mem_flatMap.1 hb
  have hsame : c' = c := by
    apply Char.ext
    apply UInt32.toNat_inj.1
    exact (toNat_of_mem_utf8EncodeChar hb hlow).trans hc
  exact hsame ▸ hmem

/-- A text without carriage returns has none among its bytes. -/
theorem cr_notMem_encode {text : String} (h : '\r' ∉ text.toList) : Bytes.cr ∉ encode text :=
  fun hb => h (mem_encode hb rfl (by decide))

theorem lf_notMem_encode {text : String} (h : '\n' ∉ text.toList) : Bytes.lf ∉ encode text :=
  fun hb => h (mem_encode hb rfl (by decide))

/-! ## ASCII -/

/-- A text of characters below 80, each of one byte. -/
def IsAscii (text : String) : Prop :=
  ∀ c ∈ text.toList, c.toNat < 0x80

theorem utf8EncodeChar_ascii {c : Char} (h : c.toNat < 0x80) :
    String.utf8EncodeChar c = [UInt8.ofNat c.toNat] := by
  have hval : c.val.toNat < 0x80 := h
  unfold String.utf8EncodeChar
  simp only
  rw [if_pos (by omega)]
  rfl

/-- A byte below 80 in front is a character of its own. -/
theorem encode_eq_cons {cs : List Char} {b : UInt8} {rest : Bytes}
    (h : cs.flatMap String.utf8EncodeChar = b :: rest) (hlow : b.toNat < 0x80) :
    ∃ c more, cs = c :: more ∧ c.toNat = b.toNat ∧ more.flatMap String.utf8EncodeChar = rest := by
  cases cs with
  | nil => cases h
  | cons c more =>
    obtain ⟨first, tails, hc⟩ := List.exists_cons_of_ne_nil (String.utf8EncodeChar_ne_nil (c := c))
    rw [List.flatMap_cons, hc, List.cons_append] at h
    obtain ⟨rfl, hrest⟩ := List.cons.inj h
    have hvalue : c.toNat = first.toNat :=
      toNat_of_mem_utf8EncodeChar (hc ▸ List.mem_cons_self) hlow
    rw [utf8EncodeChar_ascii (hvalue ▸ hlow)] at hc
    obtain ⟨-, rfl⟩ := List.cons.inj hc
    exact ⟨c, more, rfl, hvalue, hrest⟩

theorem encode_ascii {text : String} (h : IsAscii text) :
    encode text = text.toList.map fun c => UInt8.ofNat c.toNat := by
  unfold IsAscii at h
  rw [encode_eq_flatMap]
  generalize text.toList = cs at h
  induction cs with
  | nil => rfl
  | cons c cs ih =>
    rw [List.flatMap_cons, List.map_cons, utf8EncodeChar_ascii (h c List.mem_cons_self),
      ih fun c hc => h c (List.mem_cons_of_mem _ hc)]
    rfl

/-- A text of bytes below 80 is ASCII. -/
theorem isAscii_iff {text : String} : IsAscii text ↔ ∀ b ∈ encode text, b < 0x80 := by
  constructor
  · intro h b hb
    rw [encode_ascii h] at hb
    obtain ⟨c, hc, rfl⟩ := List.mem_map.1 hb
    have hlow := h c hc
    rw [UInt8.lt_iff_toNat_lt, UInt8.toNat_ofNat']
    exact Nat.lt_of_le_of_lt (Nat.mod_le _ _) hlow
  · intro h c hc
    obtain ⟨b, hb⟩ := List.exists_mem_of_ne_nil _ (String.utf8EncodeChar_ne_nil (c := c))
    have hlow := h b (by rw [encode_eq_flatMap]; exact List.mem_flatMap.2 ⟨c, hc, hb⟩)
    rw [UInt8.lt_iff_toNat_lt] at hlow
    rw [toNat_of_mem_utf8EncodeChar hb hlow]
    exact hlow

theorem lenientChars_ascii {cs : List Char} (h : ∀ c ∈ cs, c.toNat < 0x80) :
    lenientChars (cs.map fun c => UInt8.ofNat c.toNat) = cs := by
  induction cs with
  | nil => rw [List.map_nil, lenientChars]
  | cons c cs ih =>
    have hc := h c List.mem_cons_self
    have hbyte : (UInt8.ofNat c.toNat).toNat = c.toNat := by
      rw [UInt8.toNat_ofNat']
      omega
    rw [List.map_cons, lenientChars, if_pos (by rw [UInt8.lt_iff_toNat_lt, hbyte]; exact hc), hbyte,
      Char.ofNat_toNat, ih fun c hc => h c (List.mem_cons_of_mem _ hc)]

/-- ASCII reads back leniently, too. -/
theorem lenient_encode {text : String} (h : IsAscii text) : lenient (encode text) = text := by
  unfold lenient
  rw [encode_ascii h, lenientChars_ascii h, String.ofList_toList]

end FormData.Utf8
