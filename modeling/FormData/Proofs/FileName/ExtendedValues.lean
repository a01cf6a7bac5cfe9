/-
Which extended values there are, and of which texts. An encoded text spells bytes, each escape its own
byte and each other character those of its UTF-8 form (`Spells`); reading escapes among the bytes comes to
the same, since a percent sign or a digit is a byte of its own (`unescape?_eq_some_iff`). So a value is
taken exactly if it is a charset, a language and a spelling of a text in that charset, with apostrophes
between them (`IsExtended`), whatever characters are escaped in it (`extended_values_exact`).
-/
import FormData.FileName.Decoder
import FormData.Proofs.Header.Trimmed

namespace FormData.FileName

/-! ## Digits -/

/-- The value of a digit in base sixteen, whose letters may be of either case. -/
def hexValue? (c : Char) : Option Nat :=
  "0123456789abcdef".toList.idxOf? c.toLower

theorem hexDigit?_eq (b : UInt8) : hexDigit? b = hexValue? (Char.ofNat b.toNat) := by
  have hall : ∀ n : Fin 256, hexDigit? (UInt8.ofNat n) = hexValue? (Char.ofNat (UInt8.ofNat n).toNat) := by
    decide +kernel
  have hb := hall ⟨b.toNat, b.toNat_lt⟩
  rwa [UInt8.ofNat_toNat] at hb

theorem hexDigit?_of_char {c : Char} {b : UInt8} (h : c.toNat = b.toNat) :
    hexDigit? b = hexValue? c := by
  rw [hexDigit?_eq, ← h, Char.ofNat_toNat]

/-- Digits are ASCII. -/
theorem hexValue?_low {c : Char} {value : Nat} (h : hexValue? c = some value) : c.toNat < 0x80 := by
  have hmem : c.toLower ∈ "0123456789abcdef".toList := by
    obtain ⟨hlt, hget, -⟩ := List.idxOf?_eq_some_iff.1 h
    exact hget ▸ List.getElem_mem hlt
  have hlow : c.toLower.toNat < 0x80 := by
    have hall : ("0123456789abcdef".toList.all fun d => d.toNat < 0x80) = true := rfl
    exact of_decide_eq_true (List.all_eq_true.1 hall _ hmem)
  by_cases hupper : c.isUpper = true
  · rw [Text.toNat_toLower hupper] at hlow
    omega
  · rwa [Text.toLower_of_not_isUpper hupper] at hlow

/-! ## Spellings -/

/-- The bytes that an encoded text spells. -/
inductive Spells : List Char → Bytes → Prop
  | nothing : Spells [] []
  | character {c : Char} {rest : List Char} {bytes : Bytes} : c ≠ '%' → Spells rest bytes →
    Spells (c :: rest) (String.utf8EncodeChar c ++ bytes)
  | escape {high low : Char} {h l : Nat} {rest : List Char} {bytes : Bytes} :
    hexValue? high = some h → hexValue? low = some l → Spells rest bytes →
    Spells ('%' :: high :: low :: rest) (UInt8.ofNat (h * 16 + l) :: bytes)

/-! ## Reading them among the bytes -/

theorem unescape?_cons {b : UInt8} (h : b ≠ 37) (rest : Bytes) :
    unescape? (b :: rest) = (unescape? rest).map (b :: ·) := by
  rw [unescape?.eq_def]
  split
  · rename_i heq
    cases heq
  · rename_i heq
    cases heq
    exact absurd rfl h
  · rename_i heq
    cases heq
    rw [if_neg h]

theorem unescape?_append {front : Bytes} (h : 37 ∉ front) (rest : Bytes) :
    unescape? (front ++ rest) = (unescape? rest).map (front ++ ·) := by
  induction front with
  | nil => simp
  | cons b front ih =>
    rw [List.mem_cons, not_or] at h
    rw [List.cons_append, unescape?_cons (Ne.symm h.1), ih h.2, Option.map_map]
    rfl

/-- Behind a percent sign are two digits, or there is no reading. -/
theorem unescape?_percent {rest bytes : Bytes} :
    unescape? (37 :: rest) = some bytes ↔
      ∃ high low more h l bytes', rest = high :: low :: more ∧ hexDigit? high = some h ∧
        hexDigit? low = some l ∧ unescape? more = some bytes' ∧
        bytes = UInt8.ofNat (h * 16 + l) :: bytes' := by
  match rest with
  | [] => simp [unescape?]
  | [_] => simp [unescape?]
  | high :: low :: more =>
    simp only [unescape?, bind, pure, Option.bind_eq_some_iff, Option.some.injEq]
    constructor
    · rintro ⟨h, hh, l, hl, bytes', hmore, rfl⟩
      exact ⟨high, low, more, h, l, bytes', rfl, hh, hl, hmore, rfl⟩
    · rintro ⟨_, _, _, h, l, bytes', heq, hh, hl, hmore, rfl⟩
      cases heq
      exact ⟨h, hh, l, hl, bytes', hmore, rfl⟩

/-- A percent sign among the bytes of a text is one of its characters. -/
theorem percent_notMem {c : Char} (h : c ≠ '%') : 37 ∉ String.utf8EncodeChar c := by
  intro hmem
  have hvalue := Utf8.toNat_of_mem_utf8EncodeChar hmem (by decide)
  apply h
  rw [← Char.ofNat_toNat c, hvalue]
  rfl

theorem unescape?_of_spells {encoded : List Char} {bytes : Bytes} (h : Spells encoded bytes) :
    unescape? (encoded.flatMap String.utf8EncodeChar) = some bytes := by
  induction h with
  | nothing => rfl
  | character hc _ ih => rw [List.flatMap_cons, unescape?_append (percent_notMem hc), ih, Option.map_some]
  | @escape high low h l rest bytes hh hl _ ih =>
    have hhigh := hexValue?_low hh
    have hlow := hexValue?_low hl
    have hbyte : ∀ c : Char, c.toNat < 0x80 → c.toNat = (UInt8.ofNat c.toNat).toNat := by
      intro c hc
      rw [UInt8.toNat_ofNat']
      omega
    have hpercent : String.utf8EncodeChar '%' = [37] := rfl
    rw [List.flatMap_cons, List.flatMap_cons, List.flatMap_cons, hpercent,
      Utf8.utf8EncodeChar_ascii hhigh, Utf8.utf8EncodeChar_ascii hlow]
    refine unescape?_percent.2 ⟨_, _, _, h, l, bytes, rfl, ?_, ?_, ih, rfl⟩
    · rw [hexDigit?_of_char (hbyte high hhigh), hh]
    · rw [hexDigit?_of_char (hbyte low hlow), hl]

/-- A digit among the bytes is low. -/
theorem hexDigit?_low {b : UInt8} {value : Nat} (h : hexDigit? b = some value) : b.toNat < 0x80 := by
  unfold hexDigit? at h
  simp only [UInt8.le_iff_toNat_le] at h
  split at h
  · rename_i hdigit
    exact Nat.lt_of_le_of_lt hdigit.2 (by decide)
  · split at h
    · rename_i hupper
      exact Nat.lt_of_le_of_lt hupper.2 (by decide)
    · split at h
      · rename_i hlower
        exact Nat.lt_of_le_of_lt hlower.2 (by decide)
      · cases h

theorem spells_of_unescape? {encoded : List Char} {bytes : Bytes}
    (h : unescape? (encoded.flatMap String.utf8EncodeChar) = some bytes) : Spells encoded bytes := by
  match encoded with
  | [] =>
    cases h
    exact .nothing
  | c :: rest =>
    rw [List.flatMap_cons] at h
    by_cases hc : c = '%'
    · subst hc
      -- the two bytes behind the sign are characters of their own, being digits
      obtain ⟨high, low, more, x, y, bytes', hrest, hx, hy, hmore, rfl⟩ := unescape?_percent.1 h
      obtain ⟨highChar, tail, rfl, hhigh, htail⟩ := Utf8.encode_eq_cons hrest (hexDigit?_low hx)
      obtain ⟨lowChar, tail, rfl, hlow, rfl⟩ := Utf8.encode_eq_cons htail (hexDigit?_low hy)
      rw [hexDigit?_of_char hhigh] at hx
      rw [hexDigit?_of_char hlow] at hy
      exact .escape hx hy (spells_of_unescape? hmore)
    · rw [unescape?_append (percent_notMem hc), Option.map_eq_some_iff] at h
      obtain ⟨bytes', hrest, rfl⟩ := h
      exact .character hc (spells_of_unescape? hrest)
termination_by encoded.length

theorem unescape?_eq_some_iff {encoded : List Char} {bytes : Bytes} :
    unescape? (Utf8.encode (String.ofList encoded)) = some bytes ↔ Spells encoded bytes := by
  rw [Utf8.encode_eq_flatMap, String.toList_ofList]
  exact ⟨spells_of_unescape?, unescape?_of_spells⟩

/-! ## Charsets -/

/-- The texts that a value in the charset can have. -/
def Charset.Holds : Charset → String → Prop
  | utf8, _ => True
  | usAscii, text => Utf8.IsAscii text

def Charset.name : Charset → String
  | utf8 => "utf-8"
  | usAscii => "us-ascii"

theorem Charset.named?_eq_some_iff {name : String} {charset : Charset} :
    named? name = some charset ↔ Text.lower name.toList = charset.name.toList := by
  have hname : ∀ known : Charset, Text.sameName name known.name = true ↔
      Text.lower name.toList = known.name.toList := by
    intro known
    have hlower : Text.lower known.name.toList = known.name.toList := by cases known <;> decide
    rw [Text.sameName, beq_iff_eq, hlower]
  have hother : utf8.name.toList ≠ usAscii.name.toList := by decide
  unfold named?
  change (if Text.sameName name usAscii.name then some usAscii
    else if Text.sameName name utf8.name then some utf8 else none) = some charset ↔ _
  simp only [hname]
  split
  · rename_i h
    rw [h]
    cases charset with
    | utf8 => simp [hother.symm]
    | usAscii => simp
  · rename_i h
    cases charset with
    | utf8 => simp
    | usAscii => simp [h]

theorem Charset.holds_iff {charset : Charset} {text : String} :
    charset.Holds text ↔ ¬(charset = usAscii ∧ (Utf8.encode text).any (0x80 ≤ ·)) := by
  cases charset with
  | utf8 => simp [Holds]
  | usAscii => simp [Holds, Utf8.isAscii_iff]

theorem Charset.read_eq_ok_iff {charset : Charset} {bytes : Bytes} {text : String} :
    charset.read bytes = .ok text ↔ bytes = Utf8.encode text ∧ charset.Holds text := by
  unfold read
  constructor
  · intro h
    split at h
    · cases h
    · rename_i hlow
      split at h
      · rename_i hread
        cases h
        rw [Utf8.decode?_eq_some_iff] at hread
        subst hread
        exact ⟨rfl, holds_iff.2 hlow⟩
      · cases h
  · rintro ⟨rfl, h⟩
    rw [if_neg (holds_iff.1 h), Utf8.decode?_encode]

/-! ## Values -/

theorem split?_eq_some_iff {raw charset language encoded : List Char} :
    split? raw = some (charset, language, encoded) ↔
      raw = charset ++ apostrophe :: (language ++ apostrophe :: encoded) ∧
        apostrophe ∉ charset ∧ apostrophe ∉ language := by
  simp only [split?, bind, pure, Option.bind_eq_some_iff, Option.some.injEq, Prod.exists,
    Prod.mk.injEq, Text.cut?_eq_some_iff]
  constructor
  · rintro ⟨_, _, ⟨rfl, hcharset⟩, _, _, ⟨rfl, hlanguage⟩, rfl, rfl, rfl⟩
    exact ⟨rfl, hcharset, hlanguage⟩
  · rintro ⟨rfl, hcharset, hlanguage⟩
    exact ⟨charset, _, ⟨rfl, hcharset⟩, language, encoded, ⟨rfl, hlanguage⟩, rfl, rfl, rfl⟩

/-- The value is a charset, a language and a spelling of the text in that charset. -/
def IsExtended (raw text : String) : Prop :=
  ∃ (charset language encoded : List Char) (known : Charset),
    raw.toList = charset ++ apostrophe :: (language ++ apostrophe :: encoded) ∧
    apostrophe ∉ charset ∧ apostrophe ∉ language ∧
    Text.lower charset = known.name.toList ∧ known.Holds text ∧ Spells encoded (Utf8.encode text)

theorem decodeExtended_eq_ok_iff {raw text : String} :
    decodeExtended raw = .ok text ↔ IsExtended raw text := by
  unfold decodeExtended IsExtended
  constructor
  · intro h
    split at h
    · cases h
    · rename_i charset language encoded hsplit
      obtain ⟨hraw, hcharset, hlanguage⟩ := split?_eq_some_iff.1 hsplit
      split at h
      · cases h
      · rename_i known hknown
        rw [Charset.named?_eq_some_iff, String.toList_ofList] at hknown
        split at h
        · cases h
        · rename_i bytes hbytes
          rw [Charset.read_eq_ok_iff] at h
          obtain ⟨rfl, hholds⟩ := h
          exact ⟨charset, language, encoded, known, hraw, hcharset, hlanguage, hknown, hholds,
            unescape?_eq_some_iff.1 hbytes⟩
  · rintro ⟨charset, language, encoded, known, hraw, hcharset, hlanguage, hknown, hholds, hspells⟩
    have hnamed : Charset.named? (String.ofList charset) = some known := by
      rw [Charset.named?_eq_some_iff, String.toList_ofList, hknown]
    rw [split?_eq_some_iff.2 ⟨hraw, hcharset, hlanguage⟩]
    simp only [hnamed, unescape?_eq_some_iff.2 hspells]
    exact Charset.read_eq_ok_iff.2 ⟨rfl, hholds⟩

/-! ## Writing values -/

/-- The digit of a value below 16. -/
def hexDigit (upper : Bool) (value : Nat) : UInt8 :=
  if value < 10 then UInt8.ofNat (48 + value)
  else if upper then UInt8.ofNat (55 + value)
  else UInt8.ofNat (87 + value)

theorem hexDigit?_hexDigit (upper : Bool) {value : Nat} (h : value < 16) :
    hexDigit? (hexDigit upper value) = some value := by
  have hall : ∀ (upper : Bool) (value : Fin 16), hexDigit? (hexDigit upper value) = some value.val := by
    decide
  exact hall upper ⟨value, h⟩

/-- A byte and how it stands in a value: as it is, unless it is a percent sign, or escaped, each digit
in the case chosen. -/
inductive Written where
  | literal (byte : UInt8) (notPercent : byte ≠ 37)
  | escaped (byte : UInt8) (upperHigh upperLow : Bool)

namespace Written

def byte : Written → UInt8
  | literal byte _ => byte
  | escaped byte _ _ => byte

def bytes : Written → Bytes
  | literal byte _ => [byte]
  | escaped byte upperHigh upperLow =>
    [37, hexDigit upperHigh (byte.toNat / 16), hexDigit upperLow (byte.toNat % 16)]

end Written

/-- Whatever bytes are escaped, they read as they were. -/
theorem unescape?_written (written : List Written) :
    unescape? (written.flatMap Written.bytes) = some (written.map Written.byte) := by
  induction written with
  | nil => rfl
  | cons w written ih =>
    rw [List.flatMap_cons, List.map_cons]
    cases w with
    | literal b hb =>
      rw [Written.bytes, List.singleton_append, unescape?_cons hb, ih]
      rfl
    | escaped b upperHigh upperLow =>
      have hb := b.toNat_lt
      have hbyte : UInt8.ofNat (b.toNat / 16 * 16 + b.toNat % 16) = b := by
        rw [Nat.div_add_mod', UInt8.ofNat_toNat]
      exact unescape?_percent.2 ⟨_, _, _, b.toNat / 16, b.toNat % 16, _, rfl,
        hexDigit?_hexDigit upperHigh (by omega), hexDigit?_hexDigit upperLow (by omega), ih,
        by rw [hbyte, Written.byte]⟩

/-- A charset in any case, a language, and the bytes of a text as they were written make a value of the
text. -/
theorem isExtended_of_written {raw text encoded : String} {charset language : List Char} {known : Charset}
    {written : List Written}
    (hraw : raw.toList = charset ++ apostrophe :: (language ++ apostrophe :: encoded.toList))
    (hcharset : Text.lower charset = known.name.toList) (hlanguage : apostrophe ∉ language)
    (hholds : known.Holds text) (htext : written.map Written.byte = Utf8.encode text)
    (hencoded : Utf8.encode encoded = written.flatMap Written.bytes) : IsExtended raw text := by
  have hnone : apostrophe ∉ charset := by
    intro hmem
    have hlower : apostrophe.toLower ∈ known.name.toList := hcharset ▸ List.mem_map_of_mem hmem
    revert hlower
    cases known <;> decide
  refine ⟨charset, language, encoded.toList, known, hraw, hnone, hlanguage, hcharset, hholds, ?_⟩
  rw [← unescape?_eq_some_iff, String.ofList_toList, hencoded, unescape?_written, htext]

/-- Exactly the extended values are read, each as its text; in all other cases reading fails for the
encoding. A value that was written is read as the text it was written from, whatever bytes of it were
escaped, and with apostrophes in it, too. -/
theorem extended_values_exact (raw : String) :
    (∀ text, decodeExtended raw = .ok text ↔ IsExtended raw text) ∧
    ((¬∃ text, IsExtended raw text) → ∃ fault, decodeExtended raw = .error fault ∧
      ({} : Decoder).decode ⟨raw, true⟩ = .error (.encoding fault)) ∧
    ∀ (known : Charset) (charset language : List Char) (encoded text : String) (written : List Written),
      raw.toList = charset ++ apostrophe :: (language ++ apostrophe :: encoded.toList) →
      Text.lower charset = known.name.toList → apostrophe ∉ language → known.Holds text →
      written.map Written.byte = Utf8.encode text →
      Utf8.encode encoded = written.flatMap Written.bytes → decodeExtended raw = .ok text := by
  refine ⟨fun text => decodeExtended_eq_ok_iff, fun hnone => ?_, ?_⟩
  · cases hread : decodeExtended raw with
    | error fault => exact ⟨fault, rfl, by simp only [Decoder.decode, if_true, hread]⟩
    | ok text => exact absurd ⟨text, decodeExtended_eq_ok_iff.1 hread⟩ hnone
  · intro known charset language encoded text written hraw hcharset hlanguage hholds htext hencoded
    exact decodeExtended_eq_ok_iff.2
      (isExtended_of_written hraw hcharset hlanguage hholds htext hencoded)

/-- A value of which some bytes are escaped, in digits of either case, and one of which an escape is cut
short. -/
theorem extended_values_exact_mixed :
    decodeExtended (String.ofList ("Utf-8".toList ++ apostrophe :: ("fr".toList ++ apostrophe ::
      "n%61%C3%aFvé%25".toList ++ [apostrophe]))) = .ok (String.ofList ("naïvé%".toList ++ [apostrophe])) ∧
    ∃ fault, ({} : Decoder).decode ⟨String.ofList ("utf-8".toList ++ apostrophe :: apostrophe ::
      "na%C3%a".toList), true⟩ = .error (.encoding fault) := by
  constructor
  · obtain ⟨-, -, hwritten⟩ := extended_values_exact (String.ofList ("Utf-8".toList ++ apostrophe ::
      ("fr".toList ++ apostrophe :: "n%61%C3%aFvé%25".toList ++ [apostrophe])))
    exact hwritten .utf8 "Utf-8".toList "fr".toList
      (String.ofList ("n%61%C3%aFvé%25".toList ++ [apostrophe])) _
      [.literal 110 (by decide), .escaped 97 true true, .escaped 195 true true,
        .escaped 175 false true, .literal 118 (by decide), .literal 195 (by decide),
        .literal 169 (by decide), .escaped 37 true true, .literal 39 (by decide)]
      (by decide) (by decide) (by decide) trivial (by decide +kernel) (by decide +kernel)
  · obtain ⟨hexact, hfails, -⟩ := extended_values_exact
      (String.ofList ("utf-8".toList ++ apostrophe :: apostrophe :: "na%C3%a".toList))
    have hnone : ¬∃ text, IsExtended (String.ofList ("utf-8".toList ++ apostrophe :: apostrophe ::
        "na%C3%a".toList)) text := by
      rintro ⟨text, htext⟩
      have hbad : (decodeExtended (String.ofList ("utf-8".toList ++ apostrophe :: apostrophe ::
          "na%C3%a".toList))).toOption = none := by decide +kernel
      rw [(hexact text).2 htext] at hbad
      cases hbad
    obtain ⟨fault, -, hfault⟩ := hfails hnone
    exact ⟨fault, hfault⟩

end FormData.FileName
