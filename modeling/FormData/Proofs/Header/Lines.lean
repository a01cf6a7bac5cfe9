/-
Header blocks as they are written: a line `name: value` for each header and a blank line. What is
written reads back as the headers it was written from (`ofBlock_render`), and read off the front of a
body it ends at its blank line, whatever comes behind it (`blockOf_render`).
-/
import FormData.Header.Block
import FormData.Proofs.Body.Reading
import FormData.Proofs.Text.Utf8

namespace FormData

/-! ## Trimmed text -/

namespace Text

/-- A text on one line, without blanks at its ends. -/
structure IsTidy (cs : List Char) : Prop where
  noReturn : '\r' ∉ cs
  noBreak : '\n' ∉ cs
  first : ∀ c ∈ cs.head?, isBlank c = false
  last : ∀ c ∈ cs.getLast?, isBlank c = false

instance (cs : List Char) : Decidable (IsTidy cs) :=
  decidable_of_iff ('\r' ∉ cs ∧ '\n' ∉ cs ∧ cs.head?.all (!isBlank ·) ∧ cs.getLast?.all (!isBlank ·))
    ⟨fun ⟨h1, h2, h3, h4⟩ => ⟨h1, h2, by simpa [Option.all_eq_true] using h3,
        by simpa [Option.all_eq_true] using h4⟩,
      fun h => ⟨h.noReturn, h.noBreak, by simpa [Option.all_eq_true] using h.first,
        by simpa [Option.all_eq_true] using h.last⟩⟩

theorem dropWhile_isBlank {cs : List Char} (h : ∀ c ∈ cs.head?, isBlank c = false) :
    cs.dropWhile isBlank = cs := by
  cases cs with
  | nil => rfl
  | cons c cs =>
    have hc : isBlank c = false := h c rfl
    rw [List.dropWhile_cons, if_neg (by rw [hc]; exact Bool.false_ne_true)]

theorem trim_of_ends {cs : List Char} (hfirst : ∀ c ∈ cs.head?, isBlank c = false)
    (hlast : ∀ c ∈ cs.getLast?, isBlank c = false) : trim cs = cs := by
  unfold Text.trim trimEnd trimStart
  rw [dropWhile_isBlank hfirst, dropWhile_isBlank, List.reverse_reverse]
  rw [List.head?_reverse]
  exact hlast

theorem IsTidy.trim {cs : List Char} (h : IsTidy cs) : trim cs = cs :=
  trim_of_ends h.first h.last

theorem IsTidy.trim_append {blanks cs : List Char} (hblanks : ∀ c ∈ blanks, isBlank c = true)
    (h : IsTidy cs) : Text.trim (blanks ++ cs) = cs := by
  have hstart : trimStart (blanks ++ cs) = trimStart cs := List.dropWhile_append_of_pos hblanks
  rw [Text.trim, hstart]
  exact h.trim

theorem cut?_append {separator : Char} {before : List Char} (h : separator ∉ before)
    (after : List Char) : cut? separator (before ++ separator :: after) = some (before, after) := by
  induction before with
  | nil => rw [List.nil_append, cut?, if_pos rfl]
  | cons c cs ih =>
    rw [List.mem_cons, not_or] at h
    rw [List.cons_append, cut?, if_neg (Ne.symm h.1), ih h.2]
    rfl

theorem cut?_of_notMem {separator : Char} {cs : List Char} (h : separator ∉ cs) :
    cut? separator cs = none := by
  induction cs with
  | nil => rfl
  | cons c cs ih =>
    rw [List.mem_cons, not_or] at h
    rw [cut?, if_neg (Ne.symm h.1), ih h.2]
    rfl

/-- A text is cut at its first separator. -/
theorem cut?_eq_some_iff {separator : Char} {cs before after : List Char} :
    cut? separator cs = some (before, after) ↔ cs = before ++ separator :: after ∧ separator ∉ before := by
  constructor
  · intro h
    by_cases hmem : separator ∈ cs
    · obtain ⟨front, rest, rfl, hfront⟩ := List.eq_append_cons_of_mem hmem
      rw [cut?_append hfront] at h
      cases h
      exact ⟨rfl, hfront⟩
    · rw [cut?_of_notMem hmem] at h
      cases h
  · rintro ⟨rfl, h⟩
    exact cut?_append h after

theorem pieces_append {separator : Char} {line : List Char} (h : separator ∉ line)
    (rest : List Char) : pieces separator (line ++ separator :: rest) = line :: pieces separator rest := by
  induction line with
  | nil => rw [List.nil_append, pieces, if_pos rfl]
  | cons c cs ih =>
    rw [List.mem_cons, not_or] at h
    rw [List.cons_append, pieces, if_neg (Ne.symm h.1), ih h.2]

end Text

namespace Headers

/-! ## Writing -/

/-- The headers with these names and values, in this order. -/
def ofList (pairs : List (String × String)) : Headers :=
  pairs.foldl (fun h pair => h.add pair.1 pair.2) {}

def renderLine (pair : String × String) : String :=
  pair.1 ++ ": " ++ pair.2

/-- A line for each header, and a blank line. -/
def render : List (String × String) → String
  | [] => "\r\n"
  | pair :: pairs => renderLine pair ++ "\r\n" ++ render pairs

/-- A header that can be written on one line. -/
structure IsSendable (pair : String × String) : Prop where
  name : Text.IsTidy pair.1.toList
  value : Text.IsTidy pair.2.toList
  named : pair.1 ≠ ""
  noColon : ':' ∉ pair.1.toList

instance (pair : String × String) : Decidable (IsSendable pair) :=
  decidable_of_iff (Text.IsTidy pair.1.toList ∧ Text.IsTidy pair.2.toList ∧ pair.1 ≠ "" ∧
      ':' ∉ pair.1.toList)
    ⟨fun ⟨h1, h2, h3, h4⟩ => ⟨h1, h2, h3, h4⟩, fun h => ⟨h.name, h.value, h.named, h.noColon⟩⟩

theorem IsSendable.notMem_renderLine {pair : String × String} (h : IsSendable pair) :
    '\r' ∉ (renderLine pair).toList ∧ '\n' ∉ (renderLine pair).toList := by
  have hcolon : (": " : String).toList = [':', ' '] := rfl
  unfold renderLine
  simp only [String.toList_append, hcolon, List.mem_append, List.mem_cons, List.not_mem_nil, or_false,
    not_or]
  exact ⟨⟨⟨h.name.noReturn, by decide, by decide⟩, h.value.noReturn⟩,
    ⟨⟨h.name.noBreak, by decide, by decide⟩, h.value.noBreak⟩⟩

/-! ## Reading lines back -/

theorem chopReturn_append (line : List Char) : chopReturn (line ++ ['\r']) = line := by
  unfold chopReturn
  rw [List.getLast?_append, List.dropLast_concat]
  rfl

/-- The lines of what is written, and two empty ones behind them. -/
theorem lines_render {pairs : List (String × String)} (h : ∀ pair ∈ pairs, IsSendable pair) :
    (Text.pieces '\n' (render pairs).toList).map chopReturn =
      pairs.map (fun pair => (renderLine pair).toList) ++ [[], []] := by
  induction pairs with
  | nil => rfl
  | cons pair pairs ih =>
    have hline := (h pair (List.mem_cons_self ..)).notMem_renderLine
    have hbreak : '\n' ∉ (renderLine pair).toList ++ ['\r'] := by
      rw [List.mem_append, not_or]
      exact ⟨hline.2, by decide⟩
    have htext : (render (pair :: pairs)).toList =
        ((renderLine pair).toList ++ ['\r']) ++ '\n' :: (render pairs).toList := by
      rw [render, String.toList_append, String.toList_append, List.append_assoc, List.append_assoc]
      rfl
    rw [htext, Text.pieces_append hbreak, List.map_cons, chopReturn_append,
      ih fun pair hp => h pair (List.mem_cons_of_mem _ hp)]
    rfl

/-- What a line starts with that goes on with the header before it. -/
def IsIndent (c : Char) : Prop :=
  c = ' ' ∨ c = '\t'

instance (c : Char) : Decidable (IsIndent c) :=
  inferInstanceAs (Decidable (_ ∨ _))

theorem IsIndent.isBlank {c : Char} (h : IsIndent c) : Text.isBlank c = true := by
  rcases h with rfl | rfl <;> rfl

/-- A line starts a header where the last one ends. -/
theorem Reading.line_header {name gap value : List Char} (hname : Text.IsTidy name) (hnamed : name ≠ [])
    (hcolon : ':' ∉ name) (hgap : ∀ c ∈ gap, IsIndent c) (hvalue : Text.IsTidy value) (r : Reading) :
    r.line (name ++ ':' :: (gap ++ value)) = ⟨r.close, some ⟨name, value⟩⟩ := by
  have hheader : header? (name ++ ':' :: (gap ++ value)) = some ⟨name, value⟩ := by
    unfold header?
    rw [Text.cut?_append hcolon]
    simp only [hname.trim, hvalue.trim_append fun c hc => (hgap c hc).isBlank]
    rw [if_neg (by simpa using hnamed)]
  obtain ⟨c, cs, rfl⟩ := List.exists_cons_of_ne_nil hnamed
  -- a line that began with a blank would go on with the header before it
  have hfold : ¬ (c = ' ' ∨ c = '\t') := by
    intro (hindent : IsIndent c)
    have hblank : Text.isBlank c = false := hname.first c rfl
    rw [hindent.isBlank] at hblank
    cases hblank
  rw [← hheader]
  unfold Reading.line
  simp only [List.cons_append, if_neg hfold]

theorem Reading.line_renderLine {pair : String × String} (h : IsSendable pair) (r : Reading) :
    r.line (renderLine pair).toList = ⟨r.close, some ⟨pair.1.toList, pair.2.toList⟩⟩ := by
  have htext : (renderLine pair).toList = pair.1.toList ++ ':' :: ([' '] ++ pair.2.toList) := by
    rw [renderLine, String.toList_append, String.toList_append, List.append_assoc]
    rfl
  have hnamed : pair.1.toList ≠ [] := fun h0 => h.named (String.toList_eq_nil_iff.1 h0)
  rw [htext]
  exact line_header h.name hnamed h.noColon (by simp [IsIndent]) h.value r

theorem close_foldl_line {pairs : List (String × String)} (h : ∀ pair ∈ pairs, IsSendable pair)
    (r : Reading) :
    ((pairs.map fun pair => (renderLine pair).toList).foldl Reading.line r).close =
      pairs.foldl (fun h pair => h.add pair.1 pair.2) r.close := by
  induction pairs generalizing r with
  | nil => rfl
  | cons pair pairs ih =>
    rw [List.map_cons, List.foldl_cons, List.foldl_cons,
      Reading.line_renderLine (h pair (List.mem_cons_self ..)),
      ih fun pair hp => h pair (List.mem_cons_of_mem _ hp)]
    simp only [Reading.close, String.ofList_toList]

/-- What is written reads back. -/
theorem ofBlock_render {pairs : List (String × String)} (h : ∀ pair ∈ pairs, IsSendable pair) :
    ofBlock (Utf8.encode (render pairs)) = ofList pairs := by
  unfold ofBlock blockText ofText
  rw [Utf8.decode?_encode, Option.getD_some, lines_render h, List.foldl_append]
  exact close_foldl_line h {}

end Headers

/-! ## Finding the blank line -/

namespace Window

variable {limit count : Nat} {ending : Ending} {block rest line : Bytes}

theorem blockOf_cons (hne : ending ≠ .complete) (hcount : count < limit) (b : UInt8) :
    blockOf limit ending count block (b :: rest) =
      blockOf limit (ending.next b) (count + 1) (b :: block) rest := by
  rw [blockOf, if_neg hne, if_neg (Nat.not_le.2 hcount)]

/-- Between the line breaks nothing is half read. -/
theorem next_of_ne {b : UInt8} (hne : ending ≠ .complete) (hcr : b ≠ Bytes.cr)
    (hlf : b ≠ Bytes.lf) : ending.next b = .none := by
  cases ending with
  | complete => exact absurd rfl hne
  | none => exact if_neg hcr
  | crlf => exact if_neg hcr
  | cr => exact (if_neg hlf).trans (if_neg hcr)
  | crlfcr => exact (if_neg hlf).trans (if_neg hcr)

theorem blockOf_within (hcr : Bytes.cr ∉ line) (hlf : Bytes.lf ∉ line)
    (hlimit : count + line.length ≤ limit) :
    blockOf limit .none count block (line ++ rest) =
      blockOf limit .none (count + line.length) (line.reverse ++ block) rest := by
  induction line generalizing count block with
  | nil => rfl
  | cons b line ih =>
    rw [List.mem_cons, not_or] at hcr hlf
    rw [List.length_cons] at hlimit
    have hnone : Ending.none ≠ .complete := nofun
    have hcount : count < limit := by omega
    have hrest : count + 1 + line.length ≤ limit := by omega
    rw [List.cons_append, blockOf_cons hnone hcount,
      next_of_ne hnone (Ne.symm hcr.1) (Ne.symm hlf.1), ih hcr.2 hlf.2 hrest, List.length_cons,
      List.reverse_cons, List.append_assoc, List.singleton_append, Nat.add_assoc, Nat.add_comm 1]

/-- A line that says something goes by as a whole, with its line break. -/
theorem blockOf_line (hne : line ≠ []) (hcr : Bytes.cr ∉ line) (hlf : Bytes.lf ∉ line)
    (hlimit : count + line.length + 2 ≤ limit) :
    blockOf limit .crlf count block (line ++ Bytes.cr :: Bytes.lf :: rest) =
      blockOf limit .crlf (count + line.length + 2)
        (Bytes.lf :: Bytes.cr :: (line.reverse ++ block)) rest := by
  obtain ⟨b, line, rfl⟩ := List.exists_cons_of_ne_nil hne
  rw [List.mem_cons, not_or] at hcr hlf
  rw [List.length_cons] at hlimit ⊢
  have hcrlf : Ending.crlf ≠ .complete := nofun
  have hnone : Ending.none ≠ .complete := nofun
  have hcr' : Ending.cr ≠ .complete := nofun
  have hnext : Ending.none.next Bytes.cr = .cr := rfl
  have hstart : count < limit := by omega
  have hline : count + 1 + line.length ≤ limit := by omega
  have hreturn : count + 1 + line.length < limit := by omega
  have hbreak : count + 1 + line.length + 1 < limit := by omega
  have hend : count + 1 + line.length + 1 + 1 = count + (line.length + 1) + 2 := by omega
  rw [List.cons_append, blockOf_cons hcrlf hstart, next_of_ne hcrlf (Ne.symm hcr.1) (Ne.symm hlf.1),
    blockOf_within hcr.2 hlf.2 hline, blockOf_cons hnone hreturn, hnext, blockOf_cons hcr' hbreak,
    hend, List.reverse_cons, List.append_assoc, List.singleton_append]
  rfl

end Window

namespace Headers

theorem encode_renderLine_ne_nil (pair : String × String) : Utf8.encode (renderLine pair) ≠ [] := by
  have hcolon : Utf8.encode ": " = [58, 32] := by decide +kernel
  rw [renderLine, Utf8.encode_append, Utf8.encode_append, hcolon]
  intro h
  obtain ⟨h, -⟩ := List.append_eq_nil_iff.1 h
  exact absurd (List.append_eq_nil_iff.1 h).2 nofun

theorem encode_render_cons (pair : String × String) (pairs : List (String × String)) :
    Utf8.encode (render (pair :: pairs)) =
      Utf8.encode (renderLine pair) ++ Bytes.cr :: Bytes.lf :: Utf8.encode (render pairs) := by
  have hbreak : Utf8.encode "\r\n" = [Bytes.cr, Bytes.lf] := by decide +kernel
  rw [render, Utf8.encode_append, Utf8.encode_append, hbreak, List.append_assoc]
  rfl

/-- At the front of a body, what is written is one block, and what comes behind it is left. -/
theorem blockOf_render_from {pairs : List (String × String)} (h : ∀ pair ∈ pairs, IsSendable pair)
    {limit count : Nat} (hlimit : count + (Utf8.encode (render pairs)).length ≤ limit)
    (block rest : Bytes) :
    Window.blockOf limit .crlf count block (Utf8.encode (render pairs) ++ rest) =
      .ok (block.reverse ++ Utf8.encode (render pairs), rest) := by
  induction pairs generalizing count block with
  | nil =>
    have hblank : Utf8.encode (render []) = [Bytes.cr, Bytes.lf] := by decide +kernel
    rw [hblank] at hlimit ⊢
    simp only [List.length_cons, List.length_nil] at hlimit
    have hcrlf : Window.Ending.crlf ≠ .complete := nofun
    have hcrlfcr : Window.Ending.crlfcr ≠ .complete := nofun
    have hreturn : count < limit := by omega
    have hbreak : count + 1 < limit := by omega
    rw [List.cons_append, Window.blockOf_cons hcrlf hreturn, List.cons_append,
      show Window.Ending.crlf.next Bytes.cr = .crlfcr from rfl, Window.blockOf_cons hcrlfcr hbreak,
      List.nil_append]
    show Window.blockOf limit .complete (count + 1 + 1) (Bytes.lf :: Bytes.cr :: block) rest = _
    cases rest <;> simp [Window.blockOf]
  | cons pair pairs ih =>
    have hpair := h pair (List.mem_cons_self ..)
    rw [encode_render_cons] at hlimit ⊢
    simp only [List.length_append, List.length_cons] at hlimit
    rw [List.append_assoc, List.cons_append, List.cons_append,
      Window.blockOf_line (encode_renderLine_ne_nil pair) (Utf8.cr_notMem_encode hpair.notMem_renderLine.1)
        (Utf8.lf_notMem_encode hpair.notMem_renderLine.2) (by omega),
      ih (fun pair hp => h pair (List.mem_cons_of_mem _ hp)) (by omega)]
    simp

theorem blockOf_render {pairs : List (String × String)} (h : ∀ pair ∈ pairs, IsSendable pair)
    {limit : Nat} (hlimit : (Utf8.encode (render pairs)).length ≤ limit) (rest : Bytes) :
    Window.blockOf limit .crlf 0 [] (Utf8.encode (render pairs) ++ rest) =
      .ok (Utf8.encode (render pairs), rest) := by
  rw [blockOf_render_from h (by omega)]
  rfl

end Headers

end FormData
