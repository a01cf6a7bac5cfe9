/-
Header blocks whose values run over several lines. A line that starts with a space or a tab goes on
with the value of the header before it, and lines without a colon may stand in front of any header.
However such a block is laid out, it reads back as the headers in it, the fragments of each value
joined by one space (`ofBlock_layout`).
-/
import FormData.Proofs.Header.Lines

namespace FormData.Headers

/-! ## Layouts -/

inductive LineEnd where
  | crlf
  | lf
  deriving DecidableEq, Repr

def LineEnd.text : LineEnd → List Char
  | .crlf => ['\r', '\n']
  | .lf => ['\n']

structure Line where
  text : List Char
  ending : LineEnd
  noBreak : '\n' ∉ text

def Line.render (l : Line) : List Char :=
  l.text ++ l.ending.text

/-- A line that says nothing. -/
structure IdleLine extends Line where
  noColon : ':' ∉ text
  noIndent : ∀ c ∈ text.head?, ¬ IsIndent c

/-- One more line of a value. -/
structure Continuation where
  indent : List Char
  indented : indent ≠ []
  indents : ∀ c ∈ indent, IsIndent c
  fragment : String
  tidy : Text.IsTidy fragment.toList
  ending : LineEnd

/-- A header as it is laid out on lines. -/
structure Layout where
  /-- The lines in front of it. -/
  idle : List IdleLine
  name : String
  named : name ≠ ""
  tidyName : Text.IsTidy name.toList
  noColon : ':' ∉ name.toList
  /-- What stands between the colon and the value. -/
  gap : List Char
  gaps : ∀ c ∈ gap, IsIndent c
  /-- What the line of the name has of the value. -/
  fragment : String
  tidy : Text.IsTidy fragment.toList
  ending : LineEnd
  more : List Continuation

theorem IsIndent.ne_break {c : Char} (h : IsIndent c) : c ≠ '\r' ∧ c ≠ '\n' := by
  rcases h with rfl | rfl <;> decide

def Continuation.line (c : Continuation) : Line where
  text := c.indent ++ c.fragment.toList
  ending := c.ending
  noBreak := by
    rw [List.mem_append, not_or]
    exact ⟨fun hn => (c.indents _ hn).ne_break.2 rfl, c.tidy.noBreak⟩

namespace Layout

def headLine (l : Layout) : Line where
  text := l.name.toList ++ ':' :: (l.gap ++ l.fragment.toList)
  ending := l.ending
  noBreak := by
    simp only [List.mem_append, List.mem_cons, not_or]
    exact ⟨l.tidyName.noBreak, by decide, fun hn => (l.gaps _ hn).ne_break.2 rfl, l.tidy.noBreak⟩

def lines (l : Layout) : List Line :=
  l.idle.map (·.toLine) ++ l.headLine :: l.more.map Continuation.line

def value (l : Layout) : String :=
  " ".intercalate (l.fragment :: l.more.map (·.fragment))

end Layout

/-- The block of some lines. -/
def block (lines : List Line) : Bytes :=
  Utf8.encode (String.ofList (lines.flatMap Line.render))

/-! ## Reading lines back -/

/-- A line as it is read. One that ends in a bare line feed may have a carriage return of its own. -/
def Line.read (l : Line) : List Char :=
  match l.ending with
  | .crlf => l.text
  | .lf => chopReturn l.text

theorem chopReturn_of_notMem {line : List Char} (h : '\r' ∉ line) : chopReturn line = line := by
  unfold chopReturn
  rw [if_neg fun hlast => h (List.mem_of_getLast? hlast)]

theorem chopReturn_front (line : List Char) : chopReturn line <+: line := by
  unfold chopReturn
  split
  · exact List.dropLast_prefix line
  · exact List.prefix_rfl

theorem Line.read_of_notMem {l : Line} (h : '\r' ∉ l.text) : l.read = l.text := by
  unfold read
  split
  · rfl
  · exact chopReturn_of_notMem h

theorem Line.read_front (l : Line) : l.read <+: l.text := by
  unfold read
  split
  · exact List.prefix_rfl
  · exact chopReturn_front l.text

theorem Line.pieces_render (l : Line) (rest : List Char) :
    (Text.pieces '\n' (l.render ++ rest)).map chopReturn =
      l.read :: (Text.pieces '\n' rest).map chopReturn := by
  unfold render read
  cases l.ending with
  | crlf =>
    have hbreak : '\n' ∉ l.text ++ ['\r'] := by
      rw [List.mem_append, not_or]
      exact ⟨l.noBreak, by decide⟩
    rw [show l.text ++ LineEnd.crlf.text ++ rest = (l.text ++ ['\r']) ++ '\n' :: rest by
        simp [LineEnd.text],
      Text.pieces_append hbreak, List.map_cons, chopReturn_append]
  | lf =>
    rw [LineEnd.text, List.append_assoc, List.singleton_append, Text.pieces_append l.noBreak,
      List.map_cons]

/-- What is laid out on lines is read line by line, and an empty line behind the last break. -/
theorem lines_flatMap_render (lines : List Line) :
    (Text.pieces '\n' (lines.flatMap Line.render)).map chopReturn = lines.map Line.read ++ [[]] := by
  induction lines with
  | nil => rfl
  | cons l lines ih => rw [List.flatMap_cons, Line.pieces_render, ih, List.map_cons, List.cons_append]

/-- A value grows by a space and the next fragment. -/
theorem intercalate_fold (value fragment : List Char) (more : List (List Char)) :
    [' '].intercalate ((value ++ ' ' :: fragment) :: more) =
      [' '].intercalate (value :: fragment :: more) := by
  cases more <;> simp

namespace Reading

theorem header?_of_notMem {line : List Char} (h : ':' ∉ line) : header? line = none := by
  rw [header?, Text.cut?_of_notMem h]

/-- A line that says nothing ends the header before it at most. -/
theorem close_line_idle (l : IdleLine) (r : Reading) : (r.line l.read).close = r.close := by
  have hnone : header? l.read = none :=
    header?_of_notMem fun hc => l.noColon (l.read_front.subset hc)
  obtain ⟨rest, htext⟩ := l.read_front
  have hindent := l.noIndent
  rw [← htext] at hindent
  unfold Reading.line
  cases hread : l.read with
  | nil => rfl
  | cons c cs =>
    rw [hread] at hindent hnone
    have hc : ¬ (c = ' ' ∨ c = '\t') := hindent c rfl
    simp only [if_neg hc, hnone]
    rfl

theorem close_foldl_idle (idle : List IdleLine) (r : Reading) :
    ((idle.map fun l => l.read).foldl Reading.line r).close = r.close := by
  induction idle generalizing r with
  | nil => rfl
  | cons l idle ih => rw [List.map_cons, List.foldl_cons, ih, close_line_idle]

theorem line_continuation (c : Continuation) (r : Reading) :
    r.line c.line.read = { r with current := r.current.map fun o =>
      { o with value := o.value ++ ' ' :: c.fragment.toList } } := by
  have hread : c.line.read = c.indent ++ c.fragment.toList := by
    apply Line.read_of_notMem
    show '\r' ∉ c.indent ++ c.fragment.toList
    rw [List.mem_append, not_or]
    exact ⟨fun hr => (c.indents _ hr).ne_break.1 rfl, c.tidy.noReturn⟩
  have htrim : Text.trim (c.indent ++ c.fragment.toList) = c.fragment.toList :=
    c.tidy.trim_append fun b hb => (c.indents b hb).isBlank
  obtain ⟨b, bs, hindent⟩ := List.exists_cons_of_ne_nil c.indented
  have hb : b = ' ' ∨ b = '\t' := c.indents b (by rw [hindent]; exact List.mem_cons_self)
  rw [hread]
  rw [hindent] at htrim ⊢
  unfold Reading.line
  simp only [List.cons_append, if_pos hb]
  unfold Reading.fold
  rw [← List.cons_append, htrim]

theorem foldl_continuations (more : List Continuation) (done : Headers) (name value : List Char) :
    (more.map fun c => c.line.read).foldl Reading.line ⟨done, some ⟨name, value⟩⟩ =
      ⟨done, some ⟨name, [' '].intercalate (value :: more.map (·.fragment.toList))⟩⟩ := by
  induction more generalizing value with
  | nil => simp
  | cons c more ih =>
    rw [List.map_cons, List.foldl_cons, line_continuation, Option.map_some, ih, List.map_cons,
      intercalate_fold]

/-- A header is there once its lines are read, whatever was read before. -/
theorem close_foldl_layout (l : Layout) (r : Reading) :
    ((l.lines.map Line.read).foldl Reading.line r).close = r.close.add l.name l.value := by
  have hhead : l.headLine.read = l.name.toList ++ ':' :: (l.gap ++ l.fragment.toList) := by
    apply Line.read_of_notMem
    show '\r' ∉ l.name.toList ++ ':' :: (l.gap ++ l.fragment.toList)
    simp only [List.mem_append, List.mem_cons, not_or]
    exact ⟨l.tidyName.noReturn, by decide, fun hr => (l.gaps _ hr).ne_break.1 rfl, l.tidy.noReturn⟩
  have hnamed : l.name.toList ≠ [] := fun h0 => l.named (String.toList_eq_nil_iff.1 h0)
  have hvalue : l.value = String.ofList
      ([' '].intercalate (l.fragment.toList :: l.more.map (·.fragment.toList))) := by
    apply String.toList_injective
    rw [String.toList_ofList, Layout.value, String.toList_intercalate, List.map_cons, List.map_map]
    rfl
  unfold Layout.lines
  rw [List.map_append, List.foldl_append, List.map_map, List.map_cons, List.foldl_cons, hhead,
    line_header l.tidyName hnamed l.noColon l.gaps l.tidy, List.map_map]
  show ((l.more.map fun c => c.line.read).foldl Reading.line
    ⟨((l.idle.map fun i => i.read).foldl Reading.line r).close, _⟩).close = _
  rw [foldl_continuations, close_foldl_idle, hvalue]
  simp only [Reading.close, String.ofList_toList]

theorem close_foldl_layouts (layouts : List Layout) (r : Reading) :
    (((layouts.flatMap Layout.lines).map Line.read).foldl Reading.line r).close =
      (layouts.map fun l => (l.name, l.value)).foldl (fun h pair => h.add pair.1 pair.2) r.close := by
  induction layouts generalizing r with
  | nil => rfl
  | cons l layouts ih =>
    rw [List.flatMap_cons, List.map_append, List.foldl_append, ih, close_foldl_layout, List.map_cons,
      List.foldl_cons]

end Reading

/-- However headers are laid out on lines, they read back in their order, each with the fragments of
its value joined by one space. -/
theorem ofBlock_layout (layouts : List Layout) (idle : List IdleLine) :
    ofBlock (block (layouts.flatMap Layout.lines ++ idle.map (·.toLine))) =
      ofList (layouts.map fun l => (l.name, l.value)) := by
  have hend : ∀ r : Reading, r.line [] = r := fun _ => rfl
  have hidle : (idle.map (·.toLine)).map Line.read = idle.map fun l => l.read := List.map_map
  unfold ofBlock blockText block ofText
  rw [Utf8.decode?_encode, Option.getD_some, String.toList_ofList, lines_flatMap_render,
    List.foldl_append, List.foldl_cons, hend, List.foldl_nil, List.map_append, List.foldl_append,
    hidle, Reading.close_foldl_idle, Reading.close_foldl_layouts]
  rfl

example : ofBlock (Utf8.encode "note\r\nA:\t x\n \r\n\t y\r\nb:\n\na: z\r\n") =
    ofList [("A", "x  y"), ("b", ""), ("a", "z")] := by decide +kernel

end FormData.Headers
