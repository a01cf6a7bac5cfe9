/-
Reading arguments after a boundary was given. Reading them one after the other forgets nothing that was
seen, leaves a value for what was seen, and does the same after a boundary as without it, unless another
one is met (`Reading.Regular`). So where neither a boundary nor a content type is among the arguments, a
boundary that was given before them is all that changes (`Reading.parseRest_after`).
-/
import FormData.CommandLine.Grammar

namespace FormData.Arguments

namespace Reading

/-- A boundary and a content type that were seen have a value, and where fields wait there is one. -/
structure Told (r : Reading) : Prop where
  boundary : .slot .boundary ∈ r.seen → r.parsed.boundary ≠ none
  contentType : .slot .contentType ∈ r.seen → r.parsed.contentType ≠ none
  fields : r.waiting ≠ some (.fields, [])

/-- The same, had this boundary been given on the way, with these options seen. -/
def after (boundary : String) (seen : List Name) (r : Reading) : Reading :=
  { r with parsed := { r.parsed with boundary := some boundary }, seen }

/-- These are the options that were seen, and the boundary. -/
def Adds (r : Reading) (seen : List Name) : Prop :=
  ∀ name, name ∈ seen ↔ name = .slot .boundary ∨ name ∈ r.seen

/-- A step forgets nothing that was seen, leaves a value for it, and does the same after a boundary, if it
takes none itself. -/
structure Regular (f : Reading → Except Usage Reading) : Prop where
  seen {r r' : Reading} : f r = .ok r' → r.seen ⊆ r'.seen
  told {r r' : Reading} : f r = .ok r' → r.Told → r'.Told
  after {r r' : Reading} {seen : List Name} (boundary : String) : f r = .ok r' → .slot .boundary ∉ r'.seen →
    r.Adds seen → ∃ seen', r'.Adds seen' ∧ f (r.after boundary seen) = .ok (r'.after boundary seen')

variable {r r' : Reading} {f g : Reading → Except Usage Reading}

theorem bind_eq_ok_iff {α β : Type} {x : Except Usage α} {k : α → Except Usage β} {b : β} :
    x >>= k = .ok b ↔ ∃ a, x = .ok a ∧ k a = .ok b := by
  rcases x with e | a
  · constructor
    · nofun
    · rintro ⟨a, h, -⟩
      cases h
  · constructor
    · exact fun h => ⟨a, rfl, h⟩
    · rintro ⟨_, ⟨⟩, h⟩
      exact h

/-! ## Steps made of steps -/

/-- One step after the other. -/
theorem Regular.bind (hf : Regular f) (hg : Regular g) : Regular fun r => f r >>= g := by
  refine ⟨fun h => ?_, fun h htold => ?_, fun boundary h hnone hadds => ?_⟩ <;>
    obtain ⟨r₁, h1, h2⟩ := bind_eq_ok_iff.1 h
  · exact List.Subset.trans (hf.seen h1) (hg.seen h2)
  · exact hg.told h2 (hf.told h1 htold)
  · have hnone₁ : .slot .boundary ∉ r₁.seen := fun hmem => hnone (hg.seen h2 hmem)
    obtain ⟨seen₁, hadds₁, h1'⟩ := hf.after boundary h1 hnone₁ hadds
    obtain ⟨seen₂, hadds₂, h2'⟩ := hg.after boundary h2 hnone hadds₁
    exact ⟨seen₂, hadds₂, bind_eq_ok_iff.2 ⟨_, h1', h2'⟩⟩

/-- A step that is one or another, as the reading stands apart from its arguments. -/
theorem Regular.of_locally
    (h : ∀ r, ∃ g, Regular g ∧ f r = g r ∧
      ∀ boundary seen, f (r.after boundary seen) = g (r.after boundary seen)) :
    Regular f := by
  refine ⟨fun {r _} hr => ?_, fun {r _} hr => ?_, fun {r _ seen} boundary hr => ?_⟩ <;>
    obtain ⟨g, hg, hsame, hafter⟩ := h r
  · exact hg.seen (hsame.symm.trans hr)
  · exact hg.told (hsame.symm.trans hr)
  · rw [hafter]
    exact hg.after boundary (hsame.symm.trans hr)

theorem regular_error (usage : Usage) : Regular fun _ => .error usage :=
  ⟨nofun, nofun, nofun⟩

/-- A change of the reading that takes no value and sees nothing. -/
theorem regular_change {change : Reading → Reading} (hseen : ∀ r, (change r).seen = r.seen)
    (hboundary : ∀ r, (change r).parsed.boundary = r.parsed.boundary)
    (htype : ∀ r, (change r).parsed.contentType = r.parsed.contentType)
    (hfields : ∀ r, r.waiting ≠ some (.fields, []) → (change r).waiting ≠ some (.fields, []))
    (hafter : ∀ r boundary seen, change (r.after boundary seen) = (change r).after boundary seen) :
    Regular fun r => .ok (change r) where
  seen {r r'} h := by
    cases h
    rw [hseen]
    exact List.Subset.refl _
  told {r r'} h htold := by
    cases h
    refine ⟨?_, ?_, hfields r htold.fields⟩
    · rw [hseen, hboundary]
      exact htold.boundary
    · rw [hseen, htype]
      exact htold.contentType
  after {r r' seen} boundary h _ hadds := by
    cases h
    refine ⟨seen, ?_, by rw [hafter]⟩
    unfold Adds
    rw [hseen]
    exact hadds

/-! ## Values -/

section

variable {a a' : Arguments} {slot : Slot} {value : String} {values : List String}

/-- A value of another option leaves boundary and content type as they are. -/
theorem setValue_ok (h : setValue a slot value = .ok a') :
    (a'.boundary = if slot = .boundary then some value else a.boundary) ∧
      a'.contentType = if slot = .contentType then some value else a.contentType := by
  cases slot <;> unfold setValue at h
  case file | fields | exclude | contentType | boundary =>
    cases h
    exact ⟨rfl, rfl⟩
  case extractDir | tempDir =>
    rcases hv : pathValue value with e | v <;> rw [hv] at h <;> cases h
    exact ⟨rfl, rfl⟩
  all_goals
    rcases hv : numberValue value with e | v <;> rw [hv] at h <;> cases h
    exact ⟨rfl, rfl⟩

theorem setValue_after (hslot : slot ≠ .boundary) (boundary : String) :
    setValue { a with boundary := some boundary } slot value =
      (setValue a slot value).map ({ · with boundary := some boundary }) := by
  cases slot <;> unfold setValue
  case boundary => exact absurd rfl hslot
  case file | fields | exclude | contentType => rfl
  case extractDir | tempDir => rcases pathValue value with e | v <;> rfl
  all_goals rcases numberValue value with e | v <;> rfl

/-- The values of one option, one after the other. -/
theorem setValues_ok (h : values.foldlM (fun a value => setValue a slot value) a = .ok a') :
    (a.boundary ≠ none → a'.boundary ≠ none) ∧ (a.contentType ≠ none → a'.contentType ≠ none) ∧
      (values ≠ [] → (slot = .boundary → a'.boundary ≠ none) ∧
        (slot = .contentType → a'.contentType ≠ none)) := by
  induction values generalizing a with
  | nil =>
    cases h
    exact ⟨id, id, fun h => absurd rfl h⟩
  | cons value values ih =>
    rw [List.foldlM_cons] at h
    rcases hv : setValue a slot value with e | a₁ <;> rw [hv] at h
    · cases h
    · obtain ⟨hboundary, htype⟩ := setValue_ok hv
      obtain ⟨h1, h2, -⟩ := ih h
      refine ⟨fun hne => h1 ?_, fun hne => h2 ?_, fun _ => ⟨?_, ?_⟩⟩
      · rw [hboundary]
        split
        · nofun
        · exact hne
      · rw [htype]
        split
        · nofun
        · exact hne
      · rintro rfl
        exact h1 (by rw [hboundary]; nofun)
      · rintro rfl
        exact h2 (by rw [htype]; nofun)

theorem setValues_after (hslot : slot ≠ .boundary) (boundary : String)
    (h : values.foldlM (fun a value => setValue a slot value) a = .ok a') :
    values.foldlM (fun a value => setValue a slot value) { a with boundary := some boundary } =
      .ok { a' with boundary := some boundary } := by
  induction values generalizing a with
  | nil =>
    cases h
    rfl
  | cons value values ih =>
    rw [List.foldlM_cons] at h ⊢
    rw [setValue_after hslot]
    rcases hv : setValue a slot value with e | a₁ <;> rw [hv] at h
    · cases h
    · exact ih h

end

/-! ## The steps of the grammar -/

theorem once_ok {name : Name} (h : r.once name = .ok r') :
    name ∉ r.seen ∧ r' = { r with seen := name :: r.seen } := by
  unfold once at h
  split at h
  · cases h
  · rename_i hfresh
    cases h
    exact ⟨by simpa using hfresh, rfl⟩

theorem once_after {name : Name} {seen : List Name} (hname : name ≠ .slot .boundary) (boundary : String)
    (h : r.once name = .ok r') (hadds : r.Adds seen) :
    r'.Adds (name :: seen) ∧ (r.after boundary seen).once name = .ok (r'.after boundary (name :: seen)) := by
  obtain ⟨hfresh, rfl⟩ := once_ok h
  have hfresh' : name ∉ seen := by
    rw [hadds]
    exact fun hmem => hmem.elim hname hfresh
  refine ⟨fun other => ?_, ?_⟩
  · rw [List.mem_cons, List.mem_cons, hadds, or_left_comm]
  · unfold once after
    rw [if_neg (by simpa using hfresh')]

theorem regular_once (s : Switch) : Regular (·.once (.switch s)) where
  seen h := by
    obtain ⟨-, rfl⟩ := once_ok h
    exact List.subset_cons_self _ _
  told h htold := by
    obtain ⟨-, rfl⟩ := once_ok h
    refine ⟨fun hmem => ?_, fun hmem => ?_, htold.fields⟩
    · exact htold.boundary ((List.mem_cons.1 hmem).resolve_left nofun)
    · exact htold.contentType ((List.mem_cons.1 hmem).resolve_left nofun)
  after boundary h _ hadds := ⟨_, once_after (by nofun) boundary h hadds⟩

/-- Notes an option that takes values, if it may not be given again. -/
def note (r : Reading) (slot : Slot) : Except Usage Reading :=
  if isRepeatable slot then .ok r else r.once (.slot slot)

theorem fillSlot_eq (r : Reading) (slot : Slot) (value : String) (values : List String) :
    r.fillSlot slot (value :: values) = (r.note slot).bind fun r =>
      ((value :: values).foldlM (fun a value => setValue a slot value) r.parsed).map
        fun parsed => { r with parsed } := by
  unfold fillSlot note
  by_cases hrepeat : isRepeatable slot = true
  · rw [if_pos hrepeat, if_pos hrepeat]
    rfl
  · rw [if_neg hrepeat, if_neg hrepeat]
    rfl

/-- What taking the values of an option comes to. -/
theorem fillSlot_ok {slot : Slot} {value : String} {values : List String}
    (h : r.fillSlot slot (value :: values) = .ok r') :
    ∃ r₁ parsed, r.note slot = .ok r₁ ∧
      (value :: values).foldlM (fun a value => setValue a slot value) r₁.parsed = .ok parsed ∧
      r' = { r₁ with parsed } := by
  rw [fillSlot_eq] at h
  rcases hnote : r.note slot with e | r₁ <;> rw [hnote] at h
  · cases h
  · rcases hvalues : (value :: values).foldlM (fun a value => setValue a slot value) r₁.parsed with
      e | parsed
    · simp only [Except.bind, hvalues, Except.map] at h
      cases h
    · simp only [Except.bind, hvalues, Except.map, Except.ok.injEq] at h
      exact ⟨r₁, parsed, rfl, hvalues, h.symm⟩

/-- An option is seen from where it is noted, or may be given again. -/
theorem note_ok {slot : Slot} (h : r.note slot = .ok r') :
    r' = { r with seen := r'.seen } ∧ r.seen ⊆ r'.seen ∧ r'.seen ⊆ .slot slot :: r.seen ∧
      (isRepeatable slot = false → .slot slot ∈ r'.seen) := by
  unfold note at h
  split at h
  · rename_i hrepeat
    cases h
    refine ⟨rfl, List.Subset.refl _, List.subset_cons_self _ _, fun hno => ?_⟩
    rw [hrepeat] at hno
    cases hno
  · obtain ⟨-, rfl⟩ := once_ok h
    exact ⟨rfl, List.subset_cons_self _ _, List.Subset.refl _, fun _ => List.mem_cons_self⟩

theorem note_after {slot : Slot} {seen : List Name} (hslot : slot ≠ .boundary) (boundary : String)
    (h : r.note slot = .ok r') (hadds : r.Adds seen) :
    ∃ seen', r'.Adds seen' ∧ (r.after boundary seen).note slot = .ok (r'.after boundary seen') := by
  unfold note at h ⊢
  split at h
  · rename_i hrepeat
    cases h
    exact ⟨seen, hadds, if_pos hrepeat⟩
  · rename_i hrepeat
    rw [if_neg hrepeat]
    exact ⟨_, once_after (fun hname => hslot (Name.slot.inj hname)) boundary h hadds⟩

theorem regular_fillSlot (slot : Slot) (values : List String) : Regular (·.fillSlot slot values) := by
  rcases values with _ | ⟨value, values⟩
  · exact regular_error _
  refine ⟨fun h => ?_, fun {r _} h htold => ?_, fun boundary h hnone hadds => ?_⟩ <;>
    obtain ⟨r₁, parsed, hnote, hvalues, rfl⟩ := fillSlot_ok h <;>
    obtain ⟨hstand, hseen, hnew, hnoted⟩ := note_ok hnote
  · exact hseen
  · -- what is seen now was seen before, or is the option that has its value now
    obtain ⟨hboundary, htype, hgiven⟩ := setValues_ok hvalues
    obtain ⟨hgivenBoundary, hgivenType⟩ := hgiven (List.cons_ne_nil _ _)
    rw [hstand] at hboundary htype
    refine ⟨fun hmem => ?_, fun hmem => ?_, ?_⟩
    · rcases List.mem_cons.1 (hnew hmem) with hslot | hmem
      · exact hgivenBoundary (Name.slot.inj hslot).symm
      · exact hboundary (htold.boundary hmem)
    · rcases List.mem_cons.1 (hnew hmem) with hslot | hmem
      · exact hgivenType (Name.slot.inj hslot).symm
      · exact htype (htold.contentType hmem)
    · rw [hstand]
      exact htold.fields
  · -- the boundary may not be given again, so it would be among those seen
    have hslot : slot ≠ .boundary := by
      rintro rfl
      exact hnone (hnoted rfl)
    obtain ⟨seen', hadds', hnote'⟩ := note_after hslot boundary hnote hadds
    have hvalues' := setValues_after hslot boundary hvalues
    refine ⟨seen', hadds', ?_⟩
    rw [fillSlot_eq, hnote']
    simp only [Except.bind]
    have hparsed : (r₁.after boundary seen').parsed = { r₁.parsed with boundary := some boundary } := rfl
    rw [hparsed, hvalues']
    rfl

/-- A change of where the reading stands alone. -/
theorem regular_stand {change : Reading → Reading} (hparsed : ∀ r, (change r).parsed = r.parsed)
    (hseen : ∀ r, (change r).seen = r.seen)
    (hfields : ∀ r, r.waiting ≠ some (.fields, []) → (change r).waiting ≠ some (.fields, []))
    (hafter : ∀ r boundary seen, change (r.after boundary seen) = (change r).after boundary seen) :
    Regular fun r => .ok (change r) :=
  regular_change hseen (fun r => by rw [hparsed]) (fun r => by rw [hparsed]) hfields hafter

theorem regular_ok : Regular fun r => .ok r :=
  regular_stand (fun _ => rfl) (fun _ => rfl) (fun _ h => h) (fun _ _ _ => rfl)

/-- A change that leaves these values waiting, or none. -/
theorem regular_wait {change : Reading → Reading} (hparsed : ∀ r, (change r).parsed = r.parsed)
    (hseen : ∀ r, (change r).seen = r.seen) (waiting : Option (Slot × List String))
    (hwaiting : ∀ r, (change r).waiting = waiting) (hfields : waiting ≠ some (.fields, []))
    (hafter : ∀ r boundary seen, change (r.after boundary seen) = (change r).after boundary seen) :
    Regular fun r => .ok (change r) :=
  regular_stand hparsed hseen (fun r _ => by rw [hwaiting]; exact hfields) hafter

theorem regular_settle : Regular settle := by
  have hclear : Regular fun r => .ok { r with waiting := none } :=
    regular_wait (fun _ => rfl) (fun _ => rfl) none (fun _ => rfl) nofun (fun _ _ _ => rfl)
  refine .of_locally fun r => ?_
  obtain ⟨parsed, seen, _ | ⟨slot, values⟩, wantsValue, isTrailing, hasFile⟩ := r
  · exact ⟨_, regular_ok, rfl, fun _ _ => rfl⟩
  · exact ⟨_, hclear.bind (regular_fillSlot slot values), rfl, fun _ _ => rfl⟩

theorem regular_takeSwitch (s : Switch) : Regular (·.takeSwitch s) := by
  have hraise : Regular fun r => .ok { r with parsed := raise r.parsed s, wantsValue := false } := by
    refine regular_change (fun _ => rfl) (fun r => ?_) (fun r => ?_) (fun _ h => h)
      (fun r boundary seen => ?_) <;> cases s <;> rfl
  cases s with
  | help => exact regular_settle.bind (regular_error _)
  | version => exact regular_settle.bind (regular_error _)
  | quiet => exact regular_settle.bind hraise
  | _ => exact regular_settle.bind ((regular_once _).bind hraise)

theorem regular_attach (slot : Slot) (value : String) : Regular (·.attach slot value) :=
  regular_settle.bind ((regular_fillSlot slot [value]).bind
    (regular_stand (fun _ => rfl) (fun _ => rfl) (fun _ h => h) (fun _ _ _ => rfl)))

theorem regular_await {slot : Slot} (hslot : slot ≠ .fields) : Regular (·.await slot) := by
  have hfields : some (slot, ([] : List String)) ≠ some (.fields, []) := by
    rintro ⟨⟩
    exact hslot rfl
  exact regular_settle.bind
    (regular_wait (fun _ => rfl) (fun _ => rfl) _ (fun _ => rfl) hfields (fun _ _ _ => rfl))

theorem regular_takeValue (value : String) : Regular (·.takeValue value) := by
  refine regular_stand (fun _ => rfl) (fun _ => rfl) (fun r _ => ?_) (fun _ _ _ => rfl)
  rcases r.waiting with _ | ⟨slot, values⟩ <;> simp

theorem regular_takePositional (value : String) : Regular (·.takePositional value) := by
  have hfield : Regular fun r => r.settle >>= fun r =>
      .ok { r with waiting := some (.fields, [value]), wantsValue := false } :=
    regular_settle.bind
      (regular_wait (fun _ => rfl) (fun _ => rfl) _ (fun _ => rfl) nofun (fun _ _ _ => rfl))
  have hfile : Regular fun r => r.settle >>= fun r =>
      .ok { r with waiting := some (.file, [value]), wantsValue := false, hasFile := true } :=
    regular_settle.bind
      (regular_wait (fun _ => rfl) (fun _ => rfl) _ (fun _ => rfl) nofun (fun _ _ _ => rfl))
  -- a field goes to those that wait already, if there are any
  have hmore : ∀ values, Regular fun r =>
      .ok { r with waiting := some (.fields, values ++ [value]), wantsValue := false } :=
    fun values => regular_wait (fun _ => rfl) (fun _ => rfl) _ (fun _ => rfl) (by simp) (fun _ _ _ => rfl)
  refine .of_locally fun r => ?_
  obtain ⟨parsed, seen, waiting, wantsValue, isTrailing, hasFile⟩ := r
  cases hasFile with
  | false => exact ⟨_, hfile, rfl, fun _ _ => rfl⟩
  | true =>
    rcases waiting with _ | ⟨slot, values⟩
    · exact ⟨_, hfield, rfl, fun _ _ => rfl⟩
    · cases slot with
      | fields => exact ⟨_, hmore values, rfl, fun _ _ => rfl⟩
      | _ => exact ⟨_, hfield, rfl, fun _ _ => rfl⟩

theorem shortName?_ne_fields {c : Char} {slot : Slot} (h : shortName? c = some (.slot slot)) :
    slot ≠ .fields := by
  rintro rfl
  unfold shortName? at h
  split at h <;> cases h

theorem longName?_ne_fields {name : String} {slot : Slot} (h : longName? name = some (.slot slot)) :
    slot ≠ .fields := by
  rintro rfl
  unfold longName? at h
  split at h <;> cases h

/-- By induction on the letters. -/
theorem regular_cluster (cs : List Char) : Regular (·.cluster cs) := by
  induction cs with
  | nil => exact regular_ok
  | cons c rest ih =>
    unfold cluster
    rcases hname : shortName? c with _ | s | slot
    · exact regular_error _
    · exact (regular_takeSwitch s).bind ih
    · simp only
      split
      · exact regular_await (shortName?_ne_fields hname)
      · exact regular_attach slot _
      · exact regular_attach slot _

theorem regular_longOption (text : List Char) : Regular (·.longOption text) := by
  unfold longOption
  simp only
  split
  · exact regular_error _
  · exact regular_takeSwitch _
  · exact regular_error _
  · exact regular_attach _ _
  · rename_i hname _
    exact regular_await (longName?_ne_fields hname)

end Reading

/-- A dash, and more behind it. -/
def LooksLikeOption (arg : String) : Prop :=
  ∃ c rest, arg.toList = '-' :: c :: rest

namespace Reading

variable {r r' q : Reading} {f : Reading → Except Usage Reading} {arg : String}

/-- What an argument is taken for as long as no two dashes went by. -/
inductive Takes (arg : String) : (Reading → Except Usage Reading) → Prop
  | dashes : LooksLikeOption arg → Takes arg fun r => .ok { r with isTrailing := true }
  | long (text : List Char) : LooksLikeOption arg → Takes arg (·.longOption text)
  | letters (c : Char) (rest : List Char) : LooksLikeOption arg → Takes arg (·.cluster (c :: rest))
  | plain : ¬ LooksLikeOption arg →
    Takes arg fun r => if r.wantsValue then r.takeValue arg else r.takePositional arg

theorem argument_takes (arg : String) :
    ∃ f, Takes arg f ∧ ∀ r : Reading, r.isTrailing = false → r.argument arg = f r := by
  have hskip : ∀ {r : Reading} {x y : Except Usage Reading}, r.isTrailing = false →
      (if r.isTrailing then x else y) = y := by
    intro r x y h
    rw [h]
    exact if_neg Bool.false_ne_true
  unfold argument
  split
  · rename_i htext
    exact ⟨_, .dashes ⟨_, _, htext⟩, fun r h => hskip h⟩
  · rename_i htext
    exact ⟨_, .long _ ⟨_, _, htext⟩, fun r h => hskip h⟩
  · rename_i htext
    exact ⟨_, .letters _ _ ⟨_, _, htext⟩, fun r h => hskip h⟩
  · rename_i hplain
    refine ⟨_, .plain ?_, fun r h => hskip h⟩
    rintro ⟨c, rest, htext⟩
    exact hplain c rest htext

theorem Takes.regular (h : Takes arg f) : Regular f := by
  cases h with
  | dashes => exact regular_stand (fun _ => rfl) (fun _ => rfl) (fun _ h => h) (fun _ _ _ => rfl)
  | long text => exact regular_longOption text
  | letters c rest => exact regular_cluster (c :: rest)
  | plain =>
    refine .of_locally fun r => ?_
    by_cases hwants : r.wantsValue = true
    · exact ⟨_, regular_takeValue arg, if_pos hwants, fun _ _ => if_pos hwants⟩
    · exact ⟨_, regular_takePositional arg, if_neg hwants, fun _ _ => if_neg hwants⟩

theorem regular_argument (arg : String) : Regular (·.argument arg) := by
  obtain ⟨f, hf, hsame⟩ := argument_takes arg
  refine .of_locally fun r => ?_
  obtain ⟨parsed, seen, waiting, wantsValue, isTrailing, hasFile⟩ := r
  cases isTrailing with
  | true => exact ⟨_, regular_takePositional arg, rfl, fun _ _ => rfl⟩
  | false => exact ⟨f, hf.regular, hsame _ rfl, fun _ _ => hsame _ rfl⟩

/-- By induction on the arguments. -/
theorem regular_foldlM (args : List String) : Regular fun r => args.foldlM argument r := by
  induction args with
  | nil => exact regular_ok
  | cons arg args ih => exact (regular_argument arg).bind ih

/-- What reading the arguments comes to in the end. -/
theorem finish_eq_ok_iff {a : Arguments} :
    r.finish = .ok a ↔ ∃ r', r.settle = .ok r' ∧
      ¬ (.slot .boundary ∈ r'.seen ∧ .slot .contentType ∈ r'.seen) ∧ r'.hasFile = true ∧
        r'.parsed = a := by
  unfold finish
  rcases r.settle with e | r'
  · constructor
    · nofun
    · rintro ⟨r', h, -⟩
      cases h
  · simp only [bind, Except.bind, Except.ok.injEq, exists_eq_left']
    split
    · rename_i hboth
      simp only [Bool.and_eq_true, List.contains_eq_mem, decide_eq_true_eq] at hboth
      constructor
      · nofun
      · exact fun h => absurd hboth h.1
    · rename_i hboth
      simp only [Bool.and_eq_true, List.contains_eq_mem, decide_eq_true_eq] at hboth
      split
      · rename_i hfile
        constructor
        · intro h
          cases h
          exact ⟨hboth, hfile, rfl⟩
        · rintro ⟨-, -, rfl⟩
          rfl
      · rename_i hfile
        constructor
        · nofun
        · exact fun h => absurd h.2.1 hfile

/-! ## What is left of the arguments -/

/-- Reads what is left of the arguments. -/
def parseRest (r : Reading) (args : List String) : Except Usage Arguments :=
  args.foldlM argument r >>= finish

theorem parseRest_cons (r : Reading) (arg : String) (args : List String) :
    r.parseRest (arg :: args) = r.argument arg >>= (·.parseRest args) := by
  unfold parseRest
  rw [List.foldlM_cons]
  rcases r.argument arg with e | r' <;> rfl

/-- Say that neither a boundary nor a content type is among the arguments. Then none was seen so far, and one
given before them changes nothing else. -/
theorem parseRest_after {args : List String} {a : Arguments} {seen : List Name} (h : q.parseRest args = .ok a)
    (htold : q.Told) (hboundary : a.boundary = none) (htype : a.contentType = none) :
    .slot .boundary ∉ q.seen ∧ (q.Adds seen → ∀ boundary,
      (q.after boundary seen).parseRest args = .ok { a with boundary := some boundary }) := by
  obtain ⟨r, hread, hfinish⟩ := bind_eq_ok_iff.1 h
  obtain ⟨r', hsettle, -, hfile, rfl⟩ := finish_eq_ok_iff.1 hfinish
  have htold' : r'.Told := regular_settle.told hsettle ((regular_foldlM args).told hread htold)
  have hnone : .slot .boundary ∉ r'.seen := fun hmem => htold'.boundary hmem hboundary
  have hnone₁ : .slot .boundary ∉ r.seen := fun hmem => hnone (regular_settle.seen hsettle hmem)
  refine ⟨fun hmem => hnone₁ ((regular_foldlM args).seen hread hmem), fun hadds boundary => ?_⟩
  obtain ⟨seen₁, hadds₁, hread'⟩ := (regular_foldlM args).after boundary hread hnone₁ hadds
  obtain ⟨seen₂, hadds₂, hsettle'⟩ := regular_settle.after boundary hsettle hnone hadds₁
  refine bind_eq_ok_iff.2 ⟨_, hread', finish_eq_ok_iff.2 ⟨_, hsettle', ?_, hfile, rfl⟩⟩
  rintro ⟨-, hmem⟩
  rcases (hadds₂ _).1 hmem with hname | hmem
  · cases hname
  · exact htold'.contentType hmem htype

/-- A boundary is taken where none was seen. -/
theorem fillSlot_boundary (hunseen : .slot .boundary ∉ q.seen) (boundary : String) :
    q.fillSlot .boundary [boundary] = .ok (q.after boundary (.slot .boundary :: q.seen)) := by
  rw [fillSlot_eq]
  unfold note once
  rw [if_neg (by decide), if_neg (by simpa using hunseen)]
  rfl

end Reading

end FormData.Arguments
