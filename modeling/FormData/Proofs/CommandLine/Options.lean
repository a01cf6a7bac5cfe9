/-
A boundary given among other arguments. What waits can be looked at early: an option that is put in between
does just that (`Reading.parseRest_early_iff`). So where neither a boundary nor a content type is among the
arguments, a boundary that is added is all that changes, given in one argument (`parse_boundary`) or in two
(`parse_boundary_value`). But what looks like an option is no value (`parse_boundary_option`).
-/
import FormData.Proofs.CommandLine.AfterBoundary
import FormData.Proofs.Header.Lines

namespace FormData.Arguments

namespace Reading

variable {r r' q : Reading} {f : Reading → Except Usage Reading} {arg : String}

/-! ## Looking at what waits early -/

/-- The reading that wants no value. -/
def calm (r : Reading) : Reading :=
  { r with wantsValue := false }

theorem calm_eq_self (h : r.wantsValue = false) : r.calm = r := by
  unfold calm
  rw [← h]

/-- The reading after a look at what waits, such that no value of it can follow. -/
def early (r : Reading) : Except Usage Reading :=
  r.settle.map calm

/-- A change that has nothing to do with what the arguments say. -/
structure Stands (change : Reading → Reading) : Prop where
  parsed (r : Reading) : (change r).parsed = r.parsed
  seen (r : Reading) : (change r).seen = r.seen
  keeps (r : Reading) (parsed : Arguments) (seen : List Name) :
    change { r with parsed, seen } = { change r with parsed, seen }

theorem stands_calm : Stands calm :=
  ⟨fun _ => rfl, fun _ => rfl, fun _ _ _ => rfl⟩

theorem stands_trailing : Stands ({ · with isTrailing := true }) :=
  ⟨fun _ => rfl, fun _ => rfl, fun _ _ _ => rfl⟩

theorem Stands.note {change : Reading → Reading} (h : Stands change) (r : Reading) (slot : Slot) :
    (change r).note slot = (r.note slot).map change := by
  unfold Reading.note once
  rw [h.seen]
  split
  · rfl
  · split
    · rfl
    · refine congrArg Except.ok (.trans ?_ (h.keeps r r.parsed (.slot slot :: r.seen)).symm)
      rw [← h.parsed r]

/-- Such a change may come before values are taken or after it. -/
theorem Stands.fillSlot {change : Reading → Reading} (h : Stands change) (r : Reading) (slot : Slot)
    (values : List String) : (change r).fillSlot slot values = (r.fillSlot slot values).map change := by
  rcases values with _ | ⟨value, values⟩
  · rfl
  · rw [fillSlot_eq, fillSlot_eq, h.note]
    rcases r.note slot with e | r₁
    · rfl
    · simp only [Except.map, Except.bind, h.parsed]
      rcases (value :: values).foldlM (fun a value => setValue a slot value) r₁.parsed with e | parsed
      · rfl
      · refine congrArg Except.ok (.trans ?_ (h.keeps r₁ parsed r₁.seen).symm)
        rw [← h.seen r₁]

theorem fillSlot_stand {slot : Slot} {values : List String} (h : r.fillSlot slot values = .ok r') :
    r' = { r with parsed := r'.parsed, seen := r'.seen } := by
  rcases values with _ | ⟨value, values⟩
  · cases h
  · obtain ⟨r₁, parsed, hnote, -, rfl⟩ := fillSlot_ok h
    rw [(note_ok hnote).1]

theorem settle_stand (h : r.settle = .ok r') :
    r' = { r with parsed := r'.parsed, seen := r'.seen, waiting := none } := by
  unfold settle at h
  split at h
  · rename_i hnone
    cases h
    rw [← hnone]
  · exact fillSlot_stand h

theorem early_ok (h : r.early = .ok q) :
    q = { r with parsed := q.parsed, seen := q.seen, waiting := none, wantsValue := false } := by
  unfold early at h
  rcases hs : r.settle with e | r' <;> rw [hs] at h <;> cases h
  rw [settle_stand hs]
  rfl

theorem early_settled (h : r.early = .ok q) : q.settle = .ok q := by
  unfold settle
  rw [show q.waiting = none by rw [early_ok h]]

theorem early_trailing (r : Reading) :
    ({ r with isTrailing := true } : Reading).early = r.early.map ({ · with isTrailing := true }) := by
  obtain ⟨parsed, seen, _ | ⟨slot, values⟩, wantsValue, isTrailing, hasFile⟩ := r
  · rfl
  · have hfill := stands_trailing.fillSlot { parsed, seen, wantsValue, isTrailing, hasFile } slot values
    unfold early settle
    simp only at hfill ⊢
    rw [hfill]
    rcases ({ parsed, seen, wantsValue, isTrailing, hasFile } : Reading).fillSlot slot values with e | r'
    · rfl
    · rfl

/-- A step that looks at what waits before anything else can as well be done after that. -/
def Settling {α : Type} (step : Reading → Except Usage α) : Prop :=
  ∀ r a, step r = .ok a ↔ ∃ q, r.early = .ok q ∧ step q = .ok a

theorem settling_settle {α : Type} {step : Reading → Except Usage α} (hcalm : ∀ r, step r.calm = step r) :
    Settling fun r => r.settle >>= step := by
  intro r a
  show (r.settle >>= step) = .ok a ↔ ∃ q, r.settle.map calm = .ok q ∧ (q.settle >>= step) = .ok a
  rcases hs : r.settle with e | r'
  · constructor
    · nofun
    · rintro ⟨q, h, -⟩
      cases h
  · have hnone : r'.calm.settle = .ok r'.calm := by
      unfold settle
      rw [show r'.calm.waiting = none from congrArg waiting (settle_stand hs)]
    simp only [Except.map, Except.ok.injEq, exists_eq_left', hnone]
    exact iff_of_eq (congrArg (· = Except.ok a) (hcalm r').symm)

theorem settling_error {α : Type} (usage : Usage) :
    Settling fun _ => (.error usage : Except Usage α) := by
  intro r a
  constructor
  · nofun
  · rintro ⟨q, -, h⟩
    cases h

theorem Settling.bind {α : Type} {step : Reading → Except Usage α} (hf : Settling f) (r : Reading) (a : α) :
    (f r >>= step) = .ok a ↔ ∃ q, r.early = .ok q ∧ (f q >>= step) = .ok a := by
  simp only [bind_eq_ok_iff, hf r]
  constructor
  · rintro ⟨r', ⟨q, hq, hr'⟩, ha⟩
    exact ⟨q, hq, r', hr', ha⟩
  · rintro ⟨q, hq, r', hr', ha⟩
    exact ⟨r', ⟨q, hq, hr'⟩, ha⟩

theorem settling_takeSwitch (s : Switch) : Settling (·.takeSwitch s) := by
  have honce : ∀ r : Reading, r.calm.once (.switch s) = (r.once (.switch s)).map calm := by
    intro r
    unfold once
    rw [show r.calm.seen = r.seen from rfl]
    split <;> rfl
  refine settling_settle fun r => ?_
  cases s with
  | help | version | quiet => rfl
  | _ =>
    simp only [honce]
    rcases r.once (.switch _) with e | r' <;> rfl

theorem settling_attach (slot : Slot) (value : String) : Settling (·.attach slot value) := by
  refine settling_settle fun r => ?_
  rw [stands_calm.fillSlot]
  rcases r.fillSlot slot [value] with e | r' <;> rfl

theorem settling_await (slot : Slot) : Settling (·.await slot) :=
  settling_settle fun _ => rfl

theorem settling_finish : Settling finish :=
  settling_settle fun _ => rfl

theorem settling_cluster (c : Char) (rest : List Char) : Settling (·.cluster (c :: rest)) := by
  unfold cluster
  split
  · exact settling_error _
  · exact (settling_takeSwitch _).bind
  · split
    · exact settling_await _
    · exact settling_attach _ _
    · exact settling_attach _ _

theorem settling_longOption (text : List Char) : Settling (·.longOption text) := by
  unfold longOption
  simp only
  split
  · exact settling_error _
  · exact settling_takeSwitch _
  · exact settling_error _
  · exact settling_attach _ _
  · exact settling_await _

/-- Fields that wait are taken one by one. -/
theorem early_fields {values : List String} (hwaiting : r.waiting = some (.fields, values))
    (hne : values ≠ []) :
    r.early = .ok { r with
      parsed := { r.parsed with fields := r.parsed.fields ++ values }, waiting := none, wantsValue := false } := by
  have hvalues : ∀ (values : List String) (a : Arguments),
      values.foldlM (fun a value => setValue a .fields value) a =
        .ok { a with fields := a.fields ++ values } := by
    intro values
    induction values with
    | nil =>
      intro a
      rw [List.append_nil]
      rfl
    | cons value values ih =>
      intro a
      rw [List.foldlM_cons]
      show values.foldlM (fun a value => setValue a .fields value)
        { a with fields := a.fields ++ [value] } = _
      rw [ih, List.append_assoc]
      rfl
  obtain ⟨value, values, rfl⟩ := List.exists_cons_of_ne_nil hne
  unfold early settle
  rw [hwaiting]
  simp only
  rw [fillSlot_eq]
  show Except.map calm (Except.map _ (List.foldlM _ r.parsed (value :: values))) = _
  rw [hvalues]
  rfl

/-- A field joins those that wait. -/
theorem takePositional_joins {values : List String} (hfile : r.hasFile = true)
    (hwaiting : r.waiting = some (.fields, values)) (arg : String) :
    r.takePositional arg =
      .ok { r with waiting := some (.fields, values ++ [arg]), wantsValue := false } := by
  unfold takePositional
  rw [if_pos hfile, hwaiting]

/-- Anything else that is no option has what waits looked at first, and so does a field then. -/
theorem takePositional_settles
    (h : ¬ (r.hasFile = true ∧ ∃ values, r.waiting = some (.fields, values))) (arg : String) :
    ∃ f, Settling f ∧ r.takePositional arg = f r ∧
      ∀ q : Reading, q.waiting = none → q.hasFile = r.hasFile → q.takePositional arg = f q := by
  cases hfile : r.hasFile with
  | false =>
    have hf : Settling fun r => r.settle >>= fun r => .ok { r with
        waiting := some (.file, [arg]), wantsValue := false, hasFile := true } :=
      settling_settle fun _ => rfl
    refine ⟨_, hf, ?_, fun q _ hq => ?_⟩
    · unfold takePositional
      rw [hfile]
      rfl
    · unfold takePositional
      rw [hq]
      rfl
  | true =>
    have hf : Settling fun r => r.settle >>= fun r => .ok { r with
        waiting := some (.fields, [arg]), wantsValue := false } :=
      settling_settle fun _ => rfl
    refine ⟨_, hf, ?_, fun q hwaiting hq => ?_⟩
    · unfold takePositional
      rw [if_pos hfile]
      split
      · rename_i values hwaiting
        exact absurd ⟨hfile, values, hwaiting⟩ h
      · rfl
    · unfold takePositional
      rw [if_pos hq, hwaiting]
      rfl

/-- What is left of the arguments is read alike where what waits was looked at before, unless the next of
them is a value for it. By induction on the arguments. -/
theorem parseRest_early_iff {args : List String} {a : Arguments} (hfields : r.waiting ≠ some (.fields, []))
    (hwants : r.isTrailing = false → r.wantsValue = true → ∀ arg ∈ args.head?, LooksLikeOption arg) :
    r.parseRest args = .ok a ↔ ∃ q, r.early = .ok q ∧ q.parseRest args = .ok a := by
  induction args generalizing r with
  | nil => exact settling_finish r a
  | cons arg args ih =>
    -- an argument that is no option goes to the fields that wait, or has what waits looked at
    have hpositional : (r.takePositional arg >>= (·.parseRest args)) = .ok a ↔
        ∃ q, r.early = .ok q ∧ (q.takePositional arg >>= (·.parseRest args)) = .ok a := by
      by_cases hjoins : r.hasFile = true ∧ ∃ values, r.waiting = some (.fields, values)
      · obtain ⟨hfile, values, hwaiting⟩ := hjoins
        have hne : values ≠ [] := by
          rintro rfl
          exact hfields hwaiting
        -- looked at apart or together, the fields come to the same
        have hjoined := ih (r := { r with waiting := some (.fields, values ++ [arg]), wantsValue := false })
          (by simp) nofun
        have hapart := ih (r := { r with
          parsed := { r.parsed with fields := r.parsed.fields ++ values }
          waiting := some (.fields, [arg])
          wantsValue := false }) (by simp) nofun
        rw [early_fields rfl (by simp)] at hjoined hapart
        simp only [List.append_assoc] at hjoined hapart
        rw [takePositional_joins hfile hwaiting, early_fields hwaiting hne]
        simp only [Except.ok.injEq, exists_eq_left']
        unfold takePositional
        rw [if_pos hfile]
        exact hjoined.trans hapart.symm
      · obtain ⟨f, hf, hr, hq⟩ := takePositional_settles hjoins arg
        rw [hr, hf.bind]
        refine exists_congr fun q => and_congr_right fun hearly => ?_
        rw [hq q (by rw [early_ok hearly]) (by rw [early_ok hearly])]
    rw [parseRest_cons]
    simp only [parseRest_cons]
    cases htrailing : r.isTrailing with
    | true =>
      have hsame : ∀ q : Reading, q.isTrailing = true → q.argument arg = q.takePositional arg := by
        intro q hq
        unfold argument
        exact if_pos hq
      rw [hsame r htrailing, hpositional]
      refine exists_congr fun q => and_congr_right fun hearly => ?_
      rw [hsame q (by rw [early_ok hearly]; exact htrailing)]
    | false =>
      obtain ⟨f, hf, hsame⟩ := argument_takes arg
      suffices hstep : (f r >>= (·.parseRest args)) = .ok a ↔
          ∃ q, r.early = .ok q ∧ (f q >>= (·.parseRest args)) = .ok a by
        rw [hsame r htrailing, hstep]
        refine exists_congr fun q => and_congr_right fun hearly => ?_
        rw [hsame q (by rw [early_ok hearly]; exact htrailing)]
      cases hf with
      | dashes =>
        show ({ r with isTrailing := true } : Reading).parseRest args = .ok a ↔
          ∃ q, r.early = .ok q ∧ ({ q with isTrailing := true } : Reading).parseRest args = .ok a
        rw [ih (r := { r with isTrailing := true }) hfields nofun, early_trailing]
        rcases r.early with e | q <;> simp [Except.map]
      | long text => exact (settling_longOption text).bind r a
      | letters c rest => exact (settling_cluster c rest).bind r a
      | plain hplain =>
        -- no value is wanted here, nor is one after a look at what waits
        have hcalm : r.wantsValue ≠ true := fun h => hplain (hwants htrailing h arg rfl)
        show ((if r.wantsValue then r.takeValue arg else r.takePositional arg) >>=
            (·.parseRest args)) = .ok a ↔
          ∃ q, r.early = .ok q ∧
            ((if q.wantsValue then q.takeValue arg else q.takePositional arg) >>= (·.parseRest args)) = .ok a
        rw [if_neg hcalm, hpositional]
        refine exists_congr fun q => and_congr_right fun hearly => ?_
        rw [if_neg (by rw [early_ok hearly]; exact Bool.false_ne_true)]

/-- The reading that wants a value for this option. -/
def wanting (slot : Slot) (r : Reading) : Reading :=
  { r with waiting := some (slot, []), wantsValue := true }

theorem await_eq (r : Reading) (slot : Slot) : r.await slot = r.settle.map (wanting slot) := by
  unfold await
  rcases r.settle with usage | q
  · rfl
  · rfl

theorem argument_b (h : r.isTrailing = false) : r.argument "-b" = r.await .boundary := by
  unfold argument
  rw [h]
  rfl

end Reading

open Reading

/-- Between these arguments there is room for an option: no two dashes went by, and what comes behind is no
value that is wanted. -/
def Admits (front back : List String) : Prop :=
  ∃ r, front.foldlM argument ({} : Reading) = .ok r ∧ r.isTrailing = false ∧
    (r.wantsValue = true → ∀ arg ∈ back.head?, LooksLikeOption arg)

section

variable {front back : List String} {a : Arguments} {boundary : String}

theorem parse_append {r : Reading} (h : front.foldlM argument ({} : Reading) = .ok r) (back : List String) :
    parse (front ++ back) = r.parseRest back := by
  unfold parse parseRest
  rw [List.foldlM_append, h]
  rfl

/-- What the arguments in front come to once what waits was looked at, and what those behind do to that. -/
theorem Admits.early (hplace : Admits front back) (h : parse (front ++ back) = .ok a)
    (hboundary : a.boundary = none) (htype : a.contentType = none) :
    ∃ r q, front.foldlM argument ({} : Reading) = .ok r ∧ r.isTrailing = false ∧ r.early = .ok q ∧
      .slot .boundary ∉ q.seen ∧ ∀ boundary,
        (q.after boundary (.slot .boundary :: q.seen)).parseRest back =
          .ok { a with boundary := some boundary } := by
  obtain ⟨r, hfront, htrailing, hwants⟩ := hplace
  have htold : r.Told := (regular_foldlM front).told hfront ⟨nofun, nofun, nofun⟩
  rw [parse_append hfront] at h
  obtain ⟨q, hearly, hrest⟩ := (parseRest_early_iff htold.fields fun _ => hwants).1 h
  have htold' : q.Told := by
    unfold Reading.early at hearly
    rcases hs : r.settle with e | r' <;> rw [hs] at hearly <;> cases hearly
    obtain ⟨h1, h2, h3⟩ := regular_settle.told hs htold
    exact ⟨h1, h2, h3⟩
  obtain ⟨hunseen, hafter⟩ := parseRest_after hrest htold' hboundary htype
  exact ⟨r, q, hfront, htrailing, hearly, hunseen, hafter fun name => List.mem_cons⟩

/-- A boundary that is added changes nothing else. -/
theorem parse_boundary (hplace : Admits front back) (h : parse (front ++ back) = .ok a)
    (hboundary : a.boundary = none) (htype : a.contentType = none) (boundary : String) :
    parse (front ++ ("--boundary=" ++ boundary) :: back) = .ok { a with boundary := some boundary } := by
  obtain ⟨r, q, hfront, htrailing, hearly, hunseen, hrest⟩ := hplace.early h hboundary htype
  have htext : ("--boundary=" ++ boundary).toList =
      '-' :: '-' :: ("boundary".toList ++ '=' :: boundary.toList) := by
    rw [String.toList_append]
    rfl
  have hcut : Text.cut? '=' ("boundary".toList ++ '=' :: boundary.toList) =
      some ("boundary".toList, boundary.toList) := Text.cut?_append (by decide) _
  have hoption : r.argument ("--boundary=" ++ boundary) = r.attach .boundary boundary := by
    unfold argument
    rw [htrailing, htext]
    show r.longOption ("boundary".toList ++ '=' :: boundary.toList) = _
    unfold longOption
    rw [hcut]
    simp only [String.ofList_toList]
    rfl
  have hattach : r.attach .boundary boundary = .ok (q.after boundary (.slot .boundary :: q.seen)) := by
    refine (settling_attach _ _ _ _).2 ⟨q, hearly, ?_⟩
    show q.attach .boundary boundary = _
    unfold attach
    rw [early_settled hearly]
    show (q.fillSlot .boundary [boundary] >>= fun r => .ok r.calm) = _
    rw [fillSlot_boundary hunseen]
    exact congrArg Except.ok (calm_eq_self (by rw [early_ok hearly]; rfl))
  rw [parse_append hfront, parseRest_cons, hoption, hattach]
  exact hrest boundary

/-- Neither does one that is the value of an option. -/
theorem parse_boundary_value (hplace : Admits front back) (h : parse (front ++ back) = .ok a)
    (hboundary : a.boundary = none) (htype : a.contentType = none) (hvalue : ¬ LooksLikeOption boundary) :
    parse (front ++ "-b" :: boundary :: back) = .ok { a with boundary := some boundary } := by
  obtain ⟨r, q, hfront, htrailing, hearly, hunseen, hrest⟩ := hplace.early h hboundary htype
  have hq : q = { q with waiting := none, wantsValue := false } := by rw [early_ok hearly]
  have hopen : q.isTrailing = false := by rw [early_ok hearly, htrailing]
  have hawait : r.await .boundary = .ok (q.wanting .boundary) := by
    refine (settling_await _ _ _).2 ⟨q, hearly, ?_⟩
    show q.await .boundary = _
    rw [await_eq, early_settled hearly]
    rfl
  have htake : (q.wanting .boundary).argument boundary =
      .ok { q with waiting := some (.boundary, [boundary]), wantsValue := false } := by
    obtain ⟨f, hf, hsame⟩ := argument_takes boundary
    rw [hsame (q.wanting .boundary) hopen]
    cases hf with
    | dashes h | long _ h | letters _ _ h => exact absurd h hvalue
    | plain => rfl
  have hlook : ({ q with waiting := some (.boundary, [boundary]), wantsValue := false } : Reading).early =
      .ok (q.after boundary (.slot .boundary :: q.seen)) := by
    show (({ q with waiting := none, wantsValue := false } : Reading).fillSlot .boundary
      [boundary]).map calm = _
    rw [← hq, fillSlot_boundary hunseen]
    exact congrArg Except.ok (calm_eq_self (by rw [hq]; rfl))
  rw [parse_append hfront, parseRest_cons, argument_b htrailing, hawait]
  show (q.wanting .boundary).parseRest (boundary :: back) = _
  rw [parseRest_cons, htake]
  exact (parseRest_early_iff (by simp) fun _ hwants => absurd hwants Bool.false_ne_true).2
    ⟨_, hlook, hrest boundary⟩

/-- What looks like an option is not taken for the value of one. -/
theorem parse_boundary_option (hplace : Admits front back) (hoption : LooksLikeOption boundary) :
    ∃ usage, parse (front ++ "-b" :: boundary :: back) = .error usage := by
  obtain ⟨r, hfront, htrailing, -⟩ := hplace
  -- an option that has no value when it is looked at is refused
  have hlacks : ∀ (a : Arguments) (q : Reading),
      (q.wanting .boundary).parseRest (boundary :: back) ≠ .ok a := by
    intro a q h
    have hhead : ∀ arg ∈ (boundary :: back).head?, LooksLikeOption arg := by
      rintro _ ⟨⟩
      exact hoption
    obtain ⟨q', hearly, -⟩ := (parseRest_early_iff (by simp [wanting]) fun _ _ => hhead).1 h
    cases hearly
  rw [parse_append hfront, parseRest_cons, argument_b htrailing, await_eq]
  rcases r.settle with usage | q
  · exact ⟨usage, rfl⟩
  · show ∃ usage, (q.wanting .boundary).parseRest (boundary :: back) = .error usage
    rcases hrest : (q.wanting .boundary).parseRest (boundary :: back) with usage | a
    · exact ⟨usage, rfl⟩
    · exact absurd hrest (hlacks a q)

end

end FormData.Arguments
