/-
Parts that cannot be kept. If keeping fails for a reason that is not in the body - a name that is
none, a content above the limit on files, a depot that makes no file for it - it costs its own part
only: the depot is as it was but for numbers of temp files used up, and the session goes on as if the
part had been dropped unread (`RefusedFor.hasNext_eq`). What is kept later does not show these numbers
(`OpenPart.keep_twin`), so the whole rest of the run is the same (`refused_part_costs_only_itself`).
-/
import FormData.Proofs.CommandLine.Visits
import FormData.Proofs.Depot.Keeping
import FormData.Proofs.Session.Moves
import FormData.Proofs.Session.Reads

namespace FormData

/-! ## The session behind a refusal -/

/-- A part that was handed out is being read, or its session failed since. -/
def Standing.PartIsOpen : Standing → Prop
  | .between _ => True
  | .within p => p.session.phase = .reading ∨ p.session.phase = .failed

theorem Standing.act_partIsOpen {g : Standing} (h : g.PartIsOpen) (c : Call) :
    (g.act c).2.PartIsOpen := by
  -- what is done with a part leaves its session in its phase, or failed
  have hpart : ∀ {p q : OpenPart}, (Standing.within p).PartIsOpen →
      (q.session.phase = p.session.phase ∨ q.session.phase = .failed) →
      (Standing.within q).PartIsOpen := by
    rintro p q hp (hsame | hfailed)
    · exact Or.imp hsame.trans hsame.trans hp
    · exact .inr hfailed
  cases c with
  | hasNext => trivial
  | nextPart =>
    simp only [act]
    rcases hn : g.session.nextPart with ⟨e, s⟩ | p
    · trivial
    · exact .inl (Session.nextPart_reading hn)
  | read room =>
    cases g with
    | between s => trivial
    | within p => exact hpart h (p.read_scanned room).phase
  | skip =>
    cases g with
    | between s => trivial
    | within p => exact hpart h p.skip_scanned.phase
  | keep d =>
    cases g with
    | between s => trivial
    | within p => exact hpart h (p.keep_scanned d).phase

/-- By induction on the calls. -/
theorem Standing.after_partIsOpen {g : Standing} (h : g.PartIsOpen) (calls : List Call) :
    (g.after calls).PartIsOpen := by
  induction calls generalizing g with
  | nil => exact h
  | cons c calls ih =>
    rw [after_cons]
    exact ih (act_partIsOpen h c)

namespace OpenPart

variable {p q : OpenPart} {d d' : Depot} {e : Error}

/-- Reads of the part that all succeed hand out more than the depot keeps in memory. -/
def Outgrows (p : OpenPart) (threshold : Nat) : Prop :=
  ∃ count, (∀ a ∈ (p.readAll (List.replicate count stretch)).1, ∃ bytes, a = .ok bytes) ∧
    threshold < (handedOut (p.readAll (List.replicate count stretch)).1).length

/-- The part is refused for a reason that is not in the body: its name is none, the error is not the one
that is met by passing what is left of the part, or a file is to be made for it and cannot be. -/
inductive RefusedFor (p : OpenPart) (d : Depot) (e : Error) : Prop
  | named (h : p.fileName = .error e)
  | ofPart (h : p.discardRest.1 ≠ .error e)
  | ofDepot (hgrows : p.Outgrows d.threshold) (hnew : d.newTemp = (.error e, d))

/-- An empty read spends the part. -/
theorem spent_of_read_nil {room : Nat} (hreading : p.session.phase = .reading)
    (hr : p.read room = (.ok [], q)) : q.Spent := by
  have hlive := read_ok_phase hr
  rcases hfinished : p.isFinished with _ | _
  · obtain ⟨-, w, -, htook⟩ := read_ok_take hreading hfinished hr
    cases htook
    exact ⟨rfl, hlive⟩
  · have hspent : p.Spent := ⟨hfinished, by rw [hreading]; nofun⟩
    cases (hspent.read room).symm.trans hr
    exact hspent

/-- What reads beyond the first one hand out counts from there. -/
theorem Outgrows.later {threshold : Nat} {bytes : Bytes} (h : p.Outgrows threshold)
    (hr : p.read stretch = (.ok bytes, q)) (hle : bytes.length ≤ threshold) :
    q.Outgrows (threshold - bytes.length) := by
  obtain ⟨_ | count, hok, hlt⟩ := h
  · exact absurd hlt (Nat.not_lt_zero _)
  · rw [List.replicate_succ, readAll_cons hr] at hok hlt
    refine ⟨count, fun a ha => hok a (List.mem_cons_of_mem _ ha), ?_⟩
    rw [handedOut_ok, List.length_append] at hlt
    omega

/-- The first read of a part that outgrows something succeeds. -/
theorem Outgrows.read_ok {threshold : Nat} (h : p.Outgrows threshold) :
    ∃ bytes, (p.read stretch).1 = .ok bytes := by
  obtain ⟨_ | count, hok, hlt⟩ := h
  · exact absurd hlt (Nat.not_lt_zero _)
  · rw [List.replicate_succ, readAll_cons rfl] at hok
    exact hok _ List.mem_cons_self

theorem Spent.not_outgrows {threshold : Nat} (h : p.Spent) : ¬ p.Outgrows threshold := by
  rintro ⟨count, -, hlt⟩
  rw [h.handedOut_readAll] at hlt
  exact absurd hlt (Nat.not_lt_zero _)

/-- A spool that is refused its file leaves the depot alone, and the rest of the part to be passed. -/
theorem spool_refused {s : Spool} (hreading : p.session.phase = .reading) (htemp : s.temp = none)
    (hfits : s.written ≤ d.threshold) (hgrows : p.Outgrows (d.threshold - s.written))
    (hnew : d.newTemp = (.error e, d)) :
    ∃ q, p.spool d s = (.error e, q, d) ∧ p.session.Leaves q.session := by
  fun_induction OpenPart.spool p d s with
  | case1 p d s e' p' hr =>
    obtain ⟨bytes, hok⟩ := hgrows.read_ok
    rw [hr] at hok
    cases hok
  | case2 p d s p' hr =>
    -- behind an empty read there is nothing to outgrow anything
    have hspent := spent_of_read_nil hreading hr
    exact absurd (hgrows.later hr (Nat.zero_le _)) hspent.not_outgrows
  | case3 p d s b bytes p' hr e' d' hw =>
    have hout := read_outcome hreading stretch
    rw [hr] at hout
    obtain ⟨-, hw'⟩ | ⟨-, -, hw'⟩ | ⟨-, -, e'', hnew', hw'⟩ := s.write_cases d (b :: bytes)
    · cases hw.symm.trans hw'
    · cases hw.symm.trans hw'
    · cases hw.symm.trans hw'
      cases hnew.symm.trans hnew'
      exact ⟨p', by rw [Spool.abandon, htemp], hout⟩
  | case4 p d s b bytes p' hr s' d' hw _ ih =>
    have hout := read_outcome hreading stretch
    rw [hr] at hout
    have hleaves : p.session.Leaves p'.session := hout
    obtain ⟨hholds, hw'⟩ | ⟨-, hspills, -⟩ | ⟨-, -, e', -, hw'⟩ := s.write_cases d (b :: bytes)
    · cases hw.symm.trans hw'
      have hle : s.written + (b :: bytes).length ≤ d.threshold :=
        hholds.resolve_left fun hsome => hsome htemp
      have hrest := hgrows.later hr (by omega)
      rw [Nat.sub_sub] at hrest
      obtain ⟨q, hspool, hl⟩ := ih (hleaves.reading hreading) htemp hle hrest hnew
      exact ⟨q, hspool, hleaves.trans hl⟩
    · obtain ⟨-, hnew'⟩ | ⟨hspills', -⟩ := d.newTemp_cases
      · cases hnew.symm.trans hnew'
      · exact absurd hspills hspills'
    · cases hw.symm.trans hw'

/-- Behind a part that was refused the session goes on as if the part had not been touched. -/
theorem RefusedFor.hasNext_eq (h : p.RefusedFor d e) (hopen : (Standing.within p).PartIsOpen)
    (hkeep : p.keep d = (.error e, q, d')) : q.session.hasNext = p.session.hasNext := by
  rcases hname : p.fileName with e' | name
  · -- without a name nothing is read
    unfold keep at hkeep
    rw [hname] at hkeep
    cases hkeep
    rfl
  · obtain hreading | hfailed := hopen
    · suffices hl : p.session.Leaves q.session from hl.hasNext_eq hreading
      cases h with
      | named hnone => cases hname.symm.trans hnone
      | ofPart hpassed =>
        have hpasses := keep_passes (d := d) hreading
        rw [hkeep] at hpasses
        exact hpasses (own_error hpassed)
      | ofDepot hgrows hnew =>
        obtain ⟨q', hspool, hl⟩ := spool_refused (s := {}) hreading rfl (Nat.zero_le _) hgrows hnew
        unfold keep at hkeep
        simp only [hname, hspool] at hkeep
        cases hkeep
        exact hl
    · -- in a session that failed no part is read, and the reason for that is no other
      obtain ⟨d'', hkeep'⟩ := keep_failed hfailed hname d
      cases hkeep.symm.trans hkeep'
      rfl

end OpenPart

/-! ## Depots whose temp files have other numbers -/

/-- The depots differ in their temp files only. -/
structure Depot.Twin (d e : Depot) : Prop where
  tree : e.tree = d.tree
  repository : e.repository = d.repository
  threshold : e.threshold = d.threshold
  isShutDown : e.isShutDown = d.isShutDown

/-- The repository takes the name of a temp file with the next number of either depot, or of neither. -/
def Depot.NamesAlike (d e : Depot) : Prop :=
  d.tree.accepts d.repository (tempName e.issued) = d.tree.accepts d.repository (tempName d.issued)

/-- Both depots gave out as many numbers on the way, at most `most`. -/
def Depot.InStep (most : Nat) (d e d' e' : Depot) : Prop :=
  ∃ made ≤ most, d'.issued = d.issued + made ∧ e'.issued = e.issued + made

theorem Depot.InStep.refl (most : Nat) (d e : Depot) : InStep most d e d e :=
  ⟨0, Nat.zero_le _, rfl, rfl⟩

namespace Depot

variable {d e : Depot}

theorem Twin.spills_iff (h : d.Twin e) (hnames : d.NamesAlike e) : d.Spills ↔ e.Spills := by
  unfold Spills
  rw [h.isShutDown, h.tree, h.repository, hnames]

theorem Twin.withTemp (h : d.Twin e) (content content' : Bytes) :
    (d.withTemp content).Twin (e.withTemp content') :=
  ⟨h.tree, h.repository, h.threshold, h.isShutDown⟩

/-- A file that cannot be made in one depot cannot be made in the other, for the same reason. -/
theorem Twin.newTemp_error {err : Error} (h : d.Twin e) (hnames : d.NamesAlike e)
    (hnew : d.newTemp = (.error err, d)) : e.newTemp = (.error err, e) := by
  unfold newTemp at hnew ⊢
  rw [h.isShutDown, h.tree, h.repository, hnames]
  split
  · rename_i hclosed
    rw [if_pos hclosed] at hnew
    cases hnew
    rfl
  · rename_i hclosed
    rw [if_neg hclosed] at hnew
    rcases ha : d.tree.accepts d.repository (tempName d.issued) with e' | ⟨⟩ <;> rw [ha] at hnew
    · cases hnew
      rfl
    · cases hnew

end Depot

/-- The spools hold the same, and both have a temp file or neither has. -/
structure Spool.Twin (s t : Spool) : Prop where
  stretches : t.stretches = s.stretches
  written : t.written = s.written
  temp : t.temp = none ↔ s.temp = none

namespace Spool

variable {s t : Spool} {d e : Depot}

theorem Twin.content (h : s.Twin t) : t.content = s.content := by
  unfold Spool.content
  rw [h.stretches]

theorem Twin.add (h : s.Twin t) (bytes : Bytes) : (s.add bytes).Twin (t.add bytes) where
  stretches := congrArg (bytes :: ·) h.stretches
  written := congrArg (· + bytes.length) h.written
  temp := h.temp

theorem Twin.holds_iff (h : s.Twin t) (hd : d.Twin e) (count : Nat) :
    s.Holds d count ↔ t.Holds e count := by
  unfold Holds
  rw [h.written, hd.threshold, ne_eq, ne_eq, h.temp]

theorem Twin.abandon (h : s.Twin t) (hd : d.Twin e) (most : Nat) :
    (s.abandon d).Twin (t.abandon e) ∧ Depot.InStep most d e (s.abandon d) (t.abandon e) := by
  have htemp := h.temp
  unfold Spool.abandon
  rcases hs : s.temp with _ | id <;> rcases ht : t.temp with _ | id' <;> simp [hs, ht] at htemp
  · exact ⟨hd, .refl most d e⟩
  · exact ⟨⟨hd.tree, hd.repository, hd.threshold, hd.isShutDown⟩, 0, Nat.zero_le _, rfl, rfl⟩

/-- How many temp files a spool may make yet. -/
def mayMake (s : Spool) : Nat :=
  if s.temp = none then 1 else 0

/-- What twin spools do with some bytes in twin depots: both are refused a file, or both go on, with a
file made in each depot or in neither. -/
theorem Twin.write (h : s.Twin t) (hd : d.Twin e) (hnames : s.temp = none → d.NamesAlike e)
    (bytes : Bytes) :
    (∃ err, s.write d bytes = (.error err, d) ∧ t.write e bytes = (.error err, e)) ∨
    (∃ s' t' d' e', s.write d bytes = (.ok s', d') ∧ t.write e bytes = (.ok t', e') ∧ s'.Twin t' ∧
      d'.Twin e' ∧ (s'.temp = none → s.temp = none ∧ d' = d ∧ e' = e) ∧ s'.mayMake ≤ s.mayMake ∧
      Depot.InStep (s.mayMake - s'.mayMake) d e d' e') := by
  have hholds := h.holds_iff hd bytes.length
  obtain ⟨hs, hw⟩ | ⟨hs, hspills, hw⟩ | ⟨hs, hspills, err, hnew, hw⟩ := s.write_cases d bytes
  · right
    exact ⟨_, _, _, _, hw, write_of_holds (hholds.1 hs), h.add bytes, hd,
      fun hnone => ⟨hnone, rfl, rfl⟩,
      Nat.le_refl _, .refl _ d e⟩
  · -- both make their file
    right
    have hnone := (not_holds_iff.1 hs).1
    obtain ⟨hs', -⟩ | ⟨-, -, hw'⟩ | ⟨-, hspills', -⟩ := t.write_cases e bytes
    · exact absurd (hholds.2 hs') hs
    · refine ⟨_, _, _, _, hw, hw', ⟨(h.add bytes).stretches, (h.add bytes).written, by simp⟩,
        hd.withTemp [] [], by simp, ?_, 1, ?_, rfl, rfl⟩
      · simp [mayMake]
      · simp [mayMake, hnone]
    · exact absurd ((hd.spills_iff (hnames hnone)).1 hspills) hspills'
  · left
    have hnone := (not_holds_iff.1 hs).1
    obtain ⟨hs', -⟩ | ⟨-, hspills', -⟩ | ⟨-, -, err', hnew', hw'⟩ := t.write_cases e bytes
    · exact absurd (hholds.2 hs') hs
    · exact absurd ((hd.spills_iff (hnames hnone)).2 hspills') hspills
    · cases (hd.newTemp_error (hnames hnone) hnew).symm.trans hnew'
      exact ⟨_, hw, hw'⟩

end Spool

/-- The items are the same to a caller, each with the depot it is in. -/
structure Item.SameIn (i : Item) (d : Depot) (j : Item) (e : Depot) : Prop where
  field : j.field = i.field
  fileName : j.fileName = i.fileName
  isFormField : j.isFormField = i.isFormField
  headers : j.headers = i.headers
  size : j.size = i.size
  isInMemory : j.isInMemory = i.isInMemory
  content : j.content e = i.content d

namespace OpenPart

/-- The outcomes of an operation on one part in twin depots: the same error, or results that are alike,
and the same part and twin depots again. -/
inductive Twins {α : Type} (alike : α → Depot → α → Depot → Prop) (most : Nat) (d e : Depot) :
    Except Error α × OpenPart × Depot → Except Error α × OpenPart × Depot → Prop
  | error {err : Error} {q : OpenPart} {d' e' : Depot} :
    d'.Twin e' → Depot.InStep most d e d' e' → Twins alike most d e (.error err, q, d') (.error err, q, e')
  | ok {a b : α} {q : OpenPart} {d' e' : Depot} : alike a d' b e' →
    d'.Twin e' → Depot.InStep most d e d' e' → Twins alike most d e (.ok a, q, d') (.ok b, q, e')

variable {p : OpenPart} {d e : Depot} {s t : Spool}

/-- An operation that goes on in depots which were in step so far. -/
theorem Twins.after {α : Type} {alike : α → Depot → α → Depot → Prop} {most rest : Nat} {d' e' : Depot}
    {x y : Except Error α × OpenPart × Depot} (h : Twins alike rest d' e' x y)
    (hstep : Depot.InStep (most - rest) d e d' e') (hle : rest ≤ most) : Twins alike most d e x y := by
  have hsteps : ∀ {d'' e'' : Depot}, Depot.InStep rest d' e' d'' e'' →
      Depot.InStep most d e d'' e'' := by
    rintro d'' e'' ⟨more, hmore, hd, he⟩
    obtain ⟨made, hmade, hd', he'⟩ := hstep
    exact ⟨made + more, by omega, by omega, by omega⟩
  cases h with
  | error htwin h => exact .error htwin (hsteps h)
  | ok halike htwin h => exact .ok halike htwin (hsteps h)

/-- One part is spooled alike in twin depots, unless the next temp file has a name that only one of them
takes. -/
theorem spool_twin (hs : s.Twin t) (hd : d.Twin e) (hnames : s.temp = none → d.NamesAlike e) :
    Twins (fun s _ t _ => s.Twin t) s.mayMake d e (p.spool d s) (p.spool e t) := by
  fun_induction OpenPart.spool p d s generalizing e t with
  | case1 p d s err p' hr =>
    rw [spool_of_error hr]
    obtain ⟨hd', hstep⟩ := hs.abandon hd s.mayMake
    exact .error hd' hstep
  | case2 p d s p' hr =>
    rw [spool_of_end hr]
    exact .ok hs hd (.refl _ d e)
  | case3 p d s b bytes p' hr err d' hw =>
    obtain ⟨err', hw', hwt⟩ | ⟨_, _, _, _, hw', -⟩ := hs.write hd hnames (b :: bytes)
    · cases hw.symm.trans hw'
      rw [spool_of_refused hr hwt]
      obtain ⟨hd', hstep⟩ := hs.abandon hd s.mayMake
      exact .error hd' hstep
    · cases hw.symm.trans hw'
  | case4 p d s b bytes p' hr s' d' hw _ ih =>
    obtain ⟨err', hw', -⟩ | ⟨s'', t', d'', e', hw', hwt, hs', hd', hsame, hle, hstep⟩ :=
      hs.write hd hnames (b :: bytes)
    · cases hw.symm.trans hw'
    · cases hw.symm.trans hw'
      rw [spool_of_written hr hwt]
      have hnames' : s'.temp = none → d'.NamesAlike e' := by
        intro hnone
        obtain ⟨hnone', rfl, rfl⟩ := hsame hnone
        exact hnames hnone'
      exact (ih hs' hd' hnames').after hstep hle

/-- One part is kept alike in twin depots: the same to a caller, or refused for the same reason. -/
theorem keep_twin (hd : d.Twin e) (hnames : d.NamesAlike e) :
    Twins Item.SameIn 1 d e (p.keep d) (p.keep e) := by
  have hspool := spool_twin (p := p) (s := {}) (t := {}) ⟨rfl, rfl, Iff.rfl⟩ hd fun _ => hnames
  unfold keep
  rcases hname : p.fileName with err | name
  · exact .error hd (.refl 1 d e)
  · simp only
    generalize p.spool d {} = x at hspool
    generalize p.spool e {} = y at hspool
    cases hspool with
    | error hd' hstep => exact .error hd' hstep
    | @ok s t q d' e' hs hd' hstep =>
      have hcontent := hs.content
      have htemp := hs.temp
      simp only [Spool.finish]
      rcases hst : s.temp with _ | id <;> rcases htt : t.temp with _ | id' <;> simp [hst, htt] at htemp
      · refine .ok ⟨rfl, rfl, rfl, rfl, hs.written, rfl, ?_⟩ hd' hstep
        simp only [Item.content, hcontent]
      · refine .ok ⟨rfl, rfl, rfl, rfl, hs.written, rfl, ?_⟩
          ⟨hd'.tree, hd'.repository, hd'.threshold, hd'.isShutDown⟩ hstep
        simp only [Item.content, Depot.temp?_putTemp, hcontent]

end OpenPart

/-! ## The rest of a run -/

/-- A caller at a session, with a depot to keep its parts in. -/
structure Intake where
  standing : Standing
  depot : Depot

namespace Intake

inductive Order where
  | call (c : Call)
  /-- Keeping the part in the depot of the caller, under a repository and a threshold. -/
  | keep (repository : String) (threshold : Nat)
  deriving DecidableEq, Repr

/-- One order, with all it hands out. -/
def act (v : Intake) : Order → Reply × Intake
  | .call c => ((v.standing.act c).1, { v with standing := (v.standing.act c).2 })
  | .keep repository threshold =>
    match v.standing with
    | .between s => (.noPart, { v with standing := .between s })
    | .within p =>
      let kept := p.keep { v.depot with repository, threshold }
      (.kept kept.1 kept.2.2, { standing := .within kept.2.1, depot := kept.2.2 })

/-- What a caller sees of these orders. -/
def observe (v : Intake) : List Order → List Observation
  | [] => []
  | o :: orders =>
    { reply := (v.act o).1
      progress := (v.act o).2.standing.session.progress
      reports := (v.act o).2.standing.session.window.feed.account.reports
      bytesRead := (v.act o).2.standing.bytesRead? } :: (v.act o).2.observe orders

end Intake

/-- The replies are the same, but for the numbers of temp files. -/
inductive Reply.Alike : Reply → Reply → Prop
  | same (r : Reply) : Alike r r
  | refused (e : Error) (d d' : Depot) : Alike (.kept (.error e) d) (.kept (.error e) d')
  | kept {i j : Item} {d d' : Depot} : i.SameIn d j d' → Alike (.kept (.ok i) d) (.kept (.ok j) d')

structure Observation.Alike (o o' : Observation) : Prop where
  reply : o.reply.Alike o'.reply
  progress : o'.progress = o.progress
  reports : o'.reports = o.reports
  bytesRead : o'.bytesRead = o.bytesRead

namespace Intake

/-- The callers stand at the same place, and their depots are twins, with so many numbers left whose names
the repositories asked for take alike. -/
structure Alike (orders : List Order) (v u : Intake) : Prop where
  standing : u.standing = v.standing
  depot : v.depot.Twin u.depot
  names : ∀ repository threshold, .keep repository threshold ∈ orders → ∀ k < orders.length,
    v.depot.tree.accepts repository (Depot.tempName (u.depot.issued + k)) =
      v.depot.tree.accepts repository (Depot.tempName (v.depot.issued + k))

variable {v u : Intake} {o : Order} {orders : List Order}

/-- Depots in step have as many numbers left. -/
theorem Alike.later {d e : Depot} {g : Standing} (h : Alike (o :: orders) v u) (hd : d.Twin e)
    (htree : d.tree = v.depot.tree) (hstep : Depot.InStep 1 v.depot u.depot d e) :
    Alike orders { standing := g, depot := d } { standing := g, depot := e } where
  standing := rfl
  depot := hd
  names := by
    obtain ⟨made, hmade, hv, hu⟩ := hstep
    intro repository threshold hmem k hk
    have hnames := h.names repository threshold (List.mem_cons_of_mem _ hmem) (made + k)
      (by simp only [List.length_cons]; omega)
    rw [← Nat.add_assoc, ← Nat.add_assoc] at hnames
    simp only
    rw [htree, hv, hu]
    exact hnames

/-- One order is answered alike, and leaves callers that are alike for the orders behind it. -/
theorem Alike.act (h : Alike (o :: orders) v u) :
    (v.act o).1.Alike (u.act o).1 ∧ Alike orders (v.act o).2 (u.act o).2 := by
  cases o with
  | call c =>
    unfold Intake.act
    rw [h.standing]
    exact ⟨.same _, h.later h.depot rfl (.refl 1 _ _)⟩
  | keep repository threshold =>
    unfold Intake.act
    rw [h.standing]
    rcases v.standing with s | p
    · exact ⟨.same _, h.later h.depot rfl (.refl 1 _ _)⟩
    · have hd : ({ v.depot with repository, threshold } : Depot).Twin
          { u.depot with repository, threshold } := ⟨h.depot.tree, rfl, rfl, h.depot.isShutDown⟩
      have hnames := h.names repository threshold List.mem_cons_self 0 (Nat.succ_pos _)
      have hkeep := OpenPart.keep_twin (p := p) hd hnames
      have htree := (p.keep_leaves { v.depot with repository, threshold }).1
      simp only
      generalize p.keep { v.depot with repository, threshold } = x at hkeep htree
      generalize p.keep { u.depot with repository, threshold } = y at hkeep
      cases hkeep with
      | error hd' hstep => exact ⟨.refused _ _ _, h.later hd' htree hstep⟩
      | ok hsame hd' hstep => exact ⟨.kept hsame, h.later hd' htree hstep⟩

/-- By induction on the orders. -/
theorem Alike.observe (h : Alike orders v u) :
    List.Forall₂ Observation.Alike (v.observe orders) (u.observe orders) := by
  induction orders generalizing v u with
  | nil => exact .nil
  | cons o orders ih =>
    obtain ⟨hreply, hnext⟩ := h.act
    refine .cons ⟨hreply, ?_, ?_, ?_⟩ (ih hnext)
    · simp only [hnext.standing]
    · simp only [hnext.standing]
    · simp only [hnext.standing]

end Intake

/-- A part that is refused for a reason that is not in the body costs only itself. The depot is as it was,
numbers used up apart, and whatever is done from the next part on, with the session or with a repository,
is answered as in a run where the part was dropped instead: there the next number may be any whose names
the repositories asked for take alike, be it the one left here or the one there was before. -/
theorem refused_part_costs_only_itself {s : Session} {history : List Call} {p q : OpenPart}
    {d d' : Depot} {e : Error} (hpart : (Standing.between s).after history = .within p) (hd : d.Numbered)
    (hkeep : p.keep d = (.error e, q, d')) (hrefused : p.RefusedFor d e) :
    d.Restored d' ∧
    ∀ (next : Call) (later : List Intake.Order) (issued : Nat), next = .hasNext ∨ next = .nextPart →
      (∀ repository threshold, .keep repository threshold ∈ later → ∀ k < later.length,
        d.tree.accepts repository (Depot.tempName (d'.issued + k)) =
          d.tree.accepts repository (Depot.tempName (issued + k))) →
      List.Forall₂ Observation.Alike
        (({ standing := .between p.session, depot := { d with issued } } : Intake).observe
          (.call next :: later))
        (({ standing := .within q, depot := d' } : Intake).observe (.call next :: later)) := by
  have hrestored := OpenPart.keep_error hd hkeep
  have hpartOpen : (Standing.within p).PartIsOpen := by
    rw [← hpart]
    exact Standing.after_partIsOpen (g := .between s) trivial history
  have hnext := hrefused.hasNext_eq hpartOpen hkeep
  refine ⟨hrestored, ?_⟩
  intro next later issued hcall hnames
  have hact : (Standing.within q).act next = (Standing.between p.session).act next := by
    obtain rfl | rfl := hcall
    · simp only [Standing.act, Standing.session, hnext]
    · simp only [Standing.act, Standing.session, Session.nextPart_eq_of_hasNext hnext]
  obtain ⟨given, -, rfl⟩ := hrestored
  have halike : Intake.Alike later
      { standing := ((Standing.between p.session).act next).2, depot := { d with issued } }
      { standing := ((Standing.between p.session).act next).2, depot := { d with issued := given } } :=
    ⟨rfl, ⟨rfl, rfl, rfl, rfl⟩, hnames⟩
  unfold Intake.observe Intake.act
  simp only [hact]
  exact .cons ⟨.same _, rfl, rfl, rfl⟩ halike.observe

/-- A body whose first content is delivered three bytes at a time and passes a limit of four. -/
def oversized : Source where
  transport := {
    segments := [.data (Utf8.encode "--B\r\n\r\nabcdefgh\r\n--B\r\n\r\nwxyz\r\n--B--")]
    pace := some 3 }

/-- A depot with a file in it already. -/
def inUse : Depot where
  tree := { nodes := [(["tmp"], .directory)] }
  repository := "/tmp"
  threshold := 2
  temps := [(0, [120])]
  tracked := [0]
  issued := 1

/-- A depot whose repository is missing. -/
def homeless : Depot where
  tree := {}
  repository := "/tmp"
  threshold := 0

/-- The file made for a content that turns out too large is gone, and the next content is kept under
another number and otherwise the same. A disk that takes no file costs no more. -/
theorem refused_part_costs_only_itself_oversized :
    ∃ s p, Session.open? oversized [66] { maxFileSize := some 4 } = .ok s ∧
      (Standing.between s).after [.nextPart] = .within p ∧
      (p.keep inUse).1 = .error (.fileSize none none 4 8) ∧ (p.keep inUse).2.2.issued = 2 ∧
      inUse.Restored (p.keep inUse).2.2 ∧
      List.Forall₂ Observation.Alike
        (({ standing := .between p.session, depot := inUse } : Intake).observe
          [.call .nextPart, .keep "/tmp" 2])
        (({ standing := .within (p.keep inUse).2.1, depot := (p.keep inUse).2.2 } : Intake).observe
          [.call .nextPart, .keep "/tmp" 2]) ∧
      (p.keep homeless).1 = .error (.io (.system .noSuchFile)) ∧
      List.Forall₂ Observation.Alike
        (({ standing := .between p.session, depot := homeless } : Intake).observe [.call .hasNext])
        (({ standing := .within (p.keep homeless).2.1, depot := (p.keep homeless).2.2 } : Intake).observe
          [.call .hasNext]) := by
  obtain ⟨s, hs⟩ : ∃ s, Session.open? oversized [66] { maxFileSize := some 4 } = .ok s := ⟨_, rfl⟩
  obtain ⟨p, hp, hkept⟩ := Standing.exists_of_partSatisfies
    (g := (Standing.between s).after [.nextPart])
    (fun p => (p.keep inUse).1 = .error (.fileSize none none 4 8) ∧ (p.keep inUse).2.2.issued = 2 ∧
      p.discardRest.1 = .ok 8 ∧ (p.keep homeless).1 = .error (.io (.system .noSuchFile)) ∧
      (p.readAll [OpenPart.stretch]).1 = [.ok [97, 98, 99]]) (by
      cases hs
      decide +kernel)
  obtain ⟨hoversized, hissued, hpassed, hnoFile, hread⟩ := of_decide_eq_true hkept
  have hkeep : p.keep inUse = (.error _, (p.keep inUse).2.1, (p.keep inUse).2.2) :=
    Prod.ext hoversized rfl
  have hkeep' : p.keep homeless = (.error _, (p.keep homeless).2.1, (p.keep homeless).2.2) :=
    Prod.ext hnoFile rfl
  obtain ⟨hrestored, hrest⟩ :=
    refused_part_costs_only_itself hp ⟨by decide, by decide⟩ hkeep
      (.ofPart (by rw [hpassed]; rintro ⟨⟩))
  have hgrows : p.Outgrows 0 := by
    refine ⟨1, ?_, ?_⟩ <;> rw [List.replicate_one, hread]
    · exact fun a ha => ⟨_, List.mem_singleton.1 ha⟩
    · decide
  obtain ⟨-, hrest'⟩ := refused_part_costs_only_itself hp ⟨by decide, by decide⟩ hkeep'
    (.ofDepot hgrows (by decide +kernel))
  refine ⟨s, p, hs, hp, hoversized, hissued, hrestored, ?_, hnoFile, ?_⟩
  · refine hrest .nextPart [.keep "/tmp" 2] 1 (.inr rfl) ?_
    intro repository threshold hmem k hk
    cases List.mem_singleton.1 hmem
    obtain rfl : k = 0 := Nat.lt_one_iff.1 hk
    rw [hissued]
    decide +kernel
  · exact hrest' .hasNext [] 0 (.inl rfl) nofun

end FormData
