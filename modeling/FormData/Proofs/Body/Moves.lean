/-
What a window can do at all. Whatever an operation on it is for, it goes by small steps: it reads once
from its source, passes bytes, looks for another pattern, or counts a part (`Window.Step`). So what
each step keeps every operation keeps (`Placed.moves`, `Metered.moves`, `Moves.pulled_le`).
-/
import Mathlib.Logic.Relation
import FormData.Proofs.Body.Overrun
import FormData.Proofs.Body.Stalled

namespace FormData

/-! ## One read -/

theorem Transport.readFrom_length_le (t : Transport) (room : Nat) (segments : List Segment) :
    (Source.delivered (t.readFrom room segments).1).length ≤ room := by
  induction segments with
  | nil => rw [readFrom, Source.delivered_readEnd]; exact Nat.zero_le _
  | cons segment rest ih =>
    cases segment with
    | interruption => exact ih
    | failure error => exact Nat.zero_le _
    | data bytes =>
      by_cases h : bytes.isEmpty
      · simp only [readFrom, h, if_true, Source.delivered]
        exact Nat.zero_le _
      · simp only [readFrom, h, Bool.false_eq_true, if_false, Source.delivered, List.length_take]
        omega

/-- A read delivers no more than it has room for. -/
theorem Source.read_length_le (s : Source) (room : Nat) :
    (delivered (s.read room).1).length ≤ room := by
  unfold read
  split
  · exact Transport.readFrom_length_le s.transport room _
  · rcases s.fillBuffer with ⟨e | ⟨⟩, s'⟩
    · exact Nat.zero_le _
    · simp only [delivered, List.length_take]
      omega

namespace Account

@[simp] theorem report_bytesRead (a : Account) : a.report.bytesRead = a.bytesRead := by
  unfold report; split <;> rfl

/-- What counting bytes does: within the limit it reports them, past it it marks the limit. -/
theorem countBytes_cases (a : Account) (count : Nat) :
    (a.countBytes count = (.ok (), ({ a with bytesRead := a.bytesRead + count } : Account).report) ∧
      ∀ limit, a.maxRequestSize = some limit → a.bytesRead + count ≤ limit) ∨
    (∃ limit, a.maxRequestSize = some limit ∧ limit < a.bytesRead + count ∧
      a.countBytes count = (.error (.requestSize limit (a.bytesRead + count)),
        { a with
          bytesRead := a.bytesRead + count
          overrun := some (limit, a.bytesRead + count) })) := by
  rcases hm : a.maxRequestSize with _ | limit
  · exact .inl ⟨by simp only [countBytes, hm], nofun⟩
  · by_cases hl : limit < a.bytesRead + count
    · exact .inr ⟨limit, rfl, hl, by simp only [countBytes, hm, if_pos hl]⟩
    · refine .inl ⟨by simp only [countBytes, hm, if_neg hl], ?_⟩
      rintro _ ⟨⟩
      exact Nat.le_of_not_lt hl

theorem countPart_keeps (a : Account) :
    a.countPart.2.bytesRead = a.bytesRead ∧ a.countPart.2.maxRequestSize = a.maxRequestSize ∧
      a.countPart.2.overrun = a.overrun := by
  rcases hm : a.maxParts with _ | limit
  · simp [countPart, hm]
  · by_cases hl : limit < a.parts + 1
    · simp [countPart, hm, hl]
    · simp [countPart, hm, hl]

end Account

/-- What a read of a feed does: it is refused behind the limit, or gets nothing, or gets some bytes
and counts them. -/
theorem Feed.read_cases (f : Feed) (room : Nat) :
    ((∀ bytes, (f.read room).1 = .ok bytes → bytes = []) ∧
      (f.read room).2.source.pending = f.source.pending ∧ (f.read room).2.account = f.account) ∨
    (∃ got, f.account.overrun = none ∧ got ≠ [] ∧ got.length ≤ room ∧
      f.source.pending = got ++ (f.read room).2.source.pending ∧
      (f.read room).1 = (f.account.countBytes got.length).1.map (fun _ => got) ∧
      (f.read room).2.account = (f.account.countBytes got.length).2) := by
  have hp := f.source.read_pending room
  have hlen := f.source.read_length_le room
  rcases ho : f.account.overrun with _ | ⟨limit, actual⟩
  · rcases hr : f.source.read room with ⟨e | bytes, source⟩ <;> rw [hr] at hp hlen
    · have hread : f.read room = (.error (.ofIo e), { f with source }) := by
        unfold Feed.read
        simp only [ho, hr]
      rw [hread]
      exact .inl ⟨nofun, hp.symm, rfl⟩
    · rcases bytes with _ | ⟨b, bytes⟩
      · have hread : f.read room = (.ok [], { f with source }) := by
          unfold Feed.read
          simp only [ho, hr, List.isEmpty_nil, if_true]
        rw [hread]
        exact .inl ⟨fun _ h => (Except.ok.inj h).symm, hp.symm, rfl⟩
      · have hread : f.read room = ((f.account.countBytes (b :: bytes).length).1.map fun _ => b :: bytes,
            ⟨source, (f.account.countBytes (b :: bytes).length).2⟩) := by
          unfold Feed.read
          simp only [ho, hr, List.isEmpty_cons, Bool.false_eq_true, if_false]
          rcases f.account.countBytes (b :: bytes).length with ⟨e | ⟨⟩, account⟩ <;> rfl
        rw [hread]
        exact .inr ⟨b :: bytes, rfl, nofun, hlen, hp, rfl, rfl⟩
  · rw [Feed.read_overrun ho]
    exact .inl ⟨nofun, rfl, rfl⟩

/-! ## Steps of a window -/

namespace Window

/-- The bytes pulled from the source so far. -/
def pulled (w : Window) : Nat :=
  w.feed.account.bytesRead

/-- The window with one more part counted. -/
def countPart (w : Window) : Window :=
  { w with feed := { w.feed with account := w.feed.account.countPart.2 } }

inductive Step : Window → Window → Prop
  | fill (w : Window) : Step w w.fill.2
  | pass (w : Window) (count : Nat) : Step w (w.pass count)
  | look (w : Window) (boundary : Bytes) (atStart isClosed : Bool) :
    Step w { w with boundary, atStart, isClosed }
  | countPart (w : Window) : Step w w.countPart

/-- One step after the other. -/
abbrev Moves : Window → Window → Prop :=
  Relation.ReflTransGen Step

variable {w w' : Window}

/-- What filling does to the bytes at hand. -/
theorem fill_cases (w : Window) :
    (w.fill.2.pending = w.pending ∧ w.fill.2.feed.source.pending = w.feed.source.pending ∧
      w.fill.2.feed.account = w.feed.account) ∨
    (∃ got, w.feed.account.overrun = none ∧ got.length ≤ w.capacity ∧
      w.feed.source.pending = got ++ w.fill.2.feed.source.pending ∧
      w.fill.2.feed.account = (w.feed.account.countBytes got.length).2 ∧
      ((w.feed.account.countBytes got.length).1 = .ok () → w.fill.2.pending = w.pending)) := by
  have h := w.feed.read_cases (w.capacity - w.unread.length)
  unfold fill
  rcases hr : w.feed.read (w.capacity - w.unread.length) with ⟨e | bytes, feed⟩ <;> rw [hr] at h
  · obtain ⟨-, hp, ha⟩ | ⟨got, ho, -, hlen, hp, he, ha⟩ := h
    · refine .inl ⟨?_, hp, ha⟩
      simp only [pending]
      rw [hp]
    · refine .inr ⟨got, ho, by omega, hp, ha, fun hok => ?_⟩
      rw [hok] at he
      cases he
  · obtain ⟨hnil, hp, ha⟩ | ⟨got, ho, -, hlen, hp, he, ha⟩ := h
    · refine .inl ⟨?_, hp, ha⟩
      simp only [pending]
      rw [hnil bytes rfl, hp, List.append_nil]
    · refine .inr ⟨got, ho, by omega, hp, ha, fun hok => ?_⟩
      rw [hok] at he
      cases he
      simp only [pending] at hp ⊢
      rw [hp, List.append_assoc]

theorem fill_capacity (w : Window) : w.fill.2.capacity = w.capacity := by
  unfold fill
  split <;> rfl

theorem Step.capacity_eq (h : Step w w') : w'.capacity = w.capacity := by
  cases h with
  | fill => exact w.fill_capacity
  | _ => rfl

/-- No step adds to the errors that the source may raise. -/
theorem Step.failures (h : Step w w') : w'.failures ⊆ w.failures := by
  cases h with
  | fill => exact w.fill_failures
  | _ => exact List.Subset.refl _

theorem Step.pulled_le (h : Step w w') : w.pulled ≤ w'.pulled := by
  cases h with
  | fill =>
    unfold pulled
    obtain ⟨-, -, ha⟩ | ⟨got, -, -, -, ha, -⟩ := w.fill_cases
    · exact Nat.le_of_eq (congrArg Account.bytesRead ha.symm)
    · rw [ha]
      obtain ⟨hc, -⟩ | ⟨limit, -, -, hc⟩ := w.feed.account.countBytes_cases got.length
      · simp only [hc, Account.report_bytesRead]
        omega
      · simp only [hc]
        omega
  | countPart => exact Nat.le_of_eq w.feed.account.countPart_keeps.1.symm
  | _ => exact Nat.le_refl _

theorem Moves.capacity_eq (h : w.Moves w') : w'.capacity = w.capacity := by
  induction h with
  | refl => rfl
  | tail _ hs ih => exact hs.capacity_eq.trans ih

theorem Moves.failures (h : w.Moves w') : w'.failures ⊆ w.failures := by
  induction h with
  | refl => exact List.Subset.refl _
  | tail _ hs ih => exact List.Subset.trans hs.failures ih

theorem Moves.pulled_le (h : w.Moves w') : w.pulled ≤ w'.pulled := by
  induction h with
  | refl => exact Nat.le_refl _
  | tail _ hs ih => exact Nat.le_trans ih hs.pulled_le

/-- Where a window stands in a body: all of that was pulled or is pending in the source, and until
the limit of the request is passed no byte is lost between the two. -/
structure Placed (body : Bytes) (w : Window) : Prop where
  pulled : w.pulled + w.feed.source.pending.length = body.length
  pending : w.feed.account.overrun = none → w.pending <:+ body

theorem Placed.step {body : Bytes} (h : w.Placed body) (hs : Step w w') : w'.Placed body := by
  cases hs with
  | fill =>
    obtain ⟨hp, hsource, ha⟩ | ⟨got, ho, -, hsource, ha, hp⟩ := w.fill_cases
    · refine ⟨?_, fun hnone => ?_⟩
      · rw [Window.pulled, ha, hsource]
        exact h.pulled
      · rw [hp]
        exact h.pending (ha ▸ hnone)
    · have hlen := congrArg List.length hsource
      have hall := h.pulled
      rw [List.length_append] at hlen
      unfold Window.pulled at hall
      obtain ⟨hc, -⟩ | ⟨limit, -, -, hc⟩ := w.feed.account.countBytes_cases got.length
      · refine ⟨?_, fun _ => ?_⟩
        · rw [Window.pulled, ha, hc]
          simp only [Account.report_bytesRead]
          omega
        · rw [hp (by rw [hc])]
          exact h.pending ho
      · refine ⟨?_, fun hnone => ?_⟩
        · rw [Window.pulled, ha, hc]
          simp only
          omega
        · rw [ha, hc] at hnone
          cases hnone
  | pass count =>
    refine ⟨h.pulled, fun hnone => ?_⟩
    obtain ⟨front, hfront⟩ := h.pending hnone
    refine ⟨front ++ w.unread.take count, ?_⟩
    rw [← hfront]
    simp only [Window.pending, Window.pass]
    rw [List.append_assoc, ← List.append_assoc (w.unread.take count), List.take_append_drop]
  | look => exact ⟨h.pulled, h.pending⟩
  | countPart =>
    obtain ⟨hb, -, ho⟩ := w.feed.account.countPart_keeps
    refine ⟨?_, fun hnone => h.pending (ho ▸ hnone)⟩
    have hall := h.pulled
    unfold Window.pulled at hall ⊢
    unfold Window.countPart
    simp only
    rw [hb, hall]

theorem Placed.moves {body : Bytes} (h : w.Placed body) (hm : w.Moves w') : w'.Placed body := by
  induction hm with
  | refl => exact h
  | tail _ hs ih => exact ih.step hs

/-- Under a limit of the request, the account tells whether it was passed, and by how much. -/
structure Metered (limit : Nat) (w : Window) : Prop where
  limited : w.feed.account.maxRequestSize = some limit
  unspent : w.feed.account.overrun = none → w.pulled ≤ limit
  spent : ∀ most actual, w.feed.account.overrun = some (most, actual) →
    most = limit ∧ actual = w.pulled ∧ limit < actual ∧ actual ≤ limit + w.capacity

theorem Metered.step {limit : Nat} (h : w.Metered limit) (hs : Step w w') : w'.Metered limit := by
  cases hs with
  | fill =>
    obtain ⟨-, -, ha⟩ | ⟨got, ho, hlen, -, ha, -⟩ := w.fill_cases
    · refine ⟨?_, ?_, ?_⟩
      · rw [ha, h.limited]
      · rw [pulled, ha]
        exact h.unspent
      · rw [pulled, ha, w.fill_capacity]
        exact h.spent
    · have hwithin := h.unspent ho
      unfold pulled at hwithin
      obtain ⟨hc, hle⟩ | ⟨limit', hlimit, hlt, hc⟩ := w.feed.account.countBytes_cases got.length
      · refine ⟨?_, fun _ => ?_, fun most actual hover => ?_⟩
        · rw [ha, hc]
          simp only [Account.report_maxRequestSize]
          exact h.limited
        · rw [pulled, ha, hc]
          simp only [Account.report_bytesRead]
          exact hle limit h.limited
        · rw [ha, hc] at hover
          simp only [Account.report_overrun] at hover
          cases ho.symm.trans hover
      · cases hlimit.symm.trans h.limited
        refine ⟨?_, fun hnone => ?_, fun most actual hover => ?_⟩
        · rw [ha, hc]
          exact h.limited
        · rw [ha, hc] at hnone
          cases hnone
        · rw [ha, hc] at hover
          cases hover
          rw [pulled, ha, hc, w.fill_capacity]
          exact ⟨rfl, rfl, hlt, by omega⟩
  | countPart =>
    obtain ⟨hb, hm, ho⟩ := w.feed.account.countPart_keeps
    refine ⟨hm.trans h.limited, fun hnone => ?_, fun most actual hover => ?_⟩
    · exact Nat.le_trans (Nat.le_of_eq hb) (h.unspent (ho ▸ hnone))
    · obtain ⟨h1, h2, h3⟩ := h.spent most actual (ho ▸ hover)
      exact ⟨h1, h2.trans hb.symm, h3⟩
  | pass | look => exact ⟨h.limited, h.unspent, h.spent⟩

theorem Metered.moves {limit : Nat} (h : w.Metered limit) (hm : w.Moves w') : w'.Metered limit := by
  induction hm with
  | refl => exact h
  | tail _ hs ih => exact ih.step hs

/-- No limit on the request, so none was passed. -/
structure Unmetered (w : Window) : Prop where
  unlimited : w.feed.account.maxRequestSize = none
  unspent : w.feed.account.overrun = none

theorem Unmetered.step (h : w.Unmetered) (hs : Step w w') : w'.Unmetered := by
  cases hs with
  | fill =>
    obtain ⟨-, -, ha⟩ | ⟨got, -, -, -, ha, -⟩ := w.fill_cases
    · exact ⟨ha ▸ h.unlimited, ha ▸ h.unspent⟩
    · obtain ⟨hc, -⟩ | ⟨limit, hlimit, -, -⟩ := w.feed.account.countBytes_cases got.length
      · rw [hc] at ha
        refine ⟨?_, ?_⟩
        · rw [ha, Account.report_maxRequestSize]
          exact h.unlimited
        · rw [ha, Account.report_overrun]
          exact h.unspent
      · cases hlimit.symm.trans h.unlimited
  | countPart =>
    obtain ⟨-, hm, ho⟩ := w.feed.account.countPart_keeps
    exact ⟨hm.trans h.unlimited, ho.trans h.unspent⟩
  | pass | look => exact ⟨h.unlimited, h.unspent⟩

theorem Unmetered.moves (h : w.Unmetered) (hm : w.Moves w') : w'.Unmetered := by
  induction hm with
  | refl => exact h
  | tail _ hs ih => exact ih.step hs

/-! ## Operations -/

/-- The window moves on and looks for the same boundary as before. -/
structure Advances (w w' : Window) : Prop where
  moves : w.Moves w'
  boundary : w'.boundary = w.boundary

theorem Advances.refl (w : Window) : w.Advances w := ⟨.refl, rfl⟩

theorem Advances.trans {w'' : Window} (h1 : w.Advances w') (h2 : w'.Advances w'') : w.Advances w'' :=
  ⟨h1.moves.trans h2.moves, h2.boundary.trans h1.boundary⟩

/-- A step that counts no part and looks for the same boundary. -/
inductive Scan : Window → Window → Prop
  | fill (w : Window) : Scan w w.fill.2
  | pass (w : Window) (count : Nat) : Scan w (w.pass count)
  | look (w : Window) (atStart isClosed : Bool) : Scan w { w with atStart, isClosed }

/-- One scan after the other. -/
abbrev Scans : Window → Window → Prop :=
  Relation.ReflTransGen Scan

theorem Scan.advances (h : Scan w w') : w.Advances w' := by
  cases h with
  | fill =>
    refine ⟨.single (.fill w), ?_⟩
    unfold Window.fill
    split <;> rfl
  | pass count => exact ⟨.single (.pass w count), rfl⟩
  | look atStart isClosed => exact ⟨.single (.look w w.boundary atStart isClosed), rfl⟩

theorem Scans.advances (h : w.Scans w') : w.Advances w' := by
  induction h with
  | refl => exact .refl w
  | tail _ hs ih => exact ih.trans hs.advances

/-- An operation scans the window, and fails by itself or because the source does. -/
structure Scanned {α : Type} (w : Window) (x : Except Error α × Window) : Prop where
  scans : w.Scans x.2
  cause : ∀ e, x.1 = .error e → e ∈ w.failures ∨ e.IsOfScan

namespace Scanned

variable {α β : Type} {x : Except Error α × Window} {e : Error}

theorem done {a : α} (h : w.Scans w') : w.Scanned (Except.ok a, w') := ⟨h, nofun⟩

/-- An operation that goes on from where another came to. -/
theorem after (h : w'.Scanned x) (hw : w.Scans w') : w.Scanned x :=
  ⟨hw.trans h.scans, fun e he => (h.cause e he).imp_left fun hmem => hw.advances.moves.failures hmem⟩

/-- An operation that stops by itself. -/
theorem stopped (h : w.Scans w') (he : e.IsOfScan) : w.Scanned ((.error e, w') : Except Error α × Window) := by
  refine ⟨h, ?_⟩
  rintro _ ⟨⟩
  exact .inr he

/-- The error of one operation is that of another. -/
theorem failed (h : w.Scanned ((.error e, w') : Except Error α × Window)) :
    w.Scanned ((.error e, w') : Except Error β × Window) :=
  ⟨h.scans, fun _ he => h.cause _ (congrArg Except.error (Except.error.inj he))⟩

theorem moves (h : w.Scanned x) : w.Moves x.2 := h.scans.advances.moves

end Scanned

theorem look_scans (w : Window) (atStart isClosed : Bool) : w.Scans { w with atStart, isClosed } :=
  .single (.look w atStart isClosed)

theorem fill_scanned (w : Window) : w.Scanned w.fill := by
  refine ⟨.single (.fill w), fun e he => ?_⟩
  obtain hraised | ⟨limit, actual, rfl⟩ := fill_error_cases (Prod.ext he rfl)
  · exact .inl hraised
  · exact .inr trivial

theorem refill_scanned (w : Window) : w.Scanned w.refill := by
  have h := w.fill_scanned
  unfold refill
  rcases hf : w.fill with ⟨e | _ | n, w'⟩ <;> rw [hf] at h
  · exact h.failed
  · exact .stopped h.scans trivial
  · exact .done h.scans

theorem take_scanned (w : Window) (room : Nat) : w.Scanned (w.take room) := by
  fun_induction take w room with
  | case1 => exact .done .refl
  | case2 => exact .done (.single (.pass _ _))
  | case3 => exact .done .refl
  | case4 w _ _ e w' hf =>
    have h := w.refill_scanned
    rw [hf] at h
    exact h.failed
  | case5 w _ _ w' hf _ ih =>
    have h := w.refill_scanned
    rw [hf] at h
    exact ih.after h.scans

theorem discardFrom_scanned (count : Nat) (w : Window) : w.Scanned (w.discardFrom count) := by
  fun_induction discardFrom count w with
  | case1 => exact .done (.single (.pass _ _))
  | case2 count w n _ e w' hf =>
    have h := (w.pass n).refill_scanned
    rw [hf] at h
    exact h.failed.after (.single (.pass w n))
  | case3 count w n _ w' hf _ ih =>
    have h := (w.pass n).refill_scanned
    rw [hf] at h
    exact (ih.after h.scans).after (.single (.pass w n))

theorem discard_scanned (w : Window) : w.Scanned w.discard :=
  w.discardFrom_scanned 0

theorem front_scans {b : UInt8} {rest : Bytes} (h : w.unread = b :: rest) :
    w.Scans { w with unread := rest } := by
  have hpass : w.Scans (w.pass 1) := .single (.pass w 1)
  rwa [pass, h] at hpass

theorem readByte_scanned (w : Window) : w.Scanned w.readByte := by
  have h := w.fill_scanned
  unfold readByte
  split
  · rename_i hu
    exact .done (front_scans hu)
  · rcases hf : w.fill with ⟨e | n, w'⟩ <;> rw [hf] at h
    · exact h.failed
    · simp only
      split
      · rename_i hu
        exact .done (h.scans.trans (front_scans hu))
      · exact .stopped h.scans trivial

/-- What is read of a delimiter behind the first of the two bytes after it. -/
def afterFirst (first : UInt8) (w : Window) : Except Error Bool × Window :=
  match w.readByte with
  | (.error e, w) => (.error e, w)
  | (.ok second, w) =>
    if first = Bytes.cr ∧ second = Bytes.lf then (.ok true, { w with isClosed := false })
    else if first = Bytes.dash ∧ second = Bytes.dash then (.ok false, { w with isClosed := true })
    else (.error (.malformed .afterBoundary), w)

theorem readDelimiter_eq (w : Window) :
    w.readDelimiter = if w.pattern.isPrefixOf w.unread then
        match (w.pass w.pattern.length).readByte with
        | (.error e, w) => (.error e, w)
        | (.ok first, w) => w.afterFirst first
      else (.error (.malformed .noBoundaryHere), w) := rfl

theorem afterFirst_scanned (first : UInt8) (w : Window) : w.Scanned (w.afterFirst first) := by
  have h := w.readByte_scanned
  unfold afterFirst
  rcases hr : w.readByte with ⟨e | second, w'⟩ <;> rw [hr] at h
  · exact h.failed
  · simp only
    split
    · exact .done (h.scans.trans (w'.look_scans _ _))
    · split
      · exact .done (h.scans.trans (w'.look_scans _ _))
      · exact .stopped h.scans trivial

theorem readDelimiter_scanned (w : Window) : w.Scanned w.readDelimiter := by
  have h0 : w.Scans (w.pass w.pattern.length) := .single (.pass w _)
  have h1 := (w.pass w.pattern.length).readByte_scanned
  rw [readDelimiter_eq]
  split
  · rcases hr : (w.pass w.pattern.length).readByte with ⟨e | first, w'⟩ <;> rw [hr] at h1
    · exact h1.failed.after h0
    · exact ((w'.afterFirst_scanned first).after h1.scans).after h0
  · exact .stopped .refl trivial

theorem findFirst_scanned (w : Window) : w.Scanned w.findFirst := by
  have h0 : w.Scans { w with atStart := true } := w.look_scans true w.isClosed
  have h1 := discard_scanned { w with atStart := true }
  unfold findFirst
  rcases hd : ({ w with atStart := true } : Window).discard with ⟨e | n, w'⟩ <;> rw [hd] at h1
  · have hback : w.Scans { w' with atStart := false } :=
      (h0.trans h1.scans).trans (w'.look_scans false w'.isClosed)
    cases e with
    | malformed fault => exact .stopped hback trivial
    | _ =>
      refine ⟨hback, ?_⟩
      rintro _ ⟨⟩
      exact h1.cause _ rfl
  · have hread := (w'.readDelimiter_scanned.after h1.scans).after h0
    exact ⟨hread.scans.trans (look_scans _ _ _), hread.cause⟩

theorem readBlockFrom_scanned (limit : Nat) (ending : Ending) (count : Nat) (block : Bytes)
    (w : Window) : w.Scanned (w.readBlockFrom limit ending count block) := by
  fun_induction readBlockFrom limit ending count block w with
  | case1 => exact .done .refl
  | case2 _ _ _ w _ e w' hr =>
    have h := w.readByte_scanned
    rw [hr] at h
    exact h.failed
  | case3 _ _ _ w _ b w' hr _ _ =>
    have h := w.readByte_scanned
    rw [hr] at h
    exact .stopped h.scans trivial
  | case4 _ _ _ w _ b w' hr _ _ ih =>
    have h := w.readByte_scanned
    rw [hr] at h
    exact ih.after h.scans

theorem readHeaderBlock_scanned (w : Window) (limit : Nat) : w.Scanned (w.readHeaderBlock limit) :=
  w.readBlockFrom_scanned limit .crlf 0 []

theorem look_advances (w : Window) (atStart isClosed : Bool) :
    w.Advances { w with atStart, isClosed } :=
  (w.look_scans atStart isClosed).advances

theorem take_advances (w : Window) (room : Nat) : w.Advances (w.take room).2 :=
  (w.take_scanned room).scans.advances

theorem discard_advances (w : Window) : w.Advances w.discard.2 :=
  w.discard_scanned.scans.advances

theorem readDelimiter_advances (w : Window) : w.Advances w.readDelimiter.2 :=
  w.readDelimiter_scanned.scans.advances

theorem findFirst_advances (w : Window) : w.Advances w.findFirst.2 :=
  w.findFirst_scanned.scans.advances

theorem readHeaderBlock_advances (w : Window) (limit : Nat) :
    w.Advances (w.readHeaderBlock limit).2 :=
  (w.readHeaderBlock_scanned limit).scans.advances

theorem setBoundary_cases (w : Window) (boundary : Bytes) :
    (w.setBoundary boundary = (.ok (), { w with boundary })) ∨
      ∃ fault, w.setBoundary boundary = (.error (.settings fault), w) := by
  unfold setBoundary checkBoundary
  split
  · rename_i e he
    split at he
    · cases he
      exact .inr ⟨_, rfl⟩
    · split at he
      · cases he
        exact .inr ⟨_, rfl⟩
      · cases he
  · exact .inl rfl

theorem setBoundary_moves (w : Window) (boundary : Bytes) : w.Moves (w.setBoundary boundary).2 := by
  obtain hset | ⟨fault, hset⟩ := w.setBoundary_cases boundary <;> simp only [hset]
  · exact .single (.look _ _ _ _)
  · exact .refl

end Window

end FormData
