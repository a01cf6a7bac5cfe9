/-
Windows under a limit of the request. As long as no more bytes are pulled than the limit allows, every
operation does the same under it as without; and where one would pull more, under the limit it fails
with the first read that passes it (`Capped`, and one lemma an operation).
-/
import FormData.Proofs.Body.Moves

namespace FormData

/-! ## The same under a limit -/

/-- States whose bytes are counted, and that may be under a limit of the request. -/
class Counted (σ : Type) where
  account : σ → Account
  /-- The same state under this limit. -/
  limited : Nat → σ → σ

/-- How an operation under the limit, `y`, compares with the same operation without, `x`: it gives the
same while no more is pulled than the limit allows, and is refused where more is pulled. -/
def Capped {ρ σ : Type} [Counted σ] (refuse : Error → ρ) (limit : Nat) (x y : ρ × σ) : Prop :=
  ((Counted.account x.2).bytesRead ≤ limit ∧ y = (x.1, Counted.limited limit x.2)) ∨
  (limit < (Counted.account x.2).bytesRead ∧ ∃ actual t,
    y = (refuse (.requestSize limit actual), t) ∧
      (Counted.account t).overrun = some (limit, actual))

section

variable {ρ σ : Type} [Counted σ] {refuse : Error → ρ} {limit actual : Nat} {r : ρ} {s t : σ}

theorem Capped.within (h : (Counted.account s).bytesRead ≤ limit) :
    Capped refuse limit (r, s) (r, Counted.limited limit s) :=
  .inl ⟨h, rfl⟩

theorem Capped.passed (h : limit < (Counted.account s).bytesRead)
    (ho : (Counted.account t).overrun = some (limit, actual)) :
    Capped refuse limit (r, s) (refuse (.requestSize limit actual), t) :=
  .inr ⟨h, actual, t, rfl, ho⟩

end

def Account.limited (limit : Nat) (a : Account) : Account :=
  { a with maxRequestSize := some limit }

def Feed.limited (limit : Nat) (f : Feed) : Feed :=
  { f with account := f.account.limited limit }

def Window.limited (limit : Nat) (w : Window) : Window :=
  { w with feed := w.feed.limited limit }

instance : Counted Feed := ⟨Feed.account, Feed.limited⟩

instance : Counted Window := ⟨fun w => w.feed.account, Window.limited⟩

theorem Account.limited_report (limit : Nat) (a : Account) :
    (a.limited limit).report = a.report.limited limit := by
  have hsame : (a.limited limit).listening = a.listening := rfl
  unfold report
  rw [hsame]
  split <;> rfl

theorem Account.limited_countPart (limit : Nat) (a : Account) :
    (a.limited limit).countPart = (a.countPart.1, a.countPart.2.limited limit) := by
  by_cases h : a.HasRoom
  · rw [HasRoom.countPart (a := a.limited limit) h, h.countPart]
    exact congrArg (Prod.mk _) (limited_report limit { a with parts := a.parts + 1 })
  · obtain ⟨most, hm, hl⟩ := not_hasRoom_iff.1 h
    rw [countPart_error (a := a.limited limit) hm hl, countPart_error hm hl]
    rfl

/-! ## Reads -/

theorem Feed.read_capped {f : Feed} {limit : Nat} (hm : f.account.maxRequestSize = none)
    (ho : f.account.overrun = none) (hle : f.account.bytesRead ≤ limit) (room : Nat) :
    Capped .error limit (f.read room) ((f.limited limit).read room) := by
  have ho' : (f.limited limit).account.overrun = none := ho
  unfold Feed.read
  simp only [ho, ho']
  rw [show (f.limited limit).source = f.source from rfl]
  rcases f.source.read room with ⟨e | bytes, source⟩
  · exact .within hle
  · by_cases hb : bytes.isEmpty
    · simp only [hb, if_true]
      exact .within hle
    · simp only [hb, Bool.false_eq_true, if_false]
      -- the same bytes are counted, with the limit and without
      have hfree : f.account.countBytes bytes.length =
          (.ok (), ({ f.account with bytesRead := f.account.bytesRead + bytes.length } : Account).report) := by
        simp only [Account.countBytes, hm]
      rw [hfree]
      obtain ⟨hc, hlimit⟩ | ⟨limit', hlimit, hlt, hc⟩ :=
        (f.limited limit).account.countBytes_cases bytes.length
      · rw [hc]
        have hwithin : f.account.bytesRead + bytes.length ≤ limit := hlimit limit rfl
        refine .inl ⟨?_, ?_⟩
        · exact Nat.le_trans (Nat.le_of_eq (Account.report_bytesRead _)) hwithin
        · exact congrArg (fun a => (Except.ok bytes, (⟨source, a⟩ : Feed)))
            (Account.limited_report limit { f.account with bytesRead := _ })
      · cases hlimit
        rw [hc]
        refine .passed ?_ rfl
        show limit < Account.bytesRead (Account.report _)
        rw [Account.report_bytesRead]
        exact hlt

namespace Window

/-- A window without a limit, from which no more was pulled than this limit allows. -/
structure Under (limit : Nat) (w : Window) : Prop extends Unmetered w where
  within : w.pulled ≤ limit

variable {w w' : Window} {limit : Nat}

theorem Under.moves (h : w.Under limit) (hm : w.Moves w') (hle : w'.pulled ≤ limit) :
    w'.Under limit :=
  ⟨h.toUnmetered.moves hm, hle⟩

theorem Under.metered (h : w.Under limit) : (w.limited limit).Metered limit where
  limited := rfl
  unspent _ := h.within
  spent _ _ ho := by cases h.unspent.symm.trans ho

theorem Under.pass (h : w.Under limit) (count : Nat) : (w.pass count).Under limit :=
  h.moves (.single (.pass w count)) h.within

theorem fill_capped (h : w.Under limit) : Capped .error limit w.fill (w.limited limit).fill := by
  have hread : Capped .error limit (w.feed.read (w.capacity - w.unread.length))
      ((w.limited limit).feed.read ((w.limited limit).capacity - (w.limited limit).unread.length)) :=
    Feed.read_capped h.unlimited h.unspent h.within _
  unfold fill
  obtain ⟨hle, hy⟩ | ⟨hlt, actual, feed, hy, ho⟩ := hread
  · rw [hy]
    rcases hr : w.feed.read (w.capacity - w.unread.length) with ⟨e | bytes, feed⟩ <;> rw [hr] at hle
    · exact .within hle
    · exact .within hle
  · rw [hy]
    rcases hr : w.feed.read (w.capacity - w.unread.length) with ⟨e | bytes, feed'⟩ <;> rw [hr] at hlt
    · exact .passed hlt ho
    · exact .passed hlt ho

theorem refill_capped (h : w.Under limit) : Capped .error limit w.refill (w.limited limit).refill := by
  unfold refill
  obtain ⟨hle, hy⟩ | ⟨hlt, actual, v, hy, ho⟩ := fill_capped h
  · rw [hy]
    rcases hf : w.fill with ⟨e | _ | n, w'⟩ <;> rw [hf] at hle <;> exact .within hle
  · rw [hy]
    rcases hf : w.fill with ⟨e | _ | n, w'⟩ <;> rw [hf] at hlt <;> exact .passed hlt ho

/-! ## Content -/

theorem take_capped (h : w.Under limit) (room : Nat) :
    Capped .error limit (w.take room) ((w.limited limit).take room) := by
  fun_induction take w room with
  | case1 w hroom =>
    rw [take, if_pos hroom]
    exact .within h.within
  | case2 w hroom n found ha =>
    rw [take_ready (w := w.limited limit) hroom ha]
    exact .within h.within
  | case3 w hroom ha =>
    rw [take_found (w := w.limited limit) ha]
    exact .within h.within
  | case4 w hroom ha e w' hf =>
    obtain ⟨hle, hy⟩ | ⟨hlt, actual, v, hy, ho⟩ := refill_capped h
    · rw [hf] at hle hy
      rw [take_failed hroom (w := w.limited limit) ha hy]
      exact .within hle
    · rw [hf] at hlt
      rw [take_failed hroom (w := w.limited limit) ha hy]
      exact .passed hlt ho
  | case5 w hroom ha w' hf _ ih =>
    have hm := w.refill_scanned.moves
    rw [hf] at hm
    obtain ⟨hle, hy⟩ | ⟨hlt, actual, v, hy, ho⟩ := refill_capped h
    · rw [hf] at hle hy
      rw [take_refilled hroom (w := w.limited limit) ha hy]
      exact ih (h.moves hm hle)
    · rw [hf] at hlt
      rw [take_failed hroom (w := w.limited limit) ha hy]
      exact .passed (Nat.lt_of_lt_of_le hlt (w'.take_advances room).moves.pulled_le) ho

theorem discardFrom_capped (count : Nat) (h : w.Under limit) :
    Capped .error limit (w.discardFrom count) ((w.limited limit).discardFrom count) := by
  fun_induction discardFrom count w with
  | case1 count w n ha =>
    rw [discardFrom_found (w := w.limited limit) ha]
    exact .within h.within
  | case2 count w n ha e w' hf =>
    obtain ⟨hle, hy⟩ | ⟨hlt, actual, v, hy, ho⟩ := refill_capped (h.pass n)
    · rw [hf] at hle hy
      rw [discardFrom_failed (w := w.limited limit) ha hy]
      exact .within hle
    · rw [hf] at hlt
      rw [discardFrom_failed (w := w.limited limit) ha hy]
      exact .passed hlt ho
  | case3 count w n ha w' hf _ ih =>
    have hm := (w.pass n).refill_scanned.moves
    rw [hf] at hm
    obtain ⟨hle, hy⟩ | ⟨hlt, actual, v, hy, ho⟩ := refill_capped (h.pass n)
    · rw [hf] at hle hy
      rw [discardFrom_refilled (w := w.limited limit) ha hy]
      exact ih ((h.pass n).moves hm hle)
    · rw [hf] at hlt
      rw [discardFrom_failed (w := w.limited limit) ha hy]
      exact .passed (Nat.lt_of_lt_of_le hlt (w'.discardFrom_scanned _).moves.pulled_le) ho

theorem discard_capped (h : w.Under limit) :
    Capped .error limit w.discard (w.limited limit).discard :=
  discardFrom_capped 0 h

/-! ## Delimiters and header blocks -/

theorem readByte_capped (h : w.Under limit) :
    Capped .error limit w.readByte (w.limited limit).readByte := by
  have hsame : (w.limited limit).unread = w.unread := rfl
  unfold readByte
  rw [hsame]
  rcases w.unread with _ | ⟨b, rest⟩
  · obtain ⟨hle, hy⟩ | ⟨hlt, actual, v, hy, ho⟩ := fill_capped h
    · rw [hy]
      rcases hf : w.fill with ⟨e | n, w'⟩ <;> rw [hf] at hle
      · exact .within hle
      · have hsame' : (w'.limited limit).unread = w'.unread := rfl
        simp only [Counted.limited]
        rw [hsame']
        rcases w'.unread with _ | ⟨b, rest⟩
        · exact .within hle
        · exact .within hle
    · rw [hy]
      rcases hf : w.fill with ⟨e | n, w'⟩ <;> rw [hf] at hlt
      · exact .passed hlt ho
      · simp only
        rcases w'.unread with _ | ⟨b, rest⟩
        · exact .passed hlt ho
        · exact .passed hlt ho
  · exact .within h.within

theorem readBlockFrom_failed {most count : Nat} {ending : Ending} {block : Bytes} {e : Error}
    (hne : ending ≠ .complete) (hr : w.readByte = (.error e, w')) :
    w.readBlockFrom most ending count block = (.error e, w') := by
  rw [readBlockFrom, if_neg hne]
  split
  · rename_i hr'
    cases hr.symm.trans hr'
    rfl
  · rename_i hr'
    cases hr.symm.trans hr'

theorem readBlockFrom_byte {most count : Nat} {ending : Ending} {block : Bytes} {b : UInt8}
    (hne : ending ≠ .complete) (hr : w.readByte = (.ok b, w')) :
    w.readBlockFrom most ending count block =
      if most ≤ count then (.error (.headerSize most (count + 1)), w')
      else w'.readBlockFrom most (ending.next b) (count + 1) (b :: block) := by
  rw [readBlockFrom, if_neg hne]
  split
  · rename_i hr'
    cases hr.symm.trans hr'
  · rename_i hr'
    cases hr.symm.trans hr'
    rfl

theorem afterFirst_capped (h : w.Under limit) (first : UInt8) :
    Capped .error limit (w.afterFirst first) ((w.limited limit).afterFirst first) := by
  unfold afterFirst
  obtain ⟨hle, hy⟩ | ⟨hlt, actual, v, hy, ho⟩ := readByte_capped h
  · rw [hy]
    rcases hr : w.readByte with ⟨e | second, w'⟩ <;> rw [hr] at hle
    · exact .within hle
    · simp only
      split
      · exact .within hle
      · split
        · exact .within hle
        · exact .within hle
  · rw [hy]
    rcases hr : w.readByte with ⟨e | second, w'⟩ <;> rw [hr] at hlt
    · exact .passed hlt ho
    · simp only
      split
      · exact .passed hlt ho
      · split
        · exact .passed hlt ho
        · exact .passed hlt ho

theorem readDelimiter_capped (h : w.Under limit) :
    Capped .error limit w.readDelimiter (w.limited limit).readDelimiter := by
  have hp := h.pass w.pattern.length
  have hm := (w.pass w.pattern.length).readByte_scanned.moves
  rw [readDelimiter_eq, readDelimiter_eq, show (w.limited limit).pattern = w.pattern from rfl,
    show (w.limited limit).unread = w.unread from rfl,
    show (w.limited limit).pass w.pattern.length = (w.pass w.pattern.length).limited limit from rfl]
  split
  · obtain ⟨hle, hy⟩ | ⟨hlt, actual, v, hy, ho⟩ := readByte_capped hp
    · rw [hy]
      rcases hr : (w.pass w.pattern.length).readByte with ⟨e | first, w'⟩ <;> rw [hr] at hle hm
      · exact .within hle
      · exact afterFirst_capped (hp.moves hm hle) first
    · rw [hy]
      rcases hr : (w.pass w.pattern.length).readByte with ⟨e | first, w'⟩ <;> rw [hr] at hlt
      · exact .passed hlt ho
      · exact .passed (Nat.lt_of_lt_of_le hlt (w'.afterFirst_scanned first).moves.pulled_le) ho
  · exact .within h.within

theorem findFirst_capped (h : w.Under limit) :
    Capped .error limit w.findFirst (w.limited limit).findFirst := by
  have hs : ({ w with atStart := true } : Window).Under limit :=
    h.moves (.single (.look w w.boundary true w.isClosed)) h.within
  have hm := (discard_advances { w with atStart := true }).moves
  unfold findFirst
  rw [show ({ w.limited limit with atStart := true } : Window) =
    ({ w with atStart := true } : Window).limited limit from rfl]
  obtain ⟨hle, hy⟩ | ⟨hlt, actual, v, hy, ho⟩ := discard_capped hs
  · rw [hy]
    rcases hd : ({ w with atStart := true } : Window).discard with ⟨e | n, w'⟩ <;> rw [hd] at hle hm
    · cases e <;> exact .within hle
    · obtain ⟨hle', hy'⟩ | ⟨hlt, actual, v, hy', ho⟩ := readDelimiter_capped (hs.moves hm hle)
      · simp only [Counted.limited]
        rw [hy']
        exact .within hle'
      · simp only [Counted.limited]
        rw [hy']
        exact .passed hlt ho
  · rw [hy]
    rcases hd : ({ w with atStart := true } : Window).discard with ⟨e | n, w'⟩ <;> rw [hd] at hlt
    · cases e <;> exact .passed hlt ho
    · exact .passed (Nat.lt_of_lt_of_le hlt w'.readDelimiter_advances.moves.pulled_le) ho

theorem readBlockFrom_capped (most : Nat) (ending : Ending) (count : Nat) (block : Bytes)
    (h : w.Under limit) :
    Capped .error limit (w.readBlockFrom most ending count block)
      ((w.limited limit).readBlockFrom most ending count block) := by
  fun_induction readBlockFrom most ending count block w with
  | case1 =>
    rw [readBlockFrom, if_pos rfl]
    exact .within h.within
  | case2 ending count block w hne e w' hr =>
    obtain ⟨hle, hy⟩ | ⟨hlt, actual, v, hy, ho⟩ := readByte_capped h
    · rw [hr] at hle hy
      rw [readBlockFrom_failed hne hy]
      exact .within hle
    · rw [hr] at hlt
      rw [readBlockFrom_failed hne hy]
      exact .passed hlt ho
  | case3 ending count block w hne b w' hr _ hfull =>
    obtain ⟨hle, hy⟩ | ⟨hlt, actual, v, hy, ho⟩ := readByte_capped h
    · rw [hr] at hle hy
      rw [readBlockFrom_byte hne hy, if_pos hfull]
      exact .within hle
    · rw [hr] at hlt
      rw [readBlockFrom_failed hne hy]
      exact .passed hlt ho
  | case4 ending count block w hne b w' hr _ hroom ih =>
    have hm := w.readByte_scanned.moves
    rw [hr] at hm
    obtain ⟨hle, hy⟩ | ⟨hlt, actual, v, hy, ho⟩ := readByte_capped h
    · rw [hr] at hle hy
      rw [readBlockFrom_byte hne hy, if_neg hroom]
      exact ih (h.moves hm hle)
    · rw [hr] at hlt
      rw [readBlockFrom_failed hne hy]
      exact .passed (Nat.lt_of_lt_of_le hlt (w'.readBlockFrom_scanned _ _ _ _).moves.pulled_le) ho

theorem readHeaderBlock_capped (h : w.Under limit) (most : Nat) :
    Capped .error limit (w.readHeaderBlock most) ((w.limited limit).readHeaderBlock most) :=
  readBlockFrom_capped most .crlf 0 [] h

theorem setBoundary_capped (h : w.Under limit) (boundary : Bytes) :
    Capped .error limit (w.setBoundary boundary) ((w.limited limit).setBoundary boundary) := by
  unfold setBoundary
  rw [show (w.limited limit).capacity = w.capacity from rfl]
  split
  · exact .within h.within
  · exact .within h.within

end Window

end FormData
