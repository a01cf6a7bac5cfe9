/-
What is counted and what the listener is told. The count of bytes is what the reads of the source gave,
every report goes beyond the one before it by the bytes of one read or by one part, and none goes past
a limit (`Feed.Logged`). As long as no limit was passed the last report tells the progress
(`Account.Current`), and reading on keeps it so (`Feed.Tallied.read`, `Window.Tallied.scans`).
-/
import Mathlib.Data.List.Chain
import FormData.Settings
import FormData.Proofs.Body.Moves

namespace FormData

/-! ## Reads of a source -/

namespace Source

/-- Reads of a source one after the other: what they gave, and the source behind them. -/
inductive Reading (start : Source) : List (Except IoError Bytes) → Source → Prop
  | none : Reading start [] start
  | read {log : List (Except IoError Bytes)} {s : Source} (h : Reading start log s) (room : Nat) :
    Reading start (log ++ [(s.read room).1]) (s.read room).2

/-- How many bytes these reads gave. -/
def total (log : List (Except IoError Bytes)) : Nat :=
  (log.flatMap delivered).length

@[simp] theorem total_concat (log : List (Except IoError Bytes)) (r : Except IoError Bytes) :
    total (log ++ [r]) = total log + (delivered r).length := by
  simp [total]

end Source

/-- A report goes beyond an earlier one by the bytes of the read that came then, or by one part. -/
def Progress.Follows (log : List (Except IoError Bytes)) (later earlier : Progress) : Prop :=
  later.contentLength = earlier.contentLength ∧
    ((later.parts = earlier.parts ∧ ∃ front bytes, front ++ [.ok bytes] <+: log ∧ bytes ≠ [] ∧
        earlier.bytesRead = Source.total front ∧
        later.bytesRead = earlier.bytesRead + bytes.length) ∨
      (later.parts = earlier.parts + 1 ∧ later.bytesRead = earlier.bytesRead))

theorem Progress.Follows.mono {log log' : List (Except IoError Bytes)} {later earlier : Progress}
    (h : Progress.Follows log later earlier) (hlog : log <+: log') :
    Progress.Follows log' later earlier := by
  obtain ⟨hlength, ⟨hparts, front, bytes, hfront, hne, hearlier, hlater⟩ | hpart⟩ := h
  · exact ⟨hlength, .inl ⟨hparts, front, bytes, hfront.trans hlog, hne, hearlier, hlater⟩⟩
  · exact ⟨hlength, .inr hpart⟩

/-! ## Accounts -/

namespace Account

/-- The progress before anything was read. -/
def origin (a : Account) : Progress :=
  ⟨0, a.contentLength, 0⟩

/-- Each report follows the one before it, the first one what was before anything was read, and none
goes past a limit. -/
structure Told (log : List (Except IoError Bytes)) (a : Account) : Prop where
  chain : (a.reports ++ [a.origin]).IsChain (Progress.Follows log)
  bytes : ∀ limit, a.maxRequestSize = some limit → ∀ r ∈ a.reports, r.bytesRead ≤ limit
  parts : ∀ limit, a.maxParts = some limit → ∀ r ∈ a.reports, r.parts ≤ limit

/-- The bytes read are within the limit, and a listener was told the progress. -/
structure Current (a : Account) : Prop where
  latest : a.listening = true → (a.reports ++ [a.origin]).head? = some a.progress
  bytes : ∀ limit, a.maxRequestSize = some limit → a.bytesRead ≤ limit

@[simp] theorem report_contentLength (a : Account) : a.report.contentLength = a.contentLength := by
  unfold report; split <;> rfl

@[simp] theorem report_listening (a : Account) : a.report.listening = a.listening := by
  unfold report; split <;> rfl

variable {a : Account} {log log' : List (Except IoError Bytes)}

theorem Told.mono (h : a.Told log) (hlog : log <+: log') : a.Told log' where
  chain := h.chain.imp fun _ _ hfollows => hfollows.mono hlog
  bytes := h.bytes
  parts := h.parts

/-- Progress that is within the limits may be told. -/
theorem Told.report (h : a.Told log) (hc : a.Current) {bytesRead parts : Nat}
    (hf : Progress.Follows log ⟨bytesRead, a.contentLength, parts⟩ a.progress)
    (hbytes : ∀ limit, a.maxRequestSize = some limit → bytesRead ≤ limit)
    (hparts : ∀ limit, a.maxParts = some limit → parts ≤ limit) :
    ({ a with bytesRead, parts } : Account).report.Told log ∧
      ({ a with bytesRead, parts } : Account).report.Current := by
  unfold Account.report
  rcases hl : a.listening with _ | _
  · exact ⟨⟨h.chain, h.bytes, h.parts⟩, ⟨nofun, hbytes⟩⟩
  · refine ⟨⟨?_, ?_, ?_⟩, ⟨fun _ => rfl, hbytes⟩⟩
    · refine List.isChain_cons.2 ⟨?_, h.chain⟩
      intro earlier hearlier
      cases (hc.latest hl).symm.trans hearlier
      exact hf
    · intro limit hm r hr
      rcases List.mem_cons.1 hr with rfl | hr
      · exact hbytes limit hm
      · exact h.bytes limit hm r hr
    · intro limit hm r hr
      rcases List.mem_cons.1 hr with rfl | hr
      · exact hparts limit hm
      · exact h.parts limit hm r hr

end Account

/-! ## Feeds -/

/-- What a read of a feed does to its source and account: nothing past the limit of the request, else
one read of the source, which is counted if it gives anything. -/
theorem Feed.read_source (f : Feed) (room : Nat) :
    (f.account.overrun ≠ none ∧ (f.read room).2 = f) ∨
    (f.account.overrun = none ∧ Source.delivered (f.source.read room).1 = [] ∧
      (f.read room).2 = { f with source := (f.source.read room).2 }) ∨
    (∃ bytes, f.account.overrun = none ∧ bytes ≠ [] ∧ (f.source.read room).1 = .ok bytes ∧
      (f.read room).2 = ⟨(f.source.read room).2, (f.account.countBytes bytes.length).2⟩) := by
  rcases ho : f.account.overrun with _ | ⟨limit, actual⟩
  · right
    rcases hr : f.source.read room with ⟨e | bytes, source⟩
    · refine .inl ⟨rfl, rfl, ?_⟩
      unfold Feed.read
      simp only [ho, hr]
    · rcases bytes with _ | ⟨b, bytes⟩
      · refine .inl ⟨rfl, rfl, ?_⟩
        unfold Feed.read
        simp only [ho, hr, List.isEmpty_nil, if_true]
      · refine .inr ⟨b :: bytes, rfl, nofun, rfl, ?_⟩
        unfold Feed.read
        simp only [ho, hr, List.isEmpty_cons, Bool.false_eq_true, if_false]
        rcases f.account.countBytes (b :: bytes).length with ⟨e | ⟨⟩, account⟩ <;> rfl
  · exact .inl ⟨nofun, congrArg Prod.snd (Feed.read_overrun ho room)⟩

/-- What the account of a feed says of the reads that were made on a source. -/
structure Feed.Logged (source : Source) (settings : Settings) (log : List (Except IoError Bytes))
    (f : Feed) : Prop where
  reading : source.Reading log f.source
  bytesRead : f.account.bytesRead = Source.total log
  told : f.account.Told log
  contentLength : f.account.contentLength = source.declared
  maxRequestSize : f.account.maxRequestSize = settings.maxRequestSize
  maxParts : f.account.maxParts = settings.maxParts
  listening : f.account.listening = settings.listening

/-- The account is right, and up to date unless the limit of the request was passed. -/
structure Feed.Tallied (source : Source) (settings : Settings) (f : Feed) : Prop where
  logged : ∃ log, f.Logged source settings log
  current : f.account.overrun = none → f.account.Current
  within : ∀ limit, settings.maxParts = some limit → f.account.parts ≤ limit

namespace Feed

variable {source : Source} {settings : Settings} {log : List (Except IoError Bytes)} {f : Feed}

/-- What an account says is right once the new counts are told. -/
theorem Logged.report (h : f.Logged source settings log) {log' : List (Except IoError Bytes)}
    {s : Source} {bytesRead parts : Nat} (hreading : source.Reading log' s)
    (hbytes : bytesRead = Source.total log')
    (htold : ({ f.account with bytesRead, parts } : Account).report.Told log') :
    (⟨s, ({ f.account with bytesRead, parts } : Account).report⟩ : Feed).Logged source settings log' where
  reading := hreading
  bytesRead := (Account.report_bytesRead _).trans hbytes
  told := htold
  contentLength := (Account.report_contentLength _).trans h.contentLength
  maxRequestSize := (Account.report_maxRequestSize _).trans h.maxRequestSize
  maxParts := (Account.report_maxParts _).trans h.maxParts
  listening := (Account.report_listening _).trans h.listening

/-- A read keeps the account right, and counts no part. -/
theorem Tallied.read (h : f.Tallied source settings) (room : Nat) :
    (f.read room).2.Tallied source settings ∧ (f.read room).2.account.parts = f.account.parts := by
  obtain ⟨log, hlog⟩ := h.logged
  obtain ⟨-, hr⟩ | ⟨ho, hnone, hr⟩ | ⟨bytes, ho, hne, hread, hr⟩ := f.read_source room
  · rw [hr]
    exact ⟨h, rfl⟩
  · rw [hr]
    refine ⟨⟨⟨log ++ [(f.source.read room).1], ?_⟩, h.current, h.within⟩, rfl⟩
    exact { hlog with
      reading := hlog.reading.read room
      bytesRead := by rw [Source.total_concat, hnone]; exact hlog.bytesRead
      told := hlog.told.mono (List.prefix_append _ _) }
  · have hreading := hlog.reading.read room
    rw [hread] at hreading
    have htotal : f.account.bytesRead + bytes.length = Source.total (log ++ [.ok bytes]) := by
      rw [Source.total_concat, hlog.bytesRead]
      rfl
    have htold : f.account.Told (log ++ [.ok bytes]) := hlog.told.mono (List.prefix_append _ _)
    rw [hr]
    obtain ⟨hc, hle⟩ | ⟨limit, hm, hlt, hc⟩ := f.account.countBytes_cases bytes.length
    · -- the read is within the limit, and reported
      have hfollows : Progress.Follows (log ++ [.ok bytes])
          ⟨f.account.bytesRead + bytes.length, f.account.contentLength, f.account.parts⟩
          f.account.progress :=
        ⟨rfl, .inl ⟨rfl, log, bytes, List.prefix_rfl, hne, hlog.bytesRead, rfl⟩⟩
      obtain ⟨htold', hcurrent⟩ :=
        htold.report (h.current ho) hfollows hle fun limit hm => h.within limit (hlog.maxParts ▸ hm)
      rw [hc]
      refine ⟨⟨⟨_, hlog.report hreading htotal htold'⟩, fun _ => hcurrent, ?_⟩, Account.report_parts _⟩
      intro limit hm
      rw [Account.report_parts]
      exact h.within limit hm
    · -- the read goes past the limit, which is not reported
      rw [hc]
      refine ⟨⟨⟨log ++ [.ok bytes], ?_⟩, nofun, h.within⟩, rfl⟩
      exact { hlog with
        reading := hreading
        bytesRead := htotal
        told := ⟨htold.chain, htold.bytes, htold.parts⟩ }

/-- Counting a part keeps the account right, unless there is one too many. -/
theorem Tallied.countPart (h : f.Tallied source settings) (ho : f.account.overrun = none) :
    (∃ account, f.account.countPart = (.ok (), account) ∧
      ({ f with account } : Feed).Tallied source settings ∧ account.parts = f.account.parts + 1 ∧
      ∀ limit, settings.maxParts = some limit → f.account.parts < limit) ∨
    (∃ limit account log, f.account.countPart = (.error (.partCount limit), account) ∧
      ({ f with account } : Feed).Logged source settings log ∧ account.parts = f.account.parts + 1 ∧
      settings.maxParts = some limit ∧ f.account.parts = limit) := by
  obtain ⟨log, hlog⟩ := h.logged
  have hcurrent := h.current ho
  by_cases hroom : f.account.HasRoom
  · refine .inl ⟨_, hroom.countPart, ?_, Account.report_parts _, ?_⟩
    · have hwithin : ∀ limit, f.account.maxParts = some limit → f.account.parts + 1 ≤ limit :=
        fun limit hm => hroom limit hm
      have hfollows : Progress.Follows log
          ⟨f.account.bytesRead, f.account.contentLength, f.account.parts + 1⟩ f.account.progress :=
        ⟨rfl, .inr ⟨rfl, rfl⟩⟩
      obtain ⟨htold', hcurrent'⟩ := hlog.told.report hcurrent hfollows hcurrent.bytes hwithin
      refine ⟨⟨_, hlog.report hlog.reading hlog.bytesRead htold'⟩, fun _ => hcurrent', ?_⟩
      intro limit hm
      rw [Account.report_parts]
      exact hwithin limit (hlog.maxParts.trans hm)
    · exact fun limit hm => hroom limit (hlog.maxParts.trans hm)
  · obtain ⟨limit, hm, hle⟩ := Account.not_hasRoom_iff.1 hroom
    have hm' := hlog.maxParts.symm.trans hm
    refine .inr ⟨limit, _, log, Account.countPart_error hm hle, ?_, rfl, hm', ?_⟩
    · exact { hlog with told := ⟨hlog.told.chain, hlog.told.bytes, hlog.told.parts⟩ }
    · exact Nat.le_antisymm (h.within limit hm') hle

end Feed

/-! ## Windows -/

namespace Window

/-- The account of a window is right. -/
def Tallied (source : Source) (settings : Settings) (w : Window) : Prop :=
  w.feed.Tallied source settings

/-- The parts counted so far. -/
def parts (w : Window) : Nat :=
  w.feed.account.parts

variable {source : Source} {settings : Settings} {w w' : Window}

theorem fill_feed (w : Window) : w.fill.2.feed = (w.feed.read (w.capacity - w.unread.length)).2 := by
  unfold fill
  split <;> rename_i hr <;> rw [hr]

theorem Tallied.scan (h : w.Tallied source settings) (hs : Scan w w') :
    w'.Tallied source settings ∧ w'.parts = w.parts := by
  cases hs with
  | fill =>
    unfold Tallied parts
    rw [w.fill_feed]
    exact Feed.Tallied.read h _
  | pass | look => exact ⟨h, rfl⟩

/-- Reading on keeps the account right, and counts no part. -/
theorem Tallied.scans (h : w.Tallied source settings) (hs : w.Scans w') :
    w'.Tallied source settings ∧ w'.parts = w.parts := by
  induction hs with
  | refl => exact ⟨h, rfl⟩
  | tail _ hstep ih =>
    obtain ⟨hnext, hparts⟩ := ih.1.scan hstep
    exact ⟨hnext, hparts.trans ih.2⟩

end Window

end FormData
