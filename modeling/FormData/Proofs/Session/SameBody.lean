/-
One body from sources of different kinds. A session that hands out parts under a limit of the request
does so without it if the whole body is within the limit (`Session.stops_limited`), so what is known of
sessions without limits holds for any other: on the same body, under the same settings, they hand out
the same parts and stop with the same error (`same_parts`).
-/
import FormData.Proofs.Session.Decoding
import FormData.Proofs.Session.Granularity
import FormData.Proofs.Session.RequestLimit

namespace FormData

/-- A source that delivers has no error to raise. -/
theorem Source.Steady.failures_eq {s : Source} (h : s.Steady) : s.failures = [] := by
  have hraised : Transport.raised s.transport.segments = [] := by
    refine List.filterMap_eq_nil_iff.2 fun g hg => ?_
    have hsteady := h.segments g hg
    cases g with
    | data | interruption => rfl
    | failure error => exact absurd hsteady id
  unfold Source.failures Transport.failures
  rw [hraised, h.refusal]
  rfl

/-! ## Bodies within the limit of the request -/

theorem Capped.of_within {ρ σ : Type} [Counted σ] {refuse : Error → ρ} {limit : Nat} {x y : ρ × σ}
    (h : Capped refuse limit x y) (hle : (Counted.account x.2).bytesRead ≤ limit) :
    y = (x.1, Counted.limited limit x.2) := by
  obtain ⟨-, hy⟩ | ⟨hlt, -⟩ := h
  · exact hy
  · exact absurd hle (Nat.not_le.2 hlt)

namespace Window

/-- The window stands in a body within the limit, but is not under it. -/
structure Ample (limit : Nat) (w : Window) : Prop extends Unmetered w where
  placed : ∃ body : Bytes, body.length ≤ limit ∧ w.Placed body

variable {w w' : Window} {limit : Nat}

theorem Ample.under (h : w.Ample limit) : w.Under limit := by
  refine ⟨h.toUnmetered, ?_⟩
  obtain ⟨body, hle, hplaced⟩ := h.placed
  have hall := hplaced.pulled
  omega

theorem Ample.moves (h : w.Ample limit) (hm : w.Moves w') : w'.Ample limit := by
  refine ⟨h.toUnmetered.moves hm, ?_⟩
  obtain ⟨body, hle, hplaced⟩ := h.placed
  exact ⟨body, hle, hplaced.moves hm⟩

theorem Ample.discard_limited (h : w.Ample limit) :
    (w.limited limit).discard = (w.discard.1, w.discard.2.limited limit) :=
  (discard_capped h.under).of_within (h.moves w.discard_advances.moves).under.within

end Window

/-- The limit does not show in the content of a part. -/
theorem OpenPart.yields_limited {p : OpenPart} {limit : Nat} {content : Bytes}
    (h : p.session.window.Ample limit) : (p.limited limit).Yields content ↔ p.Yields content := by
  have hdiscard := h.discard_limited
  constructor
  · intro hy
    obtain ⟨w, hw⟩ := hy.ends
    rw [show (p.limited limit).session.window = p.session.window.limited limit from rfl, hdiscard] at hw
    have hfirst : p.session.window.discard.1 = .ok content.length := congrArg Prod.fst hw
    exact ⟨hy.reading, hy.unfinished, hy.undeclared, hy.within, hy.ahead, _, Prod.ext hfirst rfl⟩
  · intro hy
    obtain ⟨w, hw⟩ := hy.ends
    rw [hw] at hdiscard
    exact ⟨hy.reading, hy.unfinished, hy.undeclared, hy.within, hy.ahead, _, hdiscard⟩

namespace Session

variable {s t : Session} {limit : Nat} {parts : List (PartHead × Bytes)} {e : Error}

theorem hasNext_limited (h : s.window.Ample limit) :
    (s.limited limit).hasNext = (s.hasNext.1, s.hasNext.2.limited limit) :=
  (hasNext_capped h.under).of_within (h.moves s.hasNext_moves).under.within

theorem nextPart_limited (h : s.window.Ample limit) :
    (s.limited limit).nextPart = match s.nextPart with
      | .error (e, s') => .error (e, s'.limited limit)
      | .ok p => .ok (p.limited limit) := by
  unfold nextPart
  rw [hasNext_limited h]
  rcases s.hasNext with ⟨e | _ | _, s'⟩
  · rfl
  · rfl
  · simp only
    rw [show (s'.limited limit).phase = s'.phase from rfl]
    rcases s'.phase with _ | head | _ | _ | _ <;> rfl

/-- By induction on the parts: within the limit, the same parts are handed out as without it. -/
theorem stops_limited (h : s.window.Ample limit) :
    (s.limited limit).Stops parts e ↔ s.Stops parts e := by
  have hnext := nextPart_limited h
  have hmoves := s.nextPart_moves
  induction parts generalizing s with
  | nil =>
    constructor
    · intro hstops
      cases hstops with
      | stop hend hphase =>
        rcases hs : s.nextPart with ⟨e', s'⟩ | p <;> rw [hs] at hnext
        · cases hnext.symm.trans hend
          exact .stop hs hphase
        · cases hnext.symm.trans hend
    · intro hstops
      cases hstops with
      | stop hend hphase =>
        rw [hend] at hnext
        exact .stop hnext hphase
  | cons part rest ih =>
    obtain ⟨head, content⟩ := part
    rcases hs : s.nextPart with ⟨e', s'⟩ | p <;> rw [hs] at hnext hmoves
    · constructor
      · intro hstops
        obtain ⟨p, hp, -⟩ := hstops.first
        cases hnext.symm.trans hp
      · intro hstops
        obtain ⟨p, hp, -⟩ := hstops.first
        cases hs.symm.trans hp
    · have hample := h.moves hmoves
      have hrest := ih hample (nextPart_limited hample) p.session.nextPart_moves
      constructor
      · intro hstops
        obtain ⟨q, hq, rfl, hyields, hafter⟩ := hstops.first
        cases hnext.symm.trans hq
        exact .part (p := p) hs ((OpenPart.yields_limited (p := p.withFileLimit none) hample).1 hyields)
          (.refl _) (hrest.1 (hafter _ (.refl _)))
      · intro hstops
        obtain ⟨q, hq, rfl, hyields, hafter⟩ := hstops.first
        cases hs.symm.trans hq
        exact .part (p := p.limited limit) hnext
          ((OpenPart.yields_limited (p := p.withFileLimit none) hample).2 hyields)
          (.refl _) (hrest.2 (hafter _ (.refl _)))

theorem stops_withFileLimit (limit : Option Nat) :
    (s.withFileLimit limit).Stops parts e ↔ s.Stops parts e := by
  refine ⟨Stops.of_withFileLimit, fun h => ?_⟩
  have hback : ((s.withFileLimit limit).withFileLimit s.settings.maxFileSize).Stops parts e := h
  exact hback.of_withFileLimit

end Session

/-! ## Sessions on one body -/

/-- The settings without the limits on the request and on files. -/
def Settings.unlimited (settings : Settings) : Settings :=
  { settings with maxRequestSize := none, maxFileSize := none }

/-- What a session without limits hands out is what its transcript says. -/
theorem Approach.Suits.stops_iff {a : Approach} {body boundary : Bytes} {parts : List (PartHead × Bytes)}
    {e : Error} (ha : a.Suits body boundary) :
    (a.opened boundary).Stops parts e ↔
      ((a.opened boundary).transcriptFrom a.rooms 0).1 = { parts, error := e } := by
  have hfree : (a.opened boundary).withFileLimit none = a.opened boundary := by
    unfold Session.withFileLimit
    rw [← ha.maxFileSize]
    rfl
  have hplain : .exhausted ∉ (a.opened boundary).window.failures := by
    rw [show (a.opened boundary).window.failures = [] from ha.source.failures_eq]
    exact List.not_mem_nil
  rw [Session.stops_iff_transcript ha.rooms 0, hfree]
  constructor
  · rintro ⟨s', h, -⟩
    rw [h]
  · intro h
    refine ⟨_, Prod.ext h rfl, ?_⟩
    rintro rfl
    exact Session.transcriptFrom_ended hplain (Prod.ext h rfl)

namespace Session

/-- The session was opened on this body, which some source delivers without fail. -/
def OpenedOn (body boundary : Bytes) (settings : Settings) (s : Session) : Prop :=
  ∃ source : Source, source.Steady ∧ source.pending = body ∧ open? source boundary settings = .ok s

variable {body boundary : Bytes} {settings : Settings} {size : Nat}

/-- If the body is within the limit of the request, limits do not matter to the parts of a session. -/
theorem OpenedOn.unlimited (h : OpenedOn body boundary settings s)
    (hle : ∀ limit ∈ settings.maxRequestSize, body.length ≤ limit) :
    ∃ a : Approach, a.Suits body boundary ∧ a.settings = settings.unlimited ∧
      ∀ parts e, s.Stops parts e ↔ (a.opened boundary).Stops parts e := by
  obtain ⟨source, hsteady, hpending, hopen⟩ := h
  obtain ⟨hcheck, rfl⟩ := open?_ok hopen
  obtain ⟨hne, hroom⟩ := Window.checkBoundary_ok_iff.1 hcheck
  -- the same source without limits, taken apart byte by byte: sizes do not matter
  let a : Approach := ⟨source, settings.unlimited, fun _ _ => 1⟩
  have hample : ∀ limit ∈ settings.maxRequestSize, (a.opened boundary).window.Ample limit :=
    fun limit hlimit => ⟨⟨rfl, rfl⟩, body, hle limit hlimit,
      (Nat.zero_add _).trans (congrArg List.length hpending), fun _ => hpending ▸ List.suffix_refl _⟩
  refine ⟨a, ⟨hsteady, hpending, hne, hroom, rfl, rfl, fun _ _ => Nat.one_pos⟩, rfl, fun parts e => ?_⟩
  rw [← stops_withFileLimit none]
  obtain ⟨⟩ := settings
  rename_i maxRequestSize _ _ _ _ _
  rcases maxRequestSize with _ | limit
  · exact Iff.rfl
  · exact stops_limited (hample limit rfl)

/-- Sessions on one body under the same settings, but for the sizes of their windows. -/
theorem OpenedOn.matches {t : Session} (hs : OpenedOn body boundary { settings with windowSize := size } s)
    (ht : OpenedOn body boundary settings t)
    (hle : ∀ limit ∈ settings.maxRequestSize, body.length ≤ limit) :
    ∃ a b : Transcript, a.Matches body size settings.windowSize b ∧
      (∀ parts e, s.Stops parts e ↔ a = { parts, error := e }) ∧
      (∀ parts e, t.Stops parts e ↔ b = { parts, error := e }) := by
  obtain ⟨a, ha, hasettings, hsstops⟩ := hs.unlimited hle
  obtain ⟨b, hb, hbsettings, htstops⟩ := ht.unlimited hle
  have halike := ha.alike hb (by rw [hasettings, hbsettings]; rfl) (by rw [hasettings, hbsettings]; rfl)
  rw [hasettings, hbsettings] at halike
  have hmatches := halike.transcriptFrom_matches ha.rooms hb.rooms 0 (.inl ⟨rfl, rfl⟩)
  refine ⟨_, _, hmatches, fun parts e => ?_, fun parts e => ?_⟩
  · rw [hsstops, ha.stops_iff]
  · rw [htstops, hb.stops_iff]

theorem OpenedOn.failures_eq (h : OpenedOn body boundary settings s) : s.window.failures = [] := by
  obtain ⟨source, hsteady, -, hopen⟩ := h
  obtain ⟨-, rfl⟩ := open?_ok hopen
  exact hsteady.failures_eq

/-- A caller that comes to the end of such a body has come to that of its session. -/
theorem OpenedOn.ended {rooms : Nat → Nat → Nat} {count : Nat} {s' : Session}
    (h : OpenedOn body boundary settings s)
    (hends : s.transcriptFrom rooms count = ({ parts, error := .exhausted }, s')) : s'.phase = .exhausted := by
  refine transcriptFrom_ended ?_ hends
  rw [h.failures_eq]
  exact List.not_mem_nil

/-- Say that some session takes a body apart to its end, through a window of whatever size. Then sessions
under the same limits hand out the same parts, all of them or, if a set in the body has a boundary too
long for their windows, the first ones; and they stop with the same error. -/
theorem same_parts {s₀ s₀' t : Session} {rooms : Nat → Nat → Nat} (hrooms : ∀ n i, 0 < rooms n i)
    (hs₀ : OpenedOn body boundary { settings with windowSize := size } s₀)
    (hends : s₀.transcriptFrom rooms 0 = ({ parts, error := .exhausted }, s₀'))
    (hs : OpenedOn body boundary settings s) (ht : OpenedOn body boundary settings t)
    (hle : ∀ limit ∈ settings.maxRequestSize, body.length ≤ limit) :
    ∃ handed e, s.Stops handed e ∧ t.Stops handed e ∧ handed <+: parts ∧
      ∀ part ∈ handed, PartHead.Fits settings.maxFileSize part := by
  obtain ⟨hdecodes, hfits⟩ := stops_of_transcript hrooms hends fun _ => hs₀.ended hends
  have hsettings : s₀.settings = { settings with windowSize := size } := by
    obtain ⟨source, -, -, hopen⟩ := hs₀
    exact open?_settings hopen
  rw [hsettings] at hfits
  -- a smaller window cannot hold every boundary, and breaks off at one that is too long
  obtain ⟨handed, e, hstops, hfirst⟩ : ∃ handed e, s.Stops handed e ∧ handed <+: parts := by
    obtain ⟨a, b, hmatches, ha, hb⟩ := hs₀.matches hs hle
    obtain rfl := (ha _ _).1 hdecodes
    obtain rfl | ⟨-, ⟨htight, -⟩ | ⟨-, hbroken, hfirst⟩⟩ := hmatches
    · exact ⟨parts, _, (hb _ _).2 rfl, List.prefix_refl _⟩
    · obtain ⟨_, _, _, -, -, -, herror⟩ := htight
      cases herror
    · refine ⟨b.parts, b.error, (hb _ _).2 ?_, hfirst⟩
      rw [← hbroken]
  -- the sizes of the other two windows are the same
  obtain ⟨a, b, hmatches, ha, hb⟩ := OpenedOn.matches (s := s) (t := t) hs ht hle
  obtain rfl := hmatches.resolve_right fun hcut => hcut.1 rfl
  exact ⟨handed, e, hstops, (hb _ _).2 ((ha _ _).1 hstops), hfirst,
    fun part hmem => hfits part (hfirst.subset hmem)⟩

end Session

end FormData
