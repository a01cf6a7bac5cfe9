/-
Where paths lead in a tree of files. Without links, what a path leads to is where its steps spell to
(`walk_ok`), whatever else is in the tree. Making directories only adds directories, along the path
(`makeDirectories_founds`), and writing a file changes that file alone (`writeFile_ok`). So a place that
can be written to once its directories are made is found beforehand if anything is there
(`find_of_target`), as long as no step goes up from a directory that is still missing.
-/
import FormData.Files.Tree
import FormData.Proofs.Files.Paths

namespace FormData

namespace Path

/-! ## Places as they are spelled -/

/-- Where one step leads. -/
def Step.lead (place : Place) : Step → Place
  | .stay => place
  | .up => place.dropLast
  | .name text => place ++ [text]

/-- Where steps lead, as they are spelled. -/
def spell (place : Place) (steps : List Step) : Place :=
  steps.foldl Step.lead place

@[simp] theorem spell_nil (place : Place) : spell place [] = place := rfl

@[simp] theorem spell_cons (place : Place) (step : Step) (steps : List Step) :
    spell place (step :: steps) = spell (step.lead place) steps := rfl

theorem spell_append (place : Place) (steps more : List Step) :
    spell place (steps ++ more) = spell (spell place steps) more :=
  List.foldl_append

theorem spell_names (place names : Place) : spell place (names.map .name) = place ++ names := by
  induction names generalizing place with
  | nil => rw [List.map_nil, spell_nil, List.append_nil]
  | cons name names ih => rw [List.map_cons, spell_cons, ih, Step.lead, List.append_assoc]; rfl

/-- Steps that do not go up lead to somewhere below. -/
theorem prefix_spell {steps : List Step} (h : Step.up ∉ steps) (place : Place) :
    place <+: spell place steps := by
  induction steps generalizing place with
  | nil => exact List.prefix_refl _
  | cons step steps ih =>
    rw [List.mem_cons, not_or] at h
    have hrest := ih h.2 (step.lead place)
    cases step with
    | stay => exact hrest
    | up => exact absurd rfl h.1
    | name name => exact (List.prefix_append _ _).trans hrest

end Path

namespace FileTree

open FormData.Path (Step spell)

variable {t t' t'' : FileTree} {place q : Place} {steps more : List Step}

/-! ## Walks -/

/-- A walk that goes on for one more step: it stands in a directory, and a name it goes to is there. -/
theorem walk_cons {step : Step} (h : t.walk place (step :: steps) = .ok q) :
    t.node? place = some .directory ∧ t.walk (step.lead place) steps = .ok q ∧
      ∀ name, step = .name name →
        name.utf8ByteSize ≤ Path.maxName ∧ t.node? (place ++ [name]) ≠ none := by
  rw [walk.eq_def] at h
  rcases hnode : t.node? place with _ | _ | content <;> simp only [hnode] at h
  · cases h
  · cases step with
    | stay => exact ⟨rfl, h, nofun⟩
    | up => exact ⟨rfl, h, nofun⟩
    | name name =>
      simp only at h
      split at h
      · cases h
      · rename_i hlength
        split at h
        · cases h
        · rename_i hthere
          refine ⟨rfl, h, ?_⟩
          rintro _ ⟨⟩
          exact ⟨Nat.le_of_not_lt hlength, by simpa using hthere⟩
  · cases h

theorem walk_of_directory {step : Step} (hdirectory : t.node? place = some .directory)
    (hname : ∀ name, step = .name name →
      name.utf8ByteSize ≤ Path.maxName ∧ t.node? (place ++ [name]) ≠ none) :
    t.walk place (step :: steps) = t.walk (step.lead place) steps := by
  rw [walk.eq_def]
  simp only [hdirectory]
  cases step with
  | stay => rfl
  | up => rfl
  | name name =>
    obtain ⟨hlength, hthere⟩ := hname name rfl
    simp only
    rw [if_neg (Nat.not_lt.2 hlength), if_neg (by simpa using hthere)]
    rfl

/-- A walk ends where its steps spell to. -/
theorem walk_ok (h : t.walk place steps = .ok q) : q = spell place steps := by
  induction steps generalizing place with
  | nil => exact (Except.ok.inj h).symm
  | cons step steps ih => exact ih (walk_cons h).2.1

theorem walk_append (h : t.walk place steps = .ok q) (more : List Step) :
    t.walk place (steps ++ more) = t.walk q more := by
  induction steps generalizing place with
  | nil => rw [Except.ok.inj h, List.nil_append]
  | cons step steps ih =>
    obtain ⟨hdirectory, hrest, hname⟩ := walk_cons h
    rw [List.cons_append, walk_of_directory hdirectory hname, ih hrest]

/-- The steps of a walk can be walked by themselves. -/
theorem walk_front (h : t.walk place (steps ++ more) = .ok q) :
    t.walk place steps = .ok (spell place steps) := by
  induction steps generalizing place with
  | nil => rfl
  | cons step steps ih =>
    obtain ⟨hdirectory, hrest, hname⟩ := walk_cons h
    rw [walk_of_directory hdirectory hname, ih hrest, Path.spell_cons]

theorem walk_short (h : t.walk place steps = .ok q) :
    ∀ name, Step.name name ∈ steps → name.utf8ByteSize ≤ Path.maxName := by
  induction steps generalizing place with
  | nil => intro _ hname; cases hname
  | cons step steps ih =>
    obtain ⟨-, hrest, hstep⟩ := walk_cons h
    intro name hname
    rcases List.mem_cons.1 hname with rfl | hname
    · exact (hstep name rfl).1
    · exact ih hrest name hname

/-! ## Trees in good order -/

/-- Whatever is there stands in a directory, and so does the one who looks. -/
structure Rooted (t : FileTree) : Prop where
  above : ∀ place name, t.node? (place ++ [name]) ≠ none → t.node? place = some .directory
  here : t.node? t.here = some .directory

theorem node?_root (t : FileTree) : t.node? [] = some .directory := rfl

theorem Rooted.below (h : t.Rooted) {rest : Place} (hne : rest ≠ [])
    (hthere : t.node? (place ++ rest) ≠ none) : t.node? place = some .directory := by
  induction rest generalizing place with
  | nil => exact absurd rfl hne
  | cons name rest ih =>
    by_cases hnil : rest = []
    · rw [hnil] at hthere
      exact h.above _ _ hthere
    · rw [← List.singleton_append, ← List.append_assoc] at hthere
      exact h.above _ _ (by rw [ih hnil hthere]; nofun)

theorem Rooted.start (h : t.Rooted) (p : Path) : t.node? (t.start p) = some .directory := by
  unfold FileTree.start
  split
  · exact t.node?_root
  · exact h.here

/-- Above whatever is there is a directory, above the root the root itself. -/
theorem Rooted.dropLast (h : t.Rooted) (hplace : t.node? place ≠ none) :
    t.node? place.dropLast = some .directory := by
  rcases List.eq_nil_or_concat place with rfl | ⟨front, name, rfl⟩
  · exact t.node?_root
  · rw [List.concat_eq_append] at hplace ⊢
    rw [List.dropLast_concat, h.above _ _ hplace]

/-- A walk from something that is there leads to something that is there. -/
theorem Rooted.walk_there (h : t.Rooted) (hplace : t.node? place ≠ none)
    (hwalk : t.walk place steps = .ok q) : t.node? q ≠ none := by
  induction steps generalizing place with
  | nil =>
    rw [← Except.ok.inj hwalk]
    exact hplace
  | cons step steps ih =>
    obtain ⟨hdirectory, hrest, hname⟩ := walk_cons hwalk
    refine ih ?_ hrest
    cases step with
    | stay => exact hplace
    | up =>
      show t.node? place.dropLast ≠ none
      rw [h.dropLast hplace]
      nofun
    | name name => exact (hname name rfl).2

/-- A tree is in good order if the directory above each of its nodes is there. -/
theorem rooted_of_nodes
    (hnodes : ∀ n ∈ t.nodes, n.1 = [] ∨ t.node? n.1.dropLast = some .directory)
    (hhere : t.node? t.here = some .directory) : t.Rooted := by
  refine ⟨fun place name hthere => ?_, hhere⟩
  have hlookup : t.nodes.lookup (place ++ [name]) ≠ none := by
    unfold node? at hthere
    rwa [if_neg (by simp)] at hthere
  rcases hl : t.nodes.lookup (place ++ [name]) with _ | node
  · exact absurd hl hlookup
  · obtain ⟨before, after, hsplit, -⟩ := List.lookup_eq_some_iff.1 hl
    have hmem : (place ++ [name], node) ∈ t.nodes := by
      rw [hsplit]
      simp
    rcases hnodes _ hmem with hnil | hdirectory
    · simp at hnil
    · simpa using hdirectory

/-- Going down, whatever is there is found. -/
theorem Rooted.walk_down (h : t.Rooted) {name : String} (hup : Step.up ∉ steps)
    (hshort : ∀ name, Step.name name ∈ steps → name.utf8ByteSize ≤ Path.maxName)
    (hname : name.utf8ByteSize ≤ Path.maxName) (hthere : t.node? (spell place steps ++ [name]) ≠ none) :
    t.walk place (steps ++ [.name name]) = .ok (spell place steps ++ [name]) := by
  induction steps generalizing place with
  | nil =>
    have hdirectory : t.node? place = some .directory := h.above _ _ hthere
    rw [List.nil_append, walk_of_directory hdirectory]
    · rfl
    · rintro _ ⟨⟩
      exact ⟨hname, hthere⟩
  | cons step steps ih =>
    rw [List.mem_cons, not_or] at hup
    have hrest : t.walk (step.lead place) (steps ++ [.name name]) =
        .ok (spell (step.lead place) steps ++ [name]) :=
      ih hup.2 (fun n hn => hshort n (List.mem_cons_of_mem _ hn)) hthere
    -- the place stands above the one that is there
    have hdowns : Step.up ∉ step :: steps := by
      rw [List.mem_cons, not_or]
      exact hup
    obtain ⟨down, hdown⟩ := Path.prefix_spell hdowns place
    rw [← hdown, List.append_assoc] at hthere
    have hdirectory := h.below (by simp) hthere
    rw [List.cons_append, walk_of_directory hdirectory]
    · exact hrest
    · rintro n rfl
      refine ⟨hshort n List.mem_cons_self, ?_⟩
      obtain ⟨further, hfurther⟩ := Path.prefix_spell hup.2 (place ++ [n])
      have hbelow : spell place (.name n :: steps) ++ [name] = place ++ [n] ++ (further ++ [name]) := by
        rw [← List.append_assoc, hfurther]
        rfl
      rw [← List.append_assoc, hdown, hbelow] at hthere
      rw [h.below (by simp) hthere]
      nofun

/-! ## Trees that grow -/

/-- What is there stays, a directory a directory and a file a file. -/
structure Grows (t t' : FileTree) : Prop where
  here : t'.here = t.here
  directory : ∀ place, t.node? place = some .directory → t'.node? place = some .directory
  file : ∀ place content, t.node? place = some (.file content) →
    ∃ content', t'.node? place = some (.file content')

theorem Grows.refl (t : FileTree) : t.Grows t := ⟨rfl, fun _ h => h, fun _ content h => ⟨content, h⟩⟩

theorem Grows.trans (h1 : t.Grows t') (h2 : t'.Grows t'') : t.Grows t'' where
  here := h2.here.trans h1.here
  directory place h := h2.directory place (h1.directory place h)
  file place content h := by
    obtain ⟨content', h'⟩ := h1.file place content h
    exact h2.file place content' h'

theorem Grows.there (h : t.Grows t') (hplace : t.node? place ≠ none) : t'.node? place ≠ none := by
  rcases hnode : t.node? place with _ | _ | content
  · exact absurd hnode hplace
  · rw [h.directory place hnode]
    nofun
  · obtain ⟨content', h'⟩ := h.file place content hnode
    rw [h']
    nofun

theorem Grows.start (h : t.Grows t') (p : Path) : t'.start p = t.start p := by
  unfold FileTree.start
  rw [h.here]

/-- What was walked can be walked still. -/
theorem Grows.walk (h : t.Grows t') (hwalk : t.walk place steps = .ok q) :
    t'.walk place steps = .ok q := by
  induction steps generalizing place with
  | nil => exact hwalk
  | cons step steps ih =>
    obtain ⟨hdirectory, hrest, hname⟩ := walk_cons hwalk
    rw [walk_of_directory (h.directory _ hdirectory)]
    · exact ih hrest
    · intro name hstep
      exact ⟨(hname name hstep).1, h.there (hname name hstep).2⟩

/-! ## Making directories -/

/-- Directories were made, on the way along these steps, and nothing else was done. -/
structure Founds (t : FileTree) (place : Place) (steps : List Step) (t' : FileTree) : Prop where
  here : t'.here = t.here
  node : ∀ q, t'.node? q = t.node? q ∨
    (t.node? q = none ∧ t'.node? q = some .directory ∧ ∃ way, way <+: steps ∧ q = spell place way)
  rooted : t.Rooted → t'.Rooted

theorem Founds.refl (t : FileTree) (place : Place) (steps : List Step) : t.Founds place steps t :=
  ⟨rfl, fun _ => .inl rfl, id⟩

theorem Founds.trans (h1 : t.Founds place steps t') (h2 : t'.Founds place steps t'') :
    t.Founds place steps t'' where
  here := h2.here.trans h1.here
  node q := by
    obtain hsame | ⟨hnone, hmade, hway⟩ := h2.node q
    · rw [hsame]
      exact h1.node q
    · obtain hsame | ⟨-, hmade', -⟩ := h1.node q
      · exact .inr ⟨hsame ▸ hnone, hmade, hway⟩
      · rw [hmade'] at hnone
        cases hnone
  rooted h := h2.rooted (h1.rooted h)

theorem Founds.mono (h : t.Founds place more t') (hsteps : more <+: steps) : t.Founds place steps t' where
  here := h.here
  node q := by
    obtain hsame | ⟨hnone, hmade, way, hway, hq⟩ := h.node q
    · exact .inl hsame
    · exact .inr ⟨hnone, hmade, way, hway.trans hsteps, hq⟩
  rooted := h.rooted

theorem Founds.grows (h : t.Founds place steps t') : t.Grows t' where
  here := h.here
  directory q hq := by
    obtain hsame | ⟨hnone, -⟩ := h.node q
    · rw [hsame, hq]
    · rw [hq] at hnone
      cases hnone
  file q content hq := by
    obtain hsame | ⟨hnone, -⟩ := h.node q
    · exact ⟨content, by rw [hsame, hq]⟩
    · rw [hq] at hnone
      cases hnone

/-- Files are the same as before. -/
theorem Founds.file_iff (h : t.Founds place steps t') (q : Place) (content : Bytes) :
    t'.node? q = some (.file content) ↔ t.node? q = some (.file content) := by
  obtain hsame | ⟨hnone, hmade, -⟩ := h.node q
  · rw [hsame]
  · rw [hnone, hmade]
    constructor <;> nofun

theorem lastStep_name {p : Path} {name : String} (h : t.lastStep p = .ok (place, some (.name name))) :
    ∃ front, p.steps = front ++ [.name name] ∧ t.walk (t.start p) front = .ok place ∧
      t.node? place = some .directory := by
  unfold lastStep at h
  rcases hlast : p.steps.getLast? with _ | step <;> simp only [hlast] at h
  · cases h
  · rcases hwalk : t.walk (t.start p) p.steps.dropLast with fault | q <;> simp only [hwalk] at h
    · cases h
    · rcases hnode : t.node? q with _ | _ | content <;> simp only [hnode] at h <;> cases h
      obtain ⟨front, hfront⟩ := List.getLast?_eq_some_iff.1 hlast
      rw [hfront, List.dropLast_concat] at hwalk
      exact ⟨front, hfront, hwalk, hnode⟩

/-- A node put into a directory that is there, where there was none or a file was replaced. -/
theorem Rooted.put (h : t.Rooted) {name : String} (node : Node)
    (hdirectory : t.node? place = some .directory) (hfree : t.node? (place ++ [name]) ≠ some .directory) :
    (t.put (place ++ [name]) node).Rooted := by
  have hput := fun q => t.node?_put (place ++ [name]) q node (by simp)
  refine ⟨?_, ?_⟩
  · intro q below hthere
    rw [hput] at hthere ⊢
    have hdir : t.node? q = some .directory := by
      by_cases hq : q ++ [below] = place ++ [name]
      · rw [(List.append_inj' hq rfl).1]
        exact hdirectory
      · rw [if_neg hq] at hthere
        exact h.above _ _ hthere
    rw [if_neg, hdir]
    rintro rfl
    exact hfree hdir
  · show (t.put _ _).node? t.here = _
    rw [hput, if_neg]
    · exact h.here
    · intro hhere
      exact hfree (hhere ▸ h.here)

theorem makeDirectory_founds {p : Path} (h : t.makeDirectory p = .ok t') :
    t.Founds (t.start p) p.steps t' := by
  unfold makeDirectory at h
  split at h
  · cases h
  · rcases hlast : t.lastStep p with fault | ⟨place, _ | _ | _ | name⟩ <;> simp only [hlast] at h
    case isFalse.ok.some.name =>
      obtain ⟨front, hsteps, hwalk, hdirectory⟩ := lastStep_name hlast
      split at h
      · cases h
      · split at h
        · cases h
        · rename_i hfree
          cases h
          have hnone : t.node? (place ++ [name]) = none := by simpa using hfree
          refine ⟨rfl, fun q => ?_, fun hrooted => ?_⟩
          · rw [t.node?_put _ _ _ (by simp)]
            by_cases hq : q = place ++ [name]
            · rw [if_pos hq, hq]
              refine .inr ⟨hnone, rfl, p.steps, List.prefix_refl _, ?_⟩
              rw [hsteps, Path.spell_append, ← walk_ok hwalk]
              rfl
            · rw [if_neg hq]
              exact .inl rfl
          · exact hrooted.put _ hdirectory (by rw [hnone]; nofun)
    all_goals cases h

theorem orExisting_ok {p : Path} {fault : SystemFault} (h : t.orExisting p fault = .ok t') : t' = t := by
  unfold orExisting at h
  split at h
  · exact (Except.ok.inj h).symm
  · cases h

theorem start_parent (t : FileTree) (p : Path) : t.start p.parent = t.start p := by
  unfold FileTree.start
  rw [Path.parent_isAbsolute]

/-- By induction on the path, along with the directories above it. -/
theorem makeDirectories_founds {p : Path} (h : t.makeDirectories p = .ok t') :
    t.Founds (t.start p) p.steps t' := by
  fun_induction makeDirectories t p generalizing t' with
  | case1 p hp =>
    cases h
    exact .refl _ _ _
  | case2 p hp made hmade =>
    cases h
    exact makeDirectory_founds hmade
  | case3 => cases h
  | case4 p hp hmade h1 _ above habove made hmade' ih =>
    -- the directories above were missing, and were made first
    cases h
    have hfirst := (ih habove).mono (Path.parent_steps_prefix p)
    rw [start_parent] at hfirst
    have hsecond := makeDirectory_founds hmade'
    rw [hfirst.grows.start p] at hsecond
    exact hfirst.trans hsecond
  | case5 p hp hmade h1 _ above habove fault hmade' ih =>
    -- making those above made this one on the way
    rw [orExisting_ok h]
    have hfirst := (ih habove).mono (Path.parent_steps_prefix p)
    rwa [start_parent] at hfirst
  | case6 => cases h
  | case7 p hp fault hmade _ =>
    rw [orExisting_ok h]
    exact .refl _ _ _

/-! ## Writing files -/

theorem target_ok {p : Path} (h : t.target p = .ok place) :
    ∃ front name, p.steps = front ++ [.name name] ∧ place = spell (t.start p) front ++ [name] ∧
      t.walk (t.start p) front = .ok (spell (t.start p) front) ∧
      t.node? (spell (t.start p) front) = some .directory ∧ t.node? place ≠ some .directory ∧
      name.utf8ByteSize ≤ Path.maxName ∧ p.isDirectory = false := by
  unfold target at h
  rcases hlast : t.lastStep p with fault | ⟨above, _ | _ | _ | name⟩ <;> simp only [hlast] at h
  case ok.some.name =>
    obtain ⟨front, hsteps, hwalk, hdirectory⟩ := lastStep_name hlast
    obtain rfl := walk_ok hwalk
    split at h
    · cases h
    · rename_i hp
      split at h
      · cases h
      · rename_i hlength
        split at h
        · cases h
        · rename_i hfree
          cases h
          exact ⟨front, name, hsteps, rfl, hwalk, hdirectory, hfree, Nat.le_of_not_lt hlength,
            by simpa using hp⟩
  all_goals cases h

theorem target_of_name {p : Path} {name : String} (hsteps : p.steps = steps ++ [.name name])
    (hwalk : t.walk (t.start p) steps = .ok place) (hdirectory : t.node? place = some .directory)
    (hfree : t.node? (place ++ [name]) ≠ some .directory) (hlength : name.utf8ByteSize ≤ Path.maxName)
    (hslash : p.isDirectory = false) : t.target p = .ok (place ++ [name]) := by
  have hlast : t.lastStep p = .ok (place, some (.name name)) := by
    unfold lastStep
    simp only [hsteps, List.getLast?_concat, List.dropLast_concat, hwalk, hdirectory]
  unfold target
  simp only [hlast, hslash, Bool.false_eq_true, if_false]
  rw [if_neg (Nat.not_lt.2 hlength), if_neg hfree]

theorem onPath_ok {α : Type} {text : String} {f : Path → Except SystemFault α} {a : α}
    (h : onPath text f = .ok a) : Path.read text = .ok (Path.ofText text) ∧ f (Path.ofText text) = .ok a := by
  unfold onPath at h
  rcases hread : Path.read text with e | p <;> simp only [hread] at h
  · cases h
  · have hp : p = Path.ofText text := by
      unfold Path.read at hread
      split at hread
      · cases hread
      · split at hread
        · cases hread
        · split at hread <;> cases hread
          rfl
    subst hp
    rcases hf : f (Path.ofText text) with fault | b <;> simp only [hf] at h <;> cases h
    exact ⟨rfl, rfl⟩

theorem onPath_of_read {α : Type} {text : String} (hread : Path.read text = .ok (Path.ofText text))
    {f : Path → Except SystemFault α} {a : α} (h : f (Path.ofText text) = .ok a) :
    onPath text f = .ok a := by
  unfold onPath
  simp only [hread, h]

theorem writeFile_ok {text : String} {content : Bytes} (h : t.writeFile text content = .ok t') :
    Path.read text = .ok (Path.ofText text) ∧
      ∃ place, t.target (Path.ofText text) = .ok place ∧ t' = t.put place (.file content) := by
  obtain ⟨hread, hput⟩ := onPath_ok h
  refine ⟨hread, ?_⟩
  rcases htarget : t.target (Path.ofText text) with fault | place <;> simp only [htarget] at hput
  · cases hput
  · exact ⟨place, rfl, (Except.ok.inj hput).symm⟩

/-- A path that a file can be written to ends in a name, in a directory that is there, and there is no
directory of that name. -/
def Writable (t : FileTree) (path : String) : Prop :=
  Path.read path = .ok (Path.ofText path) ∧ (Path.ofText path).isDirectory = false ∧
    ∃ front name above, (Path.ofText path).steps = front ++ [.name name] ∧
      name.utf8ByteSize ≤ Path.maxName ∧ t.walk (t.start (Path.ofText path)) front = .ok above ∧
      t.node? above = some .directory ∧ t.node? (above ++ [name]) ≠ some .directory

/-- Nothing else is asked of it, and the content does not matter. -/
theorem writable_iff {text : String} (content : Bytes) :
    t.Writable text ↔ ∃ t', t.writeFile text content = .ok t' := by
  constructor
  · rintro ⟨hread, hslash, front, name, above, hsteps, hlength, hwalk, hdirectory, hfree⟩
    refine ⟨t.put (above ++ [name]) (.file content), onPath_of_read hread ?_⟩
    simp only [target_of_name hsteps hwalk hdirectory hfree hlength hslash]
  · rintro ⟨t', h⟩
    obtain ⟨hread, place, htarget, -⟩ := writeFile_ok h
    obtain ⟨front, name, hsteps, rfl, hwalk, hdirectory, hfree, hlength, hslash⟩ := target_ok htarget
    exact ⟨hread, hslash, front, name, _, hsteps, hlength, hwalk, hdirectory, hfree⟩

/-- A file written changes what its path leads to, and nothing else. -/
theorem node?_written {p : Path} (h : t.target p = .ok place) (content : Bytes) (q : Place) :
    (t.put place (.file content)).node? q =
      if q = place then some (.file content) else t.node? q := by
  obtain ⟨front, name, -, rfl, -⟩ := target_ok h
  exact t.node?_put _ _ _ (by simp)

theorem Rooted.written (h : t.Rooted) {p : Path} (htarget : t.target p = .ok place) (content : Bytes) :
    (t.put place (.file content)).Rooted := by
  obtain ⟨front, name, -, rfl, -, hdirectory, hfree, -⟩ := target_ok htarget
  exact h.put _ hdirectory hfree

theorem grows_written {p : Path} (h : t.target p = .ok place) (content : Bytes) :
    t.Grows (t.put place (.file content)) := by
  have hnode := node?_written h content
  obtain ⟨front, name, -, -, -, -, hfree, -⟩ := target_ok h
  refine ⟨rfl, fun q hq => ?_, fun q held hq => ?_⟩
  · rw [hnode, if_neg]
    · exact hq
    · rintro rfl
      exact hfree hq
  · rw [hnode]
    by_cases hqp : q = place
    · exact ⟨content, if_pos hqp⟩
    · exact ⟨held, by rw [if_neg hqp, hq]⟩

/-! ## What can be written is found -/

theorem walk_of_find {p : Path} {node : Node} (h : t.find p = .ok (place, node)) :
    t.walk (t.start p) p.steps = .ok place ∧ t.node? place = some node := by
  unfold find at h
  rcases hwalk : t.walk (t.start p) p.steps with fault | q <;> simp only [hwalk] at h
  · cases h
  · rcases hnode : t.node? q with _ | _ | content <;> simp only [hnode] at h
    · cases h
    · cases h
      exact ⟨rfl, hnode⟩
    · split at h <;> cases h
      exact ⟨rfl, hnode⟩

theorem find_ok {p : Path} {node : Node} (h : t.find p = .ok (place, node)) :
    place = spell (t.start p) p.steps ∧ t.node? place = some node := by
  obtain ⟨hwalk, hnode⟩ := walk_of_find h
  exact ⟨walk_ok hwalk, hnode⟩

theorem find_file_iff {p : Path} {content : Bytes} :
    t.find p = .ok (place, .file content) ↔
      t.walk (t.start p) p.steps = .ok place ∧ t.node? place = some (.file content) ∧
        p.isDirectory = false := by
  constructor
  · intro h
    obtain ⟨hwalk, hnode⟩ := walk_of_find h
    refine ⟨hwalk, hnode, ?_⟩
    unfold find at h
    simp only [hwalk, hnode] at h
    split at h
    · cases h
    · rename_i hslash
      exact eq_false_of_ne_true hslash
  · rintro ⟨hwalk, hnode, hslash⟩
    unfold find
    simp only [hwalk, hnode, hslash, Bool.false_eq_true, if_false]

/-- Every step of the path that goes up does so from a directory that is there. -/
def Reaches (t : FileTree) (p : Path) : Prop :=
  ∃ before after q, p.steps = before ++ after ∧ .up ∉ after ∧ t.walk (t.start p) before = .ok q

theorem Reaches.grows {p : Path} (h : t.Reaches p) (hgrows : t.Grows t') : t'.Reaches p := by
  obtain ⟨before, after, q, hsteps, hup, hwalk⟩ := h
  exact ⟨before, after, q, hsteps, hup, by rw [hgrows.start]; exact hgrows.walk hwalk⟩

/-- What a path can be written to, once the tree has grown, is found beforehand if it was there. -/
theorem find_of_target {p : Path} (hrooted : t.Rooted) (hreaches : t.Reaches p) (hgrows : t.Grows t')
    (htarget : t'.target p = .ok place) (hthere : t.node? place ≠ none) :
    ∃ node, t.find p = .ok (place, node) := by
  obtain ⟨front, name, hsteps, hplace, hwalk', -, -, hname, hfile⟩ := target_ok htarget
  rw [hgrows.start] at hplace hwalk'
  have hwalk : t.walk (t.start p) p.steps = .ok place := by
    obtain ⟨before, after, q, hsplit, hup, hbefore⟩ := hreaches
    rcases List.eq_nil_or_concat after with rfl | ⟨steps, step, hafter⟩
    · rw [List.append_nil] at hsplit
      rw [hsplit, hbefore, walk_ok hbefore, ← hsplit, hsteps, Path.spell_append, hplace]
      rfl
    · -- from where the path goes up for the last time it only goes down
      rw [List.concat_eq_append] at hafter
      subst hafter
      rw [hsplit, ← List.append_assoc] at hsteps
      obtain ⟨rfl, hstep⟩ := List.append_inj' hsteps rfl
      obtain rfl : step = .name name := by simpa using hstep
      have hq := walk_ok hbefore
      rw [Path.spell_append, ← hq] at hplace
      rw [hsplit, walk_append hbefore, hplace]
      refine hrooted.walk_down ?_ ?_ hname (hplace ▸ hthere)
      · intro hmem
        exact hup (List.mem_append_left _ hmem)
      · intro n hn
        exact walk_short hwalk' n (List.mem_append_right _ hn)
  unfold find
  rcases hnode : t.node? place with _ | _ | content
  · exact absurd hnode hthere
  · exact ⟨_, by simp only [hwalk, hnode]; rfl⟩
  · exact ⟨_, by simp only [hwalk, hnode, hfile, Bool.false_eq_true, if_false]; rfl⟩

/-- A directory made along the steps of a path stands above where the path leads, as the others were
there. -/
theorem Founds.above {p : Path} (h : t.Founds (t.start p) steps t') (hrooted : t.Rooted)
    (hreaches : t.Reaches p) (hsteps : steps <+: p.steps) (hnone : t.node? q = none)
    (hmade : t'.node? q ≠ none) : q <+: spell (t.start p) steps := by
  obtain hsame | ⟨-, -, way, hway, rfl⟩ := h.node q
  · rw [hsame] at hmade
    exact absurd hnone hmade
  · obtain ⟨before, after, r, hsplit, hup, hwalk⟩ := hreaches
    obtain ⟨further, rfl⟩ := hway
    have hbefore : before <+: p.steps := by
      rw [hsplit]
      exact List.prefix_append _ _
    have hway : way <+: p.steps := (List.prefix_append _ _).trans hsteps
    rcases Nat.lt_or_ge before.length way.length with hlong | hshort
    · -- the way goes past the last step up, so only steps down are left
      have hfront : before <+: way := List.prefix_of_prefix_length_le hbefore hway (Nat.le_of_lt hlong)
      obtain ⟨down, rfl⟩ := hfront
      rw [Path.spell_append _ (before ++ down) further]
      refine Path.prefix_spell ?_ _
      intro hmem
      obtain ⟨rest, hrest⟩ := hsteps
      rw [hsplit, List.append_assoc, List.append_assoc] at hrest
      have hafter := List.append_cancel_left hrest
      rw [← hafter] at hup
      exact hup (List.mem_append_right _ (List.mem_append_left _ hmem))
    · -- the way was walked before
      have hfront : way <+: before := List.prefix_of_prefix_length_le hway hbefore hshort
      obtain ⟨further', rfl⟩ := hfront
      have hthere := hrooted.walk_there (by rw [hrooted.start]; nofun) (walk_front hwalk)
      exact absurd hnone hthere

/-- So do the directories that are made for a file. -/
theorem makeDirectories_above {p : Path} {front : List Step} {name : String} (hrooted : t.Rooted)
    (hreaches : t.Reaches p) (hfront : p.steps = front ++ [.name name])
    (hmake : t.makeDirectories p.parent = .ok t') (hnone : t.node? q = none)
    (hmade : t'.node? q ≠ none) : q <+: spell (t.start p) front := by
  have hfounds := (makeDirectories_founds hmake).mono (Path.parent_steps hfront)
  rw [start_parent] at hfounds
  refine hfounds.above hrooted hreaches ?_ hnone hmade
  rw [hfront]
  exact List.prefix_append _ _

end FileTree

end FormData
