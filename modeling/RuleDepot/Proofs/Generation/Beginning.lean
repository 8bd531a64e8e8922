import RuleDepot.Proofs.Generation.Places
import RuleDepot.Proofs.Generation.Visits
/-!
The beginning of a pass, and that of the next one.  A pass begins by emptying its directory for
intermediate files and making sure of this and of the root of the cache.  What is found there was left
by a pass before; if that one only changed files elsewhere, then the next pass begins with the files
that are there.
-/

namespace RuleDepot

open Running RuleDepot.Tree

namespace FileM

variable {t t' : Tree} {d : Path} {name : String}

private theorem find?_reverse_pieces (d : Path) (named : Path.IsName name) :
    (d / name).pieces.reverse.find? (· ≠ "") = some name := by
  obtain ⟨-, before, -, -, -, whole⟩ := Path.pieces_join d named
  rw [whole, List.reverse_concat, List.find?_cons_of_pos (by simpa using named.nonempty)]

/-- A directory is taken away with everything in it, if there is one. -/
theorem removeDirs_of_isDir (named : Path.IsName name) (directory : t.isDir (d / name) = true) :
    removeDirs (d / name) t = .ok () (t.erase (t.lexical (d / name))) := by
  obtain ⟨leads, held⟩ := status_eq_ok_iff.mp (isDir_iff.mp directory)
  rw [removeDirs, get_bind, leads]
  simp only [held, find?_reverse_pieces d named]
  simp [named.still, named.down]

/-- What is found as a directory is taken away, and without anything there nothing is. -/
theorem removeDirs_ok (named : Path.IsName name) (ran : removeDirs (d / name) t = .ok () t') :
    t.reaches (d / name) = false ∧ t' = t ∨ t' = t.erase (t.lexical (d / name)) := by
  by_cases directory : t.isDir (d / name) = true
  · rw [removeDirs_of_isDir named directory] at ran
    cases ran
    exact Or.inr rfl
  · left
    rw [removeDirs, get_bind] at ran
    cases leads : t.locate (d / name) with
    | error kind =>
      have nowhere : t.reaches (d / name) = false := by
        simp [reaches, status, leads, bind, Except.bind, Except.isOk, Except.toBool]
      rw [leads] at ran
      cases kind <;> cases ran
      exact ⟨nowhere, rfl⟩
    | ok place =>
      rw [leads] at ran
      cases held : t.node? place with
      | none =>
        simp only [held] at ran
        cases ran
        refine ⟨?_, rfl⟩
        simp [reaches, status, leads, bind, Except.bind, held, Except.isOk, Except.toBool]
      | some node =>
        cases node with
        | file bytes =>
          simp only [held] at ran
          cases ran
        | directory =>
          refine absurd (isDir_iff.mpr (status_eq_ok_iff.mpr ?_)) directory
          rw [← locate_lexical leads]
          exact ⟨leads, held⟩

/-- Whatever comes of taking a directory away, everything is left or exactly this is gone. -/
theorem left_removeDirs (named : Path.IsName name) (t : Tree) :
    left (removeDirs (d / name) t) = t ∨
      left (removeDirs (d / name) t) = t.erase (t.lexical (d / name)) := by
  by_cases directory : t.isDir (d / name) = true
  · rw [removeDirs_of_isDir named directory]
    exact Or.inr rfl
  · left
    rw [removeDirs, get_bind]
    cases leads : t.locate (d / name) with
    | error kind => cases kind <;> rfl
    | ok place =>
      cases held : t.node? place with
      | none => simp only [held]; rfl
      | some node =>
        cases node with
        | file bytes => simp only [held]; rfl
        | directory =>
          refine absurd (isDir_iff.mpr (status_eq_ok_iff.mpr ?_)) directory
          rw [← locate_lexical leads]
          exact ⟨leads, held⟩

private theorem grown_of_erase (t : Tree) (place : Location) (named : place ≠ []) :
    Grown (fun _ _ => True) (t.erase place) t where
  workingDir := rfl
  kept {other node} held := by
    by_cases below : place <+: other
    · rw [node?_erase_below named below] at held
      cases held
    · rwa [node?_erase below] at held
  fresh _ _ := trivial

end FileM

namespace Generation

variable {g g' : Generation} {t t' u emptied made : Tree} {changed put : Location → Prop}

/-- What the beginning of a pass does to the files. -/
structure Prepares (g : Generation) (t emptied made t' : Tree) : Prop where
  empties : FileM.removeDirs g.scratchDir t = .ok () emptied
  makes : FileM.ensureDir g.scratchDir emptied = .ok () made
  ensures : FileM.ensureDir g.cacheRoot made = .ok () t'

/-- A pass that has not begun begins exactly if the files can be prepared. -/
theorem start_iff (fresh : g.phase = .uninitialized) :
    start (g, t) = .ok () (g', t') ↔ g' = { g with phase := .accumulating } ∧
      ∃ emptied made, Prepares g t emptied made t' := by
  constructor
  · intro ran
    refine ⟨start_ok ran, ?_⟩
    rw [start, Step.part_bind, if_neg (not_not.mpr fresh)] at ran
    obtain ⟨_, made, reset, ran⟩ := Step.files_bind_ok ran
    obtain ⟨_, emptied, empties, makes⟩ := bind_ok reset
    obtain ⟨_, after, ensures, ran⟩ := Step.files_bind_ok ran
    cases ran
    exact ⟨emptied, made, empties, makes, ensures⟩
  · rintro ⟨rfl, emptied, made, empties, makes, ensures⟩
    rw [start, Step.part_bind, if_neg (not_not.mpr fresh)]
    simp only [bind_run, Step.files_run, empties, makes, ensures]
    rfl

/-- The directory for intermediate files is not there, or it is found under its path. -/
def ScratchFound (g : Generation) (t : Tree) : Prop :=
  t.node? (t.lexical g.scratchDir) = none ∨ t.reaches g.scratchDir = true

namespace Prepares

private theorem text_scratchDir_ne (g : Generation) : g.scratchDir.text ≠ "" := by
  rw [scratchDir_eq]
  exact Path.text_join_ne_empty _ (by decide)

/-- After the directory for intermediate files was emptied, nothing is left of it. -/
theorem spec_emptied (prepares : Prepares g t emptied made t') (rooted : t.Rooted)
    (found : g.ScratchFound t) : emptied.Rooted ∧ emptied.workingDir = t.workingDir ∧
      ∀ {place}, t.lexical g.scratchDir <+: place → emptied.node? place = none := by
  have solid : t.lexical g.scratchDir ≠ [] := by simp [lexical_scratchDir]
  have empties := prepares.empties
  unfold ScratchFound at found
  rw [scratchDir_eq] at empties found solid ⊢
  rcases FileM.removeDirs_ok (isName_own "gen" (by decide)) empties with ⟨nowhere, same⟩ | rfl
  · have absent := found.resolve_right (by simp [nowhere])
    rw [same]
    refine ⟨rooted, rfl, fun {place} below => ?_⟩
    by_cases own : t.lexical (g.workspace / ".buckforge" / "gen") = place
    · exact own ▸ absent
    · exact rooted.absent_below (by simp [absent]) below own
  · exact ⟨rooted.erase solid, rfl, node?_erase_below solid⟩

/-- From then on only directories are made. -/
theorem edited (prepares : Prepares g t emptied made t') (rooted : emptied.Rooted) :
    Edited (emptied.Passes g.scratchDir) (fun _ => False) emptied made ∧
      Edited (made.Passes g.cacheRoot) (fun _ => False) made t' := by
  have first := FileM.directories_of_ensureDir prepares.makes rooted
  exact ⟨first, FileM.directories_of_ensureDir prepares.ensures first.rooted⟩

theorem isDir_scratchDir (prepares : Prepares g t emptied made t') (rooted : emptied.Rooted) :
    t'.isDir g.scratchDir = true :=
  (prepares.edited rooted).2.isDir
    (FileM.isDir_of_ensured (text_scratchDir_ne g) prepares.makes)

/-- The root of the cache can be entered, even if it is the empty path, which only an empty path to the
workspace makes it. -/
theorem enters_cacheRoot (prepares : Prepares g t emptied made t') (rooted : emptied.Rooted)
    (blank : g.cacheRoot.text = "" → g.cacheRoot = g.workspace) : t'.Enters g.cacheRoot := by
  by_cases filled : g.cacheRoot.text = ""
  · rw [blank filled]
    exact (enters_of_isDir (prepares.isDir_scratchDir rooted)).of_continues g.continues_scratchDir
  · exact enters_of_isDir (FileM.isDir_of_ensured filled prepares.ensures)

/-- A tree in which only something is missing that an emptied tree does not have is ahead of it. -/
theorem ahead_of_erase (prepares : Prepares g t emptied made t') (rooted : t.Rooted)
    (found : g.ScratchFound t) (edited : Edited changed put t' u) :
    Ahead emptied (u.erase (u.lexical g.scratchDir)) u := by
  obtain ⟨rooted₀, dir₀, gone⟩ := prepares.spec_emptied rooted found
  obtain ⟨first, second⟩ := prepares.edited rooted₀
  have dir : u.workingDir = emptied.workingDir :=
    edited.workingDir.trans (second.workingDir.trans first.workingDir)
  have place : u.lexical g.scratchDir = t.lexical g.scratchDir := lexical_congr (dir.trans dir₀) _
  have solid : u.lexical g.scratchDir ≠ [] := by simp [lexical_scratchDir]
  refine ⟨rooted₀, Rooted.erase edited.rooted solid, FileM.grown_of_erase u _ solid, dir, ?_⟩
  intro other held
  have outside : ¬ u.lexical g.scratchDir <+: other := fun below => by
    rw [gone (place ▸ below)] at held
    cases held
  rw [node?_erase outside]
  exact edited.directory (second.directory (first.directory held))

/-- The next pass can begin, and has every directory then that the one before had when it began. -/
theorem begins_again (prepares : Prepares g t emptied made t') (rooted : t.Rooted)
    (found : g.ScratchFound t) (edited : Edited changed put t' u) :
    ∃ made' v, Prepares g u (u.erase (u.lexical g.scratchDir)) made' v ∧ Ahead t' v u := by
  obtain ⟨rooted₀, -⟩ := prepares.spec_emptied rooted found
  have ahead := prepares.ahead_of_erase rooted found edited
  have there : u.isDir g.scratchDir = true := edited.isDir (prepares.isDir_scratchDir rooted₀)
  have empties : FileM.removeDirs g.scratchDir u = .ok () (u.erase (u.lexical g.scratchDir)) := by
    rw [scratchDir_eq] at there ⊢
    exact FileM.removeDirs_of_isDir (isName_own "gen" (by decide)) there
  obtain ⟨made', makes, ahead'⟩ := FileM.ensureDir_again ahead prepares.makes (Or.inl there)
  obtain ⟨v, ensures, ahead''⟩ := FileM.ensureDir_again ahead' prepares.ensures
    (((FileM.ensureDir_secures _ _).2 _ prepares.ensures).symm.imp edited.isDir (by simp))
  exact ⟨made', v, ⟨empties, makes, ensures⟩, ahead''⟩

/-- When a pass has begun, there are only directories in the directory for intermediate files. -/
theorem directory_of_below (prepares : Prepares g t emptied made t') (rooted : t.Rooted)
    (found : g.ScratchFound t) (below : t.lexical g.scratchDir <+: place)
    (held : t'.node? place = some node) : node = .directory := by
  obtain ⟨rooted₀, -, gone⟩ := prepares.spec_emptied rooted found
  obtain ⟨first, second⟩ := prepares.edited rooted₀
  rcases @second.elsewhere place id with same | ⟨-, -, held'⟩
  · rw [held] at same
    rcases @first.elsewhere place id with same' | ⟨-, -, held'⟩
    · rw [gone below, ← same] at same'
      cases same'
    · exact Option.some.inj (same.trans held')
  · exact Option.some.inj (held.symm.trans held')

/-- **The next pass begins with the same files.**  If nothing was changed in the directory for
intermediate files since a pass began, then the next pass can begin, and finds what was there. -/
theorem again (prepares : Prepares g t emptied made t') (rooted : t.Rooted) (found : g.ScratchFound t)
    (edited : Edited changed put t' u)
    (apart : ∀ {place}, t.lexical g.scratchDir <+: place → ¬ changed place ∧ ¬ put place) :
    ∃ emptied' made' v, Prepares g u emptied' made' v ∧ v.Rooted ∧ v.workingDir = u.workingDir ∧
      ∀ place, v.node? place = u.node? place := by
  obtain ⟨rooted₀, dir₀, -⟩ := prepares.spec_emptied rooted found
  obtain ⟨made', v, prepares', ahead⟩ := prepares.begins_again rooted found edited
  obtain ⟨first, second⟩ := prepares.edited rooted₀
  have dir : u.workingDir = t.workingDir :=
    edited.workingDir.trans (second.workingDir.trans (first.workingDir.trans dir₀))
  have solid : u.lexical g.scratchDir ≠ [] := by simp [lexical_scratchDir]
  obtain ⟨first', second'⟩ := prepares'.edited (Rooted.erase edited.rooted solid)
  refine ⟨_, made', v, prepares', ahead.rooted', second'.workingDir.trans first'.workingDir,
    fun other => ?_⟩
  cases held : u.node? other with
  | none =>
    cases held' : v.node? other with
    | none => rfl
    | some node =>
      rw [ahead.part.kept held'] at held
      cases held
  | some node =>
    by_cases below : t.lexical g.scratchDir <+: other
    · -- In there, only directories were made, and these were made again.
      obtain ⟨unmade, unput⟩ := apart below
      have former : t'.node? other = some node := edited.same unmade unput ▸ held
      obtain rfl := prepares.directory_of_below rooted found below former
      exact ahead.more former
    · have kept : (u.erase (u.lexical g.scratchDir)).node? other = some node := by
        rwa [node?_erase (lexical_congr dir g.scratchDir ▸ below)]
      exact second'.kept id (first'.kept id kept)

end Prepares

end Generation

end RuleDepot
