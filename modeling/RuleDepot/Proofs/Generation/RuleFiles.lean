import RuleDepot.Proofs.Files.Relative
import RuleDepot.Proofs.Generation.FinalOrder
import RuleDepot.Proofs.StateFiles
/-!
Rule files at the end of a pass.  When a collector has been finalized, there is a rule file on its shelf
if it reports one, and none otherwise.  Neither the collectors behind it nor the state file change that,
since they keep to other places.  So the rule files that a pass lists are those that are there in the
end, in the order of the shelves.
-/

namespace RuleDepot

open Running RuleDepot.Tree

namespace Tree

variable {t t' : Tree} {d q : Path} {names : List String} {made put : Location → Prop}

/-- A path along names from a directory on leads to a file as before, if none is put or taken away
there. -/
theorem Edited.isFile_iff (edited : Edited made put t t') (rooted : t.Rooted) (enters : t.Enters d)
    (continues : Path.Continues d q names) (solid : ∀ s ∈ names, Path.IsName s)
    (unput : ¬ put (t.lexical d ++ names)) : t'.isFile q = true ↔ t.isFile q = true := by
  rw [isFile_of_continues_iff rooted enters continues solid,
    isFile_of_continues_iff edited.rooted (edited.enters enters) continues solid, edited.lexical]
  refine and_congr_right fun _ => ?_
  rcases edited.elsewhere unput with same | ⟨-, absent, held⟩
  · rw [same]
  · simp [absent, held]

end Tree

namespace Shelf

variable {shelf other : Shelf} {root : Path} {t : Tree}

/-- The rule file of a shelf. -/
def ruleFile (root : Path) (shelf : Shelf) : Path :=
  root / shelf.dirName / Cache.ruleFileName

/-- The names from the root of the cache down to the rule file. -/
theorem isName_of_ruleFile (named : shelf.IsNamed) :
    ∀ s ∈ shelf.trail ++ [Cache.ruleFileName], Path.IsName s := by
  intro s member
  rcases List.mem_append.mp member with member | member
  · exact named s member
  · exact List.mem_singleton.mp member ▸ Cache.isName_ruleFileName

private theorem continues_ruleFile (root : Path) (named : shelf.IsNamed) :
    Path.Continues root (shelf.ruleFile root) (shelf.trail ++ [Cache.ruleFileName]) :=
  (continues root named).join shelf.trail_ne_nil named Cache.isName_ruleFileName

/-- The rule file is kept on its shelf. -/
theorem holds_ruleFile (root : Location) (shelf : Shelf) :
    Cache.Holds (root ++ shelf.trail) (root ++ (shelf.trail ++ [Cache.ruleFileName])) :=
  Or.inl ⟨Cache.ruleFileName, Or.inl rfl, (List.append_assoc ..).symm⟩

end Shelf

namespace Generation

variable {config : Config} {home workspace : Path} {project : Project} {log : List Scope}
  {shelf : Shelf} {shelves : List Shelf} {now : Instant} {report : GenerationReport}
  {g g₀ g' : Generation} {t t₀ t' u : Tree} {ids : List ModuleId}
  {answers : List (Except BuildError Unit)}

/-- The rule file of a shelf, if it is there. -/
def found (root : Path) (t : Tree) (shelf : Shelf) : Option Path :=
  if t.isFile (shelf.ruleFile root) then some (shelf.ruleFile root) else none

/-- What a collector reports is there when it has been finalized, and nothing else. -/
theorem ruleFile_of_finalize {r : CollectorReport} {c' : Collector}
    (ran : Collector.finalize ((stationOf config home workspace project log shelf).collector, t) =
      .ok r (c', u)) : r.ruleFile = found (config.cacheRoot home workspace) u shelf := by
  have isOpen : (stationOf config home workspace project log shelf).collector.ledger.pending = _ :=
    pending_stationOf log shelf
  have leaves := Collector.finalize_leaves isOpen t
  have place : (stationOf config home workspace project log shelf).collector.cache.ruleFilePath =
      shelf.ruleFile (config.cacheRoot home workspace) :=
    congrArg (· / Cache.ruleFileName) (root_stationOf config home workspace project log shelf)
  rw [ran, place] at leaves
  rcases leaves.reported r rfl with ⟨none, missing⟩ | ⟨listed, read⟩
  · have missing : u.isFile (shelf.ruleFile (config.cacheRoot home workspace)) = false := missing
    simp [found, none, missing]
  · have there : u.isFile (shelf.ruleFile (config.cacheRoot home workspace)) = true :=
      isFile_iff.mpr ⟨_, read_eq_ok_iff.mp read⟩
    simp [found, listed, there]

/-- Collectors of other shelves neither make a rule file nor take it away. -/
theorem found_of_others (project : Project) (digested : ∀ scope ∈ log, scope.Digested) (rooted : t.Rooted)
    (enters : t.Enters (config.cacheRoot home workspace))
    (named : ∀ other ∈ shelf :: shelves, other.IsNamed) (apart : shelf ∉ shelves) :
    found (config.cacheRoot home workspace)
        (finalizeAll t (shelves.map (stationOf config home workspace project log))).2.2 shelf =
      found (config.cacheRoot home workspace) t shelf := by
  obtain ⟨own, named⟩ := List.forall_mem_cons.mp named
  have edited := finalizeAll_marked digested rfl enters rooted project named
  have same := edited.isFile_iff rooted enters (shelf.continues_ruleFile _ own)
    (Shelf.isName_of_ruleFile own) fun ⟨other, inside, holds⟩ =>
      Shelf.Touches.not_holds (Or.inr (shelf.holds_ruleFile _)) (fun same => apart (same ▸ inside))
        holds
  simp only [found, same]

private theorem found_of_stateFile {bytes : ByteArray} (rooted : t.Rooted) (scratch : t.Enters g.scratchDir)
    {root : Path} (enters : t.Enters root) (named : shelf.IsNamed)
    (ran : FileM.publishBytes g.stateFile bytes t = .ok () t') :
    found root t' shelf = found root t shelf := by
  have same := (stateFile_edited rooted scratch ran).isFile_iff rooted enters
    (shelf.continues_ruleFile _ named) (Shelf.isName_of_ruleFile named) fun own => by
      rw [lexical_stateFile] at own
      exact Shelf.Touches.ne (Or.inr (shelf.holds_ruleFile _)) Shelf.foreign_names.2.2 own
  simp only [found, same]

/-- After all collectors, what each of them reported about its shelf is there.  The induction is on the
shelves, over the files that the first collector leaves. -/
theorem reports_of_finalizeAll {reports : List CollectorReport}
    (digested : ∀ scope ∈ log, scope.Digested) (rooted : t.Rooted)
    (enters : t.Enters (config.cacheRoot home workspace)) (named : ∀ shelf ∈ shelves, shelf.IsNamed)
    (nodup : shelves.Nodup)
    (all : (finalizeAll t (shelves.map (stationOf config home workspace project log))).1 =
      reports.map .ok) :
    reports.map (fun r => (r.shelf, r.ruleFile)) = shelves.map fun shelf =>
      (shelf, found (config.cacheRoot home workspace)
        (finalizeAll t (shelves.map (stationOf config home workspace project log))).2.2 shelf) := by
  induction shelves generalizing t reports with
  | nil =>
    obtain rfl : reports = [] := by simpa [finalizeAll, eq_comm] using all
    rfl
  | cons shelf rest ih =>
    obtain ⟨own, later⟩ := List.forall_mem_cons.mp named
    obtain ⟨apart, nodup⟩ := List.nodup_cons.mp nodup
    rw [List.map_cons] at all
    obtain ⟨r, c', u, others, ran, rfl, behind, -, ends⟩ := finalizeAll_cons_ok all
    have marked := marked_of_stationOf digested rfl enters rooted project own
    rw [filesAfter_eq, ran] at marked
    replace marked : Cache.Marked _ _ t u := marked
    have there := marked.enters enters
    have kept := found_of_others project digested marked.rooted there named apart
    have about : r.shelf = shelf := by
      rw [Collector.shelf_of_finalize (foldlM_stationOf ..) ran, Config.shelf_duty]
    rw [List.map_cons, List.map_cons, List.map_cons, ends, ih marked.rooted there later nodup behind,
      kept, about, ruleFile_of_finalize ran]

section Ends

variable (accepted : config.check = .ok config) (digested : ∀ scope ∈ log, scope.Digested)
  (phase : g.phase = .accumulating)
  (stations : g.stations = config.shelves.map (stationOf config home workspace project log))
  (rooted : t.Rooted) (enters : t.Enters (config.cacheRoot home workspace))
  (scratch : t.Enters g.scratchDir) (ended : finish now (g, t) = .ok report (g', t'))

include accepted digested phase stations rooted enters scratch ended

/-- Directories that could be entered before a pass ends can be entered afterwards. -/
theorem enters_after {p : Path} (before : t.Enters p) : t'.Enters p := by
  obtain ⟨all, bytes, put⟩ := finish_ok phase ended
  rw [stations] at put
  have marks := finalizeAll_marked digested rfl enters rooted project (Config.isNamed_of_check accepted)
  exact (stateFile_edited marks.rooted (marks.enters scratch) put).enters (marks.enters before)

/-- Each shelf is reported on, and the report tells whether there is a rule file in the end. -/
theorem reports_tell_files : report.reports.map (fun r => (r.shelf, r.ruleFile)) =
    config.shelves.map fun shelf => (shelf, found (config.cacheRoot home workspace) t' shelf) := by
  obtain ⟨all, bytes, put⟩ := finish_ok phase ended
  have named := Config.isNamed_of_check accepted
  rw [stations] at all put
  have marks := finalizeAll_marked digested rfl enters rooted project named
  rw [reports_of_finalizeAll digested rooted enters named config.nodup_shelves all]
  refine List.map_congr_left fun shelf member => ?_
  rw [found_of_stateFile marks.rooted (marks.enters scratch) (marks.enters enters)
    (named shelf member) put]

end Ends

/-- The root of the cache is absolute, or it was put behind the workspace. -/
theorem cacheRoot_cases (config : Config) (home workspace : Path) :
    (config.cacheRoot home workspace).isAbsolute = true ∨
      ∃ q : Path, q.isAbsolute = false ∧ config.cacheRoot home workspace = workspace.join q := by
  unfold Config.cacheRoot Path.resolveAgainst
  simp only
  split
  · exact Or.inl (by assumption)
  · rename_i relative
    exact Or.inr ⟨Path.expandHome home config.cacheDir, by simpa using relative, rfl⟩

/-- A rule file that is there is found from the workspace by the path that is noted. -/
theorem resolves_of_found {p : Path} (inside : t.Enters workspace) (named : shelf.IsNamed)
    (there : found (config.cacheRoot home workspace) t shelf = some p) :
    t.Resolves workspace ((p.relativeTo? workspace).getD p) (t.lexical p) := by
  obtain ⟨file, rfl⟩ : t.isFile (shelf.ruleFile (config.cacheRoot home workspace)) = true ∧
      shelf.ruleFile (config.cacheRoot home workspace) = p := by
    simpa [found] using there
  have continues := shelf.continues_ruleFile (config.cacheRoot home workspace) named
  obtain ⟨-, before, trail, -, -, ends⟩ := Path.pieces_join
    (config.cacheRoot home workspace / shelf.dirName) Cache.isName_ruleFileName
  refine resolves_relative inside file ?_ ends Cache.isName_ruleFileName.isFiller
  rcases cacheRoot_cases config home workspace with absolute | ⟨q, relative, behind⟩
  · exact Or.inl (continues.absolute.trans absolute)
  · rw [behind] at continues ⊢
    exact Or.inr ⟨q, _, relative, continues⟩

end Generation

end RuleDepot
