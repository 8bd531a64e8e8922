import RuleDepot.Proofs.Collector.References
import RuleDepot.Proofs.Generation.Ending
import RuleDepot.Proofs.Generation.Register
import RuleDepot.Proofs.Generation.Shelves
import RuleDepot.Proofs.Generation.Tools
/-!
What a whole pass leaves in the cache.  Every collector writes into the directory of its own shelf;
the only file that is replaced there is the rule file, and none of the others is a rule file by its
name.  So what holds when a collector has ended its pass still holds after all others have, and after
the state file was written.
-/

namespace RuleDepot.Generation

open Running

variable {config : Config} {home workspace : Path} {project : Project} {now : Instant}
  {report : GenerationReport} {g g' : Generation} {t t₀ t' : Tree}

/-- The files as the collectors of a whole pass find them one after another, and as the last one
leaves them. -/
def passing (g : Generation) (t : Tree) : List Tree :=
  match (do start; visitAll : Step Generation Nat) (g, t) with
  | .ok _ (g, t) => stages t g.stations
  | .error _ _ => []

/-- The collector of a shelf after some scopes were shown to it. -/
def stationOf (config : Config) (home workspace : Path) (project : Project) (log : List Scope)
    (shelf : Shelf) : Station :=
  ⟨(Collector.new (config.duty shelf) (config.cacheRoot home workspace)
    (config.resolver home workspace project)).shown log, .accumulating⟩

/-- A whole pass shows scopes that were resolved over the files at its beginning, and then ends. -/
theorem run_ok (ran : run now (new config home workspace project, t₀) = .ok report (g', t')) :
    ∃ t g log, passing (new config home workspace project) t₀ = stages t g.stations ∧
      g.phase = .accumulating ∧
      g.stations = config.shelves.map (stationOf config home workspace project log) ∧
      (∀ scope ∈ log, scope.Bound (config.resolver home workspace project) t) ∧
      finish now (g, t) = .ok report (g', t') := by
  obtain ⟨_, ⟨g₀, t⟩, started, later⟩ := bind_ok ran
  obtain ⟨n, ⟨g, t₁⟩, all, ended⟩ := bind_ok later
  obtain ⟨rfl, visited⟩ := (begun_of_start started).visited_of_visitAll all
  have passed : passing (new config home workspace project) t₀ = stages t₁ g.stations := by
    simp only [passing, bind_run, started, all]
  have begins := start_ok started
  refine ⟨t₁, g, g₀.scopes.project.modules.keys.flatMap (g₀.scopes.scopesOf t₁), passed,
    visited.phase, ?_, ?_, ended⟩
  · rw [visited.stations, begins]
    simp only [new, List.map_map]
    rfl
  · intro scope member
    obtain ⟨id, -, own⟩ := List.mem_flatMap.mp member
    have bound := ScopeMemo.bound_of_mem_scopesOf own
    rwa [begins] at bound

/-- The collectors of a pass that is under way are new ones that were shown digested scopes. -/
theorem Underway.stations_eq (underway : Underway config home workspace project g) :
    ∃ log, g.stations = config.shelves.map (stationOf config home workspace project log) ∧
      ∀ scope ∈ log, scope.Digested := by
  obtain ⟨log, showed⟩ := underway.showed
  refine ⟨log, ?_, fun scope member => ?_⟩
  · rw [showed.stations]
    simp only [new, List.map_map]
    rfl
  · obtain ⟨id, -, sid, -, held⟩ := (showed.registered scope).mp member
    exact showed.digested sid scope held

/-- The collector of a station is a new one that was shown the scopes. -/
theorem foldlM_stationOf (config : Config) (home workspace : Path) (project : Project)
    (log : List Scope) (shelf : Shelf) :
    log.foldlM Collector.register (Collector.new (config.duty shelf) (config.cacheRoot home workspace)
        (config.resolver home workspace project)) =
      .ok (stationOf config home workspace project log shelf).collector :=
  Collector.register_foldlM rfl log

private theorem read_finalizeAll {log : List Scope} {shelf : Shelf} {others : List Shelf}
    {reports : List CollectorReport} {name : String} {content : ByteArray}
    (digests : ∀ scope ∈ log, scope.Digested) (named : ∀ other ∈ shelf :: others, other.IsNamed)
    (apart : ∀ other ∈ others, shelf ≠ other)
    (all : (finalizeAll t (others.map (stationOf config home workspace project log))).1 =
      reports.map .ok)
    (good : Path.IsName name)
    (read : t.read (config.cacheRoot home workspace / shelf.dirName / name) = .ok content) :
    (finalizeAll t (others.map (stationOf config home workspace project log))).2.2.read
      (config.cacheRoot home workspace / shelf.dirName / name) = .ok content := by
  refine finalizeAll_invariant
    (fun w => w.read (config.cacheRoot home workspace / shelf.dirName / name) = .ok content) all
    (fun other member w r' c' w' held ended => ?_) read
  obtain ⟨foreign, inside, rfl⟩ := List.mem_map.mp member
  have here := named shelf List.mem_cons_self
  have there := named foreign (List.mem_cons_of_mem _ inside)
  have keeps := Collector.keeps_of_finalize digests
    (foldlM_stationOf config home workspace project log foreign) ended
  rw [Config.shelf_duty] at keeps
  refine keeps.read _ content ?_ ?_ held
  · rw [(Path.pieces_join _ good).1, (Path.pieces_join _ Cache.isName_ruleFileName).1,
      (Shelf.directory_of_isNamed _ here).1, (Shelf.directory_of_isNamed _ there).1]
  · exact Shelf.lexical_ne _ here there good Cache.isName_ruleFileName
      (fun same => absurd same (apart foreign inside)) w

private theorem lexical_ne_stateFile {name : String} (root : Path) (named : Path.IsName name)
    (other : name ≠ "STATE") (g : Generation) (t : Tree) :
    t.lexical (root / name) ≠ t.lexical g.stateFile := by
  have good : Path.IsName "STATE" := ⟨by decide, by decide, by decide, by decide⟩
  have ends : ".buckforge/state".toList.getLast? = some 'e' := by decide
  have place : g.stateFile = g.workspace / ".buckforge/state" / "STATE" :=
    Path.join_append g.workspace (by decide) ends (by decide) good.relative
  rw [place, Tree.lexical_join t named, Tree.lexical_join t good]
  intro same
  exact other (by simpa using (List.append_inj' same rfl).2)

/-- How a report came about: the collector of the shelf was finalized over some files, and what it left
on the shelf is there in the end, if it has a good name that is not that of the state file. -/
structure Left (config : Config) (home workspace : Path) (project : Project) (log : List Scope)
    (r : CollectorReport) (final : Tree) (c' : Collector) (t t' : Tree) : Prop where
  ran : Collector.finalize ((stationOf config home workspace project log r.shelf).collector, t) =
    .ok r (c', t')
  stays : ∀ name content, Path.IsName name → name ≠ "STATE" →
    t'.read (config.cacheRoot home workspace / r.shelf.dirName / name) = .ok content →
    final.read (config.cacheRoot home workspace / r.shelf.dirName / name) = .ok content

/-- Every report of a pass that succeeds came about so. -/
theorem left_of_finish {log : List Scope} (accepted : config.check = .ok config)
    (phase : g.phase = .accumulating)
    (stations : g.stations = config.shelves.map (stationOf config home workspace project log))
    (digests : ∀ scope ∈ log, scope.Digested)
    (ended : finish now (g, t) = .ok report (g', t')) {r : CollectorReport}
    (member : r ∈ report.reports) :
    ∃ c' u u', u ∈ stages t g.stations ∧
      Left config home workspace project log r t' c' u u' := by
  obtain ⟨all, bytes, put⟩ := finish_ok phase ended
  obtain ⟨before, s, later, c', u, u', others, split, stage, finalized, rest, last⟩ :=
    finalizeAll_report all member
  rw [stations] at split
  obtain ⟨front, behind, shelves, -, split⟩ := List.map_eq_append_iff.mp split
  obtain ⟨shelf, back, rfl, rfl, rfl⟩ := List.map_eq_cons_iff.mp split
  obtain rfl : r.shelf = shelf := by
    rw [Collector.shelf_of_finalize (foldlM_stationOf ..) finalized, Config.shelf_duty]
  have named : ∀ other ∈ r.shelf :: back, other.IsNamed := fun other inside =>
    Config.isNamed_of_check accepted other (shelves ▸ List.mem_append_right _ inside)
  have apart : ∀ other ∈ back, r.shelf ≠ other := by
    have nodup := config.nodup_shelves
    rw [shelves] at nodup
    exact fun other => List.rel_of_pairwise_cons (List.nodup_append.mp nodup).2.1
  refine ⟨c', u, u', stage, finalized, fun name content good differ read => ?_⟩
  have kept := read_finalizeAll digests named apart rest good read
  rw [last] at kept
  exact (FileM.read_publishBytes put).2.2 _ content (lexical_ne_stateFile _ good differ g _) kept

/-- The shelves are reported on in their order. -/
theorem shelves_of_finish {log : List Scope} (phase : g.phase = .accumulating)
    (stations : g.stations = config.shelves.map (stationOf config home workspace project log))
    (ended : finish now (g, t) = .ok report (g', t')) :
    report.reports.map (·.shelf) = config.shelves := by
  obtain ⟨all, -⟩ := finish_ok phase ended
  rw [stations] at all
  clear stations ended
  generalize report.reports = reports at all ⊢
  generalize config.shelves = shelves at all ⊢
  induction shelves generalizing t reports with
  | nil =>
    obtain rfl : reports = [] := by simpa [finalizeAll, eq_comm] using all
    rfl
  | cons shelf rest ih =>
    rw [List.map_cons] at all
    obtain ⟨r, c', u, others, ran, rfl, later, -⟩ := finalizeAll_cons_ok all
    rw [List.map_cons, ih others later,
      Collector.shelf_of_finalize (foldlM_stationOf ..) ran, Config.shelf_duty]

/-- How a report of a whole pass came about: the scopes were resolved at some stage of it, and another
one was that over which the collector was finalized. -/
structure Reported (config : Config) (home workspace : Path) (project : Project) (stages : List Tree)
    (r : CollectorReport) (final : Tree) (log : List Scope) (c' : Collector) (t t' : Tree) : Prop
    extends Left config home workspace project log r final c' t t' where
  stage : t ∈ stages
  bound : ∀ scope ∈ log, ∃ s ∈ stages, scope.Bound (config.resolver home workspace project) s

private theorem reported_of_run (accepted : config.check = .ok config)
    (ran : run now (new config home workspace project, t₀) = .ok report (g', t'))
    {r : CollectorReport} (member : r ∈ report.reports) :
    ∃ log c' u u', Reported config home workspace project
      (passing (new config home workspace project) t₀) r t' log c' u u' := by
  obtain ⟨t, g, log, passed, phase, stations, bound, ended⟩ := run_ok ran
  rw [passed]
  obtain ⟨c', u, u', stage, left⟩ := left_of_finish accepted phase stations
    (fun scope shown => (bound scope shown).digested) ended member
  exact ⟨log, c', u, u', left, stage,
    fun scope shown => ⟨t, mem_stages t g.stations, bound scope shown⟩⟩

/-- **Rules for files lead to the bytes of their sources.**  In every rule file of a whole pass, a
rule that stands for a file names one next to it, and that file holds the bytes of the source that
the coordinate of the rule was resolved to, whether it was copied or left there by an earlier pass.
This takes sources that stay the same through the pass.  If the bytes are others, then SHA-256 collides
on just these two contents, or on the texts of two coordinates in the report. -/
theorem rules_lead_to_sources (accepted : config.check = .ok config)
    (ran : run now (new config home workspace project, t₀) = .ok report (g', t'))
    (unchanged : ∀ r ∈ report.reports, ∀ e ∈ r.entries,
      ∀ s ∈ passing (new config home workspace project) t₀,
        s.read e.artifact.source = t'.read e.artifact.source) :
    ∀ r ∈ report.reports, ∃ rules,
      r.Emits (config.cacheRoot home workspace / r.shelf.dirName) t' rules ∧
      ∀ rule ∈ rules, rule.isPrebuilt = true →
        rule.StandsFor (config.cacheRoot home workspace / r.shelf.dirName) t' r.entries fun a =>
          ∃ s ∈ passing (new config home workspace project) t₀,
            (config.resolver home workspace project).Binds s a := by
  intro r member
  obtain ⟨log, c', u, u', reported⟩ := reported_of_run accepted ran member
  have shown := foldlM_stationOf config home workspace project log r.shelf
  have stands := Collector.rules_stand shown reported.ran reported.stage reported.bound
    (unchanged r member)
  rw [Config.shelf_duty] at stands
  refine stands fun name content good kind read => reported.stays name content good ?_ read
  -- Neither the rule file nor a copied one, which has a dash in its name, is named like this.
  rintro rfl
  revert kind
  decide

/-- A module that needs one jar. -/
def jarProject : Project where
  modules := (∅ : Table ModuleId ModuleSnapshot).insert ⟨":app"⟩
    ⟨⟨":app"⟩, ⟨"app"⟩, (∅ : Table ScopeKind SourceSet).insert .main
      (needing Naming.dashedVersion.key)⟩
  artifacts := (∅ : Table ArtifactKey Path).insert Naming.dashedVersion.key ⟨"/x.jar"⟩

/-- The jar, and the copy of it that an earlier pass left. -/
def leftoverTree : Tree :=
  ((Cache.jarTree.insert ["c"] .directory).insert ["c", "external"] .directory).insert
    ["c", "external", "a.b-1-0.jar"] (.file .empty)

/-- Digests are taken over coordinates. -/
def coordinateConfig : Config :=
  { Config.default with hashMode := .coordinate, cacheDir := ⟨"/c"⟩ }

/-- A whole pass with both. -/
def leftoverRun : EStateM.Result BuildError (Generation × Tree) GenerationReport :=
  run .epoch (new coordinateConfig ⟨"/home"⟩ ⟨"/w"⟩ jarProject, leftoverTree)

theorem rules_beside_leftover_lead_to_sources :
    ∃ report g' t', leftoverRun = .ok report (g', t') ∧
      (report.reports.flatMap CollectorReport.entries).map CacheEntry.fileName =
        ["a.b-1-0.jar"] ∧
      ∀ r ∈ report.reports, ∃ rules,
        r.Emits (coordinateConfig.cacheRoot ⟨"/home"⟩ ⟨"/w"⟩ / r.shelf.dirName) t' rules ∧
        ∀ rule ∈ rules, rule.isPrebuilt = true →
          rule.StandsFor (coordinateConfig.cacheRoot ⟨"/home"⟩ ⟨"/w"⟩ / r.shelf.dirName) t' r.entries
            fun a => ∃ s ∈ passing (new coordinateConfig ⟨"/home"⟩ ⟨"/w"⟩ jarProject) leftoverTree,
              (coordinateConfig.resolver ⟨"/home"⟩ ⟨"/w"⟩ jarProject).Binds s a := by
  have listed : (outcome leftoverRun).map (fun report =>
      (report.reports.flatMap CollectorReport.entries).map fun e => (e.fileName, e.artifact.source)) =
        .ok [("a.b-1-0.jar", ⟨"/x.jar"⟩)] := by decide +kernel
  have jar : ∀ s ∈ passing (new coordinateConfig ⟨"/home"⟩ ⟨"/w"⟩ jarProject) leftoverTree ++
      [(left leftoverRun).2], s.status ⟨"/x.jar"⟩ = .ok (.file .empty) := by decide +kernel
  obtain ⟨report, g', t', ran, listed⟩ := exists_of_outcome listed
  rw [ran] at jar
  obtain ⟨e, alone, file⟩ := List.map_eq_singleton_iff.mp listed
  obtain ⟨name, source⟩ := Prod.mk.inj file
  have only : ∀ r ∈ report.reports, ∀ e' ∈ r.entries, e' = e := fun r own e' inside =>
    List.mem_singleton.mp (alone ▸ List.mem_flatMap.mpr ⟨r, own, inside⟩)
  have ends : t'.read ⟨"/x.jar"⟩ = .ok .empty :=
    Tree.read_eq_ok_iff.mpr (jar t' (List.mem_append_right _ (List.mem_singleton_self _)))
  have accepted : coordinateConfig.check = .ok coordinateConfig := rfl
  have unchanged : ∀ r ∈ report.reports, ∀ e ∈ r.entries,
      ∀ s ∈ passing (new coordinateConfig ⟨"/home"⟩ ⟨"/w"⟩ jarProject) leftoverTree,
        s.read e.artifact.source = t'.read e.artifact.source := by
    intro r own e' inside s stage
    rw [only r own e' inside, source, ends]
    exact Tree.read_eq_ok_iff.mpr (jar s (List.mem_append_left _ stage))
  refine ⟨report, g', t', ran, ?_, rules_lead_to_sources accepted ran unchanged⟩
  rw [alone, List.map_singleton, name]

end RuleDepot.Generation
