import RuleDepot.Proofs.Generation.FailedCalls
import RuleDepot.Proofs.Generation.RuleFiles
/-!
What a pass leaves on record.  If it succeeds, the state file tells how many modules were visited and
where the rule files are.  If one of its calls fails, the record of an earlier pass is left alone.
-/

namespace RuleDepot.Generation

open Running RuleDepot.Tree

variable {config : Config} {home workspace : Path} {project : Project} {now : Instant}
  {report : GenerationReport} {g₀ g g' : Generation} {t₀ t t' : Tree} {ids : List ModuleId}
  {answers : List (Except BuildError Unit)}

section Succeeds

variable (checked : config.check = .ok config) (rooted : t₀.Rooted)
  (started : start (new config home workspace project, t₀) = .ok () (g₀, t))
  (ran : ids.mapM (fun id => Step.attempt (visit id)) (g₀, t) = .ok answers (g, t))

include started ran

private theorem size_visited : g.visited.size = (accepted ids answers).dedup.length := by
  obtain ⟨g₂, visited, rest⟩ := visited_of_attempts started ran
  rw [rest]
  exact Roster.size_eq visited.visited

variable (ended : finish now (g, t) = .ok report (g', t'))

include checked rooted ended

/-- The end of a pass tells of each shelf which rule file there is, and each of them is found from the
workspace by the path that is noted. -/
theorem ruleFiles_of_pass :
    report.reports.map (fun r => (r.shelf, r.ruleFile)) =
        config.shelves.map (fun shelf => (shelf, found (config.cacheRoot home workspace) t' shelf)) ∧
      ∀ shelf ∈ config.shelves, ∀ p, found (config.cacheRoot home workspace) t' shelf = some p →
        t'.Resolves workspace ((p.relativeTo? workspace).getD p) (t'.lexical p) := by
  have underway : Underway config home workspace project g := .attempts (.begun started) ran
  have phase := underway.accumulates.phase
  obtain ⟨log, stations, digested⟩ := underway.stations_eq
  obtain ⟨rooted, enters, scratch⟩ := begins_rooted started rooted
  have place : g₀.workspace = workspace ∧ g.workspace = workspace :=
    ⟨(Underway.begun started).placed.1, underway.placed.1⟩
  have scratch' : t.Enters g.scratchDir := by
    rw [scratchDir, place.1] at scratch
    rwa [scratchDir, place.2]
  have inside : t.Enters workspace := by
    rw [← place.2]
    exact scratch'.of_continues g.continues_scratchDir
  refine ⟨reports_tell_files checked digested phase stations rooted enters scratch' ended,
    fun shelf member p there => ?_⟩
  have after := enters_after checked digested phase stations rooted enters scratch' ended inside
  exact resolves_of_found after (Config.isNamed_of_check checked shelf member) there

/-- A pass that succeeds is on record with its modules and its rule files. -/
theorem noted_of_pass (fits : (g.summary report now).Fits) :
    ∃ s, StateFile.read t' (workspace.join StateFile.location) = .ok (some s) ∧
      s.modules = (accepted ids answers).dedup.length ∧
      s.ruleFiles = (config.shelves.filterMap (found (config.cacheRoot home workspace) t')).map
        (fun p => (p.relativeTo? workspace).getD p) := by
  have underway : Underway config home workspace project g := .attempts (.begun started) ran
  obtain ⟨-, counted, put⟩ := finish_notes underway.accumulates.phase ended
  have shelves := (ruleFiles_of_pass checked rooted started ran ended).1
  have files : report.ruleFiles =
      config.shelves.filterMap (found (config.cacheRoot home workspace) t') := by
    have mapped := congrArg (List.filterMap Prod.snd) shelves
    simpa only [GenerationReport.ruleFiles, List.filterMap_map, Function.comp_def] using mapped
  have place := underway.placed.1
  have read := StateFile.read_of_write fits put
  rw [stateFile, place] at read
  refine ⟨g.summary report now, read, ?_, ?_⟩
  · exact counted.trans (size_visited started ran)
  · rw [summary, files, place]

end Succeeds

/-- **The state file is the record of the last pass that succeeded.**  When a pass ends well, reading the
state file gives how many modules were visited with success, each counted once, and the rule files that are
there on the shelves of the configuration, in order; on every other shelf there is none.  Each rule file is
found from the workspace by the path that is noted.  A call that fails, at whatever point of a pass, leaves
what stands at the place of the state file as it was.  Only where nothing stood a directory may be left, if
the path of the workspace or of the root of the cache leads through that place. -/
theorem passes_are_recorded (checked : config.check = .ok config) (home workspace : Path)
    (project : Project) :
    (∀ (t₀ t t' : Tree) (g₀ g g' : Generation) (ids : List ModuleId)
      (answers : List (Except BuildError Unit)) (now : Instant) (report : GenerationReport), t₀.Rooted →
      start (new config home workspace project, t₀) = .ok () (g₀, t) →
      ids.mapM (fun id => Step.attempt (visit id)) (g₀, t) = .ok answers (g, t) →
      finish now (g, t) = .ok report (g', t') → (g.summary report now).Fits →
      (∃ s, StateFile.read t' (workspace.join StateFile.location) = .ok (some s) ∧
        s.modules = (accepted ids answers).dedup.length ∧
        s.ruleFiles = (config.shelves.filterMap (found (config.cacheRoot home workspace) t')).map
          (fun p => (p.relativeTo? workspace).getD p)) ∧
      report.reports.map (fun r => (r.shelf, r.ruleFile)) =
        config.shelves.map (fun shelf => (shelf, found (config.cacheRoot home workspace) t' shelf)) ∧
      ∀ shelf ∈ config.shelves, ∀ p, found (config.cacheRoot home workspace) t' shelf = some p →
        t'.Resolves workspace ((p.relativeTo? workspace).getD p) (t'.lexical p)) ∧
    ∀ calls, ∀ m ∈ history (new config home workspace project) calls, m.files.Rooted →
      ∀ e, outcome m.result = .error e →
        Spared
          (m.files.Passes workspace (m.files.lexical (workspace.join StateFile.location)) ∨
            m.files.Passes (config.cacheRoot home workspace)
              (m.files.lexical (workspace.join StateFile.location)))
          (m.files.lexical (workspace.join StateFile.location)) m.files m.filesAfter := by
  refine ⟨fun t₀ t t' g₀ g g' ids answers now report rooted started ran ended fits =>
    ⟨noted_of_pass checked rooted started ran ended fits,
      ruleFiles_of_pass checked rooted started ran ended⟩, fun calls m member rooted e failed => ?_⟩
  have fresh : Standing config home workspace project (new config home workspace project) :=
    ⟨rfl, rfl, Or.inl rfl⟩
  have standing := standing_of_history fresh calls m member
  have spared := spared_of_call checked standing rooted failed
  rwa [LeadsThrough, stateFile, standing.base, standing.root] at spared

/-- The cache is kept below the workspace. -/
def ownConfig : Config :=
  { coordinateConfig with cacheDir := ⟨"cache"⟩ }

/-- The jar, and a rule file that an earlier pass left on the shelf for lint. -/
def staleTree : Tree :=
  (((Cache.jarTree.insert ["w"] .directory).insert ["w", "cache"] .directory).insert
    ["w", "cache", "lint"] .directory).insert ["w", "cache", "lint", "BUCK"] (.file .empty)

/-- The beginning of a pass over both. -/
def staleStart : EStateM.Result BuildError (Generation × Tree) Unit :=
  start (new ownConfig ⟨"/home"⟩ ⟨"/w"⟩ jarProject, staleTree)

/-- One module twice, and one that nobody declared. -/
def staleIds : List ModuleId :=
  [⟨":app"⟩, ⟨":gone"⟩, ⟨":app"⟩]

/-- The visits of that pass. -/
def staleVisits : EStateM.Result BuildError (Generation × Tree) (List (Except BuildError Unit)) :=
  staleIds.mapM (fun id => Step.attempt (visit id)) ((left staleStart).1, (left staleStart).2)

/-- The end of that pass. -/
def staleRun : EStateM.Result BuildError (Generation × Tree) GenerationReport :=
  finish .epoch ((left staleVisits).1, (left staleVisits).2)

/-- The rule file that is there in the end. -/
def jarRuleFile : Path :=
  ⟨"/w/cache/external/BUCK"⟩

/-- A file where the cache would be, and a state file of an earlier pass. -/
def blockedTree : Tree :=
  ((((Cache.jarTree.insert ["w"] .directory).insert ["w", "cache"] (.file .empty)).insert
    ["w", ".buckforge"] .directory).insert ["w", ".buckforge", "state"] .directory).insert
    ["w", ".buckforge", "state", "STATE"] (.file ⟨#[1]⟩)

/-- Calls of which the last one finds the cache blocked. -/
def blockedCalls : List (Call × Tree) :=
  [(.start, staleTree), (.visit ⟨":app"⟩, staleTree), (.finish .epoch, blockedTree)]

theorem passes_beside_leftovers_are_recorded :
    (∃ report g' t' s, staleRun = .ok report (g', t') ∧
      StateFile.read t' ((⟨"/w"⟩ : Path).join StateFile.location) = .ok (some s) ∧ s.modules = 1 ∧
      s.ruleFiles = [⟨"cache/external/BUCK"⟩] ∧
      t'.Resolves ⟨"/w"⟩ ⟨"cache/external/BUCK"⟩ ["w", "cache", "external", "BUCK"]) ∧
    (history (new ownConfig ⟨"/home"⟩ ⟨"/w"⟩ jarProject) blockedCalls).map
      (fun m => (outcome m.result).isOk) = [true, true, false] ∧
    ∀ m ∈ history (new ownConfig ⟨"/home"⟩ ⟨"/w"⟩ jarProject) blockedCalls, ∀ e,
      outcome m.result = .error e →
      m.filesAfter.node? ["w", ".buckforge", "state", "STATE"] = some (.file ⟨#[1]⟩) := by
  have begins : (outcome staleStart).isOk = true := by decide +kernel
  have once : (outcome staleVisits).map (fun answers => (accepted staleIds answers).dedup.length) =
      .ok 1 := by decide +kernel
  have ends : (outcome staleRun).map (fun report =>
        decide ((left staleVisits).1.summary report .epoch).Fits) = .ok true ∧
      ownConfig.shelves.filterMap
        (found (ownConfig.cacheRoot ⟨"/home"⟩ ⟨"/w"⟩) (left staleRun).2) = [jarRuleFile] ∧
      found (ownConfig.cacheRoot ⟨"/home"⟩ ⟨"/w"⟩) (left staleRun).2 .external = some jarRuleFile ∧
      (left staleRun).2.lexical jarRuleFile = ["w", "cache", "external", "BUCK"] := by decide +kernel
  have short : (jarRuleFile.relativeTo? ⟨"/w"⟩).getD jarRuleFile = ⟨"cache/external/BUCK"⟩ := by
    decide +kernel
  have fails : (history (new ownConfig ⟨"/home"⟩ ⟨"/w"⟩ jarProject) blockedCalls).map
      (fun m => (outcome m.result).isOk) = [true, true, false] := by decide +kernel
  have blocked : ∀ m ∈ history (new ownConfig ⟨"/home"⟩ ⟨"/w"⟩ jarProject) blockedCalls,
      (outcome m.result).isOk = false →
        m.files.Rooted ∧
          m.files.lexical ((⟨"/w"⟩ : Path).join StateFile.location) =
            ["w", ".buckforge", "state", "STATE"] ∧
          m.files.node? ["w", ".buckforge", "state", "STATE"] = some (.file ⟨#[1]⟩) := by
    decide +kernel
  have rooted : staleTree.Rooted := by decide +kernel
  have checked : ownConfig.check = .ok ownConfig := rfl
  obtain ⟨recorded, spared⟩ := passes_are_recorded checked ⟨"/home"⟩ ⟨"/w"⟩ jarProject
  refine ⟨?_, fails, ?_⟩
  · cases started : staleStart with
    | error e s =>
      rw [started] at begins
      cases begins
    | ok _ s =>
      obtain ⟨g₀, t⟩ := s
      have underway : Underway ownConfig ⟨"/home"⟩ ⟨"/w"⟩ jarProject g₀ := .begun started
      obtain ⟨answers, g, -, ran, -⟩ :=
        attempts_resemble underway.accumulates (.refl t g₀) staleIds
      have visited : staleVisits = .ok answers (g, t) := by
        rw [staleVisits, started]
        exact ran
      rw [visited] at once ends
      obtain ⟨report, g', t', ended, fits⟩ := exists_of_outcome ends.1
      have files : (left staleRun).2 = t' := by
        rw [ended]
        rfl
      rw [files] at ends
      obtain ⟨-, listed, there, leads⟩ := ends
      have ended' := ended
      rw [staleRun, visited] at ended'
      obtain ⟨⟨s, read, modules, noted⟩, -, resolves⟩ := recorded staleTree t t' g₀ g g' staleIds answers
        .epoch report rooted started ran ended' (of_decide_eq_true fits)
      refine ⟨report, g', t', s, ended, read, modules.trans (Except.ok.inj once), ?_, ?_⟩
      · rw [noted, listed, List.map_singleton, short]
      · have found' := resolves .external (by decide +kernel) jarRuleFile there
        rwa [short, leads] at found'
  · intro m member e failed
    obtain ⟨rooted, place, held⟩ := blocked m member (by rw [failed]; rfl)
    have kept := spared blockedCalls m member rooted e failed
    rw [place] at kept
    rcases kept with same | ⟨-, absent, -⟩
    · rw [same, held]
    · rw [held] at absent
      cases absent

/-- The way to the root of the cache leads through the place of the state file. -/
def throughConfig : Config :=
  { Config.default with cacheDir := ⟨".buckforge/state/STATE/../kept"⟩ }

/-- A file stands where the way ends, and no state file. -/
def throughTree : Tree :=
  (((Tree.empty.insert ["w"] .directory).insert ["w", ".buckforge"] .directory).insert
    ["w", ".buckforge", "state"] .directory).insert ["w", ".buckforge", "state", "kept"] (.file .empty)

/-- The beginning of a pass over it. -/
def throughStart : EStateM.Result BuildError (Generation × Tree) Unit :=
  start (new throughConfig ⟨"/home"⟩ ⟨"/w"⟩ ⟨∅, ∅⟩, throughTree)

/-- A beginning that fails leaves a directory at the place of the state file, which then cannot be read. -/
theorem failed_start_displaces_record :
    throughConfig.check = .ok throughConfig ∧ throughTree.Rooted ∧
      (outcome throughStart).isOk = false ∧
      (StateFile.read throughTree ((⟨"/w"⟩ : Path).join StateFile.location)).map Option.isNone =
        .ok true ∧
      (StateFile.read (left throughStart).2 ((⟨"/w"⟩ : Path).join StateFile.location)).isOk = false ∧
      throughTree.node? ["w", ".buckforge", "state", "STATE"] = none ∧
      (left throughStart).2.node? ["w", ".buckforge", "state", "STATE"] = some .directory := by
  refine ⟨rfl, ?_⟩
  decide +kernel

end RuleDepot.Generation
