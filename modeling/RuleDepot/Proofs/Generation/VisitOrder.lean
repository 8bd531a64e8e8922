import RuleDepot.Proofs.Cache.Fetching
import RuleDepot.Proofs.Generation.Ending
import RuleDepot.Proofs.Generation.Tools
/-!
Whether the order of visits matters.  Modules may be visited in any order and again: all that a pass
keeps is settled by the set of the modules, except for the artifact that stands for a tool, whose
requests are recorded without the classifier.  So the outcome of a pass is settled by the set exactly
if the modules agree on the artifacts of the tools that are selected.
-/

namespace RuleDepot

open Requirements Running

private theorem Duty.planTools_congr {config : ToolsConfig} {demands demands' : Demands}
    (same : demands.select config.conflictPolicy = demands'.select config.conflictPolicy) :
    planTools config demands = planTools config demands' := by
  simp only [planTools, same]

/-- Collectors that were shown the same modules in any order have the same to do, if the modules
agree on tools. -/
theorem Collector.alike_shown {c : Collector} {m : ScopeMemo} {t : Tree} {ids ids' : List ModuleId}
    (fresh : c.ledger.pending = some ∅)
    (agree : ∀ config, c.duty = .tools config → m.ToolsAgree config t ids)
    (same : ∀ id, id ∈ ids ↔ id ∈ ids') :
    Alike (c.shown (ids.flatMap (m.scopesOf t))) (c.shown (ids'.flatMap (m.scopesOf t))) where
  closed := rfl
  demands := by
    refine ⟨addAll ∅ ((ids.flatMap (m.scopesOf t)).flatMap c.duty.requests),
      addAll ∅ ((ids'.flatMap (m.scopesOf t)).flatMap c.duty.requests),
      by simp [shown, fresh], by simp [shown, fresh], ?_⟩
    change c.duty.isIdle _ = c.duty.isIdle _ ∧ ∀ t r, c.duty.plan t r _ = c.duty.plan t r _
    by_cases tool : ∃ config, c.duty = .tools config
    · obtain ⟨config, tools⟩ := tool
      rw [tools]
      exact ⟨rfl, fun _ _ => Duty.planTools_congr (ScopeMemo.select_tools_eq (agree config tools) same)⟩
    · rw [ScopeMemo.demands_eq (fun config tools => tool ⟨config, tools⟩) same]
      exact ⟨rfl, fun _ _ => rfl⟩

/-- What a collector of tools reports are the artifacts of the tools that were selected. -/
theorem Collector.fetchesTools_of_finalize {c : Collector} {config : ToolsConfig} {t : Tree}
    {scopes : List Scope} {report : CollectorReport} {after : Collector × Tree}
    (tools : c.duty = .tools config) (fresh : c.ledger.pending = some ∅) (keyed : c.cache.Keyed)
    (ran : finalize (c.shown scopes, t) = .ok report after) :
    FetchesTools config scopes (report.entries.map CacheEntry.key) := by
  have pending : (c.shown scopes).ledger.pending = some (toolDemands config scopes) := by
    simp [shown, fresh, tools, toolDemands]
  have duty : (c.shown scopes).duty = .tools config := tools
  rw [finalize_open pending, duty] at ran
  obtain ⟨plan, entries, cache, middle, file, t', planned, fetched, -, rfl, -⟩ := serve_ok ran
  have plans : Duty.planTools config (toolDemands config scopes) = .ok plan := by
    change c.duty.plan _ _ _ = _ at planned
    rw [tools] at planned
    exact planned
  obtain ⟨⟨selected, diagnostics⟩, selects, done⟩ := ok_of_bind plans
  cases done
  refine ⟨selected, diagnostics, selects, ?_⟩
  rw [Cache.fetchAll_keys keyed fetched]
  simp [Plan.ofFetches]

namespace Generation

variable {g g' g₀ : Generation} {t t' : Tree} {ids ids' : List ModuleId}

/-- Visits to the same modules end alike if the modules agree on tools. -/
theorem Visited.finish_eq (visited : Visited g₀ t ids g) (visited' : Visited g₀ t ids' g')
    (fresh : ∀ s ∈ g₀.stations, s.collector.ledger.pending = some ∅)
    (agree : ∀ s ∈ g₀.stations, ∀ config, s.collector.duty = .tools config →
      g₀.scopes.ToolsAgree config t ids)
    (same : ∀ id, id ∈ ids ↔ id ∈ ids') (now : Instant) :
    finish now (g', t) = finish now (g, t) := by
  rw [visited.same visited' same]
  refine finish_congr visited.phase (fun middle => ?_) now t
  rw [visited.stations, visited'.stations]
  refine (finalizeAll_congr (fun s member t => ?_) middle).symm
  have alike := Collector.alike_shown (fresh s member) (agree s member) same
  change finalizeStation ⟨s.collector.shown _, s.lifecycle⟩ t =
    finalizeStation ⟨s.collector.shown _, s.lifecycle⟩ t
  simp only [finalizeStation, alike.finalize_eq t]

variable {config : Config} {home workspace : Path} {project : Project} {t₀ : Tree}

/-- The station of the tools. -/
def toolStation (config : Config) (home workspace : Path) (project : Project) : Station :=
  ⟨Collector.new (.tools config.tools) (config.cacheRoot home workspace)
    (config.resolver home workspace project), .accumulating⟩

private theorem toolStation_mem :
    toolStation config home workspace project ∈ (new config home workspace project).stations :=
  List.mem_map.mpr ⟨.tool, by simp [Config.shelves], rfl⟩

private theorem config_of_tools {s : Station} {tools : ToolsConfig}
    (member : s ∈ (new config home workspace project).stations)
    (duty : s.collector.duty = .tools tools) : tools = config.tools := by
  obtain ⟨shelf, -, rfl⟩ := List.mem_map.mp member
  change config.duty shelf = .tools tools at duty
  cases shelf <;> cases duty
  rfl

/-- A pass that succeeds reports the tools of the modules that were visited. -/
theorem Visited.fetchesTools {i : Nat} {now : Instant} {report : GenerationReport}
    {after : Generation × Tree} (visited : Visited g₀ t ids g)
    (station : g₀.stations[i]? = some (toolStation config home workspace project))
    (ran : finish now (g, t) = .ok report after) :
    ∃ r, report.reports[i]? = some r ∧
      FetchesTools config.tools (ids.flatMap (g₀.scopes.scopesOf t))
        (r.entries.map CacheEntry.key) := by
  have held : g.stations[i]? = some ((toolStation config home workspace project).shown
      (ids.flatMap (g₀.scopes.scopesOf t))) := by
    rw [visited.stations, List.getElem?_map, station]
    rfl
  obtain ⟨r, t', left, listed, finalized⟩ := finish_reports visited.phase ran held
  have keyed : (toolStation config home workspace project).collector.cache.Keyed :=
    Cache.keyed_new _ _ _
  exact ⟨r, listed, Collector.fetchesTools_of_finalize rfl rfl keyed finalized⟩

/-- Modules agree on tools if a pass that succeeds reports the same whichever of them comes first. -/
theorem Visited.agree_of_reports {now : Instant} {report : GenerationReport}
    {after : Generation × Tree} {i : Nat} (visited : Visited g₀ t ids g)
    (station : g₀.stations[i]? = some (toolStation config home workspace project))
    (ended : finish now (g, t) = .ok report after)
    (first : ∀ id ∈ ids, ∃ g', Visited g₀ t (id :: ids) g' ∧
      outcome (finish now (g', t)) = .ok report) :
    g₀.scopes.ToolsAgree config.tools t ids := by
  obtain ⟨r, listed, fetches⟩ := visited.fetchesTools station ended
  refine ScopeMemo.toolsAgree_of_fetches fetches fun id member => ?_
  obtain ⟨g', visited', agreed⟩ := first id member
  cases ended' : finish now (g', t) with
  | error e s =>
    rw [ended'] at agreed
    cases agreed
  | ok report' s =>
    rw [ended'] at agreed
    cases agreed
    obtain ⟨r', listed', fetches'⟩ := visited'.fetchesTools station ended'
    obtain rfl : r = r' := Option.some.inj (listed.symm.trans listed')
    exact fetches'

/-- **The order of visits is immaterial exactly if modules agree on tools.**  If they do, visits that
cover the same modules end in the same reports and the same files, in whichever order and however
often.  Conversely, a pass that succeeds reports the same in all orders only if they do. -/
theorem visits_commute_iff_tools_agree
    (started : start (new config home workspace project, t₀) = .ok () (g₀, t))
    (visited : ids.forM visit (g₀, t) = .ok () (g, t')) (now : Instant) :
    (g₀.scopes.ToolsAgree config.tools t ids →
      ∀ (ids' : List ModuleId) (g' : Generation) (t'' : Tree), (∀ id, id ∈ ids ↔ id ∈ ids') →
        ids'.forM visit (g₀, t) = .ok () (g', t'') →
        finish now (g', t'') = finish now (g, t')) ∧
    ∀ report after, finish now (g, t') = .ok report after →
      (∀ (ids' : List ModuleId) (g' : Generation) (t'' : Tree), (∀ id, id ∈ ids ↔ id ∈ ids') →
        ids'.forM visit (g₀, t) = .ok () (g', t'') →
        outcome (finish now (g', t'')) = .ok report) →
      g₀.scopes.ToolsAgree config.tools t ids := by
  have begun := begun_of_start started
  have stations : g₀.stations = (new config home workspace project).stations := by
    rw [start_ok started]
  obtain ⟨rfl, come⟩ := begun.visited_of_ran visited
  refine ⟨fun agree ids' g' t'' same ran => ?_, fun report after ended all => ?_⟩
  · obtain ⟨rfl, come'⟩ := begun.visited_of_ran ran
    refine come.finish_eq come' begun.fresh (fun s member tools duty => ?_) same now
    rw [stations] at member
    exact config_of_tools member duty ▸ agree
  · have place : toolStation config home workspace project ∈ g₀.stations :=
      stations ▸ toolStation_mem
    obtain ⟨i, station⟩ := List.mem_iff_getElem?.mp place
    refine come.agree_of_reports station ended fun id member => ?_
    have known : ∀ other ∈ id :: ids, other ∈ ids :=
      List.forall_mem_cons.mpr ⟨member, fun _ inside => inside⟩
    obtain ⟨g', ran, come'⟩ := begun.visits_again come known
    exact ⟨g', come', all (id :: ids) g' t'
      (fun other => ⟨List.mem_cons_of_mem _, known other⟩) ran⟩

/-- A jar of a tool. -/
def baseJar : ArtifactKey :=
  ⟨"net.sf.proguard", "proguard-base", "6.0", none, by decide, by decide, by decide, unclassified⟩

/-- Another jar of the same tool at the same version. -/
def testsJar : ArtifactKey :=
  ⟨"net.sf.proguard", "proguard-base", "6.0", some "tests", by decide, by decide, by decide,
    by decide⟩

/-- A module with one jar on its classpath. -/
def carrying (id : ModuleId) (key : ArtifactKey) : ModuleSnapshot where
  id := id
  path := ⟨"module"⟩
  sourceSets := (∅ : Table ScopeKind SourceSet).insert .main
    { SourceSet.empty with compile := [.external key] }

/-- Two modules that do not agree on the tool. -/
def splitProject : Project where
  modules := ((∅ : Table ModuleId ModuleSnapshot).insert ⟨":a"⟩ (carrying ⟨":a"⟩ baseJar)).insert
    ⟨":b"⟩ (carrying ⟨":b"⟩ testsJar)
  artifacts := ((∅ : Table ArtifactKey Path).insert baseJar ⟨"base.jar"⟩).insert
    testsJar ⟨"tests.jar"⟩

/-- Both jars, in a workspace. -/
def splitTree : Tree :=
  ((Tree.empty.insert ["w"] .directory).insert ["w", "base.jar"] (.file .empty)).insert
    ["w", "tests.jar"] (.file .empty)

/-- The beginning of a pass over the two modules. -/
def splitStart : EStateM.Result BuildError (Generation × Tree) Unit :=
  start (new .default ⟨"/home"⟩ ⟨"/w"⟩ splitProject, splitTree)

/-- Visits to both. -/
def splitVisits : EStateM.Result BuildError (Generation × Tree) PUnit :=
  [⟨":a"⟩, ⟨":b"⟩].forM visit ((left splitStart).1, (left splitStart).2)

theorem visits_to_split_project_do_not_commute :
    ∃ g₀ t g t' report after, splitStart = .ok () (g₀, t) ∧
      [⟨":a"⟩, ⟨":b"⟩].forM visit (g₀, t) = .ok () (g, t') ∧
      finish .epoch (g, t') = .ok report after ∧
      ¬ ∀ (ids' : List ModuleId) (g' : Generation) (t'' : Tree),
        (∀ id, id ∈ [⟨":a"⟩, ⟨":b"⟩] ↔ id ∈ ids') → ids'.forM visit (g₀, t) = .ok () (g', t'') →
        outcome (finish .epoch (g', t'')) = .ok report := by
  obtain ⟨_, started⟩ : ∃ _, splitStart = _ := eq_ok_of_isOk (by decide +kernel)
  obtain ⟨_, visited⟩ : ∃ _, splitVisits = _ := eq_ok_of_isOk (by decide +kernel)
  obtain ⟨report, finished⟩ : ∃ _,
    finish .epoch ((left splitVisits).1, (left splitVisits).2) = _ := eq_ok_of_isOk (by decide +kernel)
  have differ : ¬ (left splitStart).1.scopes.ToolsAgree Config.default.tools (left splitStart).2
      [⟨":a"⟩, ⟨":b"⟩] := by decide +kernel
  refine ⟨_, _, _, _, report, _, started, visited, finished, fun all => ?_⟩
  exact differ ((visits_commute_iff_tools_agree started visited .epoch).2 report _ finished all)

end Generation

end RuleDepot
