import RuleDepot.Collector.Basic
import RuleDepot.Generation.StateFile
import RuleDepot.Scope.Memo
/-!
A generation pass.  It begins once, visits modules, and ends once.  A visit resolves all scopes of
a module and then shows them to every collector, so a module whose scopes cannot all be resolved
asks for nothing.  At the end every collector is finalized, each exactly once and in order, even
when an earlier one fails; the state file is written only if none does.
-/

namespace RuleDepot

/-- How far a pass has come. -/
inductive Phase where
  | uninitialized
  | accumulating
  | finalized
  deriving DecidableEq, Repr

namespace Phase

def text : Phase → String
  | uninitialized => "uninitialized"
  | accumulating => "accumulating"
  | finalized => "finalized"

end Phase

/-- How far a collector has come in a pass. -/
inductive Lifecycle where
  | accumulating
  | finalized
  | failed
  deriving DecidableEq, Repr

namespace Lifecycle

def text : Lifecycle → String
  | accumulating => "accumulating"
  | finalized => "finalized"
  | failed => "failed"

end Lifecycle

/-- The place of a collector in a pass. -/
structure Station where
  collector : Collector
  lifecycle : Lifecycle

namespace Config

/-- The shelves of the cache, in the order in which they are filled. -/
def shelves (c : Config) : List Shelf :=
  [.external, .processor, .lint] ++ Language.all.map .runtime ++
    [.transform, .robolectric, .tool] ++ c.extraCaches.keys.map .extra

/-- What is to be looked after on a shelf. -/
def duty (c : Config) : Shelf → Duty
  | .external => .dependencies c.externalPolicy c.forced
  | .processor => .processors c.processorPolicy
  | .lint => .lint c.lint
  | .runtime language => .runtime language (c.runtime language)
  | .transform => .transforms c.transform
  | .robolectric => .robolectric c.test
  | .tool => .tools c.tools
  | .extra name => .extra name (c.extraCaches[name]?.getD [])

/-- How coordinates are resolved: by the table of the project, then in the local repositories. -/
def resolver (c : Config) (home workspace : Path) (project : Project) : Resolver :=
  ⟨project.artifacts, c.repositories.map fun r => ⟨Path.resolveAgainst home workspace r⟩,
    c.hashMode, workspace⟩

end Config

/-- One generation pass. -/
structure Generation where
  workspace : Path
  cacheRoot : Path
  scopes : ScopeMemo
  stations : List Station
  phase : Phase
  visited : Roster ModuleId

/-- What a pass did. -/
structure GenerationReport where
  modulesVisited : Nat
  scopesResolved : Nat
  reports : List CollectorReport

namespace GenerationReport

/-- The diagnostics of all collectors, in order. -/
def diagnostics (r : GenerationReport) : List Diagnostic :=
  r.reports.flatMap (·.diagnostics)

/-- The rule files that were written, in order. -/
def ruleFiles (r : GenerationReport) : List Path :=
  r.reports.filterMap (·.ruleFile)

end GenerationReport

namespace CollectorReport

/-- How many of the entries were put into the cache. -/
def cached (r : CollectorReport) : Nat :=
  (r.entries.filter (·.materialized)).length

end CollectorReport

namespace Generation

/-- A pass that has not begun. -/
def new (config : Config) (home workspace : Path) (project : Project) : Generation :=
  let resolver := config.resolver home workspace project
  let cacheRoot := config.cacheRoot home workspace
  { workspace := workspace
    cacheRoot := cacheRoot
    scopes := ScopeMemo.new project resolver
    stations := config.shelves.map fun shelf =>
      ⟨Collector.new (config.duty shelf) cacheRoot resolver, .accumulating⟩
    phase := .uninitialized
    visited := ∅ }

/-- A call that the phase does not allow. -/
def refusal (reason : String) : BuildError :=
  .protocolViolation "coordinator" reason

/-- The directory for intermediate files, which is emptied at the beginning of a pass. -/
def scratchDir (g : Generation) : Path :=
  g.workspace / ".buckforge/gen"

/-- Where the state file is. -/
def stateFile (g : Generation) : Path :=
  g.workspace.join StateFile.location

/-- Begins the pass. -/
def start : Step Generation Unit := do
  let g ← Step.part
  if g.phase ≠ .uninitialized then
    throw (refusal s!"begin_generation called while {g.phase.text}")
  Step.files (.io s!"resetting {g.scratchDir.text}") do
    FileM.removeDirs g.scratchDir
    FileM.ensureDir g.scratchDir
  Step.files (.io s!"creating cache root {g.cacheRoot.text}") (FileM.ensureDir g.cacheRoot)
  Step.change fun g => { g with phase := .accumulating }

/-- Resolves scopes, up to the first that fails. -/
def resolveScopes (ids : List ScopeId) : Step Generation (List Scope) := fun (g, t) =>
  match g.scopes.scopeAll t ids with
  | (.ok found, scopes) => .ok found ({ g with scopes }, t)
  | (.error e, scopes) => .error e ({ g with scopes }, t)

/-- Shows a scope to collectors, up to the first that refuses it. -/
def registerAll (scope : Scope) : List Station → Except BuildError Unit × List Station
  | [] => (.ok (), [])
  | s :: rest =>
    match s.collector.register scope with
    | .error e => (.error e, s :: rest)
    | .ok collector =>
      let (result, rest) := registerAll scope rest
      (result, { s with collector } :: rest)

/-- Shows a scope to all collectors. -/
def register (scope : Scope) : Step Generation Unit := fun (g, t) =>
  match registerAll scope g.stations with
  | (.ok (), stations) => .ok () ({ g with stations }, t)
  | (.error e, stations) => .error e ({ g with stations }, t)

/-- Visits a module. -/
def visit (id : ModuleId) : Step Generation Unit := do
  let g ← Step.part
  if g.phase ≠ .accumulating then
    throw (refusal s!"module {id.text} visited while {g.phase.text}")
  match g.scopes.project.module? id with
  | none => throw (.unknownModule id.text "the generation driver")
  | some snapshot =>
    let scopes ← resolveScopes (snapshot.sourceSets.keys.map fun kind => ⟨id, kind⟩)
    scopes.forM register
    Step.change fun g => { g with visited := g.visited.insert id }

/-- Visits all modules of the project; says how many there are. -/
def visitAll : Step Generation Nat := do
  let modules := (← Step.part).scopes.project.modules.keys
  modules.forM visit
  return modules.length

/-- Finalizes a collector. -/
def finalizeStation (s : Station) (t : Tree) :
    Except BuildError CollectorReport × Station × Tree :=
  match Collector.finalize (s.collector, t) with
  | .ok report (collector, t) => (.ok report, ⟨collector, .finalized⟩, t)
  | .error e (collector, t) => (.error e, ⟨collector, .failed⟩, t)

/-- Finalizes collectors in order, all of them whatever the others do. -/
def finalizeAll (t : Tree) :
    List Station → List (Except BuildError CollectorReport) × List Station × Tree
  | [] => ([], [], t)
  | s :: rest =>
    let (result, s, t) := finalizeStation s t
    let (results, rest, t) := finalizeAll t rest
    (result :: results, s :: rest, t)

/-- The first failure, or all reports. -/
def collect (results : List (Except BuildError CollectorReport)) :
    Except BuildError (List CollectorReport) :=
  results.mapM id

/-- Closes the pass and finalizes all collectors. -/
def close : Step Generation GenerationReport := fun (g, t) =>
  let (results, stations, t) := finalizeAll t g.stations
  let g := { g with stations, phase := .finalized }
  match collect results with
  | .ok reports => .ok ⟨g.visited.size, g.scopes.attempts, reports⟩ (g, t)
  | .error e => .error e (g, t)

/-- What the state file says after a pass. -/
def summary (g : Generation) (report : GenerationReport) (now : Instant) : StateFile where
  generatedAt := now
  toolVersion := StateFile.currentVersion
  modules := report.modulesVisited
  ruleFiles := report.ruleFiles.map fun p => (p.relativeTo? g.workspace).getD p
  categories := report.reports.foldl (fun table r => table.insert r.shelf.dirName r.cached) ∅

/-- Ends the pass. -/
def finish (now : Instant) : Step Generation GenerationReport := do
  match (← Step.part).phase with
  | .uninitialized => throw (refusal "end_generation called before begin_generation")
  | .finalized => throw (refusal "end_generation called more than once")
  | .accumulating =>
    let report ← close
    let g ← Step.part
    Step.files (StateFile.writeFailure g.stateFile) ((g.summary report now).write g.stateFile)
    return report

/-- A whole pass over all modules. -/
def run (now : Instant) : Step Generation GenerationReport := do
  start
  let _ ← visitAll
  finish now

/-- The collector of a name. -/
def collector? (g : Generation) (name : String) : Option Collector :=
  (g.stations.find? fun s => s.collector.name = name).map (·.collector)

/-- Puts a collector in the place of the one that has its name. -/
def putCollector (g : Generation) (c : Collector) : Generation :=
  { g with
    stations := g.stations.map fun s =>
      if s.collector.name = c.name then { s with collector := c } else s }

end Generation

end RuleDepot
