import RuleDepot.Collector.Emission
/-!
Collectors.  A collector records what scopes need in its ledger; at the end of a pass it merges the
requests, fetches the artifacts, seals its cache and writes one rule file.  This happens once:
afterwards the ledger is closed and the cache sealed, whether or not the end was reached.  When
nothing is written, no rule file of an earlier pass is left.
-/

namespace RuleDepot

/-- One collector during a pass. -/
structure Collector where
  duty : Duty
  cache : Cache
  ledger : Ledger (Option Artifact)
  answers : Answers

/-- What a collector did at the end of a pass. -/
structure CollectorReport where
  collector : String
  shelf : Shelf
  /-- The rule file, if one was written. -/
  ruleFile : Option Path
  entries : List CacheEntry
  diagnostics : List Diagnostic

namespace Collector

/-- A collector that nothing was asked of. -/
def new (duty : Duty) (cacheRoot : Path) (resolver : Resolver) : Collector :=
  ⟨duty, Cache.new duty.shelf cacheRoot resolver, Ledger.new duty.component, .none⟩

def name (c : Collector) : String :=
  c.duty.name

/-- Records what a scope needs. -/
def register (c : Collector) (scope : Scope) : Except BuildError Collector := do
  let needs := c.duty.needs scope
  if c.duty.takesArtifacts || needs.isEmpty then c.ledger.ensureOpen scope.requester
  let ledger ← needs.foldlM
    (fun (ledger : Ledger (Option Artifact)) need =>
      ledger.record need.logicalId need.version scope.requester need.artifact)
    c.ledger
  return { c with ledger }

/-- A step on the cache of a collector. -/
def onCache {α : Type} (step : Step Cache α) : Step Collector α :=
  Step.within (·.cache) (fun cache c => { c with cache }) step

/-- Takes away the rule file of an earlier pass, if there is one. -/
def removeStale : Step Collector Unit := fun (c, t) =>
  match FileM.removeFile c.cache.ruleFilePath t with
  | .ok _ t => .ok () (c, t)
  | .error e t =>
    if e.kind = .notFound then .ok () (c, t)
    else .error (.io s!"removing stale rule file {c.cache.ruleFilePath.text}" e) (c, t)

/-- Writes the rule file; without rules there is none. -/
def writeRules (rules : List Rule) : Step Collector (Option Path) := do
  let c ← Step.part
  let path := c.cache.ruleFilePath
  if rules.isEmpty then
    removeStale
    return none
  else
    Step.files (.io s!"writing rule file {path.text}")
      (FileM.publishBytes path (printRules rules).toUTF8)
    return some path

/-- Seals the cache and writes the rule file. -/
def finish (rules : List Rule) (entries : List CacheEntry) (diagnostics : List Diagnostic) :
    Step Collector CollectorReport := do
  Step.change fun c => { c with cache := c.cache.sealed }
  let c ← Step.part
  let ruleFile ← writeRules rules
  return ⟨c.name, c.duty.shelf, ruleFile, entries, diagnostics⟩

/-- Seals the cache after a failure and leaves no rule file behind. -/
def abandon {α : Type} (e : BuildError) : Step Collector α := do
  Step.change fun c => { c with cache := c.cache.sealed }
  let _ ← Step.attempt removeStale
  throw e

/-- Decides what to fetch and fetches it. -/
def fulfil (demands : Demands) : Step Collector (Plan × List CacheEntry) := do
  let c ← Step.part
  let plan ← Step.ofExcept (c.duty.plan (← Step.tree) c.cache.resolver demands)
  return (plan, ← onCache (Cache.fetchAll plan.fetches))

/-- Makes rules and answers of what was fetched. -/
def emit (plan : Plan) (entries : List CacheEntry) : Step Collector CollectorReport := do
  let c ← Step.part
  let emission := Emission.of c.duty c.cache (← Step.tree) plan entries
  Step.change fun c => { c with answers := emission.answers }
  finish emission.rules entries (plan.diagnostics ++ emission.diagnostics)

/-- Ends the pass for a collector. -/
def finalize : Step Collector CollectorReport := do
  let c ← Step.part
  let (demands, ledger) ← Step.ofExcept c.ledger.close
  Step.change fun c => { c with ledger }
  if c.duty.isIdle demands then finish [] [] []
  else
    match (← Step.attempt (fulfil demands)) with
    | .error e => abandon e
    | .ok (plan, entries) => emit plan entries

/-- The label of the rule that serves a coordinate. -/
def targetFor? (c : Collector) (key : ArtifactKey) : Option String :=
  c.answers.targets[key]?

/-- The label of the rule for the processor in a jar, at whichever version. -/
def processorTarget? (c : Collector) (key : ArtifactKey) : Option String :=
  c.answers.processors[key.logicalId]?

/-- The tool of a name, if some scope carries it. -/
def tool? (c : Collector) (name : String) : Option ToolJar :=
  c.answers.tools[name]?

end Collector

end RuleDepot
