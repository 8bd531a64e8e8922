import RuleDepot.Collector.Duty
import RuleDepot.Ledger
/-!
What a collector decides to fetch.  Requests are merged under the policy of the duty; forced and
configured artifacts win over them.  A plan only looks at files and changes nothing.
-/

namespace RuleDepot

/-- What scopes asked of a collector. -/
abbrev Demands : Type :=
  Requirements (Option Artifact)

/-- What is to be fetched, and what is known about it before. -/
structure Plan where
  /-- The artifacts in order, and whether the project's own files are copied too. -/
  fetches : List (Artifact × Bool)
  diagnostics : List Diagnostic
  /-- The coordinates that scopes asked for, whichever version serves them. -/
  served : List ArtifactKey
  /-- The version at which a configured toolchain is fetched. -/
  version : Option String
  /-- The tools that the artifacts are for, in order. -/
  tools : List (String × String)

namespace Plan

/-- A plan to fetch some artifacts. -/
def ofFetches (fetches : List (Artifact × Bool)) (diagnostics : List Diagnostic) : Plan :=
  ⟨fetches, diagnostics, [], none, []⟩

end Plan

/-- Artifacts that win over requests, put against the requests one by one. -/
structure Pinning where
  /-- The requests that no artifact has won over yet. -/
  open_ : Demands
  diagnostics : List Diagnostic
  served : List ArtifactKey

namespace Pinning

/-- Who asked, in words. -/
def askers (requested : Requested (Option Artifact)) : String :=
  ", ".intercalate requested.requesters.toList

/-- Lets an artifact win over all requests for its identity, and reports the versions that lose.
`reason` says how a version lost. -/
def pin (reason : String → Requested (Option Artifact) → Artifact → String) (p : Pinning)
    (a : Artifact) : Pinning :=
  match p.open_.take a.key.logicalId with
  | (none, _) => p
  | (some versions, rest) =>
    ⟨rest,
      p.diagnostics ++ versions.toList.filterMap (fun (version, requested) =>
        if version = a.key.version then none
        else some ⟨.versionConflict, some a.key.logicalId, reason version requested a⟩),
      p.served ++ versions.toList.filterMap fun (_, requested) => requested.payload.map (·.key)⟩

/-- Lets several artifacts win, in order. -/
def pinAll (reason : String → Requested (Option Artifact) → Artifact → String)
    (artifacts : List Artifact) (demands : Demands) : Pinning :=
  artifacts.foldl (pin reason) ⟨demands, [], []⟩

end Pinning

namespace Duty

/-- The artifacts of the chosen requests. -/
def chosen (selected : List (Selected (Option Artifact))) : List Artifact :=
  selected.filterMap (·.payload)

/-- The coordinates of all requests. -/
def requestedKeys (demands : Demands) : List ArtifactKey :=
  demands.all.filterMap fun (_, _, requested) => requested.payload.map (·.key)

def planDependencies (policy : ConflictPolicy) (forced : List ArtifactKey) (t : Tree)
    (r : Resolver) (demands : Demands) : Except BuildError Plan := do
  let pinned ← r.resolveAll t forced (some "forced dependencies")
  let p := Pinning.pinAll
    (fun version requested a =>
      s!"{version} requested by {Pinning.askers requested} replaced by forced {a.key.version}")
    pinned demands
  let (selected, diagnostics) ← p.open_.select policy
  return {
    fetches := pinned.map (·, true) ++ (chosen selected).map (·, false)
    diagnostics := p.diagnostics ++ diagnostics
    served := p.served ++ requestedKeys p.open_
    version := none
    tools := [] }

/-- Processors always run from the cache, so the project's own files are copied too. -/
def planProcessors (policy : ConflictPolicy) (demands : Demands) : Except BuildError Plan := do
  let (selected, diagnostics) ← demands.select policy
  return .ofFetches ((chosen selected).map (·, true)) diagnostics

/-- A set of modules at one version. -/
def modulesAt (modules : List ArtifactModule) (version : String) :
    Except BuildError (List ArtifactKey) :=
  (modules.mapM fun (m : ArtifactModule) => m.atVersion version).mapError .invalidCoordinate

/-- A plan to fetch a toolchain at a version. -/
def planToolchain (name : String) (modules : List ArtifactModule) (version : String) (t : Tree)
    (r : Resolver) (diagnostics : List Diagnostic) : Except BuildError Plan := do
  let found ← r.resolveSet t name (← modulesAt modules version)
  return { Plan.ofFetches (found.map (·, false)) diagnostics with version := some version }

/-- The version of lint, from the configuration or from what scopes ask for. -/
def lintVersion (config : LintConfig) (requests : VersionRequests) :
    Except BuildError (String × List Diagnostic) := do
  let explicit : VersionRequests := requests.filter fun version _ => version ≠ unspecified
  match config.version with
  | some pinned =>
    let losers := explicit.keys.filter (· ≠ pinned)
    return (pinned, losers.map fun version =>
      let askers := ", ".intercalate (explicit.requesters version)
      ⟨.versionConflict, some lintId, s!"{version} requested by {askers} replaced by pinned {pinned}"⟩)
  | none =>
    if explicit.isEmpty then
      let askers := ", ".intercalate (requests.keys.flatMap requests.requesters)
      throw (.config Config.fileName
        (s!"lint requested by {askers} but no lint version is configured " ++ "([lint] version)"))
    else
      let selection ← explicit.select lintId config.conflictPolicy
      let losers := ", ".intercalate selection.overridden
      return (selection.version,
        if selection.overridden.isEmpty then []
        else [⟨.versionConflict, some lintId, s!"selected {selection.version} over {losers}"⟩])

def planLint (config : LintConfig) (t : Tree) (r : Resolver) (demands : Demands) :
    Except BuildError Plan := do
  let requests := Requirements.versionRequests (demands[lintId]?.getD ∅)
  let (version, diagnostics) ← lintVersion config requests
  planToolchain lintId config.artifacts version t r diagnostics

def planRuntime (language : Language) (config : RuntimeConfig) (t : Tree) (r : Resolver)
    (demands : Demands) : Except BuildError Plan := do
  let (version?, diagnostics) ← demands.selectPinned config.conflictPolicy config.version
  match version? with
  | some version =>
    planToolchain s!"{language.text} runtime" config.artifacts version t r diagnostics
  | none => return .ofFetches [] diagnostics

def planTransforms (config : TransformConfig) (t : Tree) (r : Resolver) (demands : Demands) :
    Except BuildError Plan := do
  let configured ← r.resolveAll t config.dependencies (some "transform configuration")
  let p := Pinning.pinAll
    (fun version _ a => s!"{version} replaced by configured {a.key.version}") configured demands
  let (selected, diagnostics) ← p.open_.select config.conflictPolicy
  return .ofFetches ((configured ++ chosen selected).map (·, true)) (p.diagnostics ++ diagnostics)

def planTools (config : ToolsConfig) (demands : Demands) : Except BuildError Plan := do
  let (selected, diagnostics) ← demands.select config.conflictPolicy
  return { Plan.ofFetches ((chosen selected).map (·, true)) diagnostics with
    tools := selected.map fun s => (s.logicalId, s.version) }

/-- A plan to fetch a named set of coordinates as it is. -/
def planSet (name : String) (keys : List ArtifactKey) (t : Tree) (r : Resolver) :
    Except BuildError Plan := do
  return .ofFetches ((← r.resolveSet t name keys).map (·, false)) []

/-- Whether there is nothing to do about the requests. -/
def isIdle (duty : Duty) (demands : Demands) : Bool :=
  match duty with
  | lint .. => demands.isEmpty
  | runtime .. => demands.isEmpty
  | transforms config => !config.enabled
  | robolectric config => demands.isEmpty && !config.robolectric
  | _ => false

/-- What is to be fetched for the requests. -/
def plan (duty : Duty) (t : Tree) (r : Resolver) (demands : Demands) : Except BuildError Plan :=
  match duty with
  | dependencies policy forced => planDependencies policy forced t r demands
  | processors policy => planProcessors policy demands
  | lint config => planLint config t r demands
  | runtime language config => planRuntime language config t r demands
  | transforms config => planTransforms config t r demands
  | robolectric config => planSet "robolectric runtimes" config.androidAll t r
  | tools config => planTools config demands
  | extra _ keys => planSet duty.name keys t r

end Duty

end RuleDepot
