import RuleDepot.Cache.Shelf
import RuleDepot.Config.Basic
import RuleDepot.Scope.Basic
/-!
What collectors look after.  A duty belongs to one shelf of the cache and says what a scope needs
from it.
-/

namespace RuleDepot

/-- What a collector looks after, with its settings. -/
inductive Duty where
  /-- The external artifacts on classpaths; the forced ones are always fetched. -/
  | dependencies (policy : ConflictPolicy) (forced : List ArtifactKey)
  | processors (policy : ConflictPolicy)
  | lint (config : LintConfig)
  | runtime (language : Language) (config : RuntimeConfig)
  | transforms (config : TransformConfig)
  | robolectric (config : TestConfig)
  | tools (config : ToolsConfig)
  /-- A set of artifacts that the configuration names. -/
  | extra (name : String) (keys : List ArtifactKey)

/-- Something that a scope needs at some version, with the file it was resolved to, if it was. -/
structure Need where
  logicalId : String
  version : String
  artifact : Option Artifact

namespace Need

/-- The need for a resolved artifact. -/
def ofArtifact (a : Artifact) : Need :=
  ⟨a.key.logicalId, a.key.version, some a⟩

end Need

namespace Duty

/-- The name of a duty in reports. -/
def name : Duty → String
  | dependencies .. => "dependencies"
  | processors .. => "annotation-processors"
  | lint .. => "lint"
  | runtime language _ => s!"{language.text}-runtime"
  | transforms .. => "transforms"
  | robolectric .. => "robolectric"
  | tools .. => "tools"
  | extra name _ => s!"extra-{name}"

/-- The name of a duty in refusals. -/
def component : Duty → String
  | dependencies .. => "dependency manager"
  | processors .. => "annotation processor cache"
  | lint .. => "lint manager"
  | runtime language _ => s!"{language.text} runtime manager"
  | transforms .. => "transform manager"
  | robolectric .. => "test framework manager"
  | tools .. => "tool manager"
  | extra name _ => s!"extra cache '{name}'"

/-- The shelf that the artifacts are kept on. -/
def shelf : Duty → Shelf
  | dependencies .. => .external
  | processors .. => .processor
  | lint .. => .lint
  | runtime language _ => .runtime language
  | transforms .. => .transform
  | robolectric .. => .robolectric
  | tools .. => .tool
  | extra name _ => .extra name

/-- The identity under which requests for lint are recorded. -/
def lintId : String := "lint"

/-- The version recorded for scopes that ask for lint without naming one. -/
def unspecified : String := ""

/-- The identity under which requests for test runtimes are recorded. -/
def robolectricId : String := "robolectric"

/-- The version recorded for test runtimes, which are kept at all versions. -/
def anyVersion : String := "*"

/-- The first tool, by name, that is looked up as the module of a coordinate. -/
def toolFor? (config : ToolsConfig) (key : ArtifactKey) : Option String :=
  (config.jars.toList.find? fun (_, m) => m.group = key.group && m.name = key.name).map (·.1)

/-- What a scope needs from a duty. -/
def needs (duty : Duty) (scope : Scope) : List Need :=
  match duty with
  | dependencies .. =>
    (scope.externalArtifacts.filter fun a => a.origin = .external).map Need.ofArtifact
  | processors .. => scope.annotationProcessors.map Need.ofArtifact
  | lint config =>
    match scope.lint with
    | some request =>
      if config.disabled then [] else [⟨lintId, request.version.getD unspecified, none⟩]
    | none => []
  | runtime language _ =>
    match scope.runtimes[language]? with
    | some version => [⟨language.text, version, none⟩]
    | none => []
  | transforms .. => scope.transforms.map Need.ofArtifact
  | robolectric .. => if scope.robolectric then [⟨robolectricId, anyVersion, none⟩] else []
  | tools config =>
    scope.externalArtifacts.filterMap fun a =>
      (toolFor? config a.key).map fun name => ⟨name, a.key.version, some a⟩
  | extra .. => []

/-- Whether needs are artifacts of the scope, and not wishes for something configured. -/
def takesArtifacts : Duty → Bool
  | dependencies .. => true
  | processors .. => true
  | transforms .. => true
  | tools .. => true
  | extra .. => true
  | _ => false

end Duty

end RuleDepot
