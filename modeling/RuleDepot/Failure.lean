import RuleDepot.Coordinate.Fault
import RuleDepot.Files.Error
import RuleDepot.Path
import RuleDepot.Version.Policy
/-!
Everything that can go wrong in a generation pass.  A failure is a cause with the data that a
driver decides on; `message` puts it into words, `category` classifies it and `coordinate?` names
what it is about.
-/

namespace RuleDepot

/-- Coarse classes of failures and warnings. -/
inductive Category where
  | unresolvedDependency
  | cacheWriteFailure
  | versionConflict
  | protocolViolation
  | invalidInput
  | io
  deriving DecidableEq, Repr

namespace Category

def text : Category → String
  | unresolvedDependency => "unresolved-dependency"
  | cacheWriteFailure => "cache-write-failure"
  | versionConflict => "version-conflict"
  | protocolViolation => "protocol-violation"
  | invalidInput => "invalid-input"
  | io => "io"

end Category

/-- A failure of the generation core. -/
inductive BuildError where
  /-- No file is known for a declared coordinate. -/
  | unresolvedDependency (coordinate : String) (requestedBy : Option String)
  /-- A reference to a module that the project does not have. -/
  | unknownModule (module requestedBy : String)
  /-- Copying an artifact into a cache failed. -/
  | cacheWriteFailure (cache coordinate : String) (path : Path) (cause : IoError)
  /-- A policy refused to merge the requested versions. -/
  | versionConflict (conflict : VersionConflict)
  /-- The order of calls that a component allows was broken. -/
  | protocolViolation (component reason : String)
  /-- A text that is no coordinate. -/
  | invalidCoordinate (bad : BadCoordinate)
  /-- A configuration that cannot be read or makes no sense. -/
  | config (path : Path) (reason : String)
  /-- A project model that cannot be read. -/
  | model (path : Path) (reason : String)
  /-- A rule file that cannot be rendered. -/
  | render (cache reason : String)
  /-- A failed access to the files, with what it was for. -/
  | io (context : String) (cause : IoError)
  deriving DecidableEq, Repr

namespace BuildError

def message : BuildError → String
  | unresolvedDependency coordinate none => s!"Unresolved dependency '{coordinate}'"
  | unresolvedDependency coordinate (some by_) =>
    s!"Unresolved dependency '{coordinate}' (required by {by_})"
  | unknownModule module requestedBy => s!"Unknown module '{module}' referenced by {requestedBy}"
  | cacheWriteFailure cache coordinate path _ =>
    s!"Failed to write '{coordinate}' into the {cache} cache at {path.text}"
  | versionConflict conflict => conflict.message
  | protocolViolation component reason => s!"Protocol violation in {component}: {reason}"
  | invalidCoordinate bad => bad.message
  | config path reason => s!"Configuration error in {path.text}: {reason}"
  | model path reason => s!"Invalid project model {path.text}: {reason}"
  | render cache reason => s!"Failed to render rule file for {cache}: {reason}"
  | io context _ => s!"IO error: {context}"

def category : BuildError → Category
  | unresolvedDependency .. => .unresolvedDependency
  | unknownModule .. => .unresolvedDependency
  | cacheWriteFailure .. => .cacheWriteFailure
  | versionConflict .. => .versionConflict
  | protocolViolation .. => .protocolViolation
  | invalidCoordinate .. => .invalidInput
  | config .. => .invalidInput
  | model .. => .invalidInput
  | render .. => .io
  | io .. => .io

/-- The coordinate or module that the failure is about. -/
def coordinate? : BuildError → Option String
  | unresolvedDependency coordinate _ => some coordinate
  | cacheWriteFailure _ coordinate _ _ => some coordinate
  | unknownModule module _ => some module
  | versionConflict conflict => some conflict.logicalId
  | invalidCoordinate bad => some bad.input
  | _ => none

/-- Why the failure came about, when something below it failed. -/
def cause? : BuildError → Option String
  | cacheWriteFailure _ _ _ cause => some cause.text
  | io _ cause => some cause.text
  | render _ reason => some reason
  | _ => none

/-- Whether the driver is at fault and not its input. -/
def isDriverFault : BuildError → Bool
  | protocolViolation .. => true
  | _ => false

end BuildError

/-- A failure or warning, flattened for drivers. -/
structure Diagnostic where
  category : Category
  coordinate : Option String
  reason : String
  deriving DecidableEq, Repr

namespace Diagnostic

def text (d : Diagnostic) : String :=
  match d.coordinate with
  | some coordinate => s!"[{d.category.text}] {coordinate}: {d.reason}"
  | none => s!"[{d.category.text}] {d.reason}"

end Diagnostic

/-- The flat form of a failure. -/
def BuildError.diagnostic (e : BuildError) : Diagnostic :=
  ⟨e.category, e.coordinate?, e.message⟩

end RuleDepot
