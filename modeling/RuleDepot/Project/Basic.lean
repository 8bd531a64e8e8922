import RuleDepot.Coordinate.Module
import RuleDepot.Language
import RuleDepot.Path
import RuleDepot.Table
/-!
The project model: a read-only snapshot of the modules of a host build, with their source sets and
declared dependencies, and a table of the files that the host resolved.
-/

namespace RuleDepot

/-- The compilation purpose of a source set. -/
inductive ScopeKind where
  | main
  | test
  /-- Any other source set of the host build. -/
  | custom (name : String)
  deriving DecidableEq, Repr, Inhabited

namespace ScopeKind

def ofName (name : String) : ScopeKind :=
  if name = "main" then main
  else if name = "test" then test
  else custom name

def text : ScopeKind → String
  | main => "main"
  | test => "test"
  | custom name => name

/-- Whether the source set holds tests, which a custom one shows by the end of its name. -/
def isTest : ScopeKind → Bool
  | main => false
  | test => true
  | custom name => "Test".toList.isSuffixOf name.toList || "test".toList.isSuffixOf name.toList

/-- The main source set comes first, then the tests, then the others by name. -/
def rank : ScopeKind → Nat
  | main => 0
  | test => 1
  | custom _ => 2

instance : Ord ScopeKind := ⟨compareLex (compareOn rank) (compareOn text)⟩

instance : Std.TransOrd ScopeKind :=
  inferInstanceAs (Std.TransCmp (compareLex (compareOn rank) (compareOn text)))

instance : Std.LawfulEqOrd ScopeKind where
  eq_of_compare {a b} h := by
    have h : compareLex (compareOn rank) (compareOn text) a b = .eq := h
    simp only [compareLex_eq_eq] at h
    have hr : a.rank = b.rank := Std.LawfulEqOrd.eq_of_compare h.1
    have ht : a.text = b.text := Std.LawfulEqOrd.eq_of_compare h.2
    cases a <;> cases b <;> simp_all [rank, text]

end ScopeKind

/-- A request for lint, at a version or at whichever the configuration says. -/
structure LintRequest where
  version : Option String
  deriving DecidableEq, Repr

/-- What the host build declares for one compilation purpose of a module. -/
structure SourceSet where
  sourceRoots : List Path
  compile : List Dependency
  runtime : List Dependency
  annotationProcessors : List ArtifactKey
  compilerOptions : List String
  /-- The language runtimes asked for, with their versions. -/
  runtimes : Table Language String
  lint : Option LintRequest
  transforms : List ArtifactKey
  robolectric : Bool

namespace SourceSet

/-- A source set that declares nothing. -/
def empty : SourceSet :=
  ⟨[], [], [], [], [], ∅, none, [], false⟩

end SourceSet

/-- One module of the host build. -/
structure ModuleSnapshot where
  id : ModuleId
  /-- The directory of the module, relative to the workspace. -/
  path : Path
  sourceSets : Table ScopeKind SourceSet

/-- The modules and the files that the host build resolved. -/
structure Project where
  modules : Table ModuleId ModuleSnapshot
  artifacts : Table ArtifactKey Path

namespace Project

/-- A project without modules. -/
def empty : Project :=
  ⟨∅, ∅⟩

def module? (p : Project) (id : ModuleId) : Option ModuleSnapshot :=
  p.modules[id]?

end Project

end RuleDepot
