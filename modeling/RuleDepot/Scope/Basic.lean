import RuleDepot.Project.Basic
import RuleDepot.Resolver
/-!
Scopes: the resolved view of one module for one compilation purpose.  Every external dependency is
bound to a file and every module reference is checked; declared order is kept and later duplicates
are dropped.
-/

namespace RuleDepot

/-- A resolved dependency edge. -/
inductive Edge where
  | external (artifact : Artifact)
  | module (id : ModuleId)
  deriving DecidableEq

namespace Edge

def artifact? : Edge → Option Artifact
  | external artifact => some artifact
  | module _ => none

end Edge

/-- A module and a compilation purpose. -/
structure ScopeId where
  module : ModuleId
  kind : ScopeKind
  deriving DecidableEq, Repr

namespace ScopeId

/-- Who asks, in messages. -/
def requester (id : ScopeId) : String :=
  s!"{id.module.text} ({id.kind.text})"

instance : Ord ScopeId := ⟨compareLex (compareOn module) (compareOn kind)⟩

instance : Std.TransOrd ScopeId :=
  inferInstanceAs (Std.TransCmp (compareLex (compareOn module) (compareOn kind)))

instance : Std.LawfulEqOrd ScopeId where
  eq_of_compare {a b} h := by
    have h : compareLex (compareOn module) (compareOn kind) a b = .eq := h
    simp only [compareLex_eq_eq] at h
    have hm : a.module = b.module := Std.LawfulEqOrd.eq_of_compare h.1
    have hk : a.kind = b.kind := Std.LawfulEqOrd.eq_of_compare h.2
    cases a; cases b
    simp_all

end ScopeId

/-- The resolved view of one module for one purpose. -/
structure Scope where
  id : ScopeId
  modulePath : Path
  sourceRoots : List Path
  compile : List Edge
  runtime : List Edge
  annotationProcessors : List Artifact
  transforms : List Artifact
  compilerOptions : List String
  runtimes : Table Language String
  lint : Option LintRequest
  robolectric : Bool

namespace Scope

/-- A scope without sources and dependencies. -/
def empty (id : ScopeId) (modulePath : Path) : Scope :=
  ⟨id, modulePath, [], [], [], [], [], [], ∅, none, false⟩

def requester (s : Scope) : String :=
  s.id.requester

/-- The external artifacts on the compile classpath, then those on the runtime classpath. -/
def externalArtifacts (s : Scope) : List Artifact :=
  (s.compile ++ s.runtime).filterMap Edge.artifact?

/-- Whether the scope asks for nothing; compiler options do not count. -/
def isEmpty (s : Scope) : Bool :=
  s.sourceRoots.isEmpty && s.compile.isEmpty && s.runtime.isEmpty &&
    s.annotationProcessors.isEmpty && s.transforms.isEmpty && s.runtimes.isEmpty &&
    s.lint.isNone && !s.robolectric

/-- The edges of a list of declarations and the coordinates that cannot be resolved, both in order.
A reference to an unknown module ends the search, as does any other failure. -/
def bindEdges (p : Project) (r : Resolver) (t : Tree) (requester : String) :
    List Dependency → Except BuildError (List Edge × List String)
  | [] => .ok ([], [])
  | .module id :: rest => do
    if (p.module? id).isNone then throw (.unknownModule id.text requester)
    let (edges, missing) ← bindEdges p r t requester rest
    return (.module id :: edges, missing)
  | .external key :: rest =>
    match r.resolve t key (some requester) with
    | .ok artifact => do
      let (edges, missing) ← bindEdges p r t requester rest
      return (.external artifact :: edges, missing)
    | .error (.unresolvedDependency coordinate _) => do
      let (edges, missing) ← bindEdges p r t requester rest
      return (edges, coordinate :: missing)
    | .error e => .error e

/-- Resolves a source set. -/
def ofSourceSet (p : Project) (r : Resolver) (t : Tree) (id : ScopeId) (modulePath : Path)
    (set : SourceSet) : Except BuildError Scope := do
  let requester := id.requester
  let (compile, missingCompile) ← bindEdges p r t requester set.compile.eraseDups
  let (runtime, missingRuntime) ← bindEdges p r t requester set.runtime.eraseDups
  let (processors, missingProcessors) ←
    r.gather t (some requester) set.annotationProcessors.eraseDups
  let (transforms, missingTransforms) ← r.gather t (some requester) set.transforms.eraseDups
  let missing :=
    (missingCompile ++ missingRuntime ++ missingProcessors ++ missingTransforms).eraseDups
  if missing.isEmpty then
    return {
      id := id
      modulePath := modulePath
      sourceRoots := set.sourceRoots.map (modulePath.join ·)
      compile := compile
      runtime := runtime
      annotationProcessors := processors
      transforms := transforms
      compilerOptions := set.compilerOptions
      runtimes := set.runtimes
      lint := set.lint
      robolectric := set.robolectric }
  else
    throw (.unresolvedDependency (", ".intercalate missing) (some requester))

/-- Resolves the scope of a module for a purpose; a module without such a source set has an empty
scope. -/
def resolve (p : Project) (r : Resolver) (t : Tree) (id : ScopeId) : Except BuildError Scope :=
  match p.module? id.module with
  | none => .error (.unknownModule id.module.text "the generation pass")
  | some snapshot =>
    match snapshot.sourceSets[id.kind]? with
    | none => .ok (empty id snapshot.path)
    | some set => ofSourceSet p r t id snapshot.path set

end Scope

end RuleDepot
