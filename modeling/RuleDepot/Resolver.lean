import RuleDepot.Artifact
/-!
From coordinates to files.  The table of the project model is asked first and then the local
repositories in order; nothing is downloaded.  A file counts as the project's own when its path,
taken component by component as written, begins with that of the workspace.
-/

namespace RuleDepot

/-- A local repository that keeps the files of `g.h:n:v` in `g/h/n/v`. -/
structure Repository where
  root : Path
  deriving DecidableEq, Repr

namespace Repository

/-- The directory for the versions of one module. -/
def moduleDir (r : Repository) (group name : String) : Path :=
  ((Text.splitAt '.' group).foldl (fun dir part => dir / part) r.root) / name

/-- The extensions that are tried, in order. -/
def extensions : List String := ["jar", "aar"]

/-- The files that may hold an artifact, in order. -/
def candidates (r : Repository) (key : ArtifactKey) : List Path :=
  let dir := r.moduleDir key.group key.name / key.version
  let stem := match key.classifier with
    | some c => s!"{key.name}-{key.version}-{c}"
    | none => s!"{key.name}-{key.version}"
  extensions.map fun extension => dir / s!"{stem}.{extension}"

/-- The first candidate that is a file. -/
def find? (r : Repository) (t : Tree) (key : ArtifactKey) : Option Path :=
  (r.candidates key).find? t.isFile

end Repository

/-- Everything that coordinates are resolved with. -/
structure Resolver where
  /-- The files that the project model names. -/
  table : Table ArtifactKey Path
  repositories : List Repository
  hashMode : HashMode
  workspace : Path

namespace Resolver

/-- The file for a coordinate: from the table, else from the first repository that has one. -/
def find? (r : Resolver) (t : Tree) (key : ArtifactKey) : Option Path :=
  match r.table[key]? with
  | some path => some path
  | none => r.repositories.findSome? fun repository => repository.find? t key

/-- Whether a file belongs to the project. -/
def originOf (r : Resolver) (source : Path) : Origin :=
  if source.isBelow r.workspace then .project else .external

/-- Resolves one coordinate. -/
def resolve (r : Resolver) (t : Tree) (key : ArtifactKey) (requestedBy : Option String) :
    Except BuildError Artifact :=
  match r.find? t key with
  | none => .error (.unresolvedDependency key.text requestedBy)
  | some found =>
    let source := if found.isAbsolute then found else r.workspace / found
    match Artifact.bind t r.hashMode (r.originOf source) key source with
    | .error (.unresolvedDependency coordinate _) =>
      .error (.unresolvedDependency coordinate requestedBy)
    | result => result

/-- The artifacts of a list of coordinates and the coordinates that have none, both in order; any
other failure ends the search. -/
def gather (r : Resolver) (t : Tree) (requestedBy : Option String) :
    List ArtifactKey → Except BuildError (List Artifact × List String)
  | [] => .ok ([], [])
  | key :: rest => do
    match r.resolve t key requestedBy with
    | .ok artifact =>
      let (found, missing) ← gather r t requestedBy rest
      return (artifact :: found, missing)
    | .error (.unresolvedDependency coordinate _) =>
      let (found, missing) ← gather r t requestedBy rest
      return (found, coordinate :: missing)
    | .error e => .error e

/-- Resolves every coordinate, or names all that cannot be resolved. -/
def resolveAll (r : Resolver) (t : Tree) (keys : List ArtifactKey)
    (requestedBy : Option String) : Except BuildError (List Artifact) := do
  let (found, missing) ← r.gather t requestedBy keys
  if missing.isEmpty then return found
  else throw (.unresolvedDependency (", ".intercalate missing) requestedBy)

/-- Resolves a named set of coordinates. -/
def resolveSet (r : Resolver) (t : Tree) (name : String) (keys : List ArtifactKey) :
    Except BuildError (List Artifact) :=
  r.resolveAll t keys (some s!"configuration '{name}'")

end Resolver

end RuleDepot
