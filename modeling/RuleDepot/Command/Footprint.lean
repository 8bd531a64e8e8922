import RuleDepot.Command.Run
/-!
What a command looks at.  A command works on the files as a value, so whoever runs one on the files
of a machine has to know which of them to read first.  These are its inputs, which its words name,
and then its stores, which the configuration and the project name.
-/

namespace RuleDepot

namespace Config

/-- Where the configuration of a workspace may be. -/
def places (env : Environment) (workspace : Path) (named : Option Path) : List Path :=
  match named.orElse fun _ => env.configFile with
  | some file => [Path.resolveAgainst env.home workspace file]
  | none => [workspace.join fileName]

/-- The groups and names of all artifacts that the settings ask for. -/
def wanted (c : Config) : List (String × String) :=
  let keys := c.forced ++ c.transform.dependencies ++ c.test.androidAll ++ c.extraCaches.values.flatten
  let modules := c.lint.artifacts ++ Language.all.flatMap fun l => (c.runtime l).artifacts
  keys.map (fun k => (k.group, k.name)) ++ modules.map fun m => (m.group, m.name)

end Config

namespace Project

/-- The coordinates that a source set declares. -/
def declared (s : SourceSet) : List ArtifactKey :=
  let external : Dependency → Option ArtifactKey
    | .external key => some key
    | .module _ => none
  (s.compile ++ s.runtime).filterMap external ++ s.annotationProcessors ++ s.transforms

/-- The groups and names of all artifacts that the modules ask for. -/
def wanted (p : Project) : List (String × String) :=
  (p.modules.values.flatMap fun m => m.sourceSets.values.flatMap declared).map
    fun k => (k.group, k.name)

end Project

namespace Command

/-- The files that say what is to be done: the configuration, the project model, and what earlier
passes left. -/
def inputs (c : Context) (task : Task) : List Path :=
  let model := match task with
    | .generate model _ => [Path.resolveAgainst c.home c.workspace model]
    | _ => []
  Config.places c.surroundings.environment c.workspace c.config ++ model ++
    [c.workspace / ".buckforge"]

/-- The files that artifacts of a project may be fetched from. -/
def sources (c : Context) (config : Config) (project : Project) : List Path :=
  let resolver := config.resolver c.home c.workspace project
  let wanted := (config.wanted ++ project.wanted).eraseDups
  project.artifacts.values.map (fun file => if file.isAbsolute then file else c.workspace / file) ++
    resolver.repositories.flatMap fun r => wanted.map fun (group, name) => r.moduleDir group name

/-- The files that are fetched from and written to, when the inputs can be read. -/
def stores (c : Context) (task : Task) (t : Tree) : List Path :=
  match Config.load t c.surroundings.environment c.workspace c.config with
  | .error _ => []
  | .ok config =>
    let fetched := match task with
      | .generate model _ =>
        match Project.load t (Path.resolveAgainst c.home c.workspace model) with
        | .error _ => []
        | .ok project => sources c config project
      | _ => []
    config.cacheRoot c.home c.workspace :: fetched

end Command

end RuleDepot
