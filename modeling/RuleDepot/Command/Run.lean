import RuleDepot.Command.Arguments
import RuleDepot.Command.Notice
import RuleDepot.Command.Size
import RuleDepot.Config.Reader
import RuleDepot.Files.Content
import RuleDepot.Generation.Basic
import RuleDepot.Project.Reader
/-!
What the commands do.  A command works on the files and writes text; what it did and wrote before
it failed stays done and written.
-/

namespace RuleDepot.Command

/-- The surroundings in which a command runs. -/
structure Surroundings where
  environment : Config.Environment
  /-- The directory that the command was called in. -/
  workingDir : Path
  now : Instant

/-- What a command works on: the text written so far and the files. -/
structure Terminal where
  output : String
  tree : Tree

/-- A running command. -/
abbrev CommandM : Type → Type :=
  EStateM CommandError Terminal

namespace CommandM

variable {α : Type}

/-- Writes a line. -/
def line (s : String) : CommandM Unit :=
  modify fun terminal => { terminal with output := terminal.output ++ s ++ "\n" }

/-- Writes lines. -/
def lines (texts : List String) : CommandM Unit :=
  texts.forM line

/-- Says what a failing action was about. -/
def within (context : String) (action : CommandM α) : CommandM α := fun terminal =>
  match action terminal with
  | .ok a terminal => .ok a terminal
  | .error e terminal => .error (e.within context) terminal

/-- What looking at the files gives. -/
def look (f : Tree → Except BuildError α) : CommandM α := fun terminal =>
  match f terminal.tree with
  | .ok a => .ok a terminal
  | .error e => .error (.ofBuild e) terminal

/-- An action on the files. -/
def files (action : FileM α) : CommandM α := fun terminal =>
  match action terminal.tree with
  | .ok a tree => .ok a { terminal with tree }
  | .error e tree => .error (.ofFiles e) { terminal with tree }

/-- A step on something that is made for it. -/
def step {σ : Type} (part : σ) (step : Step σ α) : CommandM α := fun terminal =>
  match step (part, terminal.tree) with
  | .ok a (_, tree) => .ok a { terminal with tree }
  | .error e (_, tree) => .error (.ofBuild e) { terminal with tree }

end CommandM

open CommandM

/-- What is common to all commands. -/
structure Context where
  surroundings : Surroundings
  workspace : Path
  config : Option Path
  quiet : Bool

namespace Context

/-- The context of a command line. -/
def of (s : Surroundings) (i : Invocation) : Context :=
  ⟨s, i.workspace.getD s.workingDir, i.config, i.quiet⟩

def home (c : Context) : Path :=
  c.surroundings.environment.home

/-- The configuration. -/
def loadConfig (c : Context) : CommandM Config :=
  within "Failed to load configuration"
    (look fun t => Config.load t c.surroundings.environment c.workspace c.config)

end Context

/-- The lines about a pass. -/
def passLines (report : GenerationReport) : List String :=
  let diagnostics := report.diagnostics
  let written := report.reports.filter fun r => r.ruleFile.isSome
  diagnostics.map (fun d => s!"warning: {d.text}") ++
    ["Generation complete!",
      s!"  {report.modulesVisited} modules, {report.scopesResolved} scopes"] ++
    written.map (fun r => s!"  {Text.padRight 14 r.shelf.dirName} {r.cached} artifacts") ++
    (if diagnostics.isEmpty then [] else [s!"  {diagnostics.length} warnings"])

/-- Runs a pass over the project of a model file. -/
def generate (c : Context) (model : Path) (maxParallel : Option Nat) : CommandM Unit := do
  let config ← c.loadConfig
  if maxParallel = some 0 then throw (.refusal "--max-parallel must be at least 1")
  let file := Path.resolveAgainst c.home c.workspace model
  let project ← look fun t => Project.load t file
  let generation := Generation.new config c.home c.workspace project
  let report ← within s!"Generation failed for {c.workspace.text}"
    (step generation (Generation.run c.surroundings.now))
  if !c.quiet then lines (passLines report)

/-- Removes what passes leave in a workspace, and with `all` the cache too. -/
def clean (c : Context) (all : Bool) : CommandM Unit := do
  let usual := [c.workspace / ".buckforge/gen"] ++ (c.workspace.join StateFile.location).parent?.toList
  let targets ← if all then do
      let config ← c.loadConfig
      pure (usual ++ [config.cacheRoot c.home c.workspace])
    else pure usual
  targets.forM fun dir => within s!"Failed to remove {dir.text}" (files (FileM.removeDirs dir))
  let what := if all then "generated state and caches" else "generated state"
  if !c.quiet then line s!"Removed {what}"

/-- How much one shelf of a cache holds. -/
structure Usage where
  name : String
  files : Nat
  bytes : Nat
  hasRules : Bool

/-- The directories in a directory that are not hidden. -/
def subdirectories (t : Tree) (dir : Path) : List (String × Path) :=
  match t.locate dir with
  | .error _ => []
  | .ok place =>
    ((t.children place).filter fun name => !name.startsWith ".").filterMap fun (name : String) =>
      let path := dir / name
      if t.isDir path then some (name, path) else none

/-- How much the shelf in a directory holds. -/
def usageOf (t : Tree) (name : String) (dir : Path) : Usage :=
  let (bytes, files) := (t.usage dir).toOption.getD (0, 0)
  ⟨name, files, bytes, t.isFile (dir / Cache.ruleFileName)⟩

/-- How much each shelf of a cache holds, by name; those of extra sets stand in a directory of
their own. -/
def usages (t : Tree) (root : Path) : List Usage :=
  if !t.isDir root then []
  else
    let found := (subdirectories t root).flatMap fun (name, dir) =>
      if name = "extra" then
        (subdirectories t dir).map fun (inner, dir) => usageOf t s!"extra/{inner}" dir
      else [usageOf t name dir]
    found.mergeSort fun a b => a.name ≤ b.name

/-- The line about a shelf. -/
def usageLine (u : Usage) : String :=
  s!"  {Text.padRight 14 u.name} {Text.padLeft 5 (toString u.files)} files " ++
    Text.padLeft 10 (sizeText u.bytes) ++ (if u.hasRules then "" else "  (no rule file)")

/-- The line about the last pass. -/
def lastPassLine : Option StateFile → String
  | some s =>
    s!"Last generation: {s.generatedAt.display} ({s.modules} modules, buckforge {s.toolVersion})"
  | none => "Last generation: never"

/-- Tells about the cache. -/
def cacheInfo (c : Context) : CommandM Unit := do
  let config ← c.loadConfig
  let root := config.cacheRoot c.home c.workspace
  line s!"Cache: {root.text}"
  let found := usages (← get).tree root
  if found.isEmpty then line "  (empty)"
  lines (found.map usageLine)
  let state ← look fun t => StateFile.read t (c.workspace.join StateFile.location)
  line (lastPassLine state)

/-- Runs a command. -/
def run (s : Surroundings) (i : Invocation) : CommandM Unit :=
  let c := Context.of s i
  match i.task with
  | .generate model maxParallel => generate c model maxParallel
  | .clean all => clean c all
  | .cacheInfo => cacheInfo c

end RuleDepot.Command
