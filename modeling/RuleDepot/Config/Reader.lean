import RuleDepot.Config.Basic
import RuleDepot.Files.Tree
import RuleDepot.Toml.Decoder
import RuleDepot.Toml.Document
/-!
Reading a configuration.  A text is read into settings, then checked; a configuration file is the
one that the user names, else the one that the environment names, else the one in the workspace if
there is one.
-/

namespace RuleDepot.Config

open Toml (Decoder)

def policy : Decoder ConflictPolicy :=
  Decoder.named ConflictPolicy.named?

def hashModeName : Decoder HashMode :=
  Decoder.named HashMode.named?

def pathText : Decoder Path := fun v => (Decoder.text v).map Path.mk

def coordinate : Decoder ArtifactKey :=
  Decoder.parsed ArtifactKey.parse

def moduleName : Decoder ArtifactModule :=
  Decoder.parsed ArtifactModule.parse

/-- A text; a key that is not there says nothing. -/
def stated : Decoder (Option String) := fun v => (Decoder.text v).map some

/-- Entries as a table. -/
def table {α : Type} (item : Decoder α) : Decoder (Table String α) := fun v => do
  return (← Decoder.entries item v).foldl (fun read (key, a) => read.insert key a) ∅

/-- A record that only sets a policy. -/
def policyOnly : Decoder ConflictPolicy :=
  Decoder.record [.of "conflict_policy" policy fun p _ => p] .highest

def lintConfig : Decoder LintConfig :=
  Decoder.record
    [.of "version" stated fun version c => { c with version },
      .of "disabled" Decoder.bool fun disabled c => { c with disabled },
      .of "jvm_args" Decoder.text fun jvmArgs c => { c with jvmArgs },
      .of "conflict_policy" policy fun conflictPolicy c => { c with conflictPolicy },
      .of "artifacts" (Decoder.list moduleName) fun artifacts c => { c with artifacts }]
    .default

def runtimeConfig : Decoder RuntimeConfig :=
  Decoder.record
    [.of "version" stated fun version c => { c with version },
      .of "conflict_policy" policy fun conflictPolicy c => { c with conflictPolicy },
      .of "artifacts" (Decoder.list moduleName) fun artifacts c => { c with artifacts }]
    .unset

def transformConfig : Decoder TransformConfig :=
  Decoder.record
    [.of "enabled" Decoder.bool fun enabled c => { c with enabled },
      .of "dependencies" (Decoder.list coordinate) fun dependencies c => { c with dependencies },
      .of "conflict_policy" policy fun conflictPolicy c => { c with conflictPolicy }]
    ⟨false, [], .highest⟩

def testConfig : Decoder TestConfig :=
  Decoder.record
    [.of "robolectric" Decoder.bool fun robolectric c => { c with robolectric },
      .of "android_all" (Decoder.list coordinate) fun androidAll c => { c with androidAll }]
    .default

def toolsConfig : Decoder ToolsConfig :=
  Decoder.record
    [.of "conflict_policy" policy fun conflictPolicy c => { c with conflictPolicy },
      .of "jars" (table moduleName) fun jars c => { c with jars }]
    .default

/-- The settings as they are written. -/
def settings : Decoder Config :=
  Decoder.record
    [.of "cache_dir" pathText fun cacheDir c => { c with cacheDir },
      .of "max_parallel" Decoder.word fun n c => { c with maxParallel := some n },
      .of "hash_mode" hashModeName fun hashMode c => { c with hashMode },
      .of "repositories" (Decoder.list pathText) fun repositories c => { c with repositories },
      .of "forced" (Decoder.list coordinate) fun forced c => { c with forced },
      .of "external" policyOnly fun externalPolicy c => { c with externalPolicy },
      .of "processors" policyOnly fun processorPolicy c => { c with processorPolicy },
      .of "lint" lintConfig fun lint c => { c with lint },
      .of "kotlin" runtimeConfig fun kotlin c => { c with kotlin := kotlin.completed .kotlin },
      .of "scala" runtimeConfig fun scala c => { c with scala := scala.completed .scala },
      .of "groovy" runtimeConfig fun groovy c => { c with groovy := groovy.completed .groovy },
      .of "transform" transformConfig fun transform c => { c with transform },
      .of "test" testConfig fun test c => { c with test },
      .of "tools" toolsConfig fun tools c => { c with tools },
      .of "extra_dep_caches" (table (Decoder.list coordinate))
        fun extraCaches c => { c with extraCaches }]
    .default

/-- Whether a name can be that of one directory. -/
def isDirectoryName (name : String) : Bool :=
  name ≠ "" && !name.toList.any (fun c => c == '/' || c == '\\') && name ≠ "." && name ≠ ".."

/-- Refuses settings that make no sense. -/
def check (c : Config) : Except String Config :=
  if c.maxParallel = some 0 then .error "max_parallel must be at least 1"
  else
    match c.extraCaches.keys.find? fun name => !isDirectoryName name with
    | some name => .error s!"extra_dep_caches name '{name}' is not a valid directory name"
    | none => .ok c

/-- The configuration that a text holds, or why it holds none. -/
def ofText (content : String) : Except String Config :=
  match Toml.parse content with
  | .error refusal => .error refusal.message
  | .ok members =>
    match settings (.table .header members) with
    | .error fault => .error fault.message
    | .ok c => check c

/-- Reads a configuration that is not in a file. -/
def parse (content : String) : Except BuildError Config :=
  (ofText content).mapError (.config fileName)

/-- Reads a configuration file. -/
def loadFrom (t : Tree) (file : Path) : Except BuildError Config :=
  match t.readText file with
  | .error e => .error (.io s!"reading config {file.text}" e)
  | .ok content => (ofText content).mapError (.config file)

/-- What the surroundings of a run say. -/
structure Environment where
  /-- The directory that a leading tilde stands for. -/
  home : Path
  /-- The file to read the configuration from. -/
  configFile : Option Path
  /-- The directory for the cache, which wins over the configuration. -/
  cacheDir : Option Path

/-- The configuration that a file holds which has to be there. -/
def loadNamed (t : Tree) (env : Environment) (workspace file : Path) : Except BuildError Config :=
  let file := Path.resolveAgainst env.home workspace file
  if t.isFile file then loadFrom t file else .error (.config file "file does not exist")

/-- The configuration that the file of the workspace holds, or the default. -/
def loadUsual (t : Tree) (workspace : Path) : Except BuildError Config :=
  let file := workspace.join fileName
  if t.isFile file then loadFrom t file else .ok default

/-- The configuration for a workspace. -/
def load (t : Tree) (env : Environment) (workspace : Path) (named : Option Path) :
    Except BuildError Config := do
  let c ← match named.orElse fun _ => env.configFile with
    | some file => loadNamed t env workspace file
    | none => loadUsual t workspace
  match env.cacheDir with
  | some dir => return { c with cacheDir := dir }
  | none => return c

end RuleDepot.Config
