import RuleDepot.Artifact
import RuleDepot.Language
import RuleDepot.Table
/-!
The configuration of generation.  Every setting has a default, so an empty configuration is a good
one.
-/

namespace RuleDepot

/-- Module names written in the library; a text that is none is left out. -/
def moduleNames (texts : List String) : List ArtifactModule :=
  texts.filterMap fun s => (ArtifactModule.parse s).toOption

/-- Coordinates written in the library; a text that is none is left out. -/
def coordinates (texts : List String) : List ArtifactKey :=
  texts.filterMap fun s => (ArtifactKey.parse s).toOption

/-- How the lint tool is fetched and run. -/
structure LintConfig where
  /-- The version to use whatever scopes ask for. -/
  version : Option String
  disabled : Bool
  jvmArgs : String
  conflictPolicy : ConflictPolicy
  /-- The artifacts of the tool, which are fetched at the selected version. -/
  artifacts : List ArtifactModule
  deriving DecidableEq

namespace LintConfig

def default : LintConfig :=
  ⟨none, false, "-Xmx1024m", .highest,
    moduleNames
      ["com.android.tools.lint:lint",
        "com.android.tools.lint:lint-api",
        "com.android.tools.lint:lint-checks"]⟩

end LintConfig

/-- How the runtime of one language is fetched. -/
structure RuntimeConfig where
  /-- The version to use whatever scopes ask for. -/
  version : Option String
  conflictPolicy : ConflictPolicy
  /-- The runtime and its compiler, which are fetched at the selected version. -/
  artifacts : List ArtifactModule
  deriving DecidableEq

namespace RuntimeConfig

/-- The artifacts of a language for which none are configured. -/
def defaultArtifacts : Language → List ArtifactModule
  | .kotlin => moduleNames
      ["org.jetbrains.kotlin:kotlin-stdlib", "org.jetbrains.kotlin:kotlin-compiler-embeddable"]
  | .scala => moduleNames ["org.scala-lang:scala-library", "org.scala-lang:scala-compiler"]
  | .groovy => moduleNames ["org.codehaus.groovy:groovy"]

/-- Settings that name no artifacts. -/
def unset : RuntimeConfig :=
  ⟨none, .highestCompatible, []⟩

/-- The settings with the artifacts of the language where none are named. -/
def completed (c : RuntimeConfig) (language : Language) : RuntimeConfig :=
  if c.artifacts.isEmpty then { c with artifacts := defaultArtifacts language } else c

def default (language : Language) : RuntimeConfig :=
  unset.completed language

end RuntimeConfig

/-- Artifacts that transform class files. -/
structure TransformConfig where
  enabled : Bool
  dependencies : List ArtifactKey
  conflictPolicy : ConflictPolicy
  deriving DecidableEq

/-- Runtimes for tests. -/
structure TestConfig where
  /-- Whether the runtimes are fetched although no scope asks for them. -/
  robolectric : Bool
  /-- The runtime jars, one for each level of the platform. -/
  androidAll : List ArtifactKey
  deriving DecidableEq

namespace TestConfig

def default : TestConfig :=
  ⟨false, coordinates
    ["org.robolectric:android-all:8.1.0-robolectric-4611921",
      "org.robolectric:android-all:9-robolectric-4913185-2"]⟩

end TestConfig

/-- Tools that are pinned at the version found on classpaths. -/
structure ToolsConfig where
  conflictPolicy : ConflictPolicy
  /-- The module that each tool is looked up as. -/
  jars : Table String ArtifactModule

namespace ToolsConfig

def default : ToolsConfig :=
  ⟨.highest, (moduleNames ["net.sf.proguard:proguard-base"]).foldl
    (fun jars m => jars.insert "proguard" m) ∅⟩

end ToolsConfig

/-- All settings. -/
structure Config where
  /-- The directory of the cache, which a relative path names from the workspace. -/
  cacheDir : Path
  /-- How many modules may be visited at once; how many there are processors, if nothing is said. -/
  maxParallel : Option Nat
  hashMode : HashMode
  /-- Local repositories, which are asked after the table of the project model. -/
  repositories : List Path
  /-- Coordinates that are always fetched and pin the version of their artifact. -/
  forced : List ArtifactKey
  externalPolicy : ConflictPolicy
  processorPolicy : ConflictPolicy
  lint : LintConfig
  kotlin : RuntimeConfig
  scala : RuntimeConfig
  groovy : RuntimeConfig
  transform : TransformConfig
  test : TestConfig
  tools : ToolsConfig
  /-- Sets of coordinates that get caches of their own. -/
  extraCaches : Table String (List ArtifactKey)

namespace Config

/-- Where a configuration is when nobody says. -/
def fileName : Path := ⟨"buckforge.toml"⟩

def default : Config where
  cacheDir := ⟨".buckforge/cache"⟩
  maxParallel := none
  hashMode := .content
  repositories := []
  forced := []
  externalPolicy := .highest
  processorPolicy := .highest
  lint := .default
  kotlin := .default .kotlin
  scala := .default .scala
  groovy := .default .groovy
  transform := ⟨false, [], .highest⟩
  test := .default
  tools := .default
  extraCaches := ∅

/-- The settings for the runtime of a language. -/
def runtime (c : Config) : Language → RuntimeConfig
  | .kotlin => c.kotlin
  | .scala => c.scala
  | .groovy => c.groovy

/-- The root of the cache for a workspace. -/
def cacheRoot (c : Config) (home workspace : Path) : Path :=
  Path.resolveAgainst home workspace c.cacheDir

end Config

end RuleDepot
