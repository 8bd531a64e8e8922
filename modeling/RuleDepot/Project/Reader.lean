import RuleDepot.Failure
import RuleDepot.Files.Tree
import RuleDepot.Json.Decoder
import RuleDepot.Project.Basic
/-!
Reading a project model from JSON.  Members that are missing have their empty value, unknown ones
are passed over, and relative files are taken from the directory of the model.
-/

namespace RuleDepot.Project

open Json

/-- A notation whose faults are bad coordinates. -/
def coordinate {α : Type} (parse : String → Except BadCoordinate α) (s : String) :
    Except String α :=
  (parse s).mapError BadCoordinate.message

/-- The language of a name. -/
def language (s : String) : Except String Language :=
  match Language.named? s with
  | some language => .ok language
  | none => .error "unknown language"

/-- Puts entries into a table; of two with one key the later counts. -/
def tableOf {κ ν : Type} [Ord κ] [Std.TransOrd κ] (entries : List (κ × ν)) : Table κ ν :=
  entries.foldl (fun table (key, value) => table.insert key value) ∅

def path : Decoder Path := do
  return ⟨← Decoder.text⟩

def artifactKey : Decoder ArtifactKey :=
  Decoder.parsed (coordinate ArtifactKey.parse)

def dependency : Decoder Dependency :=
  Decoder.parsed (coordinate Dependency.parse)

def moduleId : Decoder ModuleId :=
  Decoder.parsed (coordinate ModuleId.parse)

def lintRequest : Decoder LintRequest :=
  Decoder.record
    [.of "version" (Decoder.optional Decoder.text) fun version r => { r with version }]
    ⟨none⟩

def runtimes : Decoder (Table Language String) := do
  return tableOf (← Decoder.entries language Decoder.text)

def sourceSet : Decoder SourceSet :=
  Decoder.record
    [.of "source_roots" (Decoder.list path) fun sourceRoots s => { s with sourceRoots },
      .of "compile" (Decoder.list dependency) fun compile s => { s with compile },
      .of "runtime" (Decoder.list dependency) fun runtime s => { s with runtime },
      .of "annotation_processors" (Decoder.list artifactKey)
        fun annotationProcessors s => { s with annotationProcessors },
      .of "compiler_options" (Decoder.list Decoder.text)
        fun compilerOptions s => { s with compilerOptions },
      .of "runtimes" runtimes fun runtimes s => { s with runtimes },
      .of "lint" (Decoder.optional lintRequest) fun lint s => { s with lint },
      .of "transforms" (Decoder.list artifactKey) fun transforms s => { s with transforms },
      .of "robolectric" Decoder.bool fun robolectric s => { s with robolectric }]
    .empty

def sourceSets : Decoder (Table ScopeKind SourceSet) := do
  return tableOf (← Decoder.entries (fun name => .ok (ScopeKind.ofName name)) sourceSet)

def moduleSnapshot : Decoder ModuleSnapshot :=
  Decoder.record
    [.needed "id" moduleId fun id m => { m with id },
      .of "path" path fun path m => { m with path },
      .of "source_sets" sourceSets fun sourceSets m => { m with sourceSets }]
    ⟨⟨""⟩, ⟨""⟩, ∅⟩

/-- The modules and files of a model as they are written. -/
structure Draft where
  modules : List ModuleSnapshot
  artifacts : Table ArtifactKey Path

def draft : Decoder Draft :=
  Decoder.record
    [.of "modules" (Decoder.list moduleSnapshot) fun modules d => { d with modules },
      .of "artifacts"
        (do return tableOf (← Decoder.entries (coordinate ArtifactKey.parse) path))
        fun artifacts d => { d with artifacts }]
    ⟨[], ∅⟩

/-- Adds modules to a table, each at most once. -/
def addModules (modules : Table ModuleId ModuleSnapshot) :
    List ModuleSnapshot → Except String (Table ModuleId ModuleSnapshot)
  | [] => .ok modules
  | m :: rest =>
    if modules.contains m.id then .error s!"module '{m.id.text}' is declared more than once"
    else addModules (modules.insert m.id m) rest

/-- A model with relative files taken from `base`, or why it is none. -/
def ofText (content : String) (base : Path) : Except String Project := do
  let read ← (Decoder.run draft content).mapError Fault.message
  let modules ← addModules ∅ read.modules
  return ⟨modules, read.artifacts.map fun _ file => base.join file⟩

/-- Reads a model that is not in a file. -/
def parse (content : String) (base : Path) : Except BuildError Project :=
  (ofText content base).mapError (.model ⟨""⟩)

/-- Reads a model file. -/
def load (t : Tree) (file : Path) : Except BuildError Project :=
  match t.readText file with
  | .error e => .error (.io s!"reading project model {file.text}" e)
  | .ok content => (ofText content (file.parent?.getD ⟨"."⟩)).mapError (.model file)

end RuleDepot.Project
