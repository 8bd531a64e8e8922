import RuleDepot.Archive.Zip
import RuleDepot.Cache.Basic
import RuleDepot.Collector.Plan
import RuleDepot.Rule.Printer
/-!
What a collector makes of the fetched artifacts: the rules of its file, further diagnostics, and
what it answers afterwards.  Every file that was put into the cache gets one rule, and a bundle
refers to these rules only.
-/

namespace RuleDepot

namespace Rule

/-- The rule for a file of the cache. -/
def prebuilt (e : CacheEntry) : Rule :=
  if e.artifact.extension = "aar" then
    ((Rule.of "android_prebuilt_aar" e.ruleName).withText "aar" e.fileName).withText
      "maven_coords" e.key.text
  else
    ((Rule.of "prebuilt_jar" e.ruleName).withText "binary_jar" e.fileName).withText
      "maven_coords" e.key.text

/-- The rules for the entries that were put into the cache, one for each name, in name order.  Of
two entries with one name the later counts. -/
def prebuilts (entries : List CacheEntry) : List Rule :=
  let byName : Table String CacheEntry :=
    (entries.filter (·.materialized)).foldl (fun table e => table.insert e.ruleName e) ∅
  byName.values.map prebuilt

/-- One rule that gives access to all entries that were put into the cache. -/
def bundle (name : String) (entries : List CacheEntry) : Rule :=
  (Rule.of "java_library" name).withList "exported_deps" ((prebuilts entries).map localTarget)

end Rule

/-- The file of a jar that lists the annotation processors in it. -/
def processorService : String :=
  "META-INF/services/javax.annotation.processing.Processor"

/-- The classes that a list of processors names; what stands behind a hash sign on a line does not
count. -/
def processorNames (content : String) : List String :=
  let names := (Text.splitAt '\n' content).map fun line =>
    Text.trim (String.ofList (line.toList.takeWhile (· != '#')))
  names.filter (· ≠ "")

/-- The annotation processors in a jar; none if it cannot be read. -/
def processorClasses (t : Tree) (jar : Path) : List String :=
  match t.read jar with
  | .error _ => []
  | .ok bytes => ((Archive.zipText? bytes processorService).map processorNames).getD []

/-- A tool after the end of a pass. -/
structure ToolJar where
  version : String
  path : Path
  target : String
  deriving DecidableEq, Repr

/-- What a collector answers at the end of a pass. -/
structure Answers where
  /-- The labels of the rules that serve coordinates. -/
  targets : Table ArtifactKey String
  /-- The labels of the rules of annotation processors, by identity. -/
  processors : Table String String
  /-- The version at which the toolchain was fetched. -/
  version : Option String
  tools : Table String ToolJar

namespace Answers

/-- No answers, before the end of a pass. -/
def none : Answers :=
  ⟨∅, ∅, .none, ∅⟩

end Answers

/-- What is written and answered. -/
structure Emission where
  rules : List Rule
  diagnostics : List Diagnostic
  answers : Answers

namespace Emission

/-- The rules for the fetched files and nothing else. -/
def ofEntries (entries : List CacheEntry) : Emission :=
  ⟨Rule.prebuilts entries, [], .none⟩

/-- The label that serves each coordinate: that of the entry with its identity, and for the
coordinate of an entry that of the entry itself. -/
def targets (c : Cache) (served : List ArtifactKey) (entries : List CacheEntry) :
    Table ArtifactKey String :=
  let byId : Table String String :=
    entries.foldl (fun table e => table.insert e.key.logicalId (c.label e)) ∅
  let requested : Table ArtifactKey String :=
    served.foldl
      (fun table key =>
        match byId[key.logicalId]? with
        | some label => table.insert key label
        | none => table) ∅
  entries.foldl (fun table e => table.insert e.key (c.label e)) requested

/-- The name of the rule for the processor in a jar. -/
def processorName (e : CacheEntry) : String :=
  s!"{e.ruleName}-processor"

/-- The label of the rule for the processor in a jar. -/
def processorLabel (c : Cache) (e : CacheEntry) : String :=
  let label := (c.label e).toList
  let dir := match Text.cutLast ':' label with
    | some (dir, _) => dir
    | none => label
  String.ofList dir ++ ":" ++ processorName e

/-- The rules for a jar and for the processor in it. -/
def processorRules (e : CacheEntry) (classes : List String) : List Rule :=
  let jar := Rule.prebuilt e
  [jar,
    (((Rule.of "java_annotation_processor" (processorName e)).withList
      "deps" [jar.localTarget]).withList "processor_classes" classes).withFlag
      "does_not_affect_abi" false]

/-- Two rules for each jar, and a warning for each without processors. -/
def ofProcessors (c : Cache) (t : Tree) (entries : List CacheEntry) : Emission :=
  let scanned := entries.map fun e => (e, processorClasses t e.path)
  let hollow := scanned.filter fun (_, classes) => classes.isEmpty
  ⟨scanned.flatMap fun (e, classes) => processorRules e classes,
    hollow.map fun (e, _) =>
      ⟨.invalidInput, some e.key.text, s!"no processor classes declared in {processorService}"⟩,
    { Answers.none with
      processors :=
        entries.foldl (fun table e => table.insert e.key.logicalId (processorLabel c e)) ∅ }⟩

/-- The tools that were fetched. -/
def tools (c : Cache) (plan : Plan) (entries : List CacheEntry) : Table String ToolJar :=
  (plan.tools.zip entries).foldl
    (fun table ((name, version), e) => table.insert name ⟨version, e.path, c.label e⟩) ∅

/-- What is made of the fetched files. -/
def of (duty : Duty) (c : Cache) (t : Tree) (plan : Plan) (entries : List CacheEntry) : Emission :=
  match duty with
  | .dependencies .. =>
    ⟨Rule.prebuilts entries, [],
      { Answers.none with targets := targets c plan.served entries }⟩
  | .processors .. => ofProcessors c t entries
  | .lint config =>
    ⟨Rule.prebuilts entries ++ [(Rule.bundle Duty.lintId entries).withText "jvm_args" config.jvmArgs],
      [], { Answers.none with version := plan.version }⟩
  | .runtime .. =>
    match plan.version with
    | none => ⟨[], [], .none⟩
    | some version =>
      ⟨Rule.prebuilts entries ++ [Rule.bundle duty.name entries], [],
        { Answers.none with version := some version }⟩
  | .transforms .. =>
    if entries.isEmpty then ⟨[], [], .none⟩
    else ⟨Rule.prebuilts entries ++ [Rule.bundle "transform-classpath" entries], [], .none⟩
  | .robolectric .. => ofEntries entries
  | .tools .. =>
    ⟨Rule.prebuilts entries, [], { Answers.none with tools := tools c plan entries }⟩
  | .extra .. => ofEntries entries

end Emission

end RuleDepot
