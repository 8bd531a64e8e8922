import Mathlib.Data.List.Forall2
import RuleDepot.Proofs.Collector.Processors
/-!
Tools at the versions of classpaths.  A tool is looked up as a module, and whatever scopes carry of
that module decides on its version.  An artifact is taken down for one tool only, the first by name
of those that are looked up as its module.  So a tool has a jar exactly if it is the first of its
module and some scope carries that module, and further names for one module stay without a jar.
-/

namespace RuleDepot

open Running Requirements

/-- An artifact of a module on a classpath of one of some scopes. -/
def Carried (shown : Scope → Prop) (m : ArtifactModule) (a : Artifact) : Prop :=
  ∃ scope, shown scope ∧ a ∈ scope.externalArtifacts ∧ a.key.group = m.group ∧ a.key.name = m.name

/-- The name of a tool that is looked up as a module, and the first one. -/
structure ToolsConfig.Leads (config : ToolsConfig) (name : String) (m : ArtifactModule) : Prop where
  listed : config.jars[name]? = some m
  first : ∀ other, config.jars[other]? = some m → name ≤ other

/-- A jar for a tool: at the version that the policy selects out of all that are carried, and copied
to a directory. -/
structure ToolJar.Follows (jar : ToolJar) (policy : ConflictPolicy) (name : String)
    (carried : Artifact → Prop) (root : Path) (labelDir : String) (entries : List CacheEntry)
    (t t' : Tree) : Prop where
  selected : ∃ (requests : VersionRequests) (selection : Selection),
    (∀ v, v ∈ requests ↔ ∃ a, carried a ∧ a.key.version = v) ∧
    requests.select name policy = .ok selection ∧ jar.version = selection.version
  copied : ∃ e ∈ entries, carried e.artifact ∧ e.key.version = jar.version ∧
    jar.path = root / e.fileName ∧ e.CopiedTo root entries t t' ∧
    jar.target = labelDir ++ ":" ++ e.ruleName

section

variable {config : ToolsConfig} {scopes : List Scope} {r : Resolver} {t t' : Tree} {plan : Plan}
  {entries : List CacheEntry} {cache : Cache} {middle : Tree} {name : String} {m : ArtifactModule}
  {key : ArtifactKey} {a : Artifact}

namespace ToolsConfig.Leads

private theorem name_eq {name' : String} (leads : config.Leads name m) (leads' : config.Leads name' m) :
    name = name' :=
  String.le_antisymm (leads.first name' leads'.listed) (leads'.first name leads.listed)

/-- Every name leads for its module, where that has something, exactly if no other name has the same
module. -/
theorem all_iff {held : ArtifactModule → Prop} :
    (∀ (name : String) m, config.jars[name]? = some m →
        ((∃ m, config.Leads name m ∧ held m) ↔ held m)) ↔
      ∀ (name other : String) m, config.jars[name]? = some m → config.jars[other]? = some m →
        held m → name = other := by
  have single {name : String} {m : ArtifactModule} (listed : config.jars[name]? = some m)
      (leading : ∃ m, config.Leads name m ∧ held m) : config.Leads name m ∧ held m := by
    obtain ⟨m', leads, kept⟩ := leading
    obtain rfl : m' = m := Option.some.inj (leads.listed.symm.trans listed)
    exact ⟨leads, kept⟩
  constructor
  · intro all name other m listed listed' kept
    have leads := (single listed ((all name m listed).mpr kept)).1
    exact leads.name_eq (single listed' ((all other m listed').mpr kept)).1
  · intro apart name m listed
    refine ⟨fun leading => (single listed leading).2, fun kept => ⟨m, ⟨listed, ?_⟩, kept⟩⟩
    exact fun other listed' => apart name other m listed listed' kept ▸ String.le_refl name

end ToolsConfig.Leads

namespace Duty

/-- The tool that a coordinate is taken for is the first one of its module. -/
theorem toolFor?_eq_some_iff : toolFor? config key = some name ↔
    ∃ m, config.Leads name m ∧ key.group = m.group ∧ key.name = m.name := by
  have same {m m' : ArtifactModule} (groups : m.group = m'.group) (names : m.name = m'.name) :
      m = m' := by
    cases m
    cases m'
    simp_all
  unfold toolFor?
  rw [Option.map_eq_some_iff]
  constructor
  · rintro ⟨⟨name', m⟩, found, rfl⟩
    obtain ⟨listed, passes, first⟩ := Table.find?_toList_eq_some_iff.mp found
    simp only [Bool.and_eq_true, decide_eq_true_eq] at passes
    refine ⟨m, ⟨listed, fun other held => ?_⟩, passes.1.symm, passes.2.symm⟩
    exact String.not_lt.mp fun earlier =>
      first other m held (by simp [passes]) (compareOfLessAndEq_eq_lt.mpr earlier)
  · rintro ⟨m, leads, groups, names⟩
    refine ⟨(name, m), Table.find?_toList_eq_some_iff.mpr
      ⟨leads.listed, by simp [groups, names], fun other m' held passes earlier => ?_⟩, rfl⟩
    simp only [Bool.and_eq_true, decide_eq_true_eq] at passes
    obtain rfl : m' = m := same (passes.1.trans groups) (passes.2.trans names)
    exact String.not_le.mpr (VersionRequests.lt_of_compare earlier) (leads.first other held)

/-- What a scope needs for tools is what it carries of their modules. -/
theorem mem_toolNeeds_iff {scope : Scope} {need : Need} :
    need ∈ (tools config).needs scope ↔ ∃ a name, a ∈ scope.externalArtifacts ∧
      toolFor? config a.key = some name ∧ need = ⟨name, a.key.version, some a⟩ := by
  simp only [needs, List.mem_filterMap, Option.map_eq_some_iff, eq_comm (a := need)]
  constructor
  · rintro ⟨a, member, name, named, rfl⟩
    exact ⟨a, name, member, named, rfl⟩
  · rintro ⟨a, name, member, named, rfl⟩
    exact ⟨a, member, name, named, rfl⟩

/-- What is taken down for a tool was carried, and belongs to the module of the tool. -/
theorem carried_of_demands {version : String} {requested : Requested (Option Artifact)}
    (held : (versionsOf ((tools config).demands scopes) name)[version]? = some requested) :
    ∃ a m, requested.payload = some a ∧ config.Leads name m ∧ Carried (· ∈ scopes) m a ∧
      a.key.version = version := by
  obtain ⟨scope, shown, need, needed, rfl, rfl, payload⟩ := needed_of_demands held
  obtain ⟨a, name, member, named, rfl⟩ := mem_toolNeeds_iff.mp needed
  obtain ⟨m, leads, groups, names⟩ := toolFor?_eq_some_iff.mp named
  exact ⟨a, m, payload.symm, leads, ⟨scope, shown, member, groups, names⟩, rfl⟩

/-- Whatever is carried of the module of a tool is taken down for it. -/
theorem demands_of_carried (leads : config.Leads name m) (carried : Carried (· ∈ scopes) m a) :
    ∃ requested, (versionsOf ((tools config).demands scopes) name)[a.key.version]? =
      some requested := by
  obtain ⟨scope, shown, member, groups, names⟩ := carried
  have named : toolFor? config a.key = some name :=
    toolFor?_eq_some_iff.mpr ⟨m, leads, groups, names⟩
  exact demands_of_needed shown (mem_toolNeeds_iff.mpr ⟨a, name, member, named, rfl⟩)

/-- The versions that are known of a tool are those at which its module is carried. -/
theorem mem_toolVersions_iff {versions : Table String (Requested (Option Artifact))} {v : String}
    (leads : config.Leads name m)
    (known : ((tools config).demands scopes)[name]? = some versions) :
    v ∈ versionRequests versions ↔ ∃ a, Carried (· ∈ scopes) m a ∧ a.key.version = v := by
  rw [Std.ExtTreeMap.mem_iff_isSome_getElem?, getElem?_versionRequests, Option.isSome_map,
    ← versionsOf_eq known, Option.isSome_iff_exists]
  constructor
  · rintro ⟨requested, held⟩
    obtain ⟨a, m', -, leads', carried, version⟩ := carried_of_demands held
    obtain rfl : m = m' := Option.some.inj (leads.listed.symm.trans leads'.listed)
    exact ⟨a, carried, version⟩
  · rintro ⟨a, carried, rfl⟩
    exact demands_of_carried leads carried

/-- What is selected for tools: an artifact of the module of the tool, at the version that the policy
selects. -/
theorem selected_tool {selected : List (Selected (Option Artifact))} {diagnostics : List Diagnostic}
    (selects : ((tools config).demands scopes).select config.conflictPolicy =
      .ok (selected, diagnostics)) {s : Selected (Option Artifact)} (member : s ∈ selected) :
    ∃ a m, s.payload = some a ∧ a.key.version = s.version ∧ config.Leads s.logicalId m ∧
      Carried (· ∈ scopes) m a ∧ ∃ (requests : VersionRequests) (selection : Selection),
        (∀ v, v ∈ requests ↔ ∃ a, Carried (· ∈ scopes) m a ∧ a.key.version = v) ∧
        requests.select s.logicalId config.conflictPolicy = .ok selection ∧
        s.version = selection.version := by
  obtain ⟨id, versions, selection, winner, known, select, won, rfl⟩ := (mem_select_iff selects).mp member
  obtain ⟨a, m, payload, leads, carried, version⟩ :=
    carried_of_demands ((versionsOf_eq known).symm ▸ won)
  exact ⟨a, m, payload, version, leads, carried, versionRequests versions, selection,
    fun v => mem_toolVersions_iff leads known, select, rfl⟩

/-- Something is selected for every tool whose module is carried. -/
theorem exists_selected_tool {selected : List (Selected (Option Artifact))}
    {diagnostics : List Diagnostic} (selects : ((tools config).demands scopes).select
      config.conflictPolicy = .ok (selected, diagnostics)) (leads : config.Leads name m)
    (carried : Carried (· ∈ scopes) m a) : ∃ s ∈ selected, s.logicalId = name := by
  obtain ⟨requested, held⟩ := demands_of_carried leads carried
  obtain ⟨versions, known, -⟩ := known_of_version held
  obtain ⟨selection, winner, -, -, member⟩ := exists_selected selects known
  exact ⟨_, member, rfl⟩

/-- If everything that is selected has an artifact, the artifacts are those of the selections, in
order. -/
theorem payloads_chosen {selected : List (Selected (Option Artifact))}
    (all : ∀ s ∈ selected, ∃ a, s.payload = some a) :
    (chosen selected).map some = selected.map Selected.payload := by
  induction selected with
  | nil => rfl
  | cons s rest ih =>
    obtain ⟨⟨a, held⟩, later⟩ := List.forall_mem_cons.mp all
    unfold chosen at ih ⊢
    rw [List.filterMap_cons, held, List.map_cons, List.map_cons, ih later, held]

end Duty

/-- What is served for tools: each selection with its entry, in order. -/
theorem Served.tools (served : Served (.tools config) scopes r t plan entries cache middle) :
    ∃ (selected : List (Selected (Option Artifact))) (diagnostics : List Diagnostic),
      ((Duty.tools config).demands scopes).select config.conflictPolicy = .ok (selected, diagnostics) ∧
      plan.tools = selected.map (fun s => (s.logicalId, s.version)) ∧
      List.Forall₂ (fun s e => s.payload = some e.artifact) selected entries ∧
      ∀ f ∈ plan.fetches, f.2 = true := by
  obtain ⟨⟨selected, diagnostics⟩, selects, done⟩ := ok_of_bind served.planned
  cases done
  have all : ∀ s ∈ selected, ∃ a, s.payload = some a := fun s member =>
    (Duty.selected_tool selects member).imp fun a found => found.choose_spec.1
  have aligned : selected.map Selected.payload = entries.map fun e => some e.artifact := by
    have artifacts : entries.map CacheEntry.artifact = Duty.chosen selected := by
      rw [served.artifacts_eq]
      simp [Plan.ofFetches, Function.comp_def]
    rw [← Duty.payloads_chosen all, ← artifacts, List.map_map]
    rfl
  have paired : List.Forall₂ (· = ·) (selected.map Selected.payload)
      (entries.map fun e => some e.artifact) := aligned ▸ List.forall₂_refl _
  rw [List.forall₂_map_left_iff, List.forall₂_map_right_iff] at paired
  refine ⟨selected, diagnostics, selects, rfl, paired, fun f asked => ?_⟩
  obtain ⟨a, -, rfl⟩ := List.mem_map.mp asked
  rfl

namespace Emission

variable {selected : List (Selected (Option Artifact))} {jar : ToolJar}

private theorem tools_eq (c : Cache) (plan : Plan) (entries : List CacheEntry) :
    tools c plan entries = (plan.tools.zip entries).foldl
      (fun table x => table.insert x.1.1 ⟨x.1.2, x.2.path, c.label x.2⟩) ∅ := rfl

/-- A tool that is answered is one of the selections, with the entry for it. -/
theorem exists_of_tools (c : Cache)
    (planned : plan.tools = selected.map fun s => (s.logicalId, s.version))
    (answered : (tools c plan entries)[name]? = some jar) :
    ∃ s e, (s, e) ∈ selected.zip entries ∧ s.logicalId = name ∧
      jar = ⟨s.version, e.path, c.label e⟩ := by
  rw [tools_eq] at answered
  obtain ⟨x, member, named, made⟩ := Table.exists_of_foldl_insert answered
  rw [planned, List.zip_map_left] at member
  obtain ⟨⟨s, e⟩, paired, rfl⟩ := List.mem_map.mp member
  exact ⟨s, e, paired, named, made.symm⟩

private theorem isSome_tools (c : Cache)
    (planned : plan.tools = selected.map fun s => (s.logicalId, s.version))
    (lengths : selected.length = entries.length) {s : Selected (Option Artifact)}
    (member : s ∈ selected) : ((tools c plan entries)[s.logicalId]?).isSome = true := by
  obtain ⟨⟨s, e⟩, paired, rfl⟩ : ∃ x ∈ selected.zip entries, x.1 = s := by
    rw [← List.map_fst_zip (Nat.le_of_eq lengths)] at member
    exact List.mem_map.mp member
  have inside : ((s.logicalId, s.version), e) ∈ plan.tools.zip entries := by
    rw [planned, List.zip_map_left]
    exact List.mem_map.mpr ⟨(s, e), paired, rfl⟩
  obtain ⟨x, -, -, held⟩ := Table.foldl_insert_of_mem (fun x => x.1.1)
    (fun x => (⟨x.1.2, x.2.path, c.label x.2⟩ : ToolJar)) inside (∅ : Table String ToolJar)
  rw [tools_eq, held]
  rfl

end Emission

namespace Collector

variable {c c' : Collector} {cacheRoot : Path} {report : CollectorReport} {jar : ToolJar}

/-- **A tool has a jar exactly if it is the first of a module that is carried.**  Whatever tools are
configured and whatever scopes the collector of tools is shown: if it ends well, every tool that it
answers follows the classpaths, and it answers the tools that are first, by name, of a module which
some scope carries.  Hence all tools with carried modules are answered exactly if no two of them are
looked up as one module. -/
theorem tools_follow_classpaths (digests : ∀ scope ∈ scopes, scope.Digested)
    (shown : scopes.foldlM register (new (.tools config) cacheRoot r) = .ok c)
    (ran : finalize (c, t) = .ok report (c', t')) :
    (∀ name jar, c'.tool? name = some jar → ∃ m, config.Leads name m ∧
      jar.Follows config.conflictPolicy name (Carried (· ∈ scopes) m) (cacheRoot / "tool")
        (Cache.labelDir (cacheRoot / "tool") r.workspace) report.entries t t') ∧
    (∀ name, (c'.tool? name).isSome = true ↔
      ∃ m, config.Leads name m ∧ ∃ a, Carried (· ∈ scopes) m a) ∧
    ((∀ (name : String) m, config.jars[name]? = some m →
        ((c'.tool? name).isSome = true ↔ ∃ a, Carried (· ∈ scopes) m a)) ↔
      ∀ (name other : String) m, config.jars[name]? = some m → config.jars[other]? = some m →
        (∃ a, Carried (· ∈ scopes) m a) → name = other) := by
  rcases served_of_finalize digests shown ran with
    ⟨idle, -⟩ | ⟨plan, cache, middle, served, root, answers, writes⟩
  · cases idle
  obtain ⟨selected, diagnostics, selects, planned, paired, forced⟩ := served.tools
  obtain ⟨lengths, aligned⟩ := List.forall₂_iff_zip.mp paired
  have stored := served.materialized fun f member => Or.inr (forced f member)
  have tool (name : String) : c'.tool? name = (Emission.tools cache plan report.entries)[name]? := by
    rw [tool?, answers]
    rfl
  have answered : ∀ name, (c'.tool? name).isSome = true ↔
      ∃ m, config.Leads name m ∧ ∃ a, Carried (· ∈ scopes) m a := by
    intro name
    constructor
    · intro some_
      obtain ⟨jar, held⟩ := Option.isSome_iff_exists.mp some_
      rw [tool] at held
      obtain ⟨s, e, member, rfl, -⟩ := Emission.exists_of_tools cache planned held
      obtain ⟨a, m, -, -, leads, carried, -⟩ := Duty.selected_tool selects (List.of_mem_zip member).1
      exact ⟨m, leads, a, carried⟩
    · rintro ⟨m, leads, a, carried⟩
      obtain ⟨s, member, rfl⟩ := Duty.exists_selected_tool selects leads carried
      rw [tool]
      exact Emission.isSome_tools cache planned lengths member
  refine ⟨fun name jar held => ?_, answered, ?_⟩
  · rw [tool] at held
    obtain ⟨s, e, member, rfl, rfl⟩ := Emission.exists_of_tools cache planned held
    obtain ⟨inside, inside'⟩ := List.of_mem_zip member
    obtain ⟨a, m, payload, version, leads, carried, selection⟩ := Duty.selected_tool selects inside
    obtain rfl : a = e.artifact := Option.some.inj (payload.symm.trans (aligned member))
    refine ⟨m, leads, selection, e, inside', carried, version, ?_, ?_, ?_⟩
    · rw [served.path inside' (stored e inside'), root]
      rfl
    · exact root ▸ served.copiedTo (root ▸ writes) inside' (stored e inside')
    · rw [cache.label_of_materialized (stored e inside'), root, served.resolver]
      rfl
  · simp only [answered]
    exact ToolsConfig.Leads.all_iff

/-- The module of the jar. -/
def twinModule : ArtifactModule :=
  Cache.jarArtifact.key.module

/-- Two tools that are looked up as one module. -/
def twinTools : ToolsConfig :=
  ⟨.highest, ((∅ : Table String ArtifactModule).insert "alpha" twinModule).insert "beta" twinModule⟩

/-- A scope with the jar on its classpath. -/
def twinScope : Scope :=
  { Scope.empty ⟨⟨":app"⟩, .main⟩ ⟨"app"⟩ with compile := [.external Cache.jarArtifact] }

/-- What becomes of the scope. -/
def twinRun : EStateM.Result BuildError (Collector × Tree) CollectorReport :=
  finalize ((new (.tools twinTools) ⟨"/cache"⟩ ⟨∅, [], .content, ⟨"/"⟩⟩).shown [twinScope],
    Cache.jarTree)

theorem second_twin_lacks_a_jar : ∃ report c' t' jar, twinRun = .ok report (c', t') ∧
    c'.tool? "alpha" = some jar ∧
    jar.Follows .highest "alpha" (Carried (· ∈ [twinScope]) twinModule)
      ((⟨"/cache"⟩ : Path) / "tool") "//cache/tool" report.entries Cache.jarTree t' ∧
    c'.tool? "beta" = none ∧ twinTools.jars["beta"]? = some twinModule ∧
    ∃ a, Carried (· ∈ [twinScope]) twinModule a := by
  have ended : (outcome twinRun).isOk = true ∧
      ((left twinRun).1.tool? "alpha").isSome = true := by decide +kernel
  obtain ⟨finished, served⟩ := ended
  obtain ⟨report, ran⟩ := eq_ok_of_isOk finished
  have digests : ∀ scope ∈ [twinScope], scope.Digested := by
    intro scope member a inside
    obtain rfl := List.mem_singleton.mp member
    obtain rfl : a = Cache.jarArtifact := by
      simpa [Scope.artifacts, Scope.externalArtifacts, twinScope, Scope.empty, Edge.artifact?,
        eq_comm] using inside
    exact ContentHash.isDigest_sha256 .empty
  have shown : [twinScope].foldlM register
      (new (.tools twinTools) ⟨"/cache"⟩ ⟨∅, [], .content, ⟨"/"⟩⟩) = _ := register_foldlM rfl _
  obtain ⟨follows, answered, -⟩ := tools_follow_classpaths digests shown ran
  have carried : ∃ a, Carried (· ∈ [twinScope]) twinModule a :=
    ⟨Cache.jarArtifact, twinScope, List.mem_cons_self, List.mem_cons_self, rfl, rfl⟩
  have alpha : twinTools.jars["alpha"]? = some twinModule := by decide
  have beta : twinTools.jars["beta"]? = some twinModule := by decide
  have label : Cache.labelDir ((⟨"/cache"⟩ : Path) / "tool") ⟨"/"⟩ = "//cache/tool" := by
    decide
  obtain ⟨jar, held⟩ := Option.isSome_iff_exists.mp served
  obtain ⟨m, leads, jarFollows⟩ := follows "alpha" jar held
  obtain rfl : m = twinModule := Option.some.inj (leads.listed.symm.trans alpha)
  refine ⟨report, _, _, jar, ran, held, label ▸ jarFollows, ?_, beta, carried⟩
  rw [← Option.isNone_iff_eq_none, ← Option.not_isSome, Bool.not_eq_true', ← Bool.not_eq_true,
    answered]
  rintro ⟨m, leads, -⟩
  obtain rfl : m = twinModule := Option.some.inj (leads.listed.symm.trans beta)
  exact absurd (leads.first "alpha" alpha) (by decide)

end Collector

end

end RuleDepot
