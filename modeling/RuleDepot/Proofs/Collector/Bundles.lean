import RuleDepot.Proofs.Collector.RuleLists
/-!
What a bundle gives access to.  Lint and the runtimes of languages are configured as modules, and what
the modules come to at the chosen version is put behind one rule.  That rule refers to rules for files
in the cache, one for each coordinate of a module that was put there.  The project's own files are
used where they are and have no rule, so a module that is bound to one of them is not behind the
bundle: the bundle is whole exactly if no module is.
-/

namespace RuleDepot

open Running

namespace Rule

/-- The targets that a rule passes on to whoever depends on it. -/
def exports (rule : Rule) : List String :=
  match rule.attrs["exported_deps"]? with
  | some (.list items) => items
  | _ => []

/-- A target is the rule of a list that stands for a file with a coordinate. -/
def Supplies (rules : List Rule) (key : ArtifactKey) (target : String) : Prop :=
  ∃ rule ∈ rules, rule.isPrebuilt = true ∧ rule.coordinates? = some (.text key.text) ∧
    target = rule.localTarget

/-- A bundle that gives access to some coordinates: each has one target, each target is a rule of the
same list, and none is there for anything else. -/
structure Bundles (rules : List Rule) (bundle : Rule) (wanted : ArtifactKey → Prop) : Prop where
  member : bundle ∈ rules
  distinct : bundle.exports.Nodup
  sound : ∀ target ∈ bundle.exports, ∃ key, wanted key ∧
    ∀ key', Supplies rules key' target ↔ key' = key
  complete : ∀ key, wanted key → ∃ target ∈ bundle.exports,
    ∀ target' ∈ bundle.exports, Supplies rules key target' ↔ target' = target

private theorem localTarget_inj {rule rule' : Rule} :
    rule.localTarget = rule'.localTarget ↔ rule.name = rule'.name := by
  constructor
  · intro same
    have texts := congrArg String.toList same
    simp only [localTarget, toString, String.toList_append] at texts
    exact String.toList_inj.mp (List.append_cancel_left texts)
  · intro same
    simp only [localTarget, same]

private theorem nodup_localTargets (entries : List CacheEntry) :
    ((prebuilts entries).map localTarget).Nodup := by
  refine List.pairwise_map.mpr ((List.pairwise_map.mp (nodup_prebuilts entries)).imp ?_)
  intro rule rule' differ same
  exact differ (localTarget_inj.mp same)

variable {entries : List CacheEntry} {rules : List Rule} {bundle : Rule} {e : CacheEntry}
  {key : ArtifactKey}

/-- The rule for a file of the cache supplies the coordinate of the file and no other. -/
theorem supplies_prebuilt_iff (tidy : CacheEntry.Tidy entries) (apart : CacheEntry.Apart entries)
    (wellFormed : WellFormed entries rules) (member : e ∈ entries) (stored : e.materialized = true)
    (made : prebuilt e ∈ rules) : Supplies rules key (prebuilt e).localTarget ↔ key = e.key := by
  constructor
  · rintro ⟨rule, inside, stands, coordinates, same⟩
    obtain ⟨e', member', stored', rfl⟩ := wellFormed.only rule inside stands
    have names : e.ruleName = e'.ruleName := by
      simpa only [prebuilt_name] using localTarget_inj.mp same
    obtain rfl := tidy.ruleName_inj apart member member' stored stored' names
    rw [prebuilt_coordinates, Option.some.injEq, AttrValue.text.injEq] at coordinates
    exact (ArtifactKey.eq_of_text coordinates).symm
  · rintro rfl
    exact ⟨prebuilt e, made, prebuilt_isPrebuilt e, prebuilt_coordinates e, rfl⟩

/-- A rule that refers to all rules for files gives access to the coordinates in the cache. -/
theorem bundles_cached (tidy : CacheEntry.Tidy entries) (apart : CacheEntry.Apart entries)
    (wellFormed : WellFormed entries rules) (inside : bundle ∈ rules)
    (made : ∀ rule ∈ prebuilts entries, rule ∈ rules)
    (exported : bundle.exports = (prebuilts entries).map localTarget) :
    Bundles rules bundle fun key => ∃ e ∈ entries, e.materialized = true ∧ e.key = key := by
  constructor
  · exact inside
  · exact exported ▸ nodup_localTargets entries
  · intro target listed
    rw [exported] at listed
    obtain ⟨rule, prebuilt_, rfl⟩ := List.mem_map.mp listed
    obtain ⟨e, member, stored, rfl⟩ := exists_of_mem_prebuilts prebuilt_
    refine ⟨e.key, ⟨e, member, stored, rfl⟩, fun key => ?_⟩
    exact supplies_prebuilt_iff tidy apart wellFormed member stored (made _ prebuilt_)
  · rintro key ⟨e, member, stored, rfl⟩
    have own := mem_prebuilts tidy apart member stored
    refine ⟨(prebuilt e).localTarget, exported ▸ List.mem_map_of_mem own, fun target listed => ?_⟩
    rw [exported] at listed
    obtain ⟨rule, prebuilt_, rfl⟩ := List.mem_map.mp listed
    obtain ⟨e', member', stored', rfl⟩ := exists_of_mem_prebuilts prebuilt_
    rw [supplies_prebuilt_iff tidy apart wellFormed member' stored' (made _ prebuilt_)]
    constructor
    · intro keys
      rw [tidy.single e member e' member' keys]
    · intro same
      rw [localTarget_inj, prebuilt_name, prebuilt_name] at same
      rw [tidy.ruleName_inj apart member' member stored' stored same]

/-- A bundle gives access to one set of coordinates. -/
theorem Bundles.wanted_iff {wanted wanted' : ArtifactKey → Prop}
    (bundles : Bundles rules bundle wanted) (bundles' : Bundles rules bundle wanted')
    (key : ArtifactKey) : wanted key ↔ wanted' key := by
  have through {wanted wanted' : ArtifactKey → Prop} (bundles : Bundles rules bundle wanted)
      (bundles' : Bundles rules bundle wanted') (want : wanted key) : wanted' key := by
    obtain ⟨target, listed, only⟩ := bundles.complete key want
    obtain ⟨key', want', supplied⟩ := bundles'.sound target listed
    obtain rfl : key = key' := (supplied key).mp ((only target listed).mpr rfl)
    exact want'
  exact ⟨through bundles bundles', through bundles' bundles⟩

end Rule

namespace Resolver

/-- A coordinate that is bound to a file outside the workspace. -/
def BindsOutside (r : Resolver) (t : Tree) (key : ArtifactKey) : Prop :=
  ∃ a, r.Binds t a ∧ a.key = key ∧ a.origin = .external

end Resolver

namespace Duty

variable {duty : Duty} {r : Resolver} {t : Tree} {demands : Demands} {plan : Plan}
  {modules : List ArtifactModule} {version : String} {keys : List ArtifactKey}

/-- The modules that a duty puts behind one rule at one version, with the name of that rule. -/
def toolchain? : Duty → Option (String × List ArtifactModule)
  | lint config => some (lintId, config.artifacts)
  | runtime language config => some (s!"{language.text}-runtime", config.artifacts)
  | _ => none

/-- A plan to fetch modules at one version, none of which is copied without need. -/
structure PlansModules (modules : List ArtifactModule) (version : String) (r : Resolver) (t : Tree)
    (keys : List ArtifactKey) (found : List Artifact) (plan : Plan) : Prop where
  named : modulesAt modules version = .ok keys
  keys : found.map Artifact.key = keys
  bound : ∀ a ∈ found, r.Binds t a
  fetches : plan.fetches = found.map (·, false)
  version : plan.version = some version

private theorem plansModules_of_planToolchain {name : String} {diagnostics : List Diagnostic}
    (ran : planToolchain name modules version t r diagnostics = .ok plan) :
    ∃ keys found, PlansModules modules version r t keys found plan := by
  obtain ⟨keys, named, ran⟩ := ok_of_bind ran
  obtain ⟨found, resolved, done⟩ := ok_of_bind ran
  cases done
  obtain ⟨same, bound⟩ := Resolver.resolveAll_ok resolved
  exact ⟨keys, found, named, same, bound, rfl, rfl⟩

/-- A toolchain that is fetched at a version is fetched as its modules at that version. -/
theorem plansModules {title : String} (toolchain : duty.toolchain? = some (title, modules))
    (planned : duty.plan t r demands = .ok plan) (versioned : plan.version = some version) :
    ∃ keys found, PlansModules modules version r t keys found plan := by
  cases duty with
  | lint config =>
    cases toolchain
    obtain ⟨⟨chosen, diagnostics⟩, -, ran⟩ := ok_of_bind planned
    obtain ⟨keys, found, plans⟩ := plansModules_of_planToolchain ran
    obtain rfl : version = chosen := Option.some.inj (versioned.symm.trans plans.version)
    exact ⟨keys, found, plans⟩
  | runtime language config =>
    cases toolchain
    obtain ⟨⟨chosen, diagnostics⟩, -, ran⟩ := ok_of_bind planned
    cases chosen with
    | none =>
      cases ran
      cases versioned
    | some chosen =>
      obtain ⟨keys, found, plans⟩ := plansModules_of_planToolchain ran
      obtain rfl : version = chosen := Option.some.inj (versioned.symm.trans plans.version)
      exact ⟨keys, found, plans⟩
  | _ => cases toolchain

end Duty

namespace Served

variable {duty : Duty} {scopes : List Scope} {r : Resolver} {t t' : Tree} {plan : Plan}
  {entries : List CacheEntry} {cache : Cache} {modules : List ArtifactModule} {version : String}
  {keys : List ArtifactKey} {found : List Artifact}

/-- Of modules, those are in the cache that are bound to files outside the workspace. -/
theorem cached_iff (served : Served duty scopes r t plan entries cache t')
    (plans : Duty.PlansModules modules version r t keys found plan) (key : ArtifactKey) :
    (∃ e ∈ entries, e.materialized = true ∧ e.key = key) ↔ key ∈ keys ∧ r.BindsOutside t key := by
  constructor
  · rintro ⟨e, member, stored, rfl⟩
    obtain ⟨⟨a, forced⟩, asked, answered⟩ := (Cache.mem_answers_iff served.answered).mp member
    rw [plans.fetches] at asked
    obtain ⟨a, listed, same⟩ := List.mem_map.mp asked
    cases same
    obtain ⟨own, -, ⟨-, rfl⟩ | ⟨needed, -⟩⟩ := served.supplied.answer_spec answered
    · cases stored
    · have outside : a.origin = .external := needed.resolve_right nofun
      rw [own]
      exact ⟨plans.keys ▸ List.mem_map_of_mem listed, a, plans.bound a listed, rfl, outside⟩
  · rintro ⟨wanted, a, binds, rfl, outside⟩
    rw [← plans.keys] at wanted
    obtain ⟨a', listed, same⟩ := List.mem_map.mp wanted
    obtain rfl := (plans.bound a' listed).eq binds same
    have asked : (a', false) ∈ plan.fetches := plans.fetches ▸ List.mem_map_of_mem listed
    have keyed : a'.key ∈ entries.map CacheEntry.key := by
      rw [served.keys]
      exact List.mem_map.mpr ⟨_, asked, rfl⟩
    obtain ⟨e, member, own⟩ := List.mem_map.mp keyed
    obtain ⟨f, asked', answered⟩ := (Cache.mem_answers_iff served.answered).mp member
    obtain ⟨own', -, kind⟩ := served.supplied.answer_spec answered
    obtain rfl : f = (a', false) :=
      (Duty.plan_sound served.planned).single f asked' _ asked (own'.symm.trans own)
    rcases kind with ⟨spared, -⟩ | ⟨-, kept⟩
    · exact absurd (Or.inl outside) spared
    · exact ⟨e, member, kept.materialized, own⟩

end Served

namespace Collector

variable {duty : Duty} {scopes : List Scope} {r : Resolver} {t t' : Tree} {c c' : Collector}
  {cacheRoot : Path} {report : CollectorReport} {title version : String}
  {modules : List ArtifactModule}

/-- The rules for a toolchain that is fetched at a version: those for files, and one that refers to
all of them. -/
theorem exists_bundle {cache : Cache} {plan : Plan} {entries : List CacheEntry}
    (toolchain : duty.toolchain? = some (title, modules))
    (versioned : (Emission.of duty cache t plan entries).answers.version = some version) :
    plan.version = some version ∧ ∃ bundle, bundle.name = title ∧
      bundle.exports = (Rule.prebuilts entries).map Rule.localTarget ∧
      (Emission.of duty cache t plan entries).rules = Rule.prebuilts entries ++ [bundle] := by
  cases duty with
  | lint config =>
    cases toolchain
    refine ⟨versioned, (Rule.bundle Duty.lintId entries).withText "jvm_args" config.jvmArgs, rfl, ?_, rfl⟩
    have other : "jvm_args" ≠ "exported_deps" := by decide
    simp only [Rule.exports, Rule.bundle, Rule.of, Rule.withText, Rule.withList, Rule.withAttr,
      Table.getElem?_insert, if_neg other, if_true]
  | runtime language config =>
    cases toolchain
    cases chosen : plan.version with
    | none =>
      rw [Emission.of, chosen] at versioned
      cases versioned
    | some version' =>
      rw [Emission.of, chosen] at versioned ⊢
      refine ⟨versioned, Rule.bundle (s!"{language.text}-runtime") entries, rfl, ?_, rfl⟩
      simp only [Rule.exports, Rule.bundle, Rule.of, Rule.withList, Rule.withAttr,
        Table.getElem?_insert, if_true]
  | _ => cases toolchain

/-- **A bundle gives access to what was put into the cache.**  If a toolchain is fetched at a version
and no two of its coordinates collide, its rule file holds a rule with the name of the toolchain that
gives access to exactly those modules at that version that are bound to files outside the workspace,
by one target for each.  So it gives access to the whole toolchain if and only if all modules are. -/
theorem bundle_holds_modules_from_outside
    (toolchain : duty.toolchain? = some (title, modules))
    (shown : scopes.foldlM register (new duty cacheRoot r) = .ok c)
    (ran : finalize (c, t) = .ok report (c', t')) (chosen : c'.answers.version = some version)
    (apart : CacheEntry.Apart report.entries) :
    ∃ rules bundle keys, report.Emits (cacheRoot / duty.shelf.dirName) t' rules ∧
      bundle.name = title ∧ Duty.modulesAt modules version = .ok keys ∧
      Rule.Bundles rules bundle (fun key => key ∈ keys ∧ r.BindsOutside t key) ∧
      (Rule.Bundles rules bundle (· ∈ keys) ↔ ∀ key ∈ keys, r.BindsOutside t key) := by
  obtain rfl : (new duty cacheRoot r).shown scopes = c :=
    Except.ok.inj ((register_foldlM rfl scopes).symm.trans shown)
  have pending : ((new duty cacheRoot r).shown scopes).ledger.pending = some (duty.demands scopes) :=
    rfl
  cases finalized_of_ok pending ran with
  | idle idle writes => cases chosen
  | @served plan entries cache middle _ file planned fetched writes =>
    obtain ⟨versioned, bundle, named, exported, rules⟩ := exists_bundle toolchain chosen
    obtain ⟨keys, found, plans⟩ := Duty.plansModules toolchain planned versioned
    have digests : ∀ f ∈ plan.fetches, f.1.hash.IsDigest := by
      rw [plans.fetches]
      rintro f member
      obtain ⟨a, listed, rfl⟩ := List.mem_map.mp member
      exact (plans.bound a listed).isDigest
    obtain ⟨served, root⟩ := Served.of_fetchAll digests planned fetched
    rw [Cache.ruleFilePath, root] at writes
    have bundles := Rule.bundles_cached served.tidy apart (served.wellFormed apart)
      (rules ▸ List.mem_append_right _ List.mem_cons_self)
      (fun rule made => rules ▸ List.mem_append_left _ made) exported
    simp only [served.cached_iff plans] at bundles
    refine ⟨_, bundle, keys, writes.emits (Emission.named_rules _ _ _ _ _), named, plans.named, bundles, ?_, ?_⟩
    · intro whole key listed
      exact ((whole.wanted_iff bundles key).mp listed).2
    · intro outside
      have same : (fun key => key ∈ keys ∧ r.BindsOutside t key) = (· ∈ keys) := by
        funext key
        exact propext ⟨And.left, fun listed => ⟨listed, outside key listed⟩⟩
      exact same ▸ bundles

/-- The coordinate of a jar of the project. -/
def ownKey : ArtifactKey :=
  { Naming.dashedVersion.key with name := "c", name_ok := by decide }

/-- Lint made of two modules. -/
def pairedLint : LintConfig :=
  { LintConfig.default with
    version := some "1-0"
    artifacts := [Naming.dashedVersion.key.module, ownKey.module] }

/-- The first module is bound to a jar outside the workspace and the second to one of the project. -/
def pairedResolver : Resolver :=
  ⟨((∅ : Table ArtifactKey Path).insert Naming.dashedVersion.key ⟨"/x.jar"⟩).insert ownKey ⟨"y.jar"⟩,
    [], .coordinate, ⟨"/workspace"⟩⟩

/-- Both jars. -/
def pairedTree : Tree :=
  (Cache.jarTree.insert ["workspace"] .directory).insert ["workspace", "y.jar"] (.file .empty)

/-- A scope that asks for lint. -/
def lintScope : Scope :=
  { Scope.empty ⟨⟨":app"⟩, .main⟩ ⟨"app"⟩ with lint := some ⟨none⟩ }

/-- What becomes of it. -/
def pairedRun : EStateM.Result BuildError (Collector × Tree) CollectorReport :=
  finalize ((new (.lint pairedLint) ⟨"/cache"⟩ pairedResolver).shown [lintScope], pairedTree)

theorem lint_bundle_lacks_own_module :
    ∃ report c' t' rules bundle, pairedRun = .ok report (c', t') ∧
      c'.answers.version = some "1-0" ∧
      report.Emits ((⟨"/cache"⟩ : Path) / "lint") t' rules ∧ bundle.name = "lint" ∧
      Duty.modulesAt pairedLint.artifacts "1-0" = .ok [Naming.dashedVersion.key, ownKey] ∧
      ¬ Rule.Bundles rules bundle (· ∈ [Naming.dashedVersion.key, ownKey]) := by
  have plain : (outcome pairedRun).map (fun report => report.entries.map fun e => Naming.isPlain e.key) =
      .ok [true, true] := by decide +kernel
  obtain ⟨report, c', t', ran, plain⟩ := exists_of_outcome plain
  have chosen : (left pairedRun).1.answers.version = some "1-0" := by decide +kernel
  rw [ran] at chosen
  have apart : CacheEntry.Apart report.entries := by
    intro e member e' _ _ collide
    have own : Naming.isPlain e.key ∈ [true, true] := plain ▸ List.mem_map_of_mem member
    rw [collide.1] at own
    simp at own
  have shown : [lintScope].foldlM register (new (.lint pairedLint) ⟨"/cache"⟩ pairedResolver) = _ :=
    register_foldlM rfl _
  have toolchain : (Duty.lint pairedLint).toolchain? = some (Duty.lintId, pairedLint.artifacts) := rfl
  obtain ⟨rules, bundle, keys, emits, named, modules, -, whole⟩ :=
    bundle_holds_modules_from_outside toolchain shown ran chosen apart
  have evaluated : Duty.modulesAt pairedLint.artifacts "1-0" =
      .ok [Naming.dashedVersion.key, ownKey] := by decide +kernel
  obtain rfl := Except.ok.inj (modules.symm.trans evaluated)
  refine ⟨report, c', t', rules, bundle, ran, chosen, emits, named, evaluated, fun bundles => ?_⟩
  obtain ⟨a, binds, own, outside⟩ := whole.mp bundles ownKey (by simp)
  have origin : (pairedResolver.resolve pairedTree ownKey none).map Artifact.origin = .ok .project := by
    decide +kernel
  rw [Resolver.Binds, own] at binds
  rw [binds] at origin
  cases outside.symm.trans (Except.ok.inj origin)

end Collector

end RuleDepot
