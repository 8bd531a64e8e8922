import RuleDepot.Proofs.Cache.Building
import RuleDepot.Proofs.Collector.Idling
import RuleDepot.Proofs.Generation.Toolchains
/-!
Lint from the wishes of scopes.  A scope that asks for lint names a version or leaves it open, and one
that names the blank version leaves it open too.  A pinned version is used whatever scopes name; without
one the policy chooses out of the versions that are named, and if none is, the end of the pass fails with
the names of all who asked.  If nobody asks there is nothing to do.
-/

namespace RuleDepot

open Running Requirements

/-- Everyone who asked for a version is someone who needs the dependency at that version. -/
theorem Duty.mem_requesters_iff {duty : Duty} {scopes : List Scope} {id version who : String} :
    who ∈ (versionRequests (versionsOf (duty.demands scopes) id)).requesters version ↔
      ∃ scope ∈ scopes, (∃ need ∈ duty.needs scope, need.logicalId = id ∧ need.version = version) ∧
        scope.requester = who := by
  rw [VersionRequests.requesters, getElem?_versionRequests]
  cases held : (versionsOf (duty.demands scopes) id)[version]? with
  | none =>
    simp only [Option.map_none, List.not_mem_nil, false_iff]
    rintro ⟨scope, shown, ⟨need, needed, rfl, rfl⟩, -⟩
    obtain ⟨requested, known⟩ := demands_of_needed shown needed
    rw [held] at known
    cases known
  | some requested =>
    simp only [Option.map_some, Std.ExtTreeSet.mem_toList]
    rw [(tells_of_held held).requesters]
    constructor
    · rintro ⟨q, inside, ids, versions, asker⟩
      obtain ⟨scope, shown, listed⟩ := List.mem_flatMap.mp inside
      obtain ⟨need, needed, rfl⟩ := List.mem_map.mp listed
      exact ⟨scope, shown, ⟨need, needed, ids, versions⟩, asker⟩
    · rintro ⟨scope, shown, ⟨need, needed, ids, versions⟩, asker⟩
      exact ⟨_, List.mem_flatMap.mpr ⟨scope, shown, List.mem_map_of_mem needed⟩, ids, versions, asker⟩

/-- A toolchain whose modules have coordinates is planned as the set of these. -/
theorem Duty.planToolchain_of_named {name version : String} {modules : List ArtifactModule}
    {keys : List ArtifactKey} (named : modulesAt modules version = .ok keys) (t : Tree) (r : Resolver)
    (diagnostics : List Diagnostic) : planToolchain name modules version t r diagnostics =
      (r.resolveSet t name keys).map fun found =>
        ⟨found.map (·, false), diagnostics, [], some version, []⟩ := by
  rw [planToolchain, named]
  change (r.resolveSet t name keys >>= _) = _
  cases r.resolveSet t name keys <;> rfl

namespace LintConfig

variable {config : LintConfig} {scope : Scope} {scopes : List Scope} {need : Need}
  {requests : VersionRequests} {version : String} {diagnostics : List Diagnostic} {e : BuildError}

/-- The version of lint that a scope asks for, which is blank if the scope leaves it open.  Nothing is
asked for if lint is disabled. -/
def asked? (config : LintConfig) (scope : Scope) : Option String :=
  if config.disabled then none
  else scope.lint.map fun request => request.version.getD Duty.unspecified

private theorem mem_needs_iff : need ∈ (Duty.lint config).needs scope ↔
    ∃ version, config.asked? scope = some version ∧ need = ⟨Duty.lintId, version, none⟩ := by
  cases asked : scope.lint with
  | none => simp [Duty.needs, asked?, asked]
  | some request => cases disabled : config.disabled <;> simp [Duty.needs, asked?, asked, disabled]

/-- The requests that scopes come to: every version that is asked for, with everyone who does. -/
structure Gathers (config : LintConfig) (scopes : List Scope) (requests : VersionRequests) : Prop where
  versions : ∀ version, version ∈ requests ↔ ∃ scope ∈ scopes, config.asked? scope = some version
  requesters : ∀ version who, who ∈ requests.requesters version ↔
    ∃ scope ∈ scopes, config.asked? scope = some version ∧ scope.requester = who

private theorem gathers (config : LintConfig) (scopes : List Scope) : config.Gathers scopes
    (versionRequests (versionsOf ((Duty.lint config).demands scopes) Duty.lintId)) where
  versions version := by
    rw [Duty.mem_versionRequests_iff]
    constructor
    · rintro ⟨scope, shown, need, needed, -, rfl⟩
      obtain ⟨version, asked, rfl⟩ := mem_needs_iff.mp needed
      exact ⟨scope, shown, asked⟩
    · rintro ⟨scope, shown, asked⟩
      exact ⟨scope, shown, _, mem_needs_iff.mpr ⟨version, asked, rfl⟩, rfl, rfl⟩
  requesters version who := by
    rw [Duty.mem_requesters_iff]
    constructor
    · rintro ⟨scope, shown, ⟨need, needed, -, rfl⟩, asker⟩
      obtain ⟨version, asked, rfl⟩ := mem_needs_iff.mp needed
      exact ⟨scope, shown, asked, asker⟩
    · rintro ⟨scope, shown, asked, asker⟩
      exact ⟨scope, shown, ⟨_, mem_needs_iff.mpr ⟨version, asked, rfl⟩, rfl, rfl⟩, asker⟩

/-- There is something to do about lint exactly if some scope asks for it. -/
theorem busy_iff : ((Duty.lint config).demands scopes).isEmpty = false ↔
    ∃ scope ∈ scopes, (config.asked? scope).isSome := by
  rw [Duty.demands_isEmpty_eq_false_iff]
  constructor
  · rintro ⟨scope, shown, need, needed⟩
    obtain ⟨version, asked, -⟩ := mem_needs_iff.mp needed
    exact ⟨scope, shown, Option.isSome_iff_exists.mpr ⟨version, asked⟩⟩
  · rintro ⟨scope, shown, asks⟩
    obtain ⟨version, asked⟩ := Option.isSome_iff_exists.mp asks
    exact ⟨scope, shown, _, mem_needs_iff.mpr ⟨version, asked, rfl⟩⟩

/-- What is reported of a version that loses to a pinned one. -/
def replaced (requests : VersionRequests) (pin version : String) : Diagnostic :=
  let askers := ", ".intercalate (requests.requesters version)
  ⟨.versionConflict, some Duty.lintId, s!"{version} requested by {askers} replaced by pinned {pin}"⟩

/-- What is reported when one version is chosen out of several. -/
def merged (selection : Selection) : Diagnostic :=
  let losers := ", ".intercalate selection.overridden
  ⟨.versionConflict, some Duty.lintId, s!"selected {selection.version} over {losers}"⟩

/-- The version that is used when some are named, and what is reported of the others: one diagnostic for
each that loses to the pinned one, or a single one if there are several to choose from. -/
inductive Chooses (config : LintConfig) (named : VersionRequests) : String → List Diagnostic → Prop
  | pinned {pin : String} (fixed : config.version = some pin) :
      Chooses config named pin ((named.keys.filter (· ≠ pin)).map (replaced named pin))
  | merged {selection : Selection} (free : config.version = none)
      (selects : named.select Duty.lintId config.conflictPolicy = .ok selection) :
      Chooses config named selection.version (if 1 < named.size then [merged selection] else [])

/-- The end of a pass for want of a version. -/
def unversioned (askers : List String) : BuildError :=
  let names := ", ".intercalate askers
  .config Config.fileName (s!"lint requested by {names} but no lint version is configured " ++
    "([lint] version)")

/-- What requests for lint come to, case by case. -/
theorem lintVersion_eq (config : LintConfig) (requests : VersionRequests) :
    Duty.lintVersion config requests = match config.version with
      | some pin => .ok (pin, (requests.named.keys.filter (· ≠ pin)).map (replaced requests.named pin))
      | none =>
        if requests.named.isEmpty then
          .error (unversioned (requests.keys.flatMap requests.requesters))
        else (requests.named.select Duty.lintId config.conflictPolicy).map fun selection =>
          (selection.version, if selection.overridden.isEmpty then [] else [merged selection]) := by
  unfold Duty.lintVersion
  cases config.version with
  | some pin => rfl
  | none =>
    change (if requests.named.isEmpty then _ else _) = _
    split
    · rfl
    · change (requests.named.select Duty.lintId config.conflictPolicy >>= _) = _
      cases requests.named.select Duty.lintId config.conflictPolicy <;> rfl

/-- Something is reported of a choice if there are several versions to choose from. -/
theorem reported_of_select {named : VersionRequests} {policy : ConflictPolicy} {selection : Selection}
    (selects : named.select Duty.lintId policy = .ok selection) :
    (if selection.overridden.isEmpty then [] else [merged selection]) =
      if 1 < named.size then [merged selection] else [] := by
  rw [← VersionRequests.length_overridden selects]
  cases selection.overridden <;> simp

/-- A version is found exactly if one is pinned or the policy chooses one. -/
theorem lintVersion_eq_ok_iff : Duty.lintVersion config requests = .ok (version, diagnostics) ↔
    config.Chooses requests.named version diagnostics := by
  rw [lintVersion_eq]
  constructor
  · intro found
    cases fixed : config.version with
    | some pin =>
      rw [fixed] at found
      cases found
      exact .pinned fixed
    | none =>
      rw [fixed] at found
      simp only at found
      split at found
      · cases found
      · obtain ⟨selection, selects, same⟩ := ok_of_map found
        rw [reported_of_select selects] at same
        cases same
        exact .merged fixed selects
  · intro chooses
    cases chooses with
    | pinned fixed => rw [fixed]
    | @merged selection free selects =>
      have filled : ¬ requests.named.isEmpty = true := fun empty => by
        have asked := VersionRequests.mem_of_select selects
        rw [Std.ExtTreeMap.isEmpty_iff.mp empty] at asked
        simp at asked
      rw [free]
      simp only
      rw [if_neg filled, selects, ← reported_of_select selects]
      rfl

/-- Without a pinned version and without a named one, the end of the pass fails with the names of all who
asked. -/
theorem lintVersion_unversioned (gathers : config.Gathers scopes requests)
    (free : config.version = none) (open_ : requests.named.isEmpty = true) :
    ∃ askers, askers.Pairwise (· < ·) ∧
      (∀ who, who ∈ askers ↔ ∃ scope ∈ scopes, (config.asked? scope).isSome ∧ scope.requester = who) ∧
      Duty.lintVersion config requests = .error (unversioned askers) := by
  have blank : ∀ version ∈ requests.keys, version = Duty.unspecified := by
    intro version listed
    by_contra specified
    have named := VersionRequests.mem_named_iff.mpr ⟨specified, Std.ExtTreeMap.mem_keys.mp listed⟩
    rw [Std.ExtTreeMap.isEmpty_iff.mp open_] at named
    simp at named
  refine ⟨requests.keys.flatMap requests.requesters, ?_, fun who => ?_, ?_⟩
  · rw [List.pairwise_flatMap]
    constructor
    · intro version _
      unfold VersionRequests.requesters
      split
      · exact Std.ExtTreeSet.ordered_toList.imp VersionRequests.lt_of_compare
      · exact .nil
    · -- There is only one version, the blank one, so nobody is listed twice.
      refine Std.ExtTreeMap.ordered_keys.imp_of_mem fun inside inside' before => ?_
      rw [blank _ inside, blank _ inside'] at before
      simp at before
  · simp only [List.mem_flatMap, Std.ExtTreeMap.mem_keys, gathers.versions, gathers.requesters]
    constructor
    · rintro ⟨version, -, scope, shown, asked, asker⟩
      exact ⟨scope, shown, Option.isSome_iff_exists.mpr ⟨version, asked⟩, asker⟩
    · rintro ⟨scope, shown, asks, asker⟩
      obtain ⟨version, asked⟩ := Option.isSome_iff_exists.mp asks
      exact ⟨version, ⟨scope, shown, asked⟩, scope, shown, asked, asker⟩
  · rw [lintVersion_eq, free]
    exact if_pos open_

/-- Without a pinned version, versions that the policy refuses to merge are refused. -/
theorem lintVersion_refused (free : config.version = none) (some_ : requests.named.isEmpty = false)
    (refused : requests.named.select Duty.lintId config.conflictPolicy = .error e) :
    Duty.lintVersion config requests = .error e := by
  rw [lintVersion_eq, free]
  simp only
  rw [if_neg (by simpa using some_), refused]
  rfl

end LintConfig

namespace Collector

variable {c : Collector} {config : LintConfig} {demands : Demands} {t : Tree} {name version : String}
  {modules : List ArtifactModule} {keys : List ArtifactKey} {diagnostics : List Diagnostic}
  {e : BuildError}

/-- The modules of a toolchain are fetched as a set that is built. -/
theorem fulfil_toolchain (planned : c.duty.plan t c.cache.resolver demands =
      Duty.planToolchain name modules version t c.cache.resolver diagnostics)
    (named : Duty.modulesAt modules version = .ok keys) :
    (∀ e s, Cache.build name keys (c.cache, t) = .error e s →
      fulfil demands (c, t) = .error e ({ c with cache := s.1 }, s.2)) ∧
    ∀ entries s, Cache.build name keys (c.cache, t) = .ok entries s →
      ∃ plan : Plan, plan.version = some version ∧ plan.diagnostics = diagnostics ∧
        fulfil demands (c, t) = .ok (plan, entries) ({ c with cache := s.1 }, s.2) := by
  rw [Duty.planToolchain_of_named named] at planned
  rw [Cache.build_run]
  cases resolved : c.cache.resolver.resolveSet t name keys with
  | error e =>
    rw [resolved] at planned
    refine ⟨fun e' s failed => ?_, fun entries s built => by cases built⟩
    cases failed
    exact fulfil_of_plan_error planned
  | ok found =>
    rw [resolved] at planned
    have fulfils := fulfil_of_plan planned
    constructor
    · intro e s (failed : Cache.fetchAll (found.map (·, false)) (c.cache, t) = .error e s)
      rw [fulfils]
      simp only [failed]
    · intro entries s (built : Cache.fetchAll (found.map (·, false)) (c.cache, t) = .ok entries s)
      refine ⟨⟨found.map (·, false), diagnostics, [], some version, []⟩, rfl, rfl, fulfils.trans ?_⟩
      simp only [built]

/-- Rules are written and reported, or it fails that they cannot be written. -/
theorem finish_filled {rules : List Rule} (filled : rules ≠ []) (entries : List CacheEntry)
    (diagnostics : List Diagnostic) (c : Collector) (t : Tree) :
    (∃ after, finish rules entries diagnostics (c, t) =
        .ok ⟨c.name, c.duty.shelf, some c.cache.ruleFilePath, entries, diagnostics⟩ after ∧
          after.1.answers = c.answers) ∨
      ∃ cause after, finish rules entries diagnostics (c, t) =
        .error (.io s!"writing rule file {c.cache.ruleFilePath.text}" cause) after := by
  rw [finish_run, writeRules_filled filled, ruleFilePath_sealed]
  cases FileM.publishBytes c.cache.ruleFilePath (printRules rules).toUTF8 t with
  | ok _ t' => exact Or.inl ⟨_, rfl, rfl⟩
  | error cause t' => exact Or.inr ⟨cause, _, rfl⟩

/-- There is always a rule for lint, so a rule file is written, and its version is answered. -/
theorem emit_lint (duty : c.duty = .lint config) (plan : Plan) (entries : List CacheEntry) (t : Tree) :
    (∃ after, emit plan entries (c, t) =
        .ok ⟨"lint", .lint, some c.cache.ruleFilePath, entries, plan.diagnostics⟩ after ∧
          after.1.answers.version = plan.version) ∨
      ∃ cause after, emit plan entries (c, t) =
        .error (.io s!"writing rule file {c.cache.ruleFilePath.text}" cause) after := by
  obtain ⟨rules, filled, emission⟩ : ∃ rules, rules ≠ [] ∧ Emission.of c.duty c.cache t plan entries =
      ⟨rules, [], { Answers.none with version := plan.version }⟩ := by
    rw [duty]
    exact ⟨_, by simp, rfl⟩
  rw [emit_run, emission, List.append_nil]
  rcases finish_filled filled entries plan.diagnostics
    { c with answers := { Answers.none with version := plan.version } } t with
    ⟨after, ran, answers⟩ | ⟨cause, after, ran⟩
  · refine Or.inl ⟨after, ran.trans ?_, congrArg Answers.version answers⟩
    rw [Collector.name, duty]
    rfl
  · exact Or.inr ⟨cause, after, ran⟩

/-- What the end of a pass comes to once the version of lint is found: the modules have no coordinates
at this version, or the set of them cannot be built, or the rule file cannot be written; or else that file
is there, and the entries are those of the set. -/
inductive EndsAt (config : LintConfig) (c : Collector) (t : Tree) (version : String)
    (diagnostics : List Diagnostic) : EStateM.Result BuildError (Collector × Tree) CollectorReport → Prop
  | malformed {bad : BadCoordinate} {after : Collector × Tree}
      (invalid : Duty.modulesAt config.artifacts version = .error (.invalidCoordinate bad)) :
      EndsAt config c t version diagnostics (.error (.invalidCoordinate bad) after)
  | unbuilt {keys : List ArtifactKey} {e : BuildError} {s : Cache × Tree} {after : Collector × Tree}
      (named : Duty.modulesAt config.artifacts version = .ok keys)
      (failed : Cache.build Duty.lintId keys (c.cache, t) = .error e s) :
      EndsAt config c t version diagnostics (.error e after)
  | unwritten {keys : List ArtifactKey} {entries : List CacheEntry} {s : Cache × Tree} {cause : IoError}
      {after : Collector × Tree} (named : Duty.modulesAt config.artifacts version = .ok keys)
      (built : Cache.build Duty.lintId keys (c.cache, t) = .ok entries s) :
      EndsAt config c t version diagnostics
        (.error (.io s!"writing rule file {c.cache.ruleFilePath.text}" cause) after)
  | written {keys : List ArtifactKey} {entries : List CacheEntry} {s : Cache × Tree}
      {after : Collector × Tree} (named : Duty.modulesAt config.artifacts version = .ok keys)
      (built : Cache.build Duty.lintId keys (c.cache, t) = .ok entries s)
      (answers : after.1.answers.version = some version) :
      EndsAt config c t version diagnostics
        (.ok ⟨"lint", .lint, some c.cache.ruleFilePath, entries, diagnostics⟩ after)

/-- With a version for lint, the end of the pass is one of these. -/
theorem endsAt_finalize (duty : c.duty = .lint config) (isOpen : c.ledger.pending = some demands)
    (busy : demands.isEmpty = false)
    (found : Duty.lintVersion config (versionRequests (versionsOf demands Duty.lintId)) =
      .ok (version, diagnostics)) (t : Tree) :
    EndsAt config c t version diagnostics (finalize (c, t)) := by
  have planned : c.closed.duty.plan t c.closed.cache.resolver demands =
      Duty.planToolchain Duty.lintId config.artifacts version t c.closed.cache.resolver diagnostics := by
    change c.duty.plan t c.cache.resolver demands = _
    rw [duty]
    change (Duty.lintVersion config (versionRequests (versionsOf demands Duty.lintId)) >>= _) = _
    rw [found]
    rfl
  have idle : c.duty.isIdle demands = false := by
    rw [duty]
    exact busy
  rw [finalize_open isOpen, idle]
  simp only [Bool.false_eq_true, if_false]
  cases named : Duty.modulesAt config.artifacts version with
  | error e =>
    obtain ⟨bad, rfl⟩ := Duty.exists_bad_of_modulesAt named
    have fulfilled := fulfil_of_plan_error (e := .invalidCoordinate bad)
      (planned.trans (by rw [Duty.planToolchain, named]; rfl))
    obtain ⟨after, ran⟩ := serve_of_fulfil_error fulfilled
    rw [ran]
    exact .malformed named
  | ok keys =>
    obtain ⟨fails, fetches⟩ := fulfil_toolchain planned named
    cases built : Cache.build Duty.lintId keys (c.cache, t) with
    | error e s =>
      obtain ⟨after, ran⟩ := serve_of_fulfil_error (fails e s built)
      rw [ran]
      exact .unbuilt named built
    | ok entries s =>
      obtain ⟨plan, versioned, rfl, fulfilled⟩ := fetches entries s built
      have root := Cache.root_of_build built
      rw [serve_of_fulfilled fulfilled]
      rcases emit_lint (c := { c.closed with cache := s.1 }) duty plan entries s.2 with
        ⟨after, emitted, answers⟩ | ⟨cause, after, failed⟩
      · rw [emitted, Cache.ruleFilePath, root]
        exact .written named built (answers.trans versioned)
      · rw [failed, Cache.ruleFilePath, root]
        exact .unwritten named built

/-- Without a version for lint, the end of the pass fails for want of it. -/
theorem finalize_lint_error (duty : c.duty = .lint config) (isOpen : c.ledger.pending = some demands)
    (busy : demands.isEmpty = false)
    (refused : Duty.lintVersion config (versionRequests (versionsOf demands Duty.lintId)) = .error e)
    (t : Tree) : ∃ after, finalize (c, t) = .error e after := by
  have idle : c.duty.isIdle demands = false := by
    rw [duty]
    exact busy
  refine finalize_of_plan_error isOpen idle ?_
  rw [duty]
  change (Duty.lintVersion config (versionRequests (versionsOf demands Duty.lintId)) >>= _) = _
  rw [refused]
  rfl

/-- A successful report of lint, with the version that is answered: it lists the configured artifacts at
that version in their order, and what there is to report about the choice. -/
structure LintReport (config : LintConfig) (named : VersionRequests) (report : CollectorReport)
    (version : String) : Prop where
  chosen : config.Chooses named version report.diagnostics
  entries : List.Forall₂ (fun m (entry : CacheEntry) => ArtifactModule.atVersion m version = .ok entry.key)
    config.artifacts report.entries

/-- A successful end is one with a rule file for a version that was found. -/
theorem lintReport_of_finalize {named : VersionRequests} {report : CollectorReport} {c' : Collector}
    {t' : Tree} (keyed : c.cache.Keyed) (chosen : config.Chooses named version diagnostics)
    (ends : EndsAt config c t version diagnostics (.ok report (c', t'))) :
    c'.answers.version = some version ∧ LintReport config named report version := by
  cases ends with
  | @written keys entries s _ named built answers =>
    refine ⟨answers, chosen, ?_⟩
    have listed := Duty.forall₂_of_modulesAt named
    rw [← Cache.keys_of_build keyed built, List.forall₂_map_right_iff] at listed
    exact listed

/-- **Lint follows the requests for it.**  If no scope asks for lint, or it is disabled, the end of the
pass succeeds with nothing and leaves no rule file, given that the directory of the rule file is as it
should be.  Otherwise a pinned version is used, or else the one that the policy chooses out of those that
are named; without any of these the end fails with the names of all who asked, and versions that the
policy refuses to merge are refused.  Whenever the end succeeds, the version is answered, the entries
are the configured artifacts at that version, in order, and the diagnostics are those of the choice. -/
theorem lint_follows_requests (config : LintConfig) (cacheRoot : Path) (r : Resolver)
    (scopes : List Scope) (t : Tree) :
    ∃ c requests, scopes.foldlM register (new (.lint config) cacheRoot r) = .ok c ∧
      config.Gathers scopes requests ∧
      ((∀ scope ∈ scopes, config.asked? scope = none) → Cache.Clearable (cacheRoot / Shelf.lint.dirName) t →
        ∃ c' t', finalize (c, t) = .ok ⟨"lint", .lint, none, [], []⟩ (c', t') ∧
          c'.answers.version = none ∧
          t'.isFile (cacheRoot / Shelf.lint.dirName / Cache.ruleFileName) = false) ∧
      ((∃ scope ∈ scopes, (config.asked? scope).isSome) →
        (∀ version diagnostics, config.Chooses requests.named version diagnostics →
          EndsAt config c t version diagnostics (finalize (c, t))) ∧
        (config.version = none → requests.named.isEmpty = true →
          ∃ askers after, finalize (c, t) = .error (LintConfig.unversioned askers) after ∧
            askers.Pairwise (· < ·) ∧ ∀ who, who ∈ askers ↔
              ∃ scope ∈ scopes, (config.asked? scope).isSome ∧ scope.requester = who) ∧
        (config.version = none → requests.named.isEmpty = false →
          ∀ e, requests.named.select Duty.lintId config.conflictPolicy = .error e →
            ∃ after, finalize (c, t) = .error e after) ∧
        ∀ report c' t', finalize (c, t) = .ok report (c', t') →
          ∃ version, c'.answers.version = some version ∧ LintReport config requests.named report version) := by
  have pending : ((new (.lint config) cacheRoot r).shown scopes).ledger.pending =
    some ((Duty.lint config).demands scopes) := rfl
  have gathers := config.gathers scopes
  refine ⟨_, _, register_foldlM rfl scopes, gathers, fun nobody clearable => ?_, fun somebody => ?_⟩
  · have idle : ((Duty.lint config).demands scopes).isEmpty = true := by
      rw [← Bool.not_eq_false, LintConfig.busy_iff]
      rintro ⟨scope, shown, asks⟩
      simp [nobody scope shown] at asks
    have filled : (cacheRoot / Shelf.lint.dirName).text ≠ "" :=
      Path.text_join_ne_empty cacheRoot (Cache.dirName_ne_empty _)
    obtain ⟨t', ran, gone⟩ := (finalize_idle pending idle t).1 (clearable.removable filled)
    exact ⟨_, t', ran, rfl, gone⟩
  · have busy := LintConfig.busy_iff.mpr somebody
    have ends {version : String} {diagnostics : List Diagnostic}
        (chosen : config.Chooses _ version diagnostics) :=
      endsAt_finalize rfl pending busy (LintConfig.lintVersion_eq_ok_iff.mpr chosen) t
    refine ⟨fun version diagnostics chosen => ends chosen, fun free open_ => ?_,
      fun free some_ e refused => ?_, fun report c' t' ran => ?_⟩
    · obtain ⟨askers, ascending, everyone, refused⟩ :=
        LintConfig.lintVersion_unversioned gathers free open_
      obtain ⟨after, failed⟩ := finalize_lint_error rfl pending busy refused t
      exact ⟨askers, after, failed, ascending, everyone⟩
    · exact finalize_lint_error rfl pending busy (LintConfig.lintVersion_refused free some_ refused) t
    · cases found : Duty.lintVersion config
          (versionRequests (versionsOf ((Duty.lint config).demands scopes) Duty.lintId)) with
      | error e =>
        obtain ⟨after, failed⟩ := finalize_lint_error rfl pending busy found t
        rw [failed] at ran
        cases ran
      | ok choice =>
        have chosen := LintConfig.lintVersion_eq_ok_iff.mp found
        have ended := ends chosen
        rw [ran] at ended
        exact ⟨choice.1, lintReport_of_finalize (Cache.keyed_new _ _ _) chosen ended⟩

/-- A scope of a module, with what it asks of lint. -/
def lintScopeOf (module : String) (request : Option LintRequest) : Scope :=
  { Scope.empty ⟨⟨module⟩, .main⟩ ⟨module⟩ with lint := request }

/-- Lint made of one jar. -/
def jarLint : LintConfig :=
  { LintConfig.default with artifacts := [Cache.jarArtifact.key.module] }

/-- A resolver that knows the jar. -/
def jarResolver : Resolver :=
  ⟨(∅ : Table ArtifactKey Path).insert Cache.jarArtifact.key ⟨"/x.jar"⟩, [], .coordinate, ⟨"/workspace"⟩⟩

/-- What becomes of lint for some scopes. -/
def jarLintRun (scopes : List Scope) : EStateM.Result BuildError (Collector × Tree) CollectorReport :=
  finalize ((new (.lint jarLint) ⟨"/cache"⟩ jarResolver).shown scopes, Cache.jarTree)

theorem lint_of_three_scopes :
    let silent := lintScopeOf ":a" (some ⟨none⟩)
    let older := lintScopeOf ":b" (some ⟨some "0.9"⟩)
    let newer := lintScopeOf ":c" (some ⟨some "1-0"⟩)
    (∃ c' t', jarLintRun [lintScopeOf ":d" none] = .ok ⟨"lint", .lint, none, [], []⟩ (c', t')) ∧
      (∃ askers after, jarLintRun [silent] = .error (LintConfig.unversioned askers) after ∧
        ∀ who, who ∈ askers ↔ who = ":a (main)") ∧
      ∃ report c' t', jarLintRun [silent, older, newer] = .ok report (c', t') ∧
        c'.answers.version = some "1-0" ∧ report.diagnostics = [LintConfig.merged ⟨"1-0", ["0.9"]⟩] ∧
        report.entries.map CacheEntry.key = [Cache.jarArtifact.key] := by
  intro silent older newer
  have follows (scopes : List Scope) :=
    lint_follows_requests jarLint ⟨"/cache"⟩ jarResolver scopes Cache.jarTree
  have same {scopes : List Scope} {c : Collector}
      (shown : scopes.foldlM register (new (.lint jarLint) ⟨"/cache"⟩ jarResolver) = .ok c) :
      finalize (c, Cache.jarTree) = jarLintRun scopes := by
    rw [← Except.ok.inj ((register_foldlM rfl scopes).symm.trans shown)]
    rfl
  refine ⟨?_, ?_, ?_⟩
  · obtain ⟨c, requests, shown, -, idle, -⟩ := follows [lintScopeOf ":d" none]
    have clearable : Cache.Clearable ((⟨"/cache"⟩ : Path) / Shelf.lint.dirName) Cache.jarTree :=
      ⟨Or.inl (by decide +kernel), by decide, by decide +kernel⟩
    obtain ⟨c', t', ran, -⟩ := idle (by simp [LintConfig.asked?, lintScopeOf]) clearable
    exact ⟨c', t', (same shown).symm.trans ran⟩
  · obtain ⟨c, requests, shown, gathers, -, busy⟩ := follows [silent]
    have open_ : requests.named.isEmpty = true := by
      rw [Std.ExtTreeMap.isEmpty_iff, Std.ExtTreeMap.eq_empty_iff_forall_not_mem]
      intro version named
      obtain ⟨specified, member⟩ := VersionRequests.mem_named_iff.mp named
      obtain ⟨scope, listed, asked⟩ := (gathers.versions version).mp member
      obtain rfl : scope = silent := List.mem_singleton.mp listed
      exact specified (Option.some.inj asked).symm
    obtain ⟨askers, after, failed, -, everyone⟩ := (busy ⟨silent, by simp, rfl⟩).2.1 rfl open_
    refine ⟨askers, after, (same shown).symm.trans failed, fun who => ?_⟩
    have name : silent.requester = ":a (main)" := by decide
    rw [everyone, ← name]
    constructor
    · rintro ⟨scope, listed, -, rfl⟩
      rw [List.mem_singleton.mp listed]
    · rintro rfl
      exact ⟨silent, by simp, rfl, rfl⟩
  · have ran : (outcome (jarLintRun [silent, older, newer])).map CollectorReport.diagnostics =
        .ok [LintConfig.merged ⟨"1-0", ["0.9"]⟩] ∧
        (left (jarLintRun [silent, older, newer])).1.answers.version = some "1-0" := by
      decide +kernel
    obtain ⟨report, c', t', ran', diagnostics⟩ := exists_of_outcome ran.1
    obtain ⟨c, requests, shown, -, -, busy⟩ := follows [silent, older, newer]
    obtain ⟨version, answered, told⟩ :=
      (busy ⟨silent, by simp, rfl⟩).2.2.2 report c' t' ((same shown).trans ran')
    rw [ran'] at ran
    obtain rfl := Option.some.inj (answered.symm.trans ran.2)
    refine ⟨report, c', t', ran', answered, diagnostics, ?_⟩
    have named : Cache.jarArtifact.key.module.atVersion "1-0" = .ok Cache.jarArtifact.key := by
      decide +kernel
    have listed := told.entries
    generalize report.entries = entries at listed ⊢
    obtain _ | ⟨first, _ | _⟩ := listed
    rw [List.map_singleton, Except.ok.inj (first.symm.trans named)]

end Collector

end RuleDepot
