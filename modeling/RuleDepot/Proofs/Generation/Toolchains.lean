import RuleDepot.Proofs.Collector.Faults
import RuleDepot.Proofs.Generation.Register
import RuleDepot.Proofs.Generation.Shelves
/-!
Toolchains and the spelling of their versions.  Lint and the runtimes of languages are configured as
modules, to which the end of a pass adds a version: the pinned one, or the one that the wishes of
scopes come to.  Neither was checked when it was read.  So the end of a pass can be the first to find
that a version may not stand in a coordinate, but for toolchains only.
-/

namespace RuleDepot

open Running Requirements

/-- A version that may not stand in a coordinate is refused, and nothing else. -/
theorem ArtifactModule.atVersion_error_iff {m : ArtifactModule} {version : String}
    {bad : BadCoordinate} : m.atVersion version = .error bad ↔ ∃ fault,
      segmentFault? .version version = some fault ∧
        bad = .of (ArtifactKey.spell m.group m.name version none) fault := by
  have good {which : Segment} {text input : String} (ok : IsSegment text) :
      checkSegment input which text = .ok ⟨ok⟩ := dif_pos ok
  cases fault : segmentFault? .version version with
  | none =>
    have made : ∃ key, m.atVersion version = .ok key := by
      rw [atVersion, ArtifactKey.make, good m.group_ok, good m.name_ok,
        good (segmentFault?_eq_none_iff.mp fault)]
      exact ⟨_, rfl⟩
    obtain ⟨key, made⟩ := made
    simp [made]
  | some fault' =>
    have bad : ¬ IsSegment version := fun ok => by
      rw [segmentFault?_eq_none_iff.mpr ok] at fault
      cases fault
    have refused : m.atVersion version =
        .error (.of (ArtifactKey.spell m.group m.name version none) fault') := by
      rw [atVersion, ArtifactKey.make, good m.group_ok, good m.name_ok, checkSegment, dif_neg bad,
        fault]
      rfl
    simp [refused, eq_comm]

namespace VersionRequests

/-- The requests that name a version. -/
def named (requests : VersionRequests) : VersionRequests :=
  requests.filter fun version _ => version ≠ Duty.unspecified

theorem mem_named_iff {requests : VersionRequests} {version : String} :
    version ∈ requests.named ↔ version ≠ Duty.unspecified ∧ version ∈ requests := by
  simp [named, Std.ExtTreeMap.mem_filter, and_comm]

end VersionRequests

namespace Duty

variable {duty : Duty} {scopes : List Scope} {id version : String}

/-- A version of a dependency is known if some scope needs it. -/
theorem mem_versionRequests_iff :
    version ∈ versionRequests (versionsOf (duty.demands scopes) id) ↔
      ∃ scope ∈ scopes, ∃ need ∈ duty.needs scope, need.logicalId = id ∧ need.version = version := by
  rw [Std.ExtTreeMap.mem_iff_isSome_getElem?, getElem?_versionRequests, Option.isSome_map,
    Option.isSome_iff_exists]
  constructor
  · rintro ⟨requested, held⟩
    obtain ⟨scope, shown, need, needed, ids, versions, -⟩ := needed_of_demands held
    exact ⟨scope, shown, need, needed, ids, versions⟩
  · rintro ⟨scope, shown, need, needed, rfl, rfl⟩
    exact demands_of_needed shown needed

/-- Modules cannot be named at a version that may not stand in a coordinate; the first is blamed. -/
theorem modulesAt_error_iff {modules : List ArtifactModule} {bad : BadCoordinate} :
    modulesAt modules version = .error (.invalidCoordinate bad) ↔
      ∃ m rest, modules = m :: rest ∧ m.atVersion version = .error bad := by
  constructor
  · intro invalid
    unfold modulesAt Except.mapError at invalid
    split at invalid
    · rename_i bad' failed
      obtain rfl : bad' = bad := by cases invalid; rfl
      obtain ⟨other, inside, refused⟩ := exists_of_mapM_eq_error failed
      obtain ⟨fault, malformed, -⟩ := ArtifactModule.atVersion_error_iff.mp refused
      cases modules with
      | nil => cases inside
      | cons m rest =>
        have first : m.atVersion version =
            .error (.of (ArtifactKey.spell m.group m.name version none) fault) :=
          ArtifactModule.atVersion_error_iff.mpr ⟨fault, malformed, rfl⟩
        rw [List.mapM_cons, first] at failed
        obtain rfl := Except.error.inj failed
        exact ⟨m, rest, rfl, first⟩
    · cases invalid
  · rintro ⟨m, rest, rfl, refused⟩
    simp only [modulesAt, List.mapM_cons, refused, bind, Except.bind, Except.mapError]

/-- Nothing is asked for if no scope needs anything. -/
theorem demands_isEmpty_eq_false_iff : (duty.demands scopes).isEmpty = false ↔
    ∃ scope ∈ scopes, ∃ need, need ∈ duty.needs scope := by
  rw [← Bool.not_eq_true, Std.ExtTreeMap.isEmpty_iff, Std.ExtTreeMap.eq_empty_iff_forall_not_mem,
    not_forall_not]
  constructor
  · rintro ⟨id, known⟩
    obtain ⟨q, asked, -⟩ := ((addAll_spec _).1 id).mp known
    obtain ⟨scope, shown, inside⟩ := List.mem_flatMap.mp asked
    obtain ⟨need, needed, -⟩ := List.mem_map.mp inside
    exact ⟨scope, shown, need, needed⟩
  · rintro ⟨scope, shown, need, needed⟩
    exact ⟨need.logicalId, ((addAll_spec _).1 _).mpr
      ⟨_, List.mem_flatMap.mpr ⟨scope, shown, List.mem_map_of_mem needed⟩, rfl⟩⟩

end Duty

/-- A set of modules that is fetched at one version. -/
inductive Toolchain where
  | lint
  | runtime (language : Language)

namespace Toolchain

def shelf : Toolchain → Shelf
  | lint => .lint
  | runtime language => .runtime language

/-- The identity under which wishes are recorded. -/
def id : Toolchain → String
  | lint => Duty.lintId
  | runtime language => language.text

def modules (config : Config) : Toolchain → List ArtifactModule
  | lint => config.lint.artifacts
  | runtime language => (config.runtime language).artifacts

/-- The version that is used whatever scopes ask for. -/
def pin (config : Config) : Toolchain → Option String
  | lint => config.lint.version
  | runtime language => (config.runtime language).version

def policy (config : Config) : Toolchain → ConflictPolicy
  | lint => config.lint.conflictPolicy
  | runtime language => (config.runtime language).conflictPolicy

/-- What a scope wishes: nothing, the toolchain at any version, or a version of it. -/
def wish (config : Config) (scope : Scope) : Toolchain → Option (Option String)
  | lint =>
    if config.lint.disabled then none
    else scope.lint.map fun request => request.version.filter (· ≠ Duty.unspecified)
  | runtime language => scope.runtimes[language]?.map some

/-- A version at which a toolchain is fetched: some scope wants it, and the version is pinned or the
policy chooses it out of all that scopes name. -/
structure TakenAt (tool : Toolchain) (config : Config) (shown : Scope → Prop) (version : String) :
    Prop where
  wanted : ∃ scope named, shown scope ∧ tool.wish config scope = some named
  chosen : tool.pin config = some version ∨ tool.pin config = none ∧
    ∃ (requests : VersionRequests) (selection : Selection),
      (∀ v, v ∈ requests ↔ ∃ scope, shown scope ∧ tool.wish config scope = some (some v)) ∧
        requests.select tool.id (tool.policy config) = .ok selection ∧ selection.version = version

variable {config : Config} {tool : Toolchain} {scopes : List Scope} {scope : Scope} {need : Need}
  {version : String} {modules : List ArtifactModule} {demands : Demands}

private theorem TakenAt.source {shown : Scope → Prop} (taken : tool.TakenAt config shown version) :
    tool.pin config = some version ∨
      ∃ scope, shown scope ∧ tool.wish config scope = some (some version) := by
  rcases taken.chosen with pinned | ⟨-, requests, selection, named, chosen, rfl⟩
  · exact Or.inl pinned
  · exact Or.inr ((named _).mp (VersionRequests.mem_of_select chosen))

private theorem mem_needs_iff : need ∈ (config.duty tool.shelf).needs scope ↔
    ∃ named, tool.wish config scope = some named ∧
      need = ⟨tool.id, named.getD Duty.unspecified, none⟩ := by
  cases tool with
  | lint =>
    cases asked : scope.lint with
    | none => simp [shelf, Config.duty, Duty.needs, wish, asked]
    | some request =>
      cases disabled : config.lint.disabled with
      | true => simp [shelf, Config.duty, Duty.needs, wish, asked, disabled]
      | false =>
        have same : (request.version.filter fun v => !decide (v = Duty.unspecified)).getD Duty.unspecified =
            request.version.getD Duty.unspecified := by
          cases request.version with
          | none => rfl
          | some v => by_cases blank : v = Duty.unspecified <;> simp [blank, Option.filter]
        simp [shelf, Config.duty, Duty.needs, wish, asked, disabled, id, same]
  | runtime language =>
    cases asked : scope.runtimes[language]? <;>
      simp [shelf, Config.duty, Duty.needs, wish, asked, id]

/-- The versions that are asked for under the identity of a toolchain. -/
theorem mem_versions_iff :
    version ∈ versionRequests (versionsOf ((config.duty tool.shelf).demands scopes) tool.id) ↔
      ∃ scope ∈ scopes, ∃ named, tool.wish config scope = some named ∧
        named.getD Duty.unspecified = version := by
  rw [Duty.mem_versionRequests_iff]
  constructor
  · rintro ⟨scope, shown, need, needed, -, versions⟩
    obtain ⟨named, wish, rfl⟩ := mem_needs_iff.mp needed
    exact ⟨scope, shown, named, wish, versions⟩
  · rintro ⟨scope, shown, named, wish, rfl⟩
    exact ⟨scope, shown, _, mem_needs_iff.mpr ⟨named, wish, rfl⟩, rfl, rfl⟩

private theorem busy_iff : ((config.duty tool.shelf).demands scopes).isEmpty = false ↔
    ∃ scope named, scope ∈ scopes ∧ tool.wish config scope = some named := by
  rw [Duty.demands_isEmpty_eq_false_iff]
  constructor
  · rintro ⟨scope, shown, need, needed⟩
    obtain ⟨named, wish, -⟩ := mem_needs_iff.mp needed
    exact ⟨scope, named, shown, wish⟩
  · rintro ⟨scope, named, shown, wish⟩
    exact ⟨scope, shown, _, mem_needs_iff.mpr ⟨named, wish, rfl⟩⟩

private theorem id_of_known {id : String} {versions : Table String (Requested (Option Artifact))}
    (known : ((config.duty tool.shelf).demands scopes)[id]? = some versions) : id = tool.id := by
  have member : id ∈ (config.duty tool.shelf).demands scopes := by
    rw [Std.ExtTreeMap.mem_iff_isSome_getElem?, known]
    rfl
  obtain ⟨q, asked, rfl⟩ := ((addAll_spec _).1 id).mp member
  obtain ⟨scope, -, inside⟩ := List.mem_flatMap.mp asked
  obtain ⟨need, needed, rfl⟩ := List.mem_map.mp inside
  obtain ⟨named, -, rfl⟩ := mem_needs_iff.mp needed
  rfl

/-- Where requests are for one tool only, a selection that succeeds begins with it. -/
theorem exists_first_selected {policy : ConflictPolicy}
    {versions : Table String (Requested (Option Artifact))}
    {selected : List (Selected (Option Artifact))} {diagnostics : List Diagnostic}
    (single : ∀ (id : String) versions, demands[id]? = some versions → id = tool.id)
    (known : demands[tool.id]? = some versions)
    (selects : demands.select policy = .ok (selected, diagnostics)) :
    ∃ selection, (versionRequests versions).select tool.id policy = .ok selection ∧
      selected.head?.map (·.version) = some selection.version := by
  obtain ⟨_, _, -, -, member⟩ := exists_selected selects known
  obtain ⟨s, rest, rfl⟩ := List.exists_cons_of_ne_nil (List.ne_nil_of_mem member)
  obtain ⟨id, others, selection, winner, held, chosen, -, rfl⟩ :=
    (mem_select_iff selects).mp List.mem_cons_self
  obtain rfl := single id others held
  obtain rfl := Option.some.inj (known.symm.trans held)
  exact ⟨selection, chosen, rfl⟩

/-- The version of a runtime comes from merging the requests for it. -/
theorem selectPinned_iff {policy : ConflictPolicy} {pin : Option String}
    (single : ∀ (id : String) versions, demands[id]? = some versions → id = tool.id)
    (busy : demands.isEmpty = false) :
    (∃ diagnostics, demands.selectPinned policy pin = .ok (some version, diagnostics)) ↔
      pin = some version ∨ pin = none ∧ ∃ selection,
        (versionRequests (versionsOf demands tool.id)).select tool.id policy = .ok selection ∧
          selection.version = version := by
  cases pin with
  | some pinned =>
    simp [selectPinned, pure, Except.pure]
  | none =>
    have known : ∃ versions, demands[tool.id]? = some versions := by
      rw [← Bool.not_eq_true, Std.ExtTreeMap.isEmpty_iff, Std.ExtTreeMap.eq_empty_iff_forall_not_mem,
        not_forall_not] at busy
      obtain ⟨id, inside⟩ := busy
      rw [Std.ExtTreeMap.mem_iff_isSome_getElem?, Option.isSome_iff_exists] at inside
      obtain ⟨versions, held⟩ := inside
      exact ⟨versions, single id versions held ▸ held⟩
    obtain ⟨versions, known⟩ := known
    rw [versionsOf_eq known]
    constructor
    · rintro ⟨diagnostics, ran⟩
      obtain ⟨⟨selected, others⟩, selects, done⟩ := ok_of_bind ran
      obtain ⟨selection, chosen, head⟩ := exists_first_selected single known selects
      have versions := congrArg Prod.fst (Except.ok.inj done)
      exact Or.inr ⟨rfl, selection, chosen, Option.some.inj (head.symm.trans versions)⟩
    · rintro (pinned | ⟨-, selection, chosen, rfl⟩)
      · cases pinned
      · cases selects : demands.select policy with
        | error e =>
          have refused := error_of_bind_first (fun _ => ⟨_, rfl⟩) selects
          obtain ⟨⟨id, others⟩, member, refused⟩ := exists_of_mapM_eq_error refused
          have held := Std.ExtTreeMap.mem_toList_iff_getElem?_eq_some.mp member
          obtain rfl := single id others held
          obtain rfl := Option.some.inj (known.symm.trans held)
          rw [selectOne_error_iff.mp refused] at chosen
          cases chosen
        | ok result =>
          obtain ⟨selected, diagnostics⟩ := result
          obtain ⟨selection', chosen', head⟩ := exists_first_selected single known selects
          obtain rfl := Except.ok.inj (chosen.symm.trans chosen')
          refine ⟨diagnostics, ?_⟩
          simp only [selectPinned, selects, bind, Except.bind, head, pure, Except.pure]

/-- The version of lint comes from merging the requests that name one. -/
theorem lintVersion_iff {config : LintConfig} {requests : VersionRequests} :
    (∃ diagnostics, Duty.lintVersion config requests = .ok (version, diagnostics)) ↔
      config.version = some version ∨ config.version = none ∧ ∃ selection,
        requests.named.select Duty.lintId config.conflictPolicy = .ok selection ∧
          selection.version = version := by
  unfold Duty.lintVersion
  cases pinned : config.version with
  | some pin => simp [pure, Except.pure]
  | none =>
    change (∃ diagnostics, (if requests.named.isEmpty then _ else _) = _) ↔ _
    by_cases silent : requests.named.isEmpty = true
    · rw [if_pos silent]
      constructor
      · rintro ⟨diagnostics, done⟩
        cases done
      · rintro (pinned | ⟨-, selection, chosen, -⟩)
        · cases pinned
        · have named := VersionRequests.mem_of_select chosen
          rw [Std.ExtTreeMap.isEmpty_iff.mp silent] at named
          simp at named
    · rw [if_neg silent]
      constructor
      · rintro ⟨diagnostics, ran⟩
        obtain ⟨selection, chosen, done⟩ := ok_of_bind ran
        exact Or.inr ⟨rfl, selection, chosen, congrArg Prod.fst (Except.ok.inj done)⟩
      · rintro (pinned | ⟨-, selection, chosen, rfl⟩)
        · cases pinned
        · change ∃ diagnostics, (requests.named.select Duty.lintId config.conflictPolicy >>= _) = _
          rw [chosen]
          exact ⟨_, rfl⟩

/-- The version that is taken, once the requests that name one are known. -/
theorem takenAt_iff {requests : VersionRequests} (named : ∀ v, v ∈ requests ↔
      ∃ scope ∈ scopes, tool.wish config scope = some (some v)) :
    tool.TakenAt config (· ∈ scopes) version ↔
      ((config.duty tool.shelf).demands scopes).isEmpty = false ∧
        (tool.pin config = some version ∨ tool.pin config = none ∧ ∃ selection,
          requests.select tool.id (tool.policy config) = .ok selection ∧
            selection.version = version) := by
  constructor
  · rintro ⟨wanted, chosen⟩
    refine ⟨busy_iff.mpr wanted, chosen.imp_right fun ⟨unpinned, others, selection, same, ran, won⟩ => ?_⟩
    have names (v : String) : v ∈ others ↔ v ∈ requests := (same v).trans (named v).symm
    exact ⟨unpinned, selection, VersionRequests.select_congr names ran, won⟩
  · rintro ⟨busy, chosen⟩
    exact ⟨busy_iff.mp busy, chosen.imp_right fun ⟨unpinned, selection, ran, won⟩ =>
      ⟨unpinned, requests, selection, named, ran, won⟩⟩

private theorem specified_of_wish {v : String} (wish : Toolchain.lint.wish config scope = some (some v)) :
    v ≠ Duty.unspecified := by
  cases disabled : config.lint.disabled with
  | true => simp [Toolchain.wish, disabled] at wish
  | false =>
    simp only [Toolchain.wish, disabled, Bool.false_eq_true, if_false] at wish
    obtain ⟨request, -, named⟩ := Option.map_eq_some_iff.mp wish
    simpa using (Option.filter_eq_some_iff.mp named).2

/-- The versions of lint that scopes name. -/
theorem mem_lint_iff : version ∈ (versionRequests (versionsOf
      ((config.duty Toolchain.lint.shelf).demands scopes) Toolchain.lint.id)).named ↔
    ∃ scope ∈ scopes, Toolchain.lint.wish config scope = some (some version) := by
  rw [VersionRequests.mem_named_iff, mem_versions_iff]
  constructor
  · rintro ⟨specified, scope, shown, named, wish, rfl⟩
    cases named with
    | none => exact absurd rfl specified
    | some v => exact ⟨scope, shown, wish⟩
  · rintro ⟨scope, shown, wish⟩
    exact ⟨specified_of_wish wish, scope, shown, some version, wish, rfl⟩

/-- The versions of a runtime that scopes name; there is no wish for one without a version. -/
theorem mem_runtime_iff {language : Language} : version ∈ versionRequests (versionsOf
      ((config.duty (Toolchain.runtime language).shelf).demands scopes) (Toolchain.runtime language).id) ↔
    ∃ scope ∈ scopes, (Toolchain.runtime language).wish config scope = some (some version) := by
  rw [mem_versions_iff]
  constructor
  · rintro ⟨scope, shown, named, wish, rfl⟩
    obtain ⟨v, -, rfl⟩ := Option.map_eq_some_iff.mp wish
    exact ⟨scope, shown, wish⟩
  · rintro ⟨scope, shown, wish⟩
    exact ⟨scope, shown, some version, wish, rfl⟩

/-- A toolchain is fetched exactly at the version that it is taken at. -/
theorem fetches_iff (config : Config) (tool : Toolchain) (scopes : List Scope) :
    ((config.duty tool.shelf).isIdle ((config.duty tool.shelf).demands scopes) = false ∧
      (config.duty tool.shelf).Fetches ((config.duty tool.shelf).demands scopes) modules version) ↔
    modules = tool.modules config ∧ tool.TakenAt config (· ∈ scopes) version := by
  cases tool with
  | lint =>
    rw [takenAt_iff fun v => mem_lint_iff]
    constructor
    · rintro ⟨busy, fetches⟩
      generalize held : config.duty Toolchain.lint.shelf = duty at fetches
      cases fetches with
      | lint chosen =>
        cases held
        exact ⟨rfl, busy, lintVersion_iff.mp ⟨_, chosen⟩⟩
      | runtime => cases held
    · rintro ⟨rfl, busy, taken⟩
      obtain ⟨diagnostics, chosen⟩ := lintVersion_iff.mpr taken
      exact ⟨busy, .lint chosen⟩
  | runtime language =>
    rw [takenAt_iff fun v => mem_runtime_iff]
    constructor
    · rintro ⟨busy, fetches⟩
      have merged := @selectPinned_iff (.runtime language) version _
        (config.runtime language).conflictPolicy (config.runtime language).version
        (fun _ _ => id_of_known) busy
      generalize held : config.duty (Toolchain.runtime language).shelf = duty at fetches
      cases fetches with
      | lint => cases held
      | runtime chosen =>
        cases held
        exact ⟨rfl, busy, merged.mp ⟨_, chosen⟩⟩
    · rintro ⟨rfl, busy, taken⟩
      obtain ⟨diagnostics, chosen⟩ := (selectPinned_iff (fun _ _ => id_of_known) busy).mpr taken
      exact ⟨busy, .runtime chosen⟩

/-- Nothing but toolchains is fetched at versions that are chosen late. -/
theorem exists_of_fetches {shelf : Shelf}
    (fetches : (config.duty shelf).Fetches demands modules version) :
    ∃ tool : Toolchain, shelf = tool.shelf := by
  cases shelf with
  | lint => exact ⟨.lint, rfl⟩
  | runtime language => exact ⟨.runtime language, rfl⟩
  | _ => cases fetches

end Toolchain

namespace Generation

variable {config : Config} {home workspace : Path} {project : Project} {g : Generation}
  {shelf : Shelf} {log : List Scope} {c : Collector} {bad : BadCoordinate}

private theorem invalid_iff {cacheRoot : Path} {r : Resolver} (t : Tree) :
    (∃ after, Collector.finalize ((Collector.new (config.duty shelf) cacheRoot r).shown log, t) =
        .error (.invalidCoordinate bad) after) ↔
      ∃ (tool : Toolchain) (version : String) (m : ArtifactModule) (rest : List ArtifactModule)
        (fault : CoordinateFault), shelf = tool.shelf ∧ tool.TakenAt config (· ∈ log) version ∧
          tool.modules config = m :: rest ∧ segmentFault? .version version = some fault ∧
          bad = .of (ArtifactKey.spell m.group m.name version none) fault := by
  have pending : ((Collector.new (config.duty shelf) cacheRoot r).shown log).ledger.pending =
      some ((config.duty shelf).demands log) := rfl
  constructor
  · rintro ⟨⟨c', t'⟩, failed⟩
    rcases Collector.finalize_error pending rfl failed with plain | ⟨busy, planned⟩
    · exact absurd rfl (plain.spelled bad)
    rcases Duty.plan_error (asked_addAll _) planned with plain | ⟨modules, version, fetches, invalid⟩
    · exact absurd rfl (plain.spelled bad)
    obtain ⟨tool, rfl⟩ := Toolchain.exists_of_fetches fetches
    obtain ⟨same, taken⟩ := (Toolchain.fetches_iff config tool log).mp ⟨busy, fetches⟩
    obtain ⟨m, rest, known, refused⟩ := Duty.modulesAt_error_iff.mp invalid
    obtain ⟨fault, malformed, blamed⟩ := ArtifactModule.atVersion_error_iff.mp refused
    exact ⟨tool, version, m, rest, fault, rfl, taken, same.symm.trans known, malformed, blamed⟩
  · rintro ⟨tool, version, m, rest, fault, rfl, taken, known, malformed, blamed⟩
    obtain ⟨busy, fetches⟩ := (Toolchain.fetches_iff config tool log).mpr ⟨rfl, taken⟩
    have refused := ArtifactModule.atVersion_error_iff.mpr ⟨fault, malformed, blamed⟩
    have invalid := Duty.modulesAt_error_iff.mpr ⟨m, rest, known, refused⟩
    exact Collector.finalize_of_plan_error pending busy (fetches.plan_error invalid)

/-- **Only the versions of toolchains are found malformed in the end.**  Whatever was visited before,
a collector ends with a complaint about a coordinate exactly if it takes lint or a runtime, of which
some module is configured, at a version that may not stand in a coordinate.  So it never does if all
versions that are pinned for toolchains or asked for by registered scopes may stand in one. -/
theorem malformed_versions (underway : Underway config home workspace project g) {s : Station}
    (member : s ∈ g.stations) (t : Tree) :
    (∀ bad, (∃ after, Collector.finalize (s.collector, t) = .error (.invalidCoordinate bad) after) ↔
      ∃ (tool : Toolchain) (version : String) (m : ArtifactModule) (rest : List ArtifactModule)
        (fault : CoordinateFault), s.collector.duty = config.duty tool.shelf ∧
          tool.TakenAt config g.Registered version ∧ tool.modules config = m :: rest ∧
          segmentFault? .version version = some fault ∧
          bad = .of (ArtifactKey.spell m.group m.name version none) fault) ∧
    ((∀ (tool : Toolchain) (version : String), tool.pin config = some version ∨
        (∃ scope, g.Registered scope ∧ tool.wish config scope = some (some version)) →
          IsSegment version) →
      ∀ bad after, Collector.finalize (s.collector, t) ≠ .error (.invalidCoordinate bad) after) := by
  obtain ⟨log, showed⟩ := underway.showed
  have registered : g.Registered = (· ∈ log) :=
    funext fun scope => propext (showed.registered scope).symm
  rw [showed.stations] at member
  obtain ⟨_, inside, rfl⟩ := List.mem_map.mp member
  obtain ⟨shelf, -, rfl⟩ := List.mem_map.mp inside
  have ends (bad : BadCoordinate) := @invalid_iff config shelf log bad
    (config.cacheRoot home workspace) (config.resolver home workspace project) t
  have duties (tool : Toolchain) : config.duty shelf = config.duty tool.shelf ↔ shelf = tool.shelf :=
    ⟨fun same => by simpa using congrArg Duty.shelf same, congrArg config.duty⟩
  rw [registered]
  constructor
  · intro bad
    refine (ends bad).trans ?_
    simp only [← duties]
    rfl
  · intro spelled bad after failed
    obtain ⟨tool, version, m, rest, fault, -, taken, -, malformed, -⟩ :=
      (ends bad).mp ⟨after, failed⟩
    rw [segmentFault?_eq_none_iff.mpr (spelled tool version taken.source)] at malformed
    cases malformed

/-- A module whose sources ask for a runtime at a version with a blank in it. -/
def blankProject : Project where
  modules := (∅ : Table ModuleId ModuleSnapshot).insert ⟨":app"⟩
    ⟨⟨":app"⟩, ⟨"app"⟩, (∅ : Table ScopeKind SourceSet).insert .main
      { SourceSet.empty with runtimes := (∅ : Table Language String).insert .kotlin "1 3" }⟩
  artifacts := ∅

/-- The beginning of a pass over it. -/
def blankStart : EStateM.Result BuildError (Generation × Tree) Unit :=
  start (new .default ⟨"/home"⟩ ⟨"/w"⟩ blankProject, Tree.empty)

/-- A pass that visited the module. -/
def blankPass : Generation :=
  (left (visit ⟨":app"⟩ ((left blankStart).1, Tree.empty))).1

/-- What is wrong with the version. -/
def blankVersion : BadCoordinate :=
  ⟨"org.jetbrains.kotlin:kotlin-stdlib:1 3", "version contains illegal character ' '"⟩

theorem blank_version_is_malformed :
    ∃ s ∈ blankPass.stations,
      (∃ after, Collector.finalize (s.collector, Tree.empty) =
        .error (.invalidCoordinate blankVersion) after) ∧
      ∃ (tool : Toolchain) (version : String) (m : ArtifactModule) (rest : List ArtifactModule)
        (fault : CoordinateFault), s.collector.duty = Config.default.duty tool.shelf ∧
          tool.TakenAt .default blankPass.Registered version ∧
          tool.modules .default = m :: rest ∧ segmentFault? .version version = some fault ∧
          blankVersion = .of (ArtifactKey.spell m.group m.name version none) fault := by
  obtain ⟨_, started⟩ : ∃ _, blankStart = _ := eq_ok_of_isOk (by decide +kernel)
  have underway : Underway .default ⟨"/home"⟩ ⟨"/w"⟩ blankProject blankPass :=
    .called (.begun started) ⟨":app"⟩ _
  have came : (blankPass.stations.find? fun s => s.collector.name = "kotlin-runtime").map
      (fun s => (outcome (Collector.finalize (s.collector, Tree.empty))).map fun _ => ()) =
        some (.error (.invalidCoordinate blankVersion)) := by decide +kernel
  obtain ⟨s, found, came⟩ := Option.map_eq_some_iff.mp came
  have member := List.mem_of_find?_eq_some found
  have failed : ∃ after, Collector.finalize (s.collector, Tree.empty) =
      .error (.invalidCoordinate blankVersion) after := by
    cases ran : Collector.finalize (s.collector, Tree.empty) with
    | ok report after =>
      rw [ran] at came
      cases came
    | error e after =>
      rw [ran] at came
      cases came
      exact ⟨after, rfl⟩
  exact ⟨s, member, failed, ((malformed_versions underway member Tree.empty).1 blankVersion).mp failed⟩

end Generation

end RuleDepot
