import RuleDepot.Proofs.Generation.Visits
import RuleDepot.Proofs.Scopes
/-!
The tools that modules carry.  A tool is requested by its name and version, which leave out the
classifier of the artifact, so what stands for a tool is the artifact of the first module that carries
it.  Modules agree if it does not matter which of them comes first.
-/

namespace RuleDepot

open Requirements Running

/-- The first artifact on the classpaths of some scopes that is a tool at a version. -/
def Duty.toolAt? (config : ToolsConfig) (name version : String) (scopes : List Scope) :
    Option Artifact :=
  (scopes.flatMap Scope.externalArtifacts).find? fun a =>
    Duty.toolFor? config a.key = some name ∧ a.key.version = version

namespace Duty

variable {config : ToolsConfig} {name version : String} {scopes scopes' : List Scope} {a : Artifact}

private theorem toolAt?_append : toolAt? config name version (scopes ++ scopes') =
    (toolAt? config name version scopes).or (toolAt? config name version scopes') := by
  simp only [toolAt?, List.flatMap_append, List.find?_append]

/-- The first artifact of several modules is that of the first module that has one. -/
theorem toolAt?_flatMap {ι : Type} (ids : List ι) (scopesOf : ι → List Scope) :
    toolAt? config name version (ids.flatMap scopesOf) =
      ids.findSome? fun id => toolAt? config name version (scopesOf id) := by
  simp only [toolAt?, List.flatMap_assoc, List.find?_flatMap]

private theorem toolAt?_eq_some (found : toolAt? config name version scopes = some a) :
    (∃ scope ∈ scopes, a ∈ scope.externalArtifacts) ∧ toolFor? config a.key = some name ∧
      a.key.version = version := by
  have member := List.mem_flatMap.mp (List.mem_of_find?_eq_some found)
  exact ⟨member, by simpa using List.find?_some found⟩

private theorem find?_requests (config : ToolsConfig) (name version : String) (scope : Scope) :
    (((Duty.tools config).requests scope).find? fun q =>
        decide (q.logicalId = name ∧ q.version = version)).map Request.payload =
      (toolAt? config name version [scope]).map some := by
  have asks : (fun a : Artifact => ((toolFor? config a.key).map fun name =>
      (⟨name, a.key.version, some a⟩ : Need)).any fun need =>
        decide (need.logicalId = name ∧ need.version = version)) =
      fun a => decide (toolFor? config a.key = some name ∧ a.key.version = version) := by
    funext a
    cases toolFor? config a.key <;> simp
  simp only [requests, needs, List.find?_map, List.find?_filterMap, toolAt?, List.flatMap_singleton,
    Function.comp_def, asks]
  cases found : scope.externalArtifacts.find? fun a =>
      decide (toolFor? config a.key = some name ∧ a.key.version = version) with
  | none => rfl
  | some a =>
    have tool : toolFor? config a.key = some name := by
      have both := List.find?_some found
      simp only [decide_eq_true_eq] at both
      exact both.1
    simp [tool]

/-- The payload of a tool is its first artifact. -/
theorem payload_tools (config : ToolsConfig) (name version : String) (scopes : List Scope) :
    (versionsOf (addAll ∅ (scopes.flatMap (Duty.tools config).requests)) name)[version]?.map
        Requested.payload = (toolAt? config name version scopes).map some := by
  rw [(addAll_spec _).2, payload_merged]
  induction scopes with
  | nil => rfl
  | cons scope rest ih =>
    have split : toolAt? config name version (scope :: rest) =
        (toolAt? config name version [scope]).or (toolAt? config name version rest) := by
      rw [← toolAt?_append]
      rfl
    rw [List.flatMap_cons, List.find?_append, split, Option.map_or, Option.map_or, find?_requests, ih]

end Duty

/-- What scopes ask of the collector of tools. -/
def toolDemands (config : ToolsConfig) (scopes : List Scope) : Demands :=
  addAll ∅ (scopes.flatMap (Duty.tools config).requests)

/-- The tools that are selected at the end of a pass; none if the versions cannot be merged. -/
def selectedTools (config : ToolsConfig) (scopes : List Scope) :
    List (Selected (Option Artifact)) :=
  match (toolDemands config scopes).select config.conflictPolicy with
  | .ok (selected, _) => selected
  | .error _ => []

/-- The tools of some scopes can be selected, and their artifacts have these coordinates. -/
def FetchesTools (config : ToolsConfig) (scopes : List Scope) (keys : List ArtifactKey) : Prop :=
  ∃ selected diagnostics,
    (toolDemands config scopes).select config.conflictPolicy = .ok (selected, diagnostics) ∧
      (Duty.chosen selected).map Artifact.key = keys

namespace ScopeMemo

variable {m : ScopeMemo} {t : Tree} {ids ids' : List ModuleId} {id : ModuleId} {scope : Scope}

/-- All modules that carry a selected tool at the selected version carry the same artifact first. -/
def ToolsAgree (config : ToolsConfig) (m : ScopeMemo) (t : Tree) (ids : List ModuleId) : Prop :=
  ∀ s ∈ selectedTools config (ids.flatMap (m.scopesOf t)), ∀ id ∈ ids, ∀ id' ∈ ids,
    ∀ a ∈ Duty.toolAt? config s.logicalId s.version (m.scopesOf t id),
      ∀ a' ∈ Duty.toolAt? config s.logicalId s.version (m.scopesOf t id'), a = a'

instance (config : ToolsConfig) (m : ScopeMemo) (t : Tree) (ids : List ModuleId) :
    Decidable (m.ToolsAgree config t ids) :=
  inferInstanceAs (Decidable (∀ s ∈ selectedTools config (ids.flatMap (m.scopesOf t)),
    ∀ id ∈ ids, ∀ id' ∈ ids,
      ∀ a ∈ Duty.toolAt? config s.logicalId s.version (m.scopesOf t id),
        ∀ a' ∈ Duty.toolAt? config s.logicalId s.version (m.scopesOf t id'), a = a'))

theorem bound_of_mem_scopesOf (member : scope ∈ m.scopesOf t id) : scope.Bound m.resolver t := by
  rw [scopesOf] at member
  cases resolved : (m.idsOf id).mapM (Scope.resolve m.project m.resolver t) with
  | error e =>
    rw [resolved] at member
    cases member
  | ok scopes =>
    rw [resolved] at member
    obtain ⟨sid, -, found⟩ := ((of_mapM_eq_ok resolved).2 scope).mp member
    exact Scope.bound_of_resolve found

/-- A duty that is not about tools takes down the same from the same modules in any order. -/
theorem demands_eq {duty : Duty} (wished : ∀ config, duty ≠ .tools config)
    (same : ∀ id, id ∈ ids ↔ id ∈ ids') :
    addAll ∅ ((ids.flatMap (m.scopesOf t)).flatMap duty.requests) =
      addAll ∅ ((ids'.flatMap (m.scopesOf t)).flatMap duty.requests) := by
  refine addAll_congr (fun q => by simp only [List.mem_flatMap, same]) ?_
  intro q member q' member' identities versions
  obtain ⟨scope, shown, needed⟩ := List.mem_flatMap.mp member
  obtain ⟨scope', shown', needed'⟩ := List.mem_flatMap.mp member'
  obtain ⟨id, -, own⟩ := List.mem_flatMap.mp shown
  obtain ⟨id', -, own'⟩ := List.mem_flatMap.mp shown'
  obtain ⟨need, needs, rfl⟩ := List.mem_map.mp needed
  obtain ⟨need', needs', rfl⟩ := List.mem_map.mp needed'
  exact Duty.need_artifact_eq wished (bound_of_mem_scopesOf own) (bound_of_mem_scopesOf own') needs
    needs' identities versions

/-- The tools are selected alike from the same modules in any order if they agree. -/
theorem select_tools_eq {config : ToolsConfig} (agree : ToolsAgree config m t ids)
    (same : ∀ id, id ∈ ids ↔ id ∈ ids') :
    (toolDemands config (ids.flatMap (m.scopesOf t))).select config.conflictPolicy =
      (toolDemands config (ids'.flatMap (m.scopesOf t))).select config.conflictPolicy := by
  have alike : Alike (toolDemands config (ids.flatMap (m.scopesOf t)))
      (toolDemands config (ids'.flatMap (m.scopesOf t))) :=
    alike_addAll fun q => by simp only [List.mem_flatMap, same]
  refine alike.select_eq fun selected diagnostics ran s member => ?_
  have payload := payload_of_mem_select ran member
  rw [toolDemands, Duty.payload_tools, Duty.toolAt?_flatMap, Option.map_eq_some_iff] at payload ⊢
  obtain ⟨a, found, stands⟩ := payload
  obtain ⟨id, visited, carried⟩ := List.exists_of_findSome?_eq_some found
  have some_ : (ids'.findSome? fun id => Duty.toolAt? config s.logicalId s.version
      (m.scopesOf t id)).isSome = true := by
    rw [List.findSome?_isSome_iff]
    exact ⟨id, (same id).mp visited, by simp [carried]⟩
  obtain ⟨a', found'⟩ := Option.isSome_iff_exists.mp some_
  obtain ⟨id', visited', carried'⟩ := List.exists_of_findSome?_eq_some found'
  have selects : s ∈ selectedTools config (ids.flatMap (m.scopesOf t)) := by
    simpa only [selectedTools, ran] using member
  have one : a = a' := agree s selects id visited id' ((same id').mpr visited') a carried a' carried'
  exact ⟨a', found', one ▸ stands⟩

/-- An artifact that stands for a tool is the first that is carried, and is bound. -/
theorem payload_of_selected {config : ToolsConfig} {selected : List (Selected (Option Artifact))}
    {diagnostics : List Diagnostic}
    (ran : (toolDemands config (ids.flatMap (m.scopesOf t))).select config.conflictPolicy =
      .ok (selected, diagnostics)) {s : Selected (Option Artifact)} (member : s ∈ selected) :
    ∃ a, s.payload = some a ∧ Duty.toolFor? config a.key = some s.logicalId ∧
      a.key.version = s.version ∧ m.resolver.Binds t a := by
  have payload := payload_of_mem_select ran member
  rw [toolDemands, Duty.payload_tools, Option.map_eq_some_iff] at payload
  obtain ⟨a, found, stands⟩ := payload
  obtain ⟨⟨scope, shown, carried⟩, tool, version⟩ := Duty.toolAt?_eq_some found
  obtain ⟨id, -, own⟩ := List.mem_flatMap.mp shown
  refine ⟨a, stands.symm, tool, version, bound_of_mem_scopesOf own a ?_⟩
  simp [Scope.artifacts, carried]

/-- If what is fetched stays the same with a module in front, its own artifact stands for the tool. -/
theorem payload_of_fetches {config : ToolsConfig} {keys : List ArtifactKey}
    (fetches : FetchesTools config (ids.flatMap (m.scopesOf t)) keys) (visited : id ∈ ids)
    (first : FetchesTools config ((id :: ids).flatMap (m.scopesOf t)) keys)
    {s : Selected (Option Artifact)}
    (selects : s ∈ selectedTools config (ids.flatMap (m.scopesOf t))) {a : Artifact}
    (carried : Duty.toolAt? config s.logicalId s.version (m.scopesOf t id) = some a) :
    s.payload = some a := by
  obtain ⟨selected, diagnostics, ran, known⟩ := fetches
  obtain ⟨selected', diagnostics', ran', known'⟩ := first
  have member : s ∈ selected := by simpa only [selectedTools, ran] using selects
  have same (other : ModuleId) : other ∈ ids ↔ other ∈ id :: ids := by
    rw [List.mem_cons, or_iff_right_of_imp]
    rintro rfl
    exact visited
  have alike : Alike (toolDemands config (ids.flatMap (m.scopesOf t)))
      (toolDemands config ((id :: ids).flatMap (m.scopesOf t))) :=
    alike_addAll fun q => by simp only [List.mem_flatMap, same]
  have held : (versionsOf (toolDemands config ((id :: ids).flatMap (m.scopesOf t)))
      s.logicalId)[s.version]?.map Requested.payload = some (some a) := by
    rw [toolDemands, Duty.payload_tools, List.flatMap_cons, Duty.toolAt?_append, carried]
    rfl
  have stands := alike.mem_select ran ran' member held
  have listed : a.key ∈ (Duty.chosen selected').map Artifact.key :=
    List.mem_map.mpr ⟨a, List.mem_filterMap.mpr ⟨_, stands, rfl⟩, rfl⟩
  rw [known', ← known] at listed
  obtain ⟨b, chosen, key⟩ := List.mem_map.mp listed
  obtain ⟨s', member', payload⟩ := List.mem_filterMap.mp chosen
  -- The other artifact of that coordinate is for the same tool, so it is this one.
  obtain ⟨b', payload', tool', -, binds'⟩ := payload_of_selected ran member'
  obtain rfl : b = b' := Option.some.inj (payload.symm.trans payload')
  obtain ⟨⟨scope, own, inside⟩, tool, -⟩ := Duty.toolAt?_eq_some carried
  have binds : m.resolver.Binds t a :=
    bound_of_mem_scopesOf own a (by simp [Scope.artifacts, inside])
  have named : s.logicalId = s'.logicalId := by
    rw [← key, tool'] at tool
    exact (Option.some.inj tool).symm
  obtain rfl : s = s' := eq_of_mem_select ran member member' named
  rw [payload, binds'.eq binds key]

/-- Modules agree on tools if the same is fetched whichever of them comes first. -/
theorem toolsAgree_of_fetches {config : ToolsConfig} {keys : List ArtifactKey}
    (fetches : FetchesTools config (ids.flatMap (m.scopesOf t)) keys)
    (first : ∀ id ∈ ids, FetchesTools config ((id :: ids).flatMap (m.scopesOf t)) keys) :
    ToolsAgree config m t ids := by
  intro s selects id visited id' visited' a carried a' carried'
  have stands := payload_of_fetches fetches visited (first id visited) selects carried
  have stands' := payload_of_fetches fetches visited' (first id' visited') selects carried'
  exact Option.some.inj (stands.symm.trans stands')

end ScopeMemo

end RuleDepot
