import RuleDepot.Collector.Plan
import RuleDepot.Proofs.Collector.Registering
import RuleDepot.Proofs.Naming
import RuleDepot.Proofs.Scopes
/-!
What is planned.  Whatever a plan fetches was resolved for the configuration when the plan was made,
or was supplied by a scope that was shown before.  A plan names every coordinate once: resolved sets
bind a coordinate in one way, merging leaves one version of each identity, and an identity that is
pinned is taken out of the requests before they are merged.
-/

namespace RuleDepot

open Running Requirements

variable {r : Resolver} {t : Tree} {a b : Artifact} {key : ArtifactKey} {who : Option String}

private theorem Artifact.isDigest_of_bind {mode : HashMode} {origin : Origin} {source : Path}
    (bound : bind t mode origin key source = .ok a) : a.hash.IsDigest := by
  unfold Artifact.bind at bound
  split at bound
  · cases bound
  · split at bound
    · cases bound
      exact ContentHash.isDigest_ofCoordinate key
    · split at bound
      · rename_i digits taken
        cases bound
        obtain ⟨bytes, -, done⟩ := ok_of_bind taken
        cases done
        exact ContentHash.isDigest_sha256 bytes
      · cases bound

namespace Resolver

private theorem key_of_resolve (resolved : r.resolve t key who = .ok a) : a.key = key :=
  Artifact.key_of_bind (resolve_eq_ok_iff.mp resolved).choose_spec.2

theorem Binds.isDigest (binds : r.Binds t a) : a.hash.IsDigest :=
  Artifact.isDigest_of_bind (resolve_eq_ok_iff.mp binds).choose_spec.2

end Resolver

/-- A scope whose artifacts all have digests, as it is with scopes that were resolved. -/
def Scope.Digested (s : Scope) : Prop :=
  ∀ a ∈ s.artifacts, a.hash.IsDigest

theorem Scope.Bound.digested {s : Scope} (bound : s.Bound r t) : s.Digested :=
  fun a member => (bound a member).isDigest

namespace Resolver

private theorem keys_of_gather {keys : List ArtifactKey} {found : List Artifact}
    (gathered : r.gather t who keys = .ok (found, [])) : found.map Artifact.key = keys := by
  induction keys generalizing found with
  | nil =>
    cases gathered
    rfl
  | cons key rest ih =>
    rw [gather] at gathered
    cases resolved : r.resolve t key who with
    | ok a =>
      rw [resolved] at gathered
      obtain ⟨⟨others, missing⟩, later, done⟩ := ok_of_bind gathered
      cases done
      rw [List.map_cons, ih later, key_of_resolve resolved]
    | error e =>
      rw [resolved] at gathered
      cases e with
      | unresolvedDependency coordinate requestedBy =>
        obtain ⟨⟨others, missing⟩, later, done⟩ := ok_of_bind gathered
        cases done
      | _ => cases gathered

/-- If all of a set can be resolved, each coordinate is bound, in order. -/
theorem resolveAll_ok {keys : List ArtifactKey} {found : List Artifact}
    (resolved : r.resolveAll t keys who = .ok found) :
    found.map Artifact.key = keys ∧ ∀ a ∈ found, r.Binds t a := by
  obtain ⟨⟨others, missing⟩, gathered, resolved⟩ := ok_of_bind resolved
  simp only at resolved
  split at resolved
  · rename_i none
    obtain rfl := List.isEmpty_iff.mp none
    cases resolved
    exact ⟨keys_of_gather gathered, binds_of_gather gathered⟩
  · cases resolved

end Resolver

namespace Duty

variable {duty : Duty} {scope : Scope} {scopes : List Scope} {need : Need} {id version : String}
  {requested : Requested (Option Artifact)}

/-- The identity under which a duty records an artifact: for tools the name of the tool. -/
def identity (duty : Duty) (key : ArtifactKey) : Option String :=
  match duty with
  | tools config => toolFor? config key
  | _ => some key.logicalId

/-- An artifact that is needed is one of the scope, under its identity and at its version. -/
theorem need_artifact_spec (needed : need ∈ duty.needs scope) (held : need.artifact = some a) :
    a ∈ scope.artifacts ∧ duty.identity a.key = some need.logicalId ∧
      a.key.version = need.version := by
  by_cases tool : ∃ config, duty = .tools config
  · obtain ⟨config, rfl⟩ := tool
    obtain ⟨b, member, found⟩ := List.mem_filterMap.mp needed
    obtain ⟨name, named, rfl⟩ := Option.map_eq_some_iff.mp found
    obtain rfl : b = a := Option.some.inj held
    exact ⟨by simp [Scope.artifacts, member], named, rfl⟩
  · have wished : ∀ config, duty ≠ .tools config := fun config same => tool ⟨config, same⟩
    rcases needs_cases wished needed with ⟨-, none⟩ | ⟨-, b, member, rfl⟩
    · simp [none] at held
    · obtain rfl : b = a := Option.some.inj held
      refine ⟨member, ?_, rfl⟩
      cases duty with
      | tools config => exact absurd rfl (wished config)
      | _ => rfl

/-- What some scopes ask of a duty. -/
def demands (duty : Duty) (scopes : List Scope) : Demands :=
  addAll ∅ (scopes.flatMap duty.requests)

/-- A version that is known was needed by a scope, and what stands for it was supplied there. -/
theorem needed_of_demands (held : (versionsOf (duty.demands scopes) id)[version]? = some requested) :
    ∃ scope ∈ scopes, ∃ need ∈ duty.needs scope, need.logicalId = id ∧ need.version = version ∧
      need.artifact = requested.payload := by
  rw [demands, (addAll_spec _).2] at held
  have payload := payload_merged (scopes.flatMap duty.requests) id version
  rw [held, Option.map_some, eq_comm, Option.map_eq_some_iff] at payload
  obtain ⟨q, found, supplied⟩ := payload
  obtain ⟨scope, shown, inside⟩ := List.mem_flatMap.mp (List.mem_of_find?_eq_some found)
  obtain ⟨need, needed, rfl⟩ := List.mem_map.mp inside
  have about : need.logicalId = id ∧ need.version = version := by simpa using List.find?_some found
  exact ⟨scope, shown, need, needed, about.1, about.2, supplied⟩

/-- What a scope needs is known. -/
theorem demands_of_needed (shown : scope ∈ scopes) (needed : need ∈ duty.needs scope) :
    ∃ requested, (versionsOf (duty.demands scopes) need.logicalId)[need.version]? =
      some requested := by
  rw [demands, (addAll_spec _).2]
  have member : (⟨need.logicalId, need.version, scope.requester, need.artifact⟩ :
      Request (Option Artifact)) ∈
      about (scopes.flatMap duty.requests) need.logicalId need.version := by
    refine List.mem_filter.mpr ⟨List.mem_flatMap.mpr ⟨scope, shown, ?_⟩, by simp⟩
    exact List.mem_map.mpr ⟨need, needed, rfl⟩
  cases asked : about (scopes.flatMap duty.requests) need.logicalId need.version with
  | nil => simp [asked] at member
  | cons first rest => exact ⟨_, rfl⟩

/-- Requests that were put against artifacts which win over them: some identities are taken out. -/
structure Remaining (whole rest : Demands) : Prop where
  kept : ∀ (id : String) versions, rest[id]? = some versions → whole[id]? = some versions

theorem Remaining.refl (whole : Demands) : Remaining whole whole :=
  ⟨fun _ _ held => held⟩

/-- An artifact that is chosen was supplied by a scope, under the identity that it is chosen for. -/
theorem chosen_spec {rest : Demands} {policy : ConflictPolicy}
    {selected : List (Selected (Option Artifact))} {diagnostics : List Diagnostic}
    (remaining : Remaining (duty.demands scopes) rest)
    (ran : rest.select policy = .ok (selected, diagnostics)) {s : Selected (Option Artifact)}
    (member : s ∈ selected) (held : s.payload = some a) :
    (∃ scope ∈ scopes, a ∈ scope.artifacts) ∧ duty.identity a.key = some s.logicalId ∧
      a.key.version = s.version ∧ s.logicalId ∈ rest := by
  obtain ⟨id, versions, selection, winner, known, -, won, rfl⟩ := (mem_select_iff ran).mp member
  have whole := versionsOf_eq (remaining.kept id versions known)
  rw [← whole] at won
  obtain ⟨scope, shown, need, needed, rfl, same, supplied⟩ := needed_of_demands won
  obtain ⟨inside, identity, version⟩ := need_artifact_spec needed (supplied.trans held)
  refine ⟨⟨scope, shown, inside⟩, identity, version.trans same, ?_⟩
  rw [Std.ExtTreeMap.mem_iff_isSome_getElem?, known]
  rfl

end Duty

namespace Pinning

variable {reason : String → Requested (Option Artifact) → Artifact → String}
  {artifacts : List Artifact} {p : Pinning} {id : String}

theorem open_pin (reason : String → Requested (Option Artifact) → Artifact → String) (p : Pinning)
    (a : Artifact) (id : String) :
    (pin reason p a).open_[id]? = if a.key.logicalId = id then none else p.open_[id]? := by
  unfold pin Requirements.take
  split
  · rename_i rest taken
    obtain ⟨absent, -⟩ := Prod.mk.inj taken
    by_cases same : a.key.logicalId = id
    · rw [if_pos same, ← same, absent]
    · rw [if_neg same]
  · rename_i versions rest taken
    obtain ⟨-, rfl⟩ := Prod.mk.inj taken
    simp only [Std.ExtTreeMap.getElem?_erase, Std.compare_eq_iff_eq]

/-- Exactly the identities of the artifacts are taken out. -/
theorem open_foldl (artifacts : List Artifact) (p : Pinning) (id : String) :
    (artifacts.foldl (pin reason) p).open_[id]? =
      if id ∈ artifacts.map (·.key.logicalId) then none else p.open_[id]? := by
  induction artifacts generalizing p with
  | nil => simp
  | cons a rest ih =>
    rw [List.foldl_cons, ih, open_pin]
    by_cases later : id ∈ rest.map (·.key.logicalId)
    · simp [later]
    · by_cases same : a.key.logicalId = id
      · simp [later, same]
      · simp [later, same, Ne.symm same]

private theorem served_mono (artifacts : List Artifact) (served : key ∈ p.served) :
    key ∈ (artifacts.foldl (pin reason) p).served := by
  induction artifacts generalizing p with
  | nil => exact served
  | cons a rest ih =>
    refine ih ?_
    unfold pin
    split
    · exact served
    · exact List.mem_append_left _ served

/-- Whatever was requested under an identity that is taken out is served. -/
theorem served_of_taken {version : String} {requested : Requested (Option Artifact)}
    (pinned : id ∈ artifacts.map (·.key.logicalId))
    (held : (versionsOf p.open_ id)[version]? = some requested) (payload : requested.payload = some b) :
    b.key ∈ (artifacts.foldl (pin reason) p).served := by
  induction artifacts generalizing p with
  | nil => simp at pinned
  | cons a rest ih =>
    rw [List.foldl_cons]
    by_cases same : a.key.logicalId = id
    · refine served_mono rest ?_
      obtain ⟨versions, known, held⟩ := known_of_version held
      simp only [pin, Requirements.take, same, known]
      refine List.mem_append_right _ (List.mem_filterMap.mpr ⟨(version, requested), ?_, ?_⟩)
      · exact Std.ExtTreeMap.mem_toList_iff_getElem?_eq_some.mpr held
      · simp [payload]
    · have later : id ∈ rest.map (·.key.logicalId) := by
        rcases List.mem_cons.mp pinned with own | later
        · exact absurd own.symm same
        · exact later
      refine ih later ?_
      rw [versionsOf, open_pin, if_neg same]
      exact held

end Pinning

/-- What holds of everything that a plan fetches: it was resolved now or supplied by a scope, and one
coordinate is fetched as one artifact in one way. -/
structure Sound (r : Resolver) (t : Tree) (scopes : List Scope) (fetches : List (Artifact × Bool)) :
    Prop where
  sourced : ∀ f ∈ fetches, r.Binds t f.1 ∨ ∃ scope ∈ scopes, f.1 ∈ scope.artifacts
  single : ∀ f ∈ fetches, ∀ f' ∈ fetches, f.1.key = f'.1.key → f = f'

namespace Duty

variable {duty : Duty} {scopes : List Scope} {plan : Plan} {rest : Demands} {policy : ConflictPolicy}
  {selected : List (Selected (Option Artifact))} {diagnostics : List Diagnostic}

theorem mem_chosen_iff : a ∈ chosen selected ↔ ∃ s ∈ selected, s.payload = some a :=
  List.mem_filterMap

private theorem sound_of_bound {found : List Artifact} (bound : ∀ a ∈ found, r.Binds t a)
    (flag : Bool) : Sound r t scopes (found.map (·, flag)) where
  sourced f member := by
    obtain ⟨a, inside, rfl⟩ := List.mem_map.mp member
    exact Or.inl (bound a inside)
  single f member f' member' same := by
    obtain ⟨a, inside, rfl⟩ := List.mem_map.mp member
    obtain ⟨a', inside', rfl⟩ := List.mem_map.mp member'
    rw [(bound a inside).eq (bound a' inside') same]

/-- No artifact is chosen under the identity of one that wins. -/
theorem chosen_apart {pinned : List Artifact} (remaining : Remaining (duty.demands scopes) rest)
    (taken : ∀ a ∈ pinned, ∀ id, duty.identity a.key = some id → id ∉ rest)
    (ran : rest.select policy = .ok (selected, diagnostics)) :
    ∀ a ∈ pinned, ∀ b ∈ chosen selected, a.key ≠ b.key := by
  intro a member b member' same
  obtain ⟨s, picked, held⟩ := mem_chosen_iff.mp member'
  obtain ⟨-, identity, -, present⟩ := chosen_spec remaining ran picked held
  exact taken a member s.logicalId (same ▸ identity) present

private theorem sound_of_merge (pinned : List Artifact) (bound : ∀ a ∈ pinned, r.Binds t a)
    (remaining : Remaining (duty.demands scopes) rest)
    (taken : ∀ a ∈ pinned, ∀ id, duty.identity a.key = some id → id ∉ rest)
    (ran : rest.select policy = .ok (selected, diagnostics)) (flag : Bool) :
    Sound r t scopes (pinned.map (·, true) ++ (chosen selected).map (·, flag)) := by
  have apart := chosen_apart remaining taken ran
  have pinnedSound : Sound r t scopes (pinned.map (·, true)) := sound_of_bound bound true
  constructor
  · intro f member
    rcases List.mem_append.mp member with first | second
    · exact pinnedSound.sourced f first
    · obtain ⟨b, inside, rfl⟩ := List.mem_map.mp second
      obtain ⟨s, picked, held⟩ := mem_chosen_iff.mp inside
      exact Or.inr (chosen_spec remaining ran picked held).1
  · intro f member f' member' same
    rcases List.mem_append.mp member with first | second <;>
      rcases List.mem_append.mp member' with first' | second'
    · exact pinnedSound.single f first f' first' same
    · obtain ⟨a, inside, rfl⟩ := List.mem_map.mp first
      obtain ⟨b, inside', rfl⟩ := List.mem_map.mp second'
      exact absurd same (apart a inside b inside')
    · obtain ⟨b, inside, rfl⟩ := List.mem_map.mp second
      obtain ⟨a, inside', rfl⟩ := List.mem_map.mp first'
      exact absurd same.symm (apart a inside' b inside)
    · obtain ⟨b, inside, rfl⟩ := List.mem_map.mp second
      obtain ⟨b', inside', rfl⟩ := List.mem_map.mp second'
      obtain ⟨s, picked, held⟩ := mem_chosen_iff.mp inside
      obtain ⟨s', picked', held'⟩ := mem_chosen_iff.mp inside'
      obtain ⟨-, identity, -⟩ := chosen_spec remaining ran picked held
      obtain ⟨-, identity', -⟩ := chosen_spec remaining ran picked' held'
      have ids : s.logicalId = s'.logicalId :=
        Option.some.inj (identity.symm.trans ((congrArg duty.identity same).trans identity'))
      obtain rfl := eq_of_mem_select ran picked picked' ids
      rw [Option.some.inj (held.symm.trans held')]

/-- What remains of requests when the identities of some artifacts are taken out. -/
theorem remaining_of_taken {pinned : List Artifact} {demands rest : Demands}
    (opened : ∀ id : String, rest[id]? =
      if id ∈ pinned.map (·.key.logicalId) then none else demands[id]?) :
    Remaining demands rest ∧ ∀ a ∈ pinned, a.key.logicalId ∉ rest := by
  refine ⟨⟨fun id versions held => ?_⟩, fun a member => ?_⟩
  · rw [opened] at held
    split at held
    · cases held
    · exact held
  · rw [Std.ExtTreeMap.mem_iff_isSome_getElem?, opened, if_pos (List.mem_map_of_mem member)]
    simp

/-- What the external artifacts are planned from: the forced ones, and one version of each identity
that is requested and not forced. -/
theorem planDependencies_ok {forced : List ArtifactKey} {demands : Demands}
    (ran : planDependencies policy forced t r demands = .ok plan) :
    ∃ (pinned : List Artifact) (rest : Demands) (selected : List (Selected (Option Artifact)))
        (diagnostics : List Diagnostic), pinned.map Artifact.key = forced ∧
      (∀ a ∈ pinned, r.Binds t a) ∧
      (∀ id : String, rest[id]? =
        if id ∈ forced.map ArtifactKey.logicalId then none else demands[id]?) ∧
      rest.select policy = .ok (selected, diagnostics) ∧
      plan.fetches = pinned.map (·, true) ++ (chosen selected).map (·, false) ∧
      ∀ (id version : String) (requested : Requested (Option Artifact)) (b : Artifact),
        (versionsOf demands id)[version]? = some requested → requested.payload = some b →
          b.key ∈ plan.served := by
  obtain ⟨pinned, resolved, ran⟩ := ok_of_bind ran
  obtain ⟨⟨selected, diagnostics⟩, selects, done⟩ := ok_of_bind ran
  cases done
  obtain ⟨keys, bound⟩ := Resolver.resolveAll_ok resolved
  have ids : forced.map ArtifactKey.logicalId = pinned.map (·.key.logicalId) := by
    rw [← keys, List.map_map]
    rfl
  refine ⟨pinned, _, selected, diagnostics, keys, bound, fun id => ?_, selects, rfl, ?_⟩
  · rw [ids]
    exact Pinning.open_foldl pinned _ id
  · intro id version requested b held payload
    by_cases taken : id ∈ pinned.map (·.key.logicalId)
    · exact List.mem_append_left _ (Pinning.served_of_taken taken held payload)
    · refine List.mem_append_right _ (List.mem_filterMap.mpr ⟨(id, version, requested), ?_, ?_⟩)
      · obtain ⟨versions, known, held⟩ := known_of_version held
        refine List.mem_flatMap.mpr ⟨(id, versions), ?_, List.mem_map.mpr ⟨(version, requested), ?_, rfl⟩⟩
        · rw [Std.ExtTreeMap.mem_toList_iff_getElem?_eq_some]
          exact (Pinning.open_foldl pinned _ id).trans ((if_neg taken).trans known)
        · exact Std.ExtTreeMap.mem_toList_iff_getElem?_eq_some.mpr held
      · simp [payload]

/-- The artifacts for transformations are planned in the same way, but all of them are copied. -/
theorem planTransforms_ok {config : TransformConfig} {demands : Demands}
    (ran : planTransforms config t r demands = .ok plan) :
    ∃ (pinned : List Artifact) (rest : Demands) (selected : List (Selected (Option Artifact)))
        (diagnostics : List Diagnostic), pinned.map Artifact.key = config.dependencies ∧
      (∀ a ∈ pinned, r.Binds t a) ∧
      (∀ id : String, rest[id]? =
        if id ∈ pinned.map (·.key.logicalId) then none else demands[id]?) ∧
      rest.select config.conflictPolicy = .ok (selected, diagnostics) ∧
      plan.fetches = pinned.map (·, true) ++ (chosen selected).map (·, true) := by
  obtain ⟨pinned, resolved, ran⟩ := ok_of_bind ran
  obtain ⟨⟨selected, diagnostics⟩, selects, done⟩ := ok_of_bind ran
  cases done
  obtain ⟨keys, bound⟩ := Resolver.resolveAll_ok resolved
  exact ⟨pinned, _, selected, diagnostics, keys, bound, Pinning.open_foldl pinned _, selects,
    List.map_append⟩

/-- Modules at a version are the coordinates of these modules, in order. -/
theorem forall₂_of_modulesAt {modules : List ArtifactModule} {version : String} {keys : List ArtifactKey}
    (named : modulesAt modules version = .ok keys) :
    List.Forall₂ (fun m key => ArtifactModule.atVersion m version = .ok key) modules keys := by
  have each : modules.mapM (fun m : ArtifactModule => m.atVersion version) = .ok keys := by
    unfold modulesAt Except.mapError at named
    split at named
    · cases named
    · rename_i found
      cases named
      exact found
  clear named
  induction modules generalizing keys with
  | nil =>
    cases each
    exact .nil
  | cons m rest ih =>
    rw [List.mapM_cons] at each
    obtain ⟨key, first, each⟩ := ok_of_bind each
    obtain ⟨others, later, done⟩ := ok_of_bind each
    cases done
    exact .cons first (ih later)

private theorem sound_toolchain {name version : String} {modules : List ArtifactModule}
    (ran : planToolchain name modules version t r diagnostics = .ok plan) :
    Sound r t scopes plan.fetches := by
  obtain ⟨keys, -, ran⟩ := ok_of_bind ran
  obtain ⟨found, resolved, done⟩ := ok_of_bind ran
  cases done
  exact sound_of_bound (Resolver.resolveAll_ok resolved).2 false

private theorem sound_set {name : String} {keys : List ArtifactKey}
    (ran : planSet name keys t r = .ok plan) : Sound r t scopes plan.fetches := by
  obtain ⟨found, resolved, done⟩ := ok_of_bind ran
  cases done
  exact sound_of_bound (Resolver.resolveAll_ok resolved).2 false

/-- Every plan for requests of scopes is sound. -/
theorem plan_sound (ran : duty.plan t r (duty.demands scopes) = .ok plan) :
    Sound r t scopes plan.fetches := by
  cases duty with
  | dependencies policy forced =>
    obtain ⟨pinned, rest, selected, diagnostics, keys, bound, opened, selects, fetches, -⟩ :=
      planDependencies_ok ran
    rw [← keys, List.map_map] at opened
    obtain ⟨remaining, taken⟩ := remaining_of_taken opened
    rw [fetches]
    refine sound_of_merge pinned bound remaining (fun a member id identity => ?_) selects false
    obtain rfl : a.key.logicalId = id := Option.some.inj identity
    exact taken a member
  | processors policy =>
    obtain ⟨⟨selected, diagnostics⟩, selects, done⟩ := ok_of_bind ran
    cases done
    exact sound_of_merge [] (by simp) (.refl _) (by simp) selects true
  | lint config =>
    obtain ⟨⟨version, diagnostics⟩, -, ran⟩ := ok_of_bind ran
    exact sound_toolchain ran
  | runtime language config =>
    obtain ⟨⟨version, diagnostics⟩, -, ran⟩ := ok_of_bind ran
    cases version with
    | some version => exact sound_toolchain ran
    | none =>
      cases ran
      exact ⟨by simp [Plan.ofFetches], by simp [Plan.ofFetches]⟩
  | transforms config =>
    obtain ⟨pinned, rest, selected, diagnostics, -, bound, opened, selects, fetches⟩ :=
      planTransforms_ok ran
    obtain ⟨remaining, taken⟩ := remaining_of_taken opened
    rw [fetches]
    refine sound_of_merge pinned bound remaining (fun a member id identity => ?_) selects true
    obtain rfl : a.key.logicalId = id := Option.some.inj identity
    exact taken a member
  | robolectric config => exact sound_set ran
  | tools config =>
    obtain ⟨⟨selected, diagnostics⟩, selects, done⟩ := ok_of_bind ran
    cases done
    exact sound_of_merge [] (by simp) (.refl _) (by simp) selects true
  | extra name keys => exact sound_set ran

end Duty

end RuleDepot
