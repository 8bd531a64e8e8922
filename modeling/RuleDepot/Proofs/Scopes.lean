import RuleDepot.Collector.Duty
import RuleDepot.Proofs.Coordinates
import RuleDepot.Proofs.Running
/-!
What the artifacts of a scope are.  Each is what the resolver finds for its coordinate, whoever asks.
So over files that stay as they are, two scopes that need the same identity at the same version need
the same artifact, except for tools, whose identity leaves out the classifier.
-/

namespace RuleDepot

open Running

/-- A coordinate is bound to a file only, and the artifact says to which. -/
theorem Artifact.bind_ok {t : Tree} {mode : HashMode} {origin : Origin} {key : ArtifactKey}
    {source : Path} {a : Artifact} (bound : Artifact.bind t mode origin key source = .ok a) :
    t.isFile source = true ∧ a.key = key ∧ a.source = source ∧ a.origin = origin := by
  unfold Artifact.bind at bound
  split at bound
  · cases bound
  · rename_i present
    have file : t.isFile source = true := by simpa using present
    split at bound
    · cases bound
      exact ⟨file, rfl, rfl, rfl⟩
    · split at bound
      · cases bound
        exact ⟨file, rfl, rfl, rfl⟩
      · cases bound

theorem Artifact.key_of_bind {t : Tree} {mode : HashMode} {origin : Origin} {key : ArtifactKey}
    {source : Path} {a : Artifact} (bound : Artifact.bind t mode origin key source = .ok a) :
    a.key = key :=
  (bind_ok bound).2.1

namespace Resolver

variable {r : Resolver} {t : Tree} {key : ArtifactKey} {a : Artifact} {who who' : Option String}

/-- Where the file is that was found for a coordinate. -/
def placeOf (r : Resolver) (found : Path) : Path :=
  if found.isAbsolute then found else r.workspace / found

/-- A coordinate resolves to the file that is found for it; who asks matters only for the refusal. -/
theorem resolve_eq_ok_iff : r.resolve t key who = .ok a ↔ ∃ found, r.find? t key = some found ∧
    Artifact.bind t r.hashMode (r.originOf (r.placeOf found)) key (r.placeOf found) = .ok a := by
  unfold resolve
  cases found : r.find? t key with
  | none => simp
  | some path =>
    simp only [Option.some.injEq, exists_eq_left', placeOf]
    generalize (if path.isAbsolute then path else r.workspace / path) = source
    split
    · rename_i refused
      simp [refused]
    · rfl

/-- A coordinate resolves to a file at the place that was found, and that place decides on its
origin. -/
theorem source_of_resolve (resolved : r.resolve t key who = .ok a) :
    ∃ found, r.find? t key = some found ∧ t.isFile (r.placeOf found) = true ∧
      a.source = r.placeOf found ∧ a.origin = r.originOf (r.placeOf found) := by
  obtain ⟨found, looked, bound⟩ := resolve_eq_ok_iff.mp resolved
  obtain ⟨file, -, source, origin⟩ := Artifact.bind_ok bound
  exact ⟨found, looked, file, source, origin⟩

/-- An artifact is what the resolver finds for its coordinate. -/
def Binds (r : Resolver) (t : Tree) (a : Artifact) : Prop :=
  r.resolve t a.key none = .ok a

private theorem binds_of_resolve (resolved : r.resolve t key who = .ok a) : r.Binds t a := by
  have found := resolve_eq_ok_iff.mp resolved
  obtain rfl : a.key = key := Artifact.key_of_bind found.choose_spec.2
  exact resolve_eq_ok_iff.mpr found

/-- A coordinate is bound in one way. -/
theorem Binds.eq {b : Artifact} (binds : r.Binds t a) (binds' : r.Binds t b) (keys : a.key = b.key) :
    a = b := by
  rw [Binds, keys] at binds
  exact Except.ok.inj (binds.symm.trans binds')

theorem binds_of_gather {keys : List ArtifactKey} {found : List Artifact} {missing : List String}
    (gathered : r.gather t who keys = .ok (found, missing)) : ∀ a ∈ found, r.Binds t a := by
  induction keys generalizing found missing with
  | nil =>
    cases gathered
    simp
  | cons key rest ih =>
    rw [gather] at gathered
    cases resolved : r.resolve t key who with
    | ok a =>
      rw [resolved] at gathered
      obtain ⟨others, later, done⟩ := ok_of_bind gathered
      cases done
      exact List.forall_mem_cons.mpr ⟨binds_of_resolve resolved, ih later⟩
    | error e =>
      rw [resolved] at gathered
      cases e with
      | unresolvedDependency coordinate requestedBy =>
        obtain ⟨others, later, done⟩ := ok_of_bind gathered
        cases done
        exact ih later
      | _ => cases gathered

end Resolver

namespace Scope

variable {p : Project} {r : Resolver} {t : Tree} {scope scope' : Scope}

/-- The artifacts that a scope holds for any purpose. -/
def artifacts (s : Scope) : List Artifact :=
  s.externalArtifacts ++ s.annotationProcessors ++ s.transforms

/-- Every artifact of a scope is what the resolver finds. -/
def Bound (s : Scope) (r : Resolver) (t : Tree) : Prop :=
  ∀ a ∈ s.artifacts, r.Binds t a

private theorem binds_of_bindEdges {who : String} {declared : List Dependency} {edges : List Edge}
    {missing : List String} (bound : bindEdges p r t who declared = .ok (edges, missing)) :
    ∀ a ∈ edges.filterMap Edge.artifact?, r.Binds t a := by
  induction declared generalizing edges missing with
  | nil =>
    cases bound
    simp
  | cons dependency rest ih =>
    cases dependency with
    | module id =>
      rw [bindEdges] at bound
      split at bound
      · cases bound
      · obtain ⟨⟨others, _⟩, later, done⟩ := ok_of_bind bound
        cases done
        intro a member
        exact ih later a (by simpa [Edge.artifact?] using member)
    | external key =>
      rw [bindEdges] at bound
      cases resolved : r.resolve t key (some who) with
      | ok a =>
        rw [resolved] at bound
        obtain ⟨others, later, done⟩ := ok_of_bind bound
        cases done
        exact List.forall_mem_cons.mpr ⟨Resolver.binds_of_resolve resolved, ih later⟩
      | error e =>
        rw [resolved] at bound
        cases e with
        | unresolvedDependency coordinate requestedBy =>
          obtain ⟨others, later, done⟩ := ok_of_bind bound
          cases done
          exact ih later
        | _ => cases bound

/-- A scope that was resolved is bound. -/
theorem bound_of_resolve {id : ScopeId} (resolved : resolve p r t id = .ok scope) :
    scope.Bound r t := by
  unfold resolve at resolved
  split at resolved
  · cases resolved
  · rename_i snapshot known
    split at resolved
    · cases resolved
      intro a member
      simp [artifacts, externalArtifacts, empty] at member
    · rename_i set declared
      unfold ofSourceSet at resolved
      obtain ⟨⟨compile, _⟩, compiled, resolved⟩ := ok_of_bind resolved
      obtain ⟨⟨runtime, _⟩, ran, resolved⟩ := ok_of_bind resolved
      obtain ⟨⟨processors, _⟩, processed, resolved⟩ := ok_of_bind resolved
      obtain ⟨⟨transforms, _⟩, transformed, resolved⟩ := ok_of_bind resolved
      simp only at resolved
      split at resolved
      · cases resolved
        intro a member
        simp only [artifacts, externalArtifacts, List.filterMap_append, List.mem_append] at member
        rcases member with ((member | member) | member) | member
        · exact binds_of_bindEdges compiled a member
        · exact binds_of_bindEdges ran a member
        · exact Resolver.binds_of_gather processed a member
        · exact Resolver.binds_of_gather transformed a member
      · cases resolved

end Scope

namespace Duty

variable {r : Resolver} {t : Tree} {duty : Duty} {scope scope' : Scope} {need need' : Need}

/-- What a duty that is not about tools needs is a wish for something configured, or an artifact of
the scope under its own identity and version. -/
theorem needs_cases (wished : ∀ config, duty ≠ .tools config) (needed : need ∈ duty.needs scope) :
    (duty.takesArtifacts = false ∧ need.artifact = none) ∨
      duty.takesArtifacts = true ∧ ∃ a ∈ scope.artifacts, need = .ofArtifact a := by
  cases duty with
  | dependencies policy forced =>
    simp only [needs, List.mem_map, List.mem_filter] at needed
    obtain ⟨a, ⟨member, -⟩, rfl⟩ := needed
    exact Or.inr ⟨rfl, a, by simp [Scope.artifacts, member], rfl⟩
  | processors policy =>
    obtain ⟨a, member, rfl⟩ := List.mem_map.mp needed
    exact Or.inr ⟨rfl, a, by simp [Scope.artifacts, member], rfl⟩
  | lint config =>
    simp only [needs] at needed
    split at needed
    · split at needed
      · cases needed
      · obtain rfl := List.mem_singleton.mp needed
        exact Or.inl ⟨rfl, rfl⟩
    · cases needed
  | runtime language config =>
    simp only [needs] at needed
    split at needed
    · obtain rfl := List.mem_singleton.mp needed
      exact Or.inl ⟨rfl, rfl⟩
    · cases needed
  | transforms config =>
    obtain ⟨a, member, rfl⟩ := List.mem_map.mp needed
    exact Or.inr ⟨rfl, a, by simp [Scope.artifacts, member], rfl⟩
  | robolectric config =>
    simp only [needs] at needed
    split at needed
    · obtain rfl := List.mem_singleton.mp needed
      exact Or.inl ⟨rfl, rfl⟩
    · cases needed
  | tools config => exact absurd rfl (wished config)
  | extra name keys => cases needed

/-- What a duty that is not about tools needs under an identity at a version is the same for all
scopes. -/
theorem need_artifact_eq (wished : ∀ config, duty ≠ .tools config) (bound : scope.Bound r t)
    (bound' : scope'.Bound r t) (needed : need ∈ duty.needs scope)
    (needed' : need' ∈ duty.needs scope') (ids : need.logicalId = need'.logicalId)
    (versions : need.version = need'.version) : need.artifact = need'.artifact := by
  rcases needs_cases wished needed with ⟨wish, none_⟩ | ⟨takes, a, member, rfl⟩
  · rcases needs_cases wished needed' with ⟨-, none_'⟩ | ⟨takes, -⟩
    · rw [none_, none_']
    · simp [wish] at takes
  · rcases needs_cases wished needed' with ⟨wish, -⟩ | ⟨-, b, member', rfl⟩
    · simp [takes] at wish
    · exact congrArg some <| (bound a member).eq (bound' b member')
        (ArtifactKey.eq_of_logicalId ids versions)

end Duty

end RuleDepot
