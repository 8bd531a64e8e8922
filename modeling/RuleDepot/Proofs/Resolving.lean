import Mathlib.Data.List.Find
import RuleDepot.Collector.Plan
import RuleDepot.Proofs.Files.Repeating
import RuleDepot.Proofs.Scopes
/-!
What resolution depends on.  A coordinate is looked for at a few paths, and what it resolves to is
settled by the files there.  Everything that is resolved on top of that, scopes and plans, depends on
the files in no other way.
-/

namespace RuleDepot

variable {r : Resolver} {t u : Tree} {inner : Location → Prop}

namespace Resolver

/-- The paths at which a coordinate is looked for. -/
def sources (r : Resolver) (key : ArtifactKey) : List Path :=
  match r.table[key]? with
  | some found => [r.placeOf found]
  | none => r.repositories.flatMap fun repository =>
      (repository.candidates key).flatMap fun found => [found, r.placeOf found]

/-- Whatever can be found keeps clear of some places on its way. -/
def Clear (r : Resolver) (inner : Location → Prop) (t : Tree) : Prop :=
  ∀ key, ∀ p ∈ r.sources key, t.isFile p = true → ∀ place, t.Passes p place → ¬ inner place

/-- The resolver finds the same files in two trees. -/
def Alike (r : Resolver) (t u : Tree) : Prop :=
  ∀ key, ∀ p ∈ r.sources key,
    u.isFile p = t.isFile p ∧ (t.isFile p = true → u.status p = t.status p)

/-- Trees in which all that can be found keeps clear of where they differ are alike. -/
theorem alike_of_clear (clear : r.Clear inner t) (clear' : r.Clear inner u)
    (same : Tree.SameBut inner t u) : r.Alike t u := by
  intro key p member
  have settled : t.isFile p = true ∨ u.isFile p = true → u.status p = t.status p := by
    rintro (file | file)
    · exact same.status fun passes => clear key p member file _ passes
    · exact same.status fun passes =>
        clear' key p member file _ ((Tree.passes_congr same.workingDir p _).mpr passes)
  refine ⟨?_, fun file => settled (Or.inl file)⟩
  cases here : t.isFile p with
  | true => rw [← here, Tree.isFile, Tree.isFile, settled (Or.inl here)]
  | false =>
    cases there : u.isFile p with
    | false => rfl
    | true => rw [← here, ← there, Tree.isFile, Tree.isFile, settled (Or.inr there)]

/-- Files that are the same are found as far from some places. -/
theorem Clear.congr (clear : r.Clear inner t) (workingDir : u.workingDir = t.workingDir)
    (same : ∀ place, u.node? place = t.node? place) : r.Clear inner u := by
  have agree : Tree.SameBut (fun _ => False) t u := ⟨workingDir, fun _ => same _⟩
  intro key p member file place passes
  refine clear key p member ?_ place ((Tree.passes_congr workingDir p place).mp passes)
  rwa [Tree.isFile, agree.status fun _ => id] at file

/-- What can be found far from some places was found far from them before there was more. -/
theorem Clear.before {allowed : Location → Node → Prop} (clear : r.Clear inner u)
    (grown : Tree.Grown allowed t u) : r.Clear inner t :=
  fun key p member file place passes => clear key p member (grown.isFile file) place
    ((Tree.passes_congr grown.workingDir p place).mpr passes)

private theorem placeOf_mem_sources {key : ArtifactKey} {found : Path}
    (looked : r.find? t key = some found) :
    r.placeOf found ∈ r.sources key := by
  unfold find? at looked
  unfold sources
  cases known : r.table[key]? with
  | some path =>
    rw [known] at looked
    cases looked
    exact List.mem_singleton_self _
  | none =>
    rw [known] at looked
    obtain ⟨repository, member, inside⟩ := List.exists_of_findSome?_eq_some looked
    have candidate := List.mem_of_find?_eq_some inside
    exact List.mem_flatMap.mpr ⟨repository, member, List.mem_flatMap.mpr ⟨found, candidate, by simp⟩⟩

/-- Whatever a resolver binds was found at one of its paths. -/
theorem Binds.source_mem {a : Artifact} (binds : r.Binds t a) :
    a.source ∈ r.sources a.key ∧ t.isFile a.source = true := by
  obtain ⟨found, looked, file, source, -⟩ := source_of_resolve binds
  rw [source]
  exact ⟨placeOf_mem_sources looked, file⟩

private theorem findSome?_congr {α β : Type} {l : List α} {f g : α → Option β}
    (same : ∀ x ∈ l, f x = g x) : l.findSome? f = l.findSome? g := by
  induction l with
  | nil => rfl
  | cons x rest ih =>
    rw [List.findSome?_cons, List.findSome?_cons, same x List.mem_cons_self,
      ih fun y member => same y (List.mem_cons_of_mem _ member)]

section SameFiles

variable {key : ArtifactKey} (same : ∀ p ∈ r.sources key,
  u.isFile p = t.isFile p ∧ (t.isFile p = true → u.status p = t.status p))

include same

/-- Where the same files are found for a coordinate, the same one is found first. -/
theorem find?_of_sources : r.find? u key = r.find? t key := by
  unfold sources at same
  unfold find?
  cases known : r.table[key]? with
  | some path => rfl
  | none =>
    rw [known] at same
    refine findSome?_congr fun repository member => List.find?_congr fun p candidate => (same p ?_).1
    exact List.mem_flatMap.mpr ⟨repository, member, List.mem_flatMap.mpr ⟨p, candidate, by simp⟩⟩

/-- Where the same files are found for a coordinate, it resolves alike. -/
theorem resolve_of_sources (who : Option String) : r.resolve u key who = r.resolve t key who := by
  unfold resolve
  rw [find?_of_sources same]
  cases looked : r.find? t key with
  | none => rfl
  | some found =>
    obtain ⟨file, held⟩ := same _ (placeOf_mem_sources looked)
    have bound (origin : Origin) : Artifact.bind u r.hashMode origin key (r.placeOf found) =
        Artifact.bind t r.hashMode origin key (r.placeOf found) := by
      unfold Artifact.bind
      rw [file]
      cases there : t.isFile (r.placeOf found) with
      | false => rfl
      | true => simp only [Tree.sha256, Tree.read, held there]
    simp only
    rw [placeOf] at bound
    rw [bound]

end SameFiles

/-- Coordinates that are resolved alike one by one are resolved alike together. -/
theorem gather_congr {keys : List ArtifactKey} {who : Option String}
    (same : ∀ key ∈ keys, r.resolve u key who = r.resolve t key who) :
    r.gather u who keys = r.gather t who keys := by
  induction keys with
  | nil => rfl
  | cons key rest ih =>
    obtain ⟨own, same⟩ := List.forall_mem_cons.mp same
    simp only [gather, own, ih same]

theorem resolveAll_congr {keys : List ArtifactKey} {who : Option String}
    (same : ∀ key ∈ keys, r.resolve u key who = r.resolve t key who) :
    r.resolveAll u keys who = r.resolveAll t keys who := by
  simp only [resolveAll, gather_congr same]

/-- A resolver that finds the same files resolves every coordinate alike. -/
theorem Alike.resolve_eq (alike : r.Alike t u) (key : ArtifactKey) (who : Option String) :
    r.resolve u key who = r.resolve t key who :=
  resolve_of_sources (alike key) who

private theorem Alike.gather_eq (alike : r.Alike t u) (who : Option String) (keys : List ArtifactKey) :
    r.gather u who keys = r.gather t who keys :=
  gather_congr fun key _ => alike.resolve_eq key who

private theorem Alike.resolveAll_eq (alike : r.Alike t u) (keys : List ArtifactKey) (who : Option String) :
    r.resolveAll u keys who = r.resolveAll t keys who :=
  resolveAll_congr fun key _ => alike.resolve_eq key who

private theorem Alike.resolveSet_eq (alike : r.Alike t u) (name : String) (keys : List ArtifactKey) :
    r.resolveSet u name keys = r.resolveSet t name keys :=
  alike.resolveAll_eq keys _

end Resolver

/-- A scope is resolved alike where the resolver finds the same files. -/
theorem Scope.resolve_alike (alike : r.Alike t u) (p : Project) (id : ScopeId) :
    Scope.resolve p r u id = Scope.resolve p r t id := by
  have bound (who : String) (declared : List Dependency) :
      bindEdges p r u who declared = bindEdges p r t who declared := by
    induction declared with
    | nil => rfl
    | cons dependency rest ih =>
      cases dependency with
      | module id => simp only [bindEdges, ih]
      | external key => simp only [bindEdges, alike.resolve_eq, ih]
  unfold resolve
  split
  · rfl
  · split
    · rfl
    · simp only [ofSourceSet, bound, alike.gather_eq]

/-- A plan is made alike where the resolver finds the same files. -/
theorem Duty.plan_alike (alike : r.Alike t u) (duty : Duty) (demands : Demands) :
    duty.plan u r demands = duty.plan t r demands := by
  cases duty <;>
    simp only [plan, planDependencies, planProcessors, planLint, planRuntime, planTransforms,
      planTools, planSet, planToolchain, alike.resolveAll_eq, alike.resolveSet_eq]

end RuleDepot
