import Mathlib.Data.List.Induction
import RuleDepot.Proofs.Files.Growth
import RuleDepot.Proofs.Naming
import RuleDepot.Proofs.Scopes
/-!
What becomes of a source set.  Of each list the first mention of everything counts.  A reference to a
module that the project does not have is told before any missing file; coordinates without a file are
told all at once, in the order in which the four lists first mention them; and if there are neither,
the scope holds what was declared, each coordinate bound to its own artifact.
-/

namespace RuleDepot

open Running

section FirstMentions

variable {α β : Type} [DecidableEq α] [DecidableEq β] {l l' m m' : List α}

private theorem eraseDups_concat (l : List α) (a : α) :
    (l ++ [a]).eraseDups = if a ∈ l then l.eraseDups else l.eraseDups ++ [a] := by
  rw [List.eraseDups_append]
  by_cases known : a ∈ l <;> simp [List.removeAll, List.eraseDups_cons, known]

/-- What is made of the first mentions is what is first mentioned, if nothing is made of two things. -/
theorem eraseDups_filterMap {f : α → Option β} (inj : ∀ a b c, f a = some c → f b = some c → a = b)
    (l : List α) : (l.filterMap f).eraseDups = l.eraseDups.filterMap f := by
  induction l using List.reverseRecOn with
  | nil => rfl
  | append_singleton l a ih =>
    rw [List.filterMap_append, eraseDups_concat]
    cases made : f a with
    | none => split <;> simp [made, ih]
    | some c =>
      have mentioned : c ∈ l.filterMap f ↔ a ∈ l := by
        rw [List.mem_filterMap]
        constructor
        · rintro ⟨b, member, same⟩
          exact inj a b c made same ▸ member
        · intro member
          exact ⟨a, member, made⟩
      have single : [a].filterMap f = [c] := by simp [made]
      rw [single, eraseDups_concat, ih]
      split <;> simp_all

private theorem eraseDups_filter (p : α → Bool) (l : List α) :
    (l.filter p).eraseDups = l.eraseDups.filter p := by
  rw [← List.filterMap_eq_filter]
  apply eraseDups_filterMap
  intro a b c first second
  simp_all

private theorem eraseDups_map {f : α → β} (inj : Function.Injective f) (l : List α) :
    (l.map f).eraseDups = l.eraseDups.map f := by
  rw [← List.filterMap_eq_map]
  apply eraseDups_filterMap
  intro a b c first second
  exact inj (Option.some.inj (first.trans second.symm))

private theorem eraseDups_eraseDups (l : List α) : l.eraseDups.eraseDups = l.eraseDups := by
  induction l using List.reverseRecOn with
  | nil => rfl
  | append_singleton l a ih =>
    rw [eraseDups_concat]
    split
    · exact ih
    · rename_i fresh
      rw [eraseDups_concat, ih, if_neg (mt List.mem_eraseDups.mp fresh)]

private theorem eraseDups_append_congr (front : l.eraseDups = l'.eraseDups)
    (back : m.eraseDups = m'.eraseDups) : (l ++ m).eraseDups = (l' ++ m').eraseDups := by
  have same (a : α) : a ∈ l ↔ a ∈ l' := by
    rw [← List.mem_eraseDups, front, List.mem_eraseDups]
  simp only [List.eraseDups_append, List.removeAll, List.elem_eq_mem, same, eraseDups_filter, front,
    back]

private theorem find?_eraseDups (p : α → Bool) (l : List α) : l.eraseDups.find? p = l.find? p := by
  induction l using List.reverseRecOn with
  | nil => rfl
  | append_singleton l a ih =>
    rw [eraseDups_concat, List.find?_append, ← ih]
    split
    · rename_i known
      cases found : l.eraseDups.find? p with
      | some b => rfl
      | none =>
        have refused := List.find?_eq_none.mp found a (List.mem_eraseDups.mpr known)
        simp [refused]
    · rw [List.find?_append]

end FirstMentions

namespace Artifact

variable {t : Tree} {mode : HashMode} {origin : Origin} {key : ArtifactKey} {source : Path}

/-- A file that is there can be read, so its digest can be taken. -/
theorem exists_of_isFile (mode : HashMode) (origin : Origin) (key : ArtifactKey)
    (stands : t.isFile source = true) : ∃ hash,
    bind t mode origin key source = .ok ⟨key, source, hash, origin⟩ := by
  obtain ⟨bytes, found⟩ := Tree.isFile_iff.mp stands
  have digest : t.sha256 source = .ok (Digest.sha256Hex bytes) := by
    rw [Tree.sha256, Tree.read_eq_ok_iff.mpr found]
    rfl
  unfold bind
  rw [stands]
  cases mode with
  | coordinate => exact ⟨_, rfl⟩
  | content =>
    rw [digest]
    exact ⟨_, rfl⟩

private theorem bind_of_absent (mode : HashMode) (origin : Origin) (key : ArtifactKey)
    (absent : t.isFile source = false) :
    bind t mode origin key source = .error (.unresolvedDependency key.text none) := by
  unfold bind
  rw [absent]
  rfl

end Artifact

namespace Resolver

variable {r : Resolver} {t : Tree} {key : ArtifactKey} {keys : List ArtifactKey}

/-- A coordinate resolves: a path is found for it, and a file stands there. -/
def Resolves (r : Resolver) (t : Tree) (key : ArtifactKey) : Prop :=
  ∃ found, r.find? t key = some found ∧ t.isFile (r.placeOf found) = true

instance (r : Resolver) (t : Tree) (key : ArtifactKey) : Decidable (r.Resolves t key) :=
  decidable_of_iff ((r.find? t key).any fun found => t.isFile (r.placeOf found))
    (Option.any_eq_true _ _)

/-- A file that is there can be read, so its coordinate is bound to it, whoever asks. -/
theorem exists_of_resolves (resolves : r.Resolves t key) :
    ∃ a, a.key = key ∧ r.Binds t a ∧ ∀ who, r.resolve t key who = .ok a := by
  obtain ⟨found, looked, stands⟩ := resolves
  obtain ⟨hash, bound⟩ := Artifact.exists_of_isFile r.hashMode (r.originOf (r.placeOf found)) key stands
  refine ⟨⟨key, r.placeOf found, hash, r.originOf (r.placeOf found)⟩, rfl, ?_, fun who => ?_⟩
  · exact resolve_eq_ok_iff.mpr ⟨found, looked, bound⟩
  · exact resolve_eq_ok_iff.mpr ⟨found, looked, bound⟩

theorem resolve_of_not_resolves (unresolved : ¬ r.Resolves t key) (who : Option String) :
    r.resolve t key who = .error (.unresolvedDependency key.text who) := by
  unfold resolve
  cases looked : r.find? t key with
  | none => rfl
  | some found =>
    have absent : t.isFile (r.placeOf found) = false := by
      simpa [Resolves, looked] using unresolved
    have refused := Artifact.bind_of_absent r.hashMode (r.originOf (r.placeOf found)) key absent
    unfold placeOf at refused
    simp only [refused]

/-- The coordinates of a list that do not resolve, as they are written. -/
def unresolved (r : Resolver) (t : Tree) (keys : List ArtifactKey) : List String :=
  (keys.filter fun key => ¬ r.Resolves t key).map ArtifactKey.text

private theorem unresolved_cons_of_resolves (resolves : r.Resolves t key) (rest : List ArtifactKey) :
    r.unresolved t (key :: rest) = r.unresolved t rest := by
  simp [unresolved, resolves]

private theorem unresolved_cons_of_not_resolves (absent : ¬ r.Resolves t key) (rest : List ArtifactKey) :
    r.unresolved t (key :: rest) = key.text :: r.unresolved t rest := by
  simp [unresolved, absent]

private theorem unresolved_append (keys keys' : List ArtifactKey) :
    r.unresolved t (keys ++ keys') = r.unresolved t keys ++ r.unresolved t keys' := by
  simp [unresolved]

private theorem unresolved_eraseDups (keys : List ArtifactKey) :
    r.unresolved t keys.eraseDups = (r.unresolved t keys).eraseDups := by
  rw [unresolved, unresolved, eraseDups_map fun _ _ => ArtifactKey.eq_of_text, eraseDups_filter]

theorem unresolved_eq_nil_iff : r.unresolved t keys = [] ↔ ∀ key ∈ keys, r.Resolves t key := by
  simp [unresolved, List.filter_eq_nil_iff]

/-- What is gathered for coordinates: the artifact of each that resolves, and the texts of the others. -/
theorem gather_eq (r : Resolver) (t : Tree) (who : Option String) (keys : List ArtifactKey) :
    ∃ found, r.gather t who keys = .ok (found, r.unresolved t keys) ∧
      ((∀ key ∈ keys, r.Resolves t key) →
        List.Forall₂ (fun key a => a.key = key ∧ r.Binds t a) keys found) := by
  induction keys with
  | nil => exact ⟨[], rfl, fun _ => .nil⟩
  | cons key rest ih =>
    obtain ⟨found, gathered, paired⟩ := ih
    rw [gather]
    by_cases resolves : r.Resolves t key
    · obtain ⟨a, own, binds, resolved⟩ := exists_of_resolves resolves
      rw [resolved, gathered, unresolved_cons_of_resolves resolves]
      exact ⟨a :: found, rfl,
        fun all => .cons ⟨own, binds⟩ (paired (List.forall_mem_cons.mp all).2)⟩
    · rw [resolve_of_not_resolves resolves, gathered, unresolved_cons_of_not_resolves resolves]
      exact ⟨found, rfl, fun all => absurd (all key List.mem_cons_self) resolves⟩

theorem gather_ne_error {who : Option String} {e : BuildError} (keys : List ArtifactKey) :
    r.gather t who keys ≠ .error e := by
  intro failed
  obtain ⟨found, gathered, -⟩ := r.gather_eq t who keys
  rw [gathered] at failed
  cases failed

end Resolver

namespace Dependency

def key? : Dependency → Option ArtifactKey
  | external key => some key
  | module _ => none

def module? : Dependency → Option ModuleId
  | external _ => none
  | module id => some id

/-- The coordinates among dependencies. -/
def keys (declared : List Dependency) : List ArtifactKey :=
  declared.filterMap key?

/-- The modules that dependencies refer to. -/
def references (declared : List Dependency) : List ModuleId :=
  declared.filterMap module?

private theorem keys_eraseDups (declared : List Dependency) :
    keys declared.eraseDups = (keys declared).eraseDups := by
  refine (eraseDups_filterMap ?_ declared).symm
  intro a b key first second
  cases a <;> cases b <;> simp_all [key?]

private theorem references_eraseDups (declared : List Dependency) :
    references declared.eraseDups = (references declared).eraseDups := by
  refine (eraseDups_filterMap ?_ declared).symm
  intro a b id first second
  cases a <;> cases b <;> simp_all [module?]

/-- What a declared dependency becomes in a scope: a reference stays one, and a coordinate becomes the
artifact that it is bound to. -/
inductive Becomes (r : Resolver) (t : Tree) : Dependency → Edge → Prop
  | module (id : ModuleId) : Becomes r t (.module id) (.module id)
  | external {a : Artifact} (binds : r.Binds t a) : Becomes r t (.external a.key) (.external a)

end Dependency

/-- The first module of a list that the project does not have. -/
def Project.unknown? (p : Project) (ids : List ModuleId) : Option ModuleId :=
  ids.find? fun id => (p.module? id).isNone

namespace SourceSet

/-- The modules that a source set refers to, those of the compile classpath first. -/
def references (set : SourceSet) : List ModuleId :=
  Dependency.references set.compile ++ Dependency.references set.runtime

/-- The coordinates of a source set in the order in which its four lists mention them. -/
def keys (set : SourceSet) : List ArtifactKey :=
  Dependency.keys set.compile ++ Dependency.keys set.runtime ++ set.annotationProcessors ++
    set.transforms

end SourceSet

namespace Scope

variable {p : Project} {r : Resolver} {t : Tree} {declared : List Dependency}

/-- A reference to a module that the project does not have ends the search, whatever else is
missing. -/
theorem bindEdges_of_unknown {id : ModuleId} (who : String)
    (unknown : p.unknown? (Dependency.references declared) = some id) :
    bindEdges p r t who declared = .error (.unknownModule id.text who) := by
  induction declared with
  | nil => cases unknown
  | cons dependency rest ih =>
    cases dependency with
    | module other =>
      change (other :: Dependency.references rest).find? _ = some id at unknown
      rw [List.find?_cons] at unknown
      rw [bindEdges]
      split at unknown
      · rename_i missing
        cases unknown
        rw [if_pos missing]
        rfl
      · rename_i there
        rw [if_neg (by simp [there]), ih unknown]
        rfl
    | external key =>
      have later := ih unknown
      rw [bindEdges]
      by_cases resolves : r.Resolves t key
      · obtain ⟨a, -, -, resolved⟩ := Resolver.exists_of_resolves resolves
        rw [resolved, later]
        rfl
      · rw [Resolver.resolve_of_not_resolves resolves, later]
        rfl

/-- Where all references are known, they are bound with the coordinates that resolve, and the other
coordinates are told. -/
theorem bindEdges_of_known (r : Resolver) (t : Tree) (who : String)
    (known : p.unknown? (Dependency.references declared) = none) :
    ∃ edges, bindEdges p r t who declared = .ok (edges, r.unresolved t (Dependency.keys declared)) ∧
      ((∀ key ∈ Dependency.keys declared, r.Resolves t key) →
        List.Forall₂ (Dependency.Becomes r t) declared edges) := by
  induction declared with
  | nil => exact ⟨[], rfl, fun _ => .nil⟩
  | cons dependency rest ih =>
    cases dependency with
    | module other =>
      change (other :: Dependency.references rest).find? _ = none at known
      rw [List.find?_cons] at known
      split at known
      · cases known
      · rename_i there
        obtain ⟨edges, bound, paired⟩ := ih known
        refine ⟨.module other :: edges, ?_, fun all => .cons (.module other) (paired all)⟩
        rw [bindEdges, if_neg (by simp [there]), bound]
        rfl
    | external key =>
      obtain ⟨edges, bound, paired⟩ := ih known
      change ∃ edges, _ = Except.ok (edges, r.unresolved t (key :: Dependency.keys rest)) ∧
        ((∀ other ∈ key :: Dependency.keys rest, r.Resolves t other) → _)
      rw [bindEdges]
      by_cases resolves : r.Resolves t key
      · obtain ⟨a, rfl, binds, resolved⟩ := Resolver.exists_of_resolves resolves
        rw [resolved, bound, Resolver.unresolved_cons_of_resolves resolves]
        exact ⟨.external a :: edges, rfl,
          fun all => .cons (.external binds) (paired (List.forall_mem_cons.mp all).2)⟩
      · rw [Resolver.resolve_of_not_resolves resolves, bound,
          Resolver.unresolved_cons_of_not_resolves resolves]
        exact ⟨edges, rfl, fun all => absurd (all key List.mem_cons_self) resolves⟩

/-- A scope with the four lists of a source set: the first mention of everything, in the order in which
it was declared, and each coordinate bound to its own artifact. -/
structure Realizes (s : Scope) (r : Resolver) (t : Tree) (set : SourceSet) : Prop where
  compile : List.Forall₂ (Dependency.Becomes r t) set.compile.eraseDups s.compile
  runtime : List.Forall₂ (Dependency.Becomes r t) set.runtime.eraseDups s.runtime
  annotationProcessors : List.Forall₂ (fun key a => a.key = key ∧ r.Binds t a)
    set.annotationProcessors.eraseDups s.annotationProcessors
  transforms : List.Forall₂ (fun key a => a.key = key ∧ r.Binds t a)
    set.transforms.eraseDups s.transforms

variable {set : SourceSet}

private theorem eraseDups_missing (r : Resolver) (t : Tree) (set : SourceSet) :
    (r.unresolved t (Dependency.keys set.compile.eraseDups) ++
      r.unresolved t (Dependency.keys set.runtime.eraseDups) ++
      r.unresolved t set.annotationProcessors.eraseDups ++
      r.unresolved t set.transforms.eraseDups).eraseDups = r.unresolved t set.keys.eraseDups := by
  simp only [Dependency.keys_eraseDups, Resolver.unresolved_eraseDups, SourceSet.keys,
    Resolver.unresolved_append]
  apply eraseDups_append_congr
  · apply eraseDups_append_congr
    · exact eraseDups_append_congr (eraseDups_eraseDups _) (eraseDups_eraseDups _)
    · exact eraseDups_eraseDups _
  · exact eraseDups_eraseDups _

private theorem unknown?_eraseDups (p : Project) (declared : List Dependency) :
    p.unknown? (Dependency.references declared.eraseDups) =
      p.unknown? (Dependency.references declared) := by
  rw [Dependency.references_eraseDups]
  exact find?_eraseDups _ _

theorem ofSourceSet_of_unknown {other : ModuleId} (r : Resolver) (t : Tree) (id : ScopeId)
    (path : Path) (unknown : p.unknown? set.references = some other) :
    ofSourceSet p r t id path set = .error (.unknownModule other.text id.requester) := by
  unfold ofSourceSet
  rw [Project.unknown?, SourceSet.references, List.find?_append, Option.or_eq_some_iff] at unknown
  rcases unknown with first | ⟨known, later⟩
  · have refused := bindEdges_of_unknown (r := r) (t := t) id.requester
      ((unknown?_eraseDups p set.compile).trans first)
    simp only [refused]
    rfl
  · obtain ⟨edges, bound, -⟩ := bindEdges_of_known r t id.requester
      ((unknown?_eraseDups p set.compile).trans known)
    have refused := bindEdges_of_unknown (r := r) (t := t) id.requester
      ((unknown?_eraseDups p set.runtime).trans later)
    simp only [bound, refused]
    rfl

/-- Where all modules are known, only coordinates without a file can stand against the scope. -/
theorem ofSourceSet_of_known (r : Resolver) (t : Tree) (id : ScopeId) (path : Path)
    (known : p.unknown? set.references = none) :
    ∃ scope, scope.id = id ∧ ((∀ key ∈ set.keys, r.Resolves t key) → scope.Realizes r t set) ∧
      ofSourceSet p r t id path set =
        if r.unresolved t set.keys.eraseDups = [] then .ok scope
        else .error (.unresolvedDependency (", ".intercalate (r.unresolved t set.keys.eraseDups))
          (some id.requester)) := by
  rw [Project.unknown?, SourceSet.references, List.find?_append, Option.or_eq_none_iff] at known
  obtain ⟨compile, compiled, compiles⟩ := bindEdges_of_known r t id.requester
    ((unknown?_eraseDups p set.compile).trans known.1)
  obtain ⟨runtime, ran, runs⟩ := bindEdges_of_known r t id.requester
    ((unknown?_eraseDups p set.runtime).trans known.2)
  obtain ⟨processors, processed, processes⟩ :=
    r.gather_eq t (some id.requester) set.annotationProcessors.eraseDups
  obtain ⟨transforms, transformed, transform⟩ :=
    r.gather_eq t (some id.requester) set.transforms.eraseDups
  unfold ofSourceSet
  simp only [compiled, ran, processed, transformed, bind, Except.bind, eraseDups_missing]
  refine ⟨⟨id, path, set.sourceRoots.map (path.join ·), compile, runtime, processors, transforms,
    set.compilerOptions, set.runtimes, set.lint, set.robolectric⟩, rfl, fun all => ?_, ?_⟩
  · simp only [SourceSet.keys, List.mem_append, or_imp, forall_and] at all
    obtain ⟨⟨⟨ofCompile, ofRuntime⟩, ofProcessors⟩, ofTransforms⟩ := all
    constructor
    · apply compiles
      simpa only [Dependency.keys_eraseDups, List.mem_eraseDups] using ofCompile
    · apply runs
      simpa only [Dependency.keys_eraseDups, List.mem_eraseDups] using ofRuntime
    · apply processes
      simpa only [List.mem_eraseDups] using ofProcessors
    · apply transform
      simpa only [List.mem_eraseDups] using ofTransforms
  · simp only [List.isEmpty_iff]
    rfl

/-- **Scopes follow what is declared.**  A reference to an unknown module is told before anything else,
the first of the compile classpath and then of the runtime classpath.  If all modules are known, the
coordinates of the four lists that do not resolve are told together, each once, in the order in which
they are first mentioned.  If there are none, the scope has the four lists as they were declared, less
the later mentions of the same thing, and with each coordinate bound to its own artifact. -/
theorem scope_follows_declarations {snapshot : ModuleSnapshot} {set : SourceSet} (p : Project)
    (r : Resolver) (t : Tree) (id : ScopeId) (known : p.module? id.module = some snapshot)
    (declared : snapshot.sourceSets[id.kind]? = some set) :
    let asker := s!"{id.module.text} ({id.kind.text})"
    let missing := set.keys.eraseDups.filter fun key => ¬ r.Resolves t key
    (∀ other, set.references.find? (fun other => (p.module? other).isNone) = some other →
      resolve p r t id = .error (.unknownModule other.text asker)) ∧
    ((∀ other ∈ set.references, (p.module? other).isSome) → missing ≠ [] →
      resolve p r t id = .error (.unresolvedDependency
        (", ".intercalate (missing.map ArtifactKey.text)) (some asker))) ∧
    ((∀ other ∈ set.references, (p.module? other).isSome) → missing = [] →
      ∃ scope, resolve p r t id = .ok scope ∧ scope.id = id ∧ scope.Realizes r t set) := by
  have resolve_eq : resolve p r t id = ofSourceSet p r t id snapshot.path set := by
    simp only [resolve, known, declared]
  have all (modules : ∀ other ∈ set.references, (p.module? other).isSome) :
      p.unknown? set.references = none := by
    apply List.find?_eq_none.mpr
    intro other member
    simpa [← Option.isSome_iff_ne_none] using modules other member
  intro asker missing
  have texts : missing.map ArtifactKey.text = r.unresolved t set.keys.eraseDups := rfl
  rw [resolve_eq]
  refine ⟨fun other first => ?_, fun modules some_ => ?_, fun modules none_ => ?_⟩
  · exact ofSourceSet_of_unknown r t id snapshot.path first
  · obtain ⟨scope, -, -, made⟩ := ofSourceSet_of_known r t id snapshot.path (all modules)
    have absent : r.unresolved t set.keys.eraseDups ≠ [] := by
      rwa [← texts, ne_eq, List.map_eq_nil_iff]
    rw [made, if_neg absent, texts]
    rfl
  · obtain ⟨scope, own, realizes, made⟩ := ofSourceSet_of_known r t id snapshot.path (all modules)
    have complete : r.unresolved t set.keys.eraseDups = [] := by
      rw [← texts, none_, List.map_nil]
    refine ⟨scope, made.trans (if_pos complete), own, realizes fun key member => ?_⟩
    exact Resolver.unresolved_eq_nil_iff.mp complete key (List.mem_eraseDups.mpr member)

/-- A coordinate that no file is known for. -/
def goneKey : ArtifactKey :=
  { Naming.dashedVersion.key with version := "3-0", version_ok := by decide }

/-- A source set that mentions it twice on the compile classpath and again as a processor. -/
def gappedSet : SourceSet :=
  { SourceSet.empty with
    compile := [.external goneKey, .module ⟨":app"⟩, .external Naming.dashedVersion.key,
      .external goneKey]
    annotationProcessors := [Naming.dashedName.key, goneKey] }

/-- The module of that source set. -/
def gappedModule : ModuleSnapshot :=
  ⟨⟨":app"⟩, ⟨"app"⟩, (∅ : Table ScopeKind SourceSet).insert .main gappedSet⟩

/-- A project of that module with a file for one of its coordinates. -/
def gappedProject : Project where
  modules := (∅ : Table ModuleId ModuleSnapshot).insert ⟨":app"⟩ gappedModule
  artifacts := (∅ : Table ArtifactKey Path).insert Naming.dashedVersion.key ⟨"/x.jar"⟩

theorem gaps_are_told_once :
    let r : Resolver := ⟨gappedProject.artifacts, [], .content, ⟨"/w"⟩⟩
    let t : Tree := Tree.empty.insert ["x.jar"] (.file .empty)
    gappedProject.module? ⟨":app"⟩ = some gappedModule ∧
      gappedModule.sourceSets[ScopeKind.main]? = some gappedSet ∧
      resolve gappedProject r t ⟨⟨":app"⟩, .main⟩ =
        .error (.unresolvedDependency "a:b:3-0, a:b-1:0" (some ":app (main)")) := by
  intro r t
  have known : gappedProject.module? ⟨":app"⟩ = some gappedModule :=
    Std.ExtTreeMap.getElem?_insert_self
  have declared : gappedModule.sourceSets[ScopeKind.main]? = some gappedSet :=
    Std.ExtTreeMap.getElem?_insert_self
  have modules : ∀ other ∈ gappedSet.references, (gappedProject.module? other).isSome := by decide
  have missing : (gappedSet.keys.eraseDups.filter fun key => ¬ r.Resolves t key) =
      [goneKey, Naming.dashedName.key] := by decide
  obtain ⟨-, told, -⟩ :=
    scope_follows_declarations gappedProject r t ⟨⟨":app"⟩, .main⟩ known declared
  rw [missing] at told
  exact ⟨known, declared, told modules (by simp)⟩

end Scope

end RuleDepot
