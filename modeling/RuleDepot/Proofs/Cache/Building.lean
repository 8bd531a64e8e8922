import RuleDepot.Proofs.Cache.Forgetting
import RuleDepot.Proofs.Scope.Binding
/-!
Building a set of coordinates.  All of them are resolved before anything is fetched, so a set with a
gap leaves the cache and the files as they were, and is refused with the names of all its gaps.  A set
without gaps is fetched in the order of its coordinates, and what comes of it is told coordinate by
coordinate, however often one is repeated: the files of the project where they are, and for every other
artifact an entry in the directory of the cache.
-/

namespace RuleDepot.Cache

open RuleDepot.Tree Running

variable {c c' c'' : Cache} {a : Artifact} {forced copied : Bool} {t t' t'' : Tree} {e e' : CacheEntry}
  {id : EntryId} {name : String} {root : Path} {keys : List ArtifactKey}

/-- What is kept under an identity: an entry for it, in the directory of the cache and under one of the
names of its artifact. -/
structure Filed (root : Path) (id : EntryId) (e : CacheEntry) : Prop where
  key : e.key = id.key
  hash : e.artifact.hash = id.hash
  materialized : e.materialized = true
  path : e.path = root / e.fileName
  candidate : e.fileName ∈ Naming.candidates e.artifact

/-- With a new entry stored, a cache keeps that entry and those of before. -/
theorem entry_of_record (placed : Placed c a t name copied c' t')
    (held : (record a e copied c').entries[id]? = some e') :
    c.entries[id]? = some e' ∨ id = ⟨a.key, a.hash⟩ ∧ e' = e := by
  have kept : ∀ (id : EntryId) (e' : CacheEntry), (c'.entries.insert ⟨a.key, a.hash⟩ e)[id]? = some e' →
      c.entries[id]? = some e' ∨ id = ⟨a.key, a.hash⟩ ∧ e' = e :=
    Table.forall_insert (Or.inr ⟨rfl, rfl⟩) fun id e' before => Or.inl (placed.entries_eq ▸ before)
  exact kept id e' held

/-- The cache went on: what it keeps now was kept before, or its file is there. -/
structure Onward (c : Cache) (t : Tree) (c' : Cache) (t' : Tree) : Prop where
  root : c'.root = c.root
  grown : Grown (fun _ _ => True) t t'
  fresh : ∀ (id : EntryId) (e : CacheEntry), c'.entries[id]? = some e →
    c.entries[id]? = some e ∨ t'.isFile e.path = true

namespace Onward

theorem refl (c : Cache) (t : Tree) : Onward c t c t :=
  ⟨rfl, .refl _ _, fun _ _ => Or.inl⟩

theorem trans (first : Onward c t c' t') (second : Onward c' t' c'' t'') : Onward c t c'' t'' where
  root := second.root.trans first.root
  grown := first.grown.trans second.grown
  fresh id e held := by
    rcases second.fresh id e held with before | file
    · exact (first.fresh id e before).imp_right second.grown.isFile
    · exact Or.inr file

end Onward

/-- What an artifact is provided with: the file of the project where it is, or an entry in the directory
of the cache.  That entry was kept before, or its file is there. -/
structure Provided (c : Cache) (t' : Tree) (a : Artifact) (e : CacheEntry) : Prop where
  own : a.origin = .project → e = .inPlace a
  outside : a.origin = .external → Filed c.root ⟨a.key, a.hash⟩ e ∧ Path.IsName e.fileName ∧
    (c.entries[(⟨a.key, a.hash⟩ : EntryId)]? = some e ∨ t'.isFile e.path = true)

private theorem Placed.isFile (placed : Placed c a t name copied c' t') (directory : t.isDir c.root = true)
    (named : Path.IsName name) : t'.isFile (c.root / name) = true := by
  cases copied with
  | true =>
    obtain ⟨bytes, -, -, stands, -⟩ := placed.copy_grown directory named
    exact isFile_iff.mpr ⟨bytes, stands⟩
  | false =>
    cases placed with
    | claimed _ file => exact file
    | reused _ same =>
      obtain ⟨_, bytes, -, read, -⟩ := alike_of_sameContent same
      exact isFile_iff.mpr ⟨bytes, read_eq_ok_iff.mp read⟩

/-- Every entry of a cache is in order. -/
def AllFiled (c : Cache) : Prop :=
  ∀ (id : EntryId) (e : CacheEntry), c.entries[id]? = some e → Filed c.root id e

private theorem allFiled_fetch (filed : c.AllFiled) (a : Artifact) (forced : Bool) (t : Tree) :
    (left (fetch a forced (c, t))).1.AllFiled := by
  have listed := fetch_cases c a forced t
  generalize fetch a forced (c, t) = result at listed ⊢
  cases listed with
  | stored _ _ _ _ _ _ candidate placed =>
    intro id e held
    change Filed (record a _ _ _).root id e
    rw [show (record a _ _ _).root = c.root from placed.root_eq]
    rcases entry_of_record placed held with before | ⟨rfl, rfl⟩
    · exact filed id e before
    · exact ⟨rfl, rfl, rfl, rfl, candidate⟩
  | _ => exact filed

/-- However a cache came about, its entries are in order. -/
theorem Reachable.allFiled (reachable : Reachable c) : c.AllFiled := by
  induction reachable with
  | new shelf cacheRoot resolver => exact fun id e held => by simp [Cache.new] at held
  | fetched _ a forced t ih => exact allFiled_fetch ih a forced t
  | shut _ ih => exact ih

private theorem fetch_provided (solid : c.root.text ≠ "") (filed : c.AllFiled) (digest : a.hash.IsDigest)
    (ran : fetch a false (c, t) = .ok e (c', t')) :
    Onward c t c' t' ∧ Provided c t' a e := by
  have listed := fetch_cases c a false t
  rw [ran] at listed
  cases listed with
  | inPlace serving spared =>
    have own : a.origin ≠ .external := fun outside => spared (Or.inl outside)
    exact ⟨.refl c t, ⟨fun _ => rfl, fun outside => absurd outside own⟩⟩
  | known serving needed held =>
    have foreign : a.origin ≠ .project := by
      rw [needed.resolve_right Bool.false_ne_true]
      exact nofun
    have kept := filed _ _ held
    have named : Path.IsName e.fileName := by
      refine (Naming.isName_candidate ?_ kept.candidate).1
      rw [kept.hash]
      exact digest
    exact ⟨.refl c t, ⟨fun own => absurd own foreign, fun _ => ⟨kept, named, Or.inl held⟩⟩⟩
  | @stored middle _ name copied c'' serving needed new locked root source candidate placed =>
    have foreign : a.origin ≠ .project := by
      rw [needed.resolve_right Bool.false_ne_true]
      exact nofun
    have directory : middle.isDir c.root = true := root.resolve_left (by simpa using solid)
    have named := (Naming.isName_candidate digest candidate).1
    have file : t'.isFile (c.root / name) = true := placed.isFile directory named
    have stored : Filed c.root ⟨a.key, a.hash⟩ ⟨name, c.root / name, a, true⟩ :=
      ⟨rfl, rfl, rfl, rfl, candidate⟩
    refine ⟨⟨placed.root_eq, ?_, fun id e held => ?_⟩, ⟨fun own => absurd own foreign,
      fun _ => ⟨stored, named, Or.inr file⟩⟩⟩
    · exact (locked.mono fun _ _ _ => trivial).trans (placed.grown directory named)
    · rcases entry_of_record placed held with before | ⟨rfl, rfl⟩
      · exact Or.inl before
      · exact Or.inr file

/-- What an artifact was provided with by a cache that went on since is what the former cache would be
asked for. -/
theorem Provided.of_onward (onward : Onward c t c' t') (provided : Provided c' t'' a e)
    (grown : Grown (fun _ _ => True) t' t'') : Provided c t'' a e where
  own := provided.own
  outside outside := by
    obtain ⟨filed, named, held | file⟩ := provided.outside outside
    · refine ⟨onward.root ▸ filed, named, ?_⟩
      exact (onward.fresh _ e held).imp_right grown.isFile
    · exact ⟨onward.root ▸ filed, named, Or.inr file⟩

private theorem Provided.grown (provided : Provided c t a e) (grown : Grown (fun _ _ => True) t t') :
    Provided c t' a e where
  own := provided.own
  outside outside := by
    obtain ⟨filed, named, held⟩ := provided.outside outside
    exact ⟨filed, named, held.imp_right grown.isFile⟩

/-- Requests that are all answered provide for their artifacts, one by one and in order.  The induction
is on the requests: what one of them leaves is what the next is asked of. -/
theorem fetchAll_provided {found : List Artifact} {entries : List CacheEntry}
    (reachable : Reachable c) (digests : ∀ a ∈ found, a.hash.IsDigest)
    (ran : fetchAll (found.map fun a => (a, false)) (c, t) = .ok entries (c', t')) :
    Onward c t c' t' ∧ List.Forall₂ (Provided c t') found entries := by
  induction found generalizing c t entries with
  | nil =>
    cases ran
    exact ⟨.refl _ _, .nil⟩
  | cons a rest ih =>
    obtain ⟨digest, digests⟩ := List.forall_mem_cons.mp digests
    obtain ⟨e, middle, t'', others, first, later, rfl⟩ := fetchAll_cons_ok ran
    have reached : Reachable middle := by
      have next := reachable.fetched a false t
      rwa [first] at next
    obtain ⟨onward, provided⟩ :=
      fetch_provided reachable.root_ne_empty reachable.allFiled digest first
    obtain ⟨onward', served⟩ := ih reached digests later
    refine ⟨onward.trans onward', .cons (provided.grown onward'.grown) ?_⟩
    exact served.imp fun b e' provided => provided.of_onward onward onward'.grown

/-- A set that is built has one entry for each coordinate, in order. -/
theorem keys_of_build {entries : List CacheEntry} (keyed : c.Keyed)
    (ran : build name keys (c, t) = .ok entries (c', t')) : entries.map CacheEntry.key = keys := by
  rw [build_run] at ran
  cases resolved : c.resolver.resolveSet t name keys with
  | error e =>
    rw [resolved] at ran
    cases ran
  | ok found =>
    rw [resolved] at ran
    rw [fetchAll_keys keyed ran, List.map_map, ← (Resolver.resolveAll_ok resolved).1]
    rfl

/-- A cache that builds a set stays where it is. -/
theorem root_of_build {entries : List CacheEntry} {s : Cache × Tree}
    (ran : build name keys (c, t) = .ok entries s) : s.1.root = c.root := by
  rw [build_run] at ran
  split at ran
  · rename_i found _
    have root := fetchAll_root c (found.map fun a => (a, false)) t
    rwa [ran] at root
  · cases ran

/-- **Main result.** A set of coordinates of which one does not resolve to a file is refused, with the
texts of all that do not in the order of the set and as often as they stand there, and nothing changes.
Otherwise each coordinate is bound to an artifact, and building the set is to ask for these artifacts
one after another; if all requests are answered, there is one entry for each coordinate, in order: the
file itself where it belongs to the project, and for every other artifact an entry for a single name in
the directory of the cache, which was kept before or whose file is there. -/
theorem build_all_or_nothing (reachable : Reachable c) (name : String) (keys : List ArtifactKey)
    (t : Tree) :
    ((∃ key ∈ keys, ¬ c.resolver.Resolves t key) →
      build name keys (c, t) = .error (.unresolvedDependency
        (", ".intercalate ((keys.filter fun key => ¬ c.resolver.Resolves t key).map ArtifactKey.text))
        (some s!"configuration '{name}'")) (c, t)) ∧
    ((∀ key ∈ keys, c.resolver.Resolves t key) → ∃ found,
      List.Forall₂ (fun key a => a.key = key ∧ c.resolver.Binds t a) keys found ∧
      build name keys (c, t) = fetchAll (found.map fun a => (a, false)) (c, t) ∧
      ∀ entries c' t', build name keys (c, t) = .ok entries (c', t') →
        entries.map CacheEntry.key = keys ∧ List.Forall₂ (Provided c t') found entries) := by
  obtain ⟨found, gathered, bound⟩ :=
    c.resolver.gather_eq t (some s!"configuration '{name}'") keys
  constructor
  · rintro ⟨key, member, absent⟩
    have gaps : (c.resolver.unresolved t keys).isEmpty = false := by
      rw [Bool.eq_false_iff, ne_eq, List.isEmpty_iff, Resolver.unresolved_eq_nil_iff]
      exact fun all => absent (all key member)
    have refused : c.resolver.resolveSet t name keys = .error (.unresolvedDependency
        (", ".intercalate (c.resolver.unresolved t keys)) (some s!"configuration '{name}'")) := by
      rw [Resolver.resolveSet, Resolver.resolveAll, gathered]
      exact if_neg (by simp [gaps])
    rw [build_run, refused]
    rfl
  · intro all
    have bound := bound all
    have asked : build name keys (c, t) = fetchAll (found.map fun a => (a, false)) (c, t) := by
      rw [build_run, Resolver.resolveSet, Resolver.resolveAll, gathered,
        Resolver.unresolved_eq_nil_iff.mpr all]
      rfl
    refine ⟨found, bound, asked, fun entries c' t' ran => ?_⟩
    have keyed : c.Keyed := fun id e held => (reachable.allFiled id e held).key
    have binds := Resolver.binds_of_gather gathered
    refine ⟨keys_of_build keyed ran, ?_⟩
    rw [asked] at ran
    exact (fetchAll_provided reachable (fun a member => (binds a member).isDigest) ran).2

/-- Coordinates that are told by their names. -/
def mixedKey (name : String) (segment : IsSegment name) : ArtifactKey :=
  { Naming.dashedVersion.key with name := name, name_ok := segment }

/-- A jar in the workspace and a jar beside it. -/
def mixedTree : Tree :=
  ((Tree.empty.insert ["x.jar"] (.file .empty)).insert ["ws"] .directory).insert ["ws", "y.jar"]
    (.file .empty)

/-- A cache that is told of both jars, and of a third one that is not there. -/
def mixedCache : Cache :=
  .new .external ⟨"/cache"⟩ ⟨(((∅ : Table ArtifactKey Path).insert (mixedKey "far" (by decide))
    ⟨"/x.jar"⟩).insert (mixedKey "near" (by decide)) ⟨"y.jar"⟩).insert (mixedKey "lost" (by decide))
    ⟨"/z.jar"⟩, [], .coordinate, ⟨"/ws"⟩⟩

theorem mixed_sets_built :
    let lost := mixedKey "lost" (by decide)
    let far := mixedKey "far" (by decide)
    let near := mixedKey "near" (by decide)
    build "torn" [lost, far, lost] (mixedCache, mixedTree) =
        .error (.unresolvedDependency "a:lost:1-0, a:lost:1-0" (some "configuration 'torn'"))
          (mixedCache, mixedTree) ∧
      ∃ entries c' t', build "whole" [far, near, far] (mixedCache, mixedTree) = .ok entries (c', t') ∧
        entries.map CacheEntry.key = [far, near, far] ∧
        entries.map CacheEntry.materialized = [true, false, true] ∧ c'.copies = 1 := by
  intro lost far near
  have reachable : Reachable mixedCache := .new _ _ _
  obtain ⟨refused, -⟩ := build_all_or_nothing reachable "torn" [lost, far, lost] mixedTree
  obtain ⟨-, whole⟩ := build_all_or_nothing reachable "whole" [far, near, far] mixedTree
  have gap : ¬ mixedCache.resolver.Resolves mixedTree lost := by decide
  have there : ∀ key ∈ [far, near, far], mixedCache.resolver.Resolves mixedTree key := by decide
  obtain ⟨found, -, -, answered⟩ := whole there
  have ran : (outcome (build "whole" [far, near, far] (mixedCache, mixedTree))).map
        (·.map CacheEntry.materialized) = .ok [true, false, true] ∧
      (left (build "whole" [far, near, far] (mixedCache, mixedTree))).1.copies = 1 := by
    decide +kernel
  obtain ⟨entries, c', t', ran', materialized⟩ := exists_of_outcome ran.1
  rw [ran'] at ran
  refine ⟨?_, entries, c', t', ran', (answered entries c' t' ran').1, materialized, ran.2⟩
  rw [refused ⟨lost, by simp, gap⟩]
  have gaps : [lost, far, lost].filter (fun key => ¬ mixedCache.resolver.Resolves mixedTree key) =
      [lost, lost] := by decide
  rw [gaps]
  rfl

end RuleDepot.Cache
