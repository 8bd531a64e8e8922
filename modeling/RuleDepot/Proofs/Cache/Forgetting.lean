import RuleDepot.Proofs.Cache.Failing
import RuleDepot.Proofs.Collector.Planning
import RuleDepot.Proofs.Files.Placing
import RuleDepot.Proofs.Resolving
/-!
What is done with a cache after a request has failed.  Whether the cache is asked for artifacts, builds
sets or is sealed, and whatever others do meanwhile to the files outside of its directory, it comes to the
same as if the failed request had not been made: step by step there are the same results and the same
caches.  What can tell the difference is to look for a file by a path that leads through a directory which
the request made and out of it again, before the cache has made that directory anyway.
-/

namespace RuleDepot.Cache

open RuleDepot.Tree Running

variable {c c' s s' : Cache} {a : Artifact} {forced : Bool} {t t' u v : Tree} {root p : Path}
  {e : BuildError} {place : Location} {node : Node} {keys : List ArtifactKey}

/-- A path that leads through no directory that was made, unless to something in there. -/
def Direct (t t' : Tree) (p : Path) : Prop :=
  ∀ place, t.Passes p place → Made t t' place → place <+: t.lexical p

instance (t t' : Tree) (place : Location) : Decidable (Made t t' place) :=
  inferInstanceAs (Decidable (_ ∧ _))

instance (t t' : Tree) (p : Path) : Decidable (Direct t t' p) :=
  decidable_of_iff (∀ front ∈ p.pieces.inits, Made t t' (front.foldl advance (t.start p)) →
      front.foldl advance (t.start p) <+: t.lexical p)
    ⟨fun listed _ ⟨front, shorter, same⟩ => same ▸ listed front ((List.mem_inits _ _).mpr shorter),
      fun direct front member => direct _ ⟨front, (List.mem_inits _ _).mp member, rfl⟩⟩

/-- What is done with a cache and with the files around it. -/
inductive Use where
  | get (a : Artifact) (forced : Bool)
  | build (name : String) (keys : List ArtifactKey)
  | shut
  /-- Others put a file or a directory somewhere. -/
  | put (place : Location) (node : Node)
  /-- Others take something away. -/
  | clear (place : Location)

namespace Use

/-- What a use does, with the entries that it gives. -/
def run : Use → Step Cache (List CacheEntry)
  | get a forced => do
    let entry ← fetch a forced
    return [entry]
  | build name keys => Cache.build name keys
  | shut => do
    Step.change sealed
    return []
  | put place node => fun (c, t) => .ok [] (c, t.put place node)
  | clear place => fun (c, t) => .ok [] (c, t.erase place)

/-- A use that keeps to its part of the files.  The sources are not in the directory of the cache; files
that are looked for before the cache makes its own directories are looked for without a detour through
those; and what others put is outside of the directory of the cache, and is no file where a directory was
made.  They may take anything away. -/
def Fair (c : Cache) (t t' : Tree) : Use → Prop
  | get a _ => a.hash.IsDigest ∧ ¬ t.lexical c.root <+: t.lexical a.source
  | build _ keys => ∀ key ∈ keys, ∀ p ∈ c.resolver.sources key,
      ¬ t.lexical c.root <+: t.lexical p ∧ Direct t t' p
  | shut => True
  | put place node => ¬ t.lexical c.root <+: place ∧ (Made t t' place → node = .directory)
  | clear _ => True

end Use

/-- Uses one after another: what each comes to, and the cache afterwards. -/
def trace : List Use → Cache × Tree → List (Except BuildError (List CacheEntry) × Cache)
  | [], _ => []
  | use :: rest, s =>
    (outcome (use.run s), (left (use.run s)).1) :: trace rest (left (use.run s))

private theorem fetch_resolver (c : Cache) (a : Artifact) (forced : Bool) (t : Tree) :
    (left (fetch a forced (c, t))).1.resolver = c.resolver := by
  obtain ⟨f, noted, does⟩ := fetch_noted a forced c t
  rw [does]
  cases noted <;> rfl

/-- A set is resolved first, and then fetched. -/
theorem build_run (c : Cache) (t : Tree) (name : String) (keys : List ArtifactKey) :
    build name keys (c, t) = match c.resolver.resolveSet t name keys with
      | .ok found => fetchAll (found.map fun a => (a, false)) (c, t)
      | .error e => .error e (c, t) := by
  rw [build, Step.part_bind, Step.tree_bind]
  cases c.resolver.resolveSet t name keys <;> rfl

/-- What no request changes, and sealing does not, no use changes. -/
theorem Use.run_keeps {α : Type} {look : Cache → α}
    (keeps : ∀ c a forced t, look (left (fetch a forced (c, t))).1 = look c)
    (shut : ∀ c, look (sealed c) = look c) (use : Use) (c : Cache) (t : Tree) :
    look (left (use.run (c, t))).1 = look c := by
  cases use with
  | get a forced =>
    have same := keeps c a forced t
    rw [run, bind_run]
    generalize fetch a forced (c, t) = result at same
    cases result <;> exact same
  | build name keys =>
    rw [run, build_run]
    split
    · exact fetchAll_keeps keeps c _ t
    · rfl
  | shut => exact shut c
  | put place node => rfl
  | clear place => rfl

/-- What is asked of a use depends on the directory and the resolver of the cache only. -/
theorem Use.Fair.congr {use : Use} (fair : use.Fair c t t') (home : c'.root = c.root)
    (resolver : c'.resolver = c.resolver) : use.Fair c' t t' := by
  cases use with
  | get | build | put => simpa only [Fair, home, resolver] using fair
  | shut | clear => trivial

namespace Beyond

section Looking

variable (beyond : Beyond root a t t' u v) (outside : ¬ t.lexical root <+: t.lexical p)
  (direct : Direct t t' p)

include beyond outside direct

/-- Where a file is found with the leftovers, its path meets none of them. -/
theorem passes_kept (file : v.isFile p = true) (passes : u.Passes p place) :
    v.node? place = u.node? place := by
  cases held : u.node? place with
  | some node => exact beyond.grown.kept held
  | none =>
    cases held' : v.node? place with
    | none => rfl
    | some node =>
      exfalso
      have ends : v.lexical p = t.lexical p := (beyond.grown.lexical p).trans (beyond.lexical p)
      obtain ⟨bytes, found⟩ := isFile_iff.mp file
      obtain ⟨leads, stands⟩ := status_eq_ok_iff.mp found
      rw [ends] at stands
      -- What is found was there before, since the lock is in the directory of the cache.
      have former : u.node? (t.lexical p) = some (.file bytes) := by
        cases there : u.node? (t.lexical p) with
        | some node => rw [← stands, beyond.grown.kept there]
        | none =>
          cases ((beyond.grown.fresh stands there).outside outside).1
      have elsewhere : place ≠ t.lexical p := fun same => by simp [same, former] at held
      cases beyond.grown.fresh held' held with
      | directory _ _ made =>
        have above := direct place ((passes_congr beyond.workingDir p place).mp passes) made
        have there := Rooted.above beyond.rooted former above elsewhere
        rw [held] at there
        cases there
      | lock =>
        have passes' := (passes_congr beyond.grown.workingDir p place).mpr passes
        rcases passed_of_locate leads passes' with same | directory
        · exact elsewhere (same.trans ends)
        · rw [held'] at directory
          cases directory

private theorem found : v.isFile p = u.isFile p ∧ (u.isFile p = true → v.status p = u.status p) := by
  have kept (file : u.isFile p = true) : v.status p = u.status p := by
    obtain ⟨bytes, held⟩ := isFile_iff.mp file
    rw [held, beyond.grown.status held]
  refine ⟨?_, kept⟩
  cases file : v.isFile p with
  | false =>
    cases former : u.isFile p with
    | false => rfl
    | true => exact file.symm.trans (beyond.grown.isFile former)
  | true =>
    have same : SameBut (fun place => v.node? place ≠ u.node? place) u v :=
      ⟨beyond.grown.workingDir, fun out => not_not.mp out⟩
    have status := same.status fun passes => not_not.mpr (beyond.passes_kept outside direct file passes)
    rw [← file, isFile, isFile, status]

end Looking

private theorem build {name : String} (beyond : Beyond s.root a t t' u v) (solid : s.root.text ≠ "")
    (fair : ∀ key ∈ keys, ∀ p ∈ s.resolver.sources key,
      ¬ t.lexical s.root <+: t.lexical p ∧ Direct t t' p) :
    Tracks (Beyond s.root a t t') s.lockDir (build name keys (s, u)) (build name keys (s, v)) := by
  have alike : s.resolver.resolveSet v name keys = s.resolver.resolveSet u name keys := by
    refine Resolver.resolveAll_congr fun key member => Resolver.resolve_of_sources (fun p source => ?_) _
    obtain ⟨outside, direct⟩ := fair key member p source
    exact beyond.found outside direct
  rw [build_run, build_run, alike]
  cases resolved : s.resolver.resolveSet u name keys with
  | error e => exact .same (.error ⟨rfl, beyond⟩)
  | ok found =>
    obtain ⟨names, bound⟩ := Resolver.resolveAll_ok resolved
    refine beyond.fetchAll solid ?_ ?_
    · intro r member
      obtain ⟨b, inside, rfl⟩ := List.mem_map.mp member
      exact (bound b inside).isDigest
    · intro r member
      obtain ⟨b, inside, rfl⟩ := List.mem_map.mp member
      have asked : b.key ∈ keys := names ▸ List.mem_map_of_mem inside
      exact (fair b.key asked b.source (bound b inside).source_mem.1).1

/-- Whatever others put outside of the directory of the cache, the leftovers are all that differs. -/
theorem put (beyond : Beyond root a t t' u v) (outside : ¬ t.lexical root <+: place)
    (fits : Made t t' place → node = .directory) :
    Beyond root a t t' (u.put place node) (v.put place node) where
  workingDir := (workingDir_put u place node).trans beyond.workingDir
  rooted := Rooted.put beyond.rooted place node
  rooted' := Rooted.put beyond.rooted' place node
  grown := by
    refine beyond.grown.put (fun dir above node new => ?_) fun new => ?_
    · have clear : ¬ t.lexical root <+: dir := fun below =>
        outside ((below.trans above).trans (List.dropLast_prefix place))
      exact (new.outside clear).1
    · obtain ⟨directory, made⟩ := new.outside outside
      exact ⟨directory, fits made⟩

private theorem clear (beyond : Beyond root a t t' u v) (place : Location) :
    Beyond root a t t' (u.erase place) (v.erase place) where
  workingDir := beyond.workingDir
  rooted := Rooted.cleared beyond.rooted place
  rooted' := Rooted.cleared beyond.rooted' place
  grown := beyond.grown.cleared place

private theorem use {use : Use} (beyond : Beyond s.root a t t' u v) (solid : s.root.text ≠ "")
    (fair : use.Fair s t t') :
    Tracks (Beyond s.root a t t') s.lockDir (use.run (s, u)) (use.run (s, v)) := by
  cases use with
  | get b forced =>
    refine (beyond.fetch solid fair.1 fair.2 forced).bind fun entry c u' v' _ _ related => ?_
    exact .same (.ok ⟨rfl, related⟩)
  | build name keys => exact beyond.build solid fair
  | shut => exact .same (.ok ⟨rfl, beyond⟩)
  | put place node => exact .same (.ok ⟨rfl, beyond.put fair.1 fair.2⟩)
  | clear place => exact .same (.ok ⟨rfl, beyond.clear place⟩)

/-- Uses come to the same one after another.  Each leaves behind trees of which the second has the
leftovers beyond the first, and so the next one can be taken in its turn. -/
theorem trace {uses : List Use} (beyond : Beyond s.root a t t' u v) (solid : s.root.text ≠ "")
    (fair : ∀ use ∈ uses, use.Fair s t t') :
    List.Forall₂ (fun o o' => SameResult s.lockDir o.1 o'.1 ∧ o'.2 = o.2)
      (trace uses (s, u)) (trace uses (s, v)) := by
  induction uses generalizing s u v with
  | nil => exact .nil
  | cons first rest ih =>
    obtain ⟨own, fair⟩ := List.forall_mem_cons.mp fair
    have tracks := beyond.use solid own
    have home := first.run_keeps fetch_root (fun _ => rfl) s u
    have resolver := first.run_keeps fetch_resolver (fun _ => rfl) s u
    obtain ⟨caches, related⟩ := tracks.beside
    have result := tracks.sameResult
    rw [Cache.trace, Cache.trace]
    generalize first.run (s, u) = x at *
    generalize first.run (s, v) = y at *
    generalize left x = next at *
    generalize left y = next' at *
    obtain ⟨c, u'⟩ := next
    obtain ⟨c', v'⟩ := next'
    obtain rfl : c' = c := caches
    have locks : c'.lockDir = s.lockDir := by rw [lockDir, lockDir, home]
    refine .cons ⟨result, rfl⟩ ?_
    rw [← locks]
    rw [← home] at related solid
    exact ih related solid fun use member => (fair use member).congr home resolver

end Beyond

/-- **A request that fails is forgotten.**  Whatever the reason, the entries, the claimed names and the
counters are as they were.  The files have gained directories on the way to the locks at most, and an empty
lock.  And whatever is done with the cache from there on, while others do what they like elsewhere, it comes
to the same step by step as if the request had not been made: the results are the same, and so are the
caches.  Only if the locks cannot be given a directory the system may name another reason. -/
theorem failed_fetch_forgotten (reachable : Reachable c) (rooted : t.Rooted) (digest : a.hash.IsDigest)
    (failed : fetch a forced (c, t) = .error e (c', t')) :
    c' = c ∧
      Grown (fun place node => node = .directory ∧ t.Passes c.lockDir place ∨
        node = .file .empty ∧ place = t.lexical (c.lockFile a)) t t' ∧
      ∀ uses : List Use, (∀ use ∈ uses, use.Fair c t t') →
        List.Forall₂ (fun o o' => SameResult c.lockDir o.1 o'.1 ∧ o'.2 = o.2)
          (trace uses (c, t)) (trace uses (c', t')) := by
  have solid := reachable.root_ne_empty
  obtain ⟨rfl, beyond⟩ := beyond_of_failed rooted solid digest failed
  refine ⟨rfl, beyond.grown.mono fun place node new => ?_, fun uses fair => ?_⟩
  · cases new with
    | directory passes => exact Or.inl ⟨rfl, passes⟩
    | lock own => exact Or.inr ⟨rfl, own⟩
  · exact beyond.trace solid fair

/-- A cache of external artifacts that looks for the jar at one path. -/
def pointedCache (source : Path) : Cache :=
  .new .external ⟨"/cache"⟩ ⟨(∅ : Table ArtifactKey Path).insert jarArtifact.key source, [], .content,
    ⟨"/workspace"⟩⟩

theorem lost_artifact_forgotten :
    let c := pointedCache ⟨"/x.jar"⟩
    let failed := fetch lostArtifact false (c, jarTree)
    let uses : List Use := [.build "jars" [jarArtifact.key], .put ["lost.jar"] (.file .empty),
      .get lostArtifact false, .clear ["x.jar"], .shut, .get jarArtifact false]
    (outcome failed).isOk = false ∧ (left failed).1 = c ∧
      (trace uses (c, jarTree)).map (fun o => o.1.isOk) = [true, true, true, true, true, false] ∧
      List.Forall₂ (fun o o' => SameResult c.lockDir o.1 o'.1 ∧ o'.2 = o.2)
        (trace uses (c, jarTree)) (trace uses (left failed)) := by
  intro c failed uses
  have rooted : jarTree.Rooted := by decide +kernel
  have refused : (outcome failed).isOk = false := by decide +kernel
  have ran : ∃ e, failed = .error e ((left failed).1, (left failed).2) := by
    generalize failed = result at refused ⊢
    cases result with
    | ok => cases refused
    | error e s => exact ⟨e, rfl⟩
  have lost : lostArtifact.hash.IsDigest := ContentHash.isDigest_sha256 _
  have jar : jarArtifact.hash.IsDigest := ContentHash.isDigest_sha256 _
  have fair : ∀ use ∈ uses, use.Fair c jarTree (left failed).2 := by
    simp only [uses, List.forall_mem_cons, Use.Fair]
    refine ⟨?_, ?_, ⟨lost, ?_⟩, trivial, trivial, ⟨jar, ?_⟩, nofun⟩
    · decide +kernel
    · decide +kernel
    · decide +kernel
    · decide +kernel
  obtain ⟨e, ran⟩ := ran
  obtain ⟨same, -, goes⟩ := failed_fetch_forgotten (.new _ _ _) rooted lost ran
  exact ⟨refused, same, by decide +kernel, goes uses fair⟩

/-- Who goes through the directory above the cache and out of it again can tell that a request was made, and
so can who wants to have a file there. -/
theorem detour_remembers :
    let c := pointedCache ⟨"/cache/../x.jar"⟩
    let failed := fetch lostArtifact false (c, jarTree)
    (outcome failed).isOk = false ∧
      (∀ p ∈ c.resolver.sources jarArtifact.key, ¬ jarTree.lexical c.root <+: jarTree.lexical p) ∧
      (outcome (build "jars" [jarArtifact.key] (c, jarTree))).isOk = false ∧
      (outcome (build "jars" [jarArtifact.key] (left failed))).isOk = true ∧
      jarTree.node? ["cache"] = none ∧ (left failed).2.node? ["cache"] = some .directory ∧
      ¬ (left failed).2.Admits ["cache"] (.file .empty) := by
  decide +kernel

/-- The way to the locks is barred by a file.  At first the cache learns this behind a directory that it has
made, and later at once. -/
example :
    let c := Cache.new .external ⟨"/a/../x.jar"⟩ jarCache.resolver
    let failed := fetch lostArtifact false (c, jarTree)
    let again := fetch lostArtifact false (left failed)
    outcome again ≠ outcome failed ∧
      (outcome again).mapError BuildError.diagnostic =
        (outcome failed).mapError BuildError.diagnostic := by
  decide +kernel

end RuleDepot.Cache
