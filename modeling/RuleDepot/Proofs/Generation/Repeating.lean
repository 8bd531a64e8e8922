import Mathlib.Algebra.GroupWithZero.Nat
import RuleDepot.Proofs.Collector.Matching
import RuleDepot.Proofs.Generation.Beginning
import RuleDepot.Proofs.Generation.Phases
/-!
A pass over what a pass has left.  The collectors of one pass leave their marks beside each other, so
each finds in the end what it left, and the next pass does the same again.
-/

namespace RuleDepot.Generation

open Running RuleDepot.Tree

variable {config : Config} {home workspace : Path} {project : Project} {log : List Scope}
  {shelf : Shelf} {shelves : List Shelf} {start : Location} {inner : Location → Prop}
  {s₀ t t' u : Tree}

/-- The files after a collector was finalized, whatever it came to. -/
def filesAfter (s : Station) (t : Tree) : Tree :=
  (finalizeStation s t).2.2

theorem filesAfter_eq (s : Station) (t : Tree) :
    filesAfter s t = (left (Collector.finalize (s.collector, t))).2 := by
  unfold filesAfter finalizeStation
  cases Collector.finalize (s.collector, t) <;> rfl

/-- The directory of a station is that of its shelf. -/
theorem root_stationOf (config : Config) (home workspace : Path) (project : Project) (log : List Scope)
    (shelf : Shelf) : (stationOf config home workspace project log shelf).collector.cache.root =
      config.cacheRoot home workspace / shelf.dirName := by
  have root : (stationOf config home workspace project log shelf).collector.cache.root =
      config.cacheRoot home workspace / (config.duty shelf).shelf.dirName := rfl
  rwa [Config.shelf_duty] at root

/-- Whatever comes of it, a collector changes nothing but what is on the way to its shelf and there. -/
theorem filesAfter_edited {made : Location → Prop} (digested : ∀ scope ∈ log, scope.Digested)
    (rooted : t.Rooted)
    (allowed : ∀ {place}, t.Passes (config.cacheRoot home workspace / shelf.dirName) place →
      made place ∨ t.node? place = some .directory) :
    Cache.Marked made (t.lexical (config.cacheRoot home workspace / shelf.dirName)) t
      (filesAfter (stationOf config home workspace project log shelf) t) := by
  have root := root_stationOf config home workspace project log shelf
  rw [filesAfter_eq]
  rw [← root] at allowed ⊢
  exact Collector.finalize_edited (pending_stationOf log shelf) rooted
    (root ▸ Path.text_join_ne_empty _ (Cache.dirName_ne_empty _)) allowed
    fun plan planned => (Duty.plan_sound planned).isDigest digested

/-- The collector of a shelf that has good names makes directories on the way to the root of the cache and
from there to its shelf, and changes files in there only. -/
theorem station_edited (config : Config) (home workspace : Path) (project : Project)
    (digested : ∀ scope ∈ log, scope.Digested) (rooted : t.Rooted)
    (named : shelf.IsNamed) :
    Edited (fun place => t.Passes (config.cacheRoot home workspace) place ∨
        shelf.Touches (t.lexical (config.cacheRoot home workspace)) place)
      (Cache.Holds (t.lexical (config.cacheRoot home workspace) ++ shelf.trail)) t
      (filesAfter (stationOf config home workspace project log shelf) t) := by
  have marked : Cache.Marked (fun place => t.Passes (config.cacheRoot home workspace) place ∨
        Along (t.lexical (config.cacheRoot home workspace)) shelf.trail place)
      (t.lexical (config.cacheRoot home workspace / shelf.dirName)) t
      (filesAfter (stationOf config home workspace project log shelf) t) :=
    filesAfter_edited digested rooted fun passes =>
      Or.inl (passes_of_continues (shelf.continues _ named) named passes)
  rw [(Shelf.directory_of_isNamed _ named).2] at marked
  refine marked.mono (fun place made => ?_) fun _ => id
  rcases made with (passes | along) | holds
  · exact Or.inl passes
  · exact Or.inr (Or.inl along)
  · exact Or.inr (Or.inr holds)

/-- Collectors of several shelves keep to the ways to them and to what they hold, whatever comes of each.
The induction is on the shelves, over the files that the first collector leaves. -/
theorem finalizeAll_edited (config : Config) (home workspace : Path) (project : Project)
    (digested : ∀ scope ∈ log, scope.Digested) (rooted : t.Rooted)
    (named : ∀ shelf ∈ shelves, shelf.IsNamed) :
    Edited (fun place => t.Passes (config.cacheRoot home workspace) place ∨
        ∃ shelf ∈ shelves, shelf.Touches (t.lexical (config.cacheRoot home workspace)) place)
      (fun place => ∃ shelf ∈ shelves,
        Cache.Holds (t.lexical (config.cacheRoot home workspace) ++ shelf.trail) place) t
      (finalizeAll t (shelves.map (stationOf config home workspace project log))).2.2 := by
  induction shelves generalizing t with
  | nil => exact .refl rooted
  | cons shelf rest ih =>
    obtain ⟨own, named⟩ := List.forall_mem_cons.mp named
    have first := station_edited config home workspace project digested rooted own
    have later := ih first.rooted named
    simp only [passes_congr first.workingDir, first.lexical] at later
    refine (first.mono (fun place made => ?_) fun place put => ?_).trans
      (later.mono (fun place made => ?_) fun place put => ?_)
    · exact made.imp_right fun touches => ⟨shelf, List.mem_cons_self, touches⟩
    · exact ⟨shelf, List.mem_cons_self, put⟩
    · exact made.imp_right fun ⟨other, inside, touches⟩ =>
        ⟨other, List.mem_cons_of_mem _ inside, touches⟩
    · exact put.imp fun _ => And.imp_left (List.mem_cons_of_mem _)

section Collectors

variable (digested : ∀ scope ∈ log, scope.Digested)
  (leads : t.lexical (config.cacheRoot home workspace) = start)
  (enters : t.Enters (config.cacheRoot home workspace)) (rooted : t.Rooted)

include digested leads enters rooted

/-- Where the root of the cache is there, the collector of a shelf leaves its marks on the way from it to
the shelf and there. -/
theorem marked_of_stationOf (project : Project) (named : shelf.IsNamed) :
    Cache.Marked (Along start shelf.trail) (start ++ shelf.trail) t
      (filesAfter (stationOf config home workspace project log shelf) t) :=
  leads ▸ (station_edited config home workspace project digested rooted named).of_enters enters

/-- So do the collectors of several shelves. -/
theorem finalizeAll_marked (project : Project) (named : ∀ shelf ∈ shelves, shelf.IsNamed) :
    Edited (fun place => ∃ shelf ∈ shelves, shelf.Touches start place)
      (fun place => ∃ shelf ∈ shelves, Cache.Holds (start ++ shelf.trail) place) t
      (finalizeAll t (shelves.map (stationOf config home workspace project log))).2.2 :=
  leads ▸ (finalizeAll_edited config home workspace project digested rooted named).of_enters enters

end Collectors

/-- What a pass rests on when it is repeated: scopes that were resolved over some files, and places that
its collectors keep to and that no source is found through. -/
structure Guarded (config : Config) (home workspace : Path) (project : Project) (log : List Scope)
    (start : Location) (inner : Location → Prop) (s₀ : Tree) : Prop where
  bound : ∀ scope ∈ log, scope.Bound (config.resolver home workspace project) s₀
  clear : (config.resolver home workspace project).Clear inner s₀
  within : ∀ (shelf : Shelf) (place : Location), shelf.Touches start place → inner place

namespace Guarded

variable (guarded : Guarded config home workspace project log start inner s₀)

include guarded

theorem digested : ∀ scope ∈ log, scope.Digested :=
  fun scope shown => (guarded.bound scope shown).digested

/-- A collector keeps to the guarded places. -/
theorem sameBut
    (marked : Cache.Marked (Along start shelf.trail) (start ++ shelf.trail) t t') :
    SameBut inner t t' :=
  marked.sameBut (fun place made => guarded.within shelf place made) fun place put =>
    guarded.within shelf place (Or.inr put)

/-- What is planned comes from sources that are found through no guarded place. -/
theorem clear_of_planned {plan : Plan} (same : t.workingDir = s₀.workingDir)
    (clear : (config.resolver home workspace project).Clear inner t)
    (planned : (config.duty shelf).plan t (config.resolver home workspace project)
      ((config.duty shelf).demands log) = .ok plan) :
    ∀ request ∈ plan.fetches, request.1.hash.IsDigest ∧
      ∀ place, t.Passes request.1.source place → ¬ inner place := by
  intro request asked
  have sound := Duty.plan_sound planned
  refine ⟨sound.isDigest guarded.digested request asked, fun place passes => ?_⟩
  rcases sound.sourced request asked with binds | ⟨scope, shown, inside⟩
  · exact clear _ _ binds.source_mem.1 binds.source_mem.2 place passes
  · have source := (guarded.bound scope shown request.1 inside).source_mem
    exact guarded.clear _ _ source.1 source.2 place ((passes_congr same _ _).mp passes)

end Guarded

section Runs

variable {g g₀ g' : Generation} {now : Instant} {report : GenerationReport} {ids : List ModuleId}

/-- Visits come to the same over files in which the same sources are found. -/
theorem Visited.alike (visited : Visited g₀ t ids g) (alike : g₀.scopes.resolver.Alike t u) :
    Visited g₀ u ids g := by
  have same : Scope.resolve g₀.scopes.project g₀.scopes.resolver u =
      Scope.resolve g₀.scopes.project g₀.scopes.resolver t :=
    funext fun id => Scope.resolve_alike alike _ id
  have shown : g₀.scopes.scopesOf u = g₀.scopes.scopesOf t :=
    funext fun id => by simp only [ScopeMemo.scopesOf, same]
  refine { visited with holds := ⟨?_, ?_, visited.holds.attempts⟩, stations := ?_, resolves := ?_ }
  · have resolved := visited.holds.resolved
    rw [visited.project, visited.resolver] at resolved ⊢
    rwa [same]
  · have found := visited.holds.found
    rw [visited.project, visited.resolver] at found ⊢
    rwa [same]
  · rw [visited.stations, shown]
  · intro id member
    have resolves := visited.resolves id member
    unfold ScopeMemo.Resolves at resolves ⊢
    rwa [same]

/-- A new pass that has begun. -/
def begun (config : Config) (home workspace : Path) (project : Project) : Generation :=
  { new config home workspace project with phase := .accumulating }

/-- The scopes that a pass over all modules shows to its collectors. -/
def logOf (config : Config) (home workspace : Path) (project : Project) (t : Tree) : List Scope :=
  project.modules.keys.flatMap ((begun config home workspace project).scopes.scopesOf t)

private theorem Visited.stations_eq
    (visited : Visited (begun config home workspace project) t project.modules.keys g) :
    g.stations =
      config.shelves.map (stationOf config home workspace project (logOf config home workspace project t)) := by
  rw [visited.stations]
  simp only [begun, new, List.map_map]
  rfl

/-- The jar is found where the project says and nowhere else. -/
theorem clear_jar (t : Tree) : (coordinateConfig.resolver ⟨"/home"⟩ ⟨"/w"⟩ jarProject).Clear
    ((new coordinateConfig ⟨"/home"⟩ ⟨"/w"⟩ jarProject).Inner Cache.jarTree) t := by
  intro key p member _ place passes
  have only : p = ⟨"/x.jar"⟩ := by
    unfold Resolver.sources at member
    cases known : (coordinateConfig.resolver ⟨"/home"⟩ ⟨"/w"⟩ jarProject).table[key]? with
    | none =>
      rw [known] at member
      cases member
    | some found =>
      rw [known] at member
      change ((∅ : Table ArtifactKey Path).insert Naming.dashedVersion.key ⟨"/x.jar"⟩)[key]? = _
        at known
      rw [Table.getElem?_insert] at known
      split at known
      · cases known
        exact List.mem_singleton.mp member
      · simp at known
  have listed : place ∈ ([[], ["x.jar"]] : List Location) := by
    obtain ⟨front, shorter, rfl⟩ := passes
    have pieces : (Path.mk "/x.jar").pieces = ["x.jar"] := by decide
    rw [only, pieces, List.prefix_cons_iff] at shorter
    rw [only]
    rcases shorter with rfl | ⟨rest, rfl, none⟩
    · exact List.mem_cons_self
    · rw [List.prefix_nil.mp none]
      exact List.mem_cons_of_mem _ List.mem_cons_self
  have apart : ∀ place ∈ ([[], ["x.jar"]] : List Location),
      ¬ (new coordinateConfig ⟨"/home"⟩ ⟨"/w"⟩ jarProject).Inner Cache.jarTree place := by
    unfold Inner
    decide
  exact apart place listed

/-- Two repositories, of which the way to the first one leads through a shelf. -/
def detourConfig : Config :=
  { coordinateConfig with repositories := [⟨"/mine/../c/external/../../mine"⟩, ⟨"/repo"⟩] }

/-- Both have the jar. -/
def detourTree : Tree :=
  [["mine"], ["repo"]].foldl (fun t root =>
    ((((t.insert root .directory).insert (root ++ ["a"]) .directory).insert
      (root ++ ["a", "b"]) .directory).insert (root ++ ["a", "b", "1-0"]) .directory).insert
      (root ++ ["a", "b", "1-0", "b-1-0.jar"]) (.file .empty)) .empty

end Runs

end RuleDepot.Generation
