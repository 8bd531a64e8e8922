import RuleDepot.Proofs.Generation.Carrying
import RuleDepot.Proofs.Generation.FailedVisits
import RuleDepot.Proofs.Generation.Register
/-!
The order in which collectors are finalized.  The directories of the collectors of a pass are apart, each
collector keeps below its own, and so they may be finalized in any order.
-/

namespace RuleDepot.Generation

open Running RuleDepot.Tree

variable {config : Config} {home workspace : Path} {project : Project} {log : List Scope}
  {shelf : Shelf} {g g₀ : Generation} {t t₀ t' emptied made : Tree} {start place : Location} {s : Station}
  {ids : List ModuleId} {answers : List (Except BuildError Unit)}

/-- The places below a location. -/
def Below (start place : Location) : Prop :=
  start <+: place ∧ place ≠ start

private theorem below_of_touches (touches : shelf.Touches start place) : Below start place := by
  obtain ⟨names, rfl, filled, -⟩ := touches.names
  exact ⟨List.prefix_append _ _, by simpa using filled⟩

/-- Neither of two stations has its directory in that of the other one, wherever paths begin. -/
def Apart (a b : Station) : Prop :=
  ∀ t : Tree, ¬ t.lexical a.collector.cache.root <+: t.lexical b.collector.cache.root ∧
    ¬ t.lexical b.collector.cache.root <+: t.lexical a.collector.cache.root

/-- Everything that changed is below a directory, or it is a directory that was made on the way there. -/
def KeepsBelow (root : Path) (t t' : Tree) : Prop :=
  ∀ place, Differ t t' place → Below (t.lexical root) place ∨
    t.Passes root place ∧ t.node? place = none ∧ t'.node? place = some .directory

/-- The directories of the collectors that an accepted configuration asks for are apart. -/
theorem stations_apart (accepted : config.check = .ok config) (home workspace : Path)
    (project : Project) : (new config home workspace project).stations.Pairwise Apart := by
  have stations : (new config home workspace project).stations =
      config.shelves.map (stationOf config home workspace project []) :=
    List.map_congr_left fun shelf _ => by rw [stationOf, Collector.shown_nil]
  have named := Config.isNamed_of_check accepted
  have within {a b : Shelf} (inside : a ∈ config.shelves) (inside' : b ∈ config.shelves) {t : Tree}
      (within : t.lexical (config.cacheRoot home workspace / a.dirName) <+:
        t.lexical (config.cacheRoot home workspace / b.dirName)) : a = b := by
    rw [(Shelf.directory_of_isNamed _ (named a inside)).2,
      (Shelf.directory_of_isNamed _ (named b inside')).2, List.prefix_append_right_inj] at within
    exact Shelf.eq_of_within within
  rw [stations, List.pairwise_map]
  refine config.nodup_shelves.imp_of_mem fun {a b} inside inside' differ t => ?_
  rw [root_stationOf, root_stationOf]
  exact ⟨fun below => differ (within inside inside' below),
    fun below => differ (within inside' inside below).symm⟩

/-- Whatever scopes it was shown, a collector keeps below its directory. -/
theorem keepsBelow_of_stationOf (digested : ∀ scope ∈ log, scope.Digested) (rooted : t.Rooted) :
    KeepsBelow (config.cacheRoot home workspace / shelf.dirName) t
      (filesAfter (stationOf config home workspace project log shelf) t) := by
  intro place changed
  have marked : Cache.Marked (t.Passes (config.cacheRoot home workspace / shelf.dirName))
      (t.lexical (config.cacheRoot home workspace / shelf.dirName)) t
      (filesAfter (stationOf config home workspace project log shelf) t) :=
    filesAfter_edited digested rooted Or.inl
  by_cases holds : Cache.Holds (t.lexical (config.cacheRoot home workspace / shelf.dirName)) place
  · left
    rcases holds with ⟨name, -, rfl⟩ | ⟨name, rfl⟩ <;> exact ⟨List.prefix_append _ _, by simp⟩
  · obtain ⟨passes | holds', absent, held⟩ := (marked.elsewhere holds).resolve_left changed
    · exact Or.inr ⟨passes, absent, held⟩
    · exact absurd holds' holds

/-- A pass that is under way stays so whatever visits are attempted. -/
theorem Underway.attempts {g' : Generation} (underway : Underway config home workspace project g)
    (ran : ids.mapM (fun id => Step.attempt (visit id)) (g, t) = .ok answers (g', t')) :
    Underway config home workspace project g' := by
  induction ids generalizing g t answers with
  | nil =>
    cases ran
    exact underway
  | cons id rest ih =>
    rw [List.mapM_cons] at ran
    obtain ⟨answer, ⟨g₁, t₁⟩, first, ran⟩ := bind_ok ran
    obtain ⟨others, s, later, ran⟩ := bind_ok ran
    cases ran
    have called := underway.called id t
    have same : (left (visit id (g, t))).1 = g₁ := by
      rw [Step.attempt] at first
      cases visited : visit id (g, t) with
      | ok _ s | error _ s =>
        rw [visited] at first
        cases first
        rfl
    exact ih (same ▸ called) later

/-- Attempts to visit modules lead to a pass that visited those of them that were accepted, up to what its
memo keeps. -/
theorem visited_of_attempts
    (started : Generation.start (new config home workspace project, t₀) = .ok () (g₀, t))
    (ran : ids.mapM (fun id => Step.attempt (visit id)) (g₀, t) = .ok answers (g, t)) :
    ∃ g₂, Visited g₀ t (accepted ids answers) g₂ ∧ g = { g₂ with scopes := g.scopes } := by
  have underway : Underway config home workspace project g₀ := .begun started
  obtain ⟨answers', g₁, g₂, ran', -, took, -, alike⟩ :=
    attempts_resemble underway.accumulates (.refl t g₀) ids
  obtain ⟨rfl, rfl⟩ : answers' = answers ∧ g₁ = g := by
    rw [ran] at ran'
    cases ran'
    exact ⟨rfl, rfl⟩
  exact ⟨g₂, ((begun_of_start started).visited_of_ran took).2, alike.rest⟩

/-- So the collectors were shown scopes that are resolved over the files. -/
theorem stations_of_attempts
    (started : Generation.start (new config home workspace project, t₀) = .ok () (g₀, t))
    (ran : ids.mapM (fun id => Step.attempt (visit id)) (g₀, t) = .ok answers (g, t)) :
    ∃ log, g.stations = config.shelves.map (stationOf config home workspace project log) ∧
      ∀ scope ∈ log, scope.Bound (config.resolver home workspace project) t := by
  obtain ⟨g₂, visited, rest⟩ := visited_of_attempts started ran
  have begins := start_ok started
  refine ⟨(accepted ids answers).flatMap (g₀.scopes.scopesOf t), ?_, fun scope member => ?_⟩
  · rw [rest]
    change g₂.stations = _
    rw [visited.stations, begins]
    simp only [new, List.map_map]
    rfl
  · obtain ⟨id, -, own⟩ := List.mem_flatMap.mp member
    have bound := ScopeMemo.bound_of_mem_scopesOf own
    rwa [begins] at bound

/-- When a pass has begun, the root of the cache can be entered, and the directory for intermediate
files. -/
theorem begins_rooted
    (started : Generation.start (new config home workspace project, t₀) = .ok () (g₀, t))
    (rooted : t₀.Rooted) :
    t.Rooted ∧ t.Enters (config.cacheRoot home workspace) ∧ t.Enters g₀.scratchDir := by
  obtain ⟨rfl, emptied, made, prepares⟩ := (start_iff rfl).mp started
  have empties := prepares.empties
  have rooted' : emptied.Rooted := by
    rw [scratchDir_eq] at empties
    rcases FileM.removeDirs_ok (isName_own "gen" (by decide)) empties with ⟨-, rfl⟩ | rfl
    · exact rooted
    · exact Rooted.erase rooted (by simp [lexical_join _ (isName_own "gen" (by decide))])
  exact ⟨(prepares.edited rooted').2.rooted,
    prepares.enters_cacheRoot rooted' Config.cacheRoot_of_blank,
    enters_of_isDir (prepares.isDir_scratchDir rooted')⟩

/-- Stations in any order are those of the shelves in some order. -/
theorem exists_shelves {order : List Station}
    (same : order.Perm (config.shelves.map (stationOf config home workspace project log))) :
    ∃ shelves : List Shelf, shelves.Perm config.shelves ∧
      order = shelves.map (stationOf config home workspace project log) := by
  have own (shelf : Shelf) :
      (stationOf config home workspace project log shelf).collector.duty.shelf = shelf :=
    Config.shelf_duty config shelf
  refine ⟨order.map fun s => s.collector.duty.shelf, ?_, ?_⟩
  · have shelves : (config.shelves.map (stationOf config home workspace project log)).map
        (fun s => s.collector.duty.shelf) = config.shelves := by
      rw [List.map_map]
      exact (List.map_congr_left fun shelf _ => own shelf).trans (List.map_id _)
    have mapped := same.map fun s => s.collector.duty.shelf
    rwa [shelves] at mapped
  · have back : ∀ s ∈ order,
        stationOf config home workspace project log s.collector.duty.shelf = s := by
      intro s member
      obtain ⟨shelf, -, rfl⟩ := List.mem_map.mp (same.mem_iff.mp member)
      rw [own]
    rw [List.map_map]
    exact ((List.map_congr_left back).trans (List.map_id order)).symm

/-- **Collectors may be finalized in any order.**  The directories of the collectors that an accepted
configuration asks for are apart.  Whatever visits were made, and over whatever files, a collector that is
finalized keeps below its directory, but for directories that it makes on the way there.  So after a pass
has begun and modules have been visited, in every order each collector comes to what it comes to alone, and
the files are the same in the end.  This takes short names for the shelves that the configuration names, and
that nothing is found through a place below the root of the cache, at any stage. -/
theorem finalized_in_any_order (accepted : config.check = .ok config) (home workspace : Path)
    (project : Project) :
    (new config home workspace project).stations.Pairwise Apart ∧
    (∀ g, Underway config home workspace project g → ∀ s ∈ g.stations, ∀ t : Tree, t.Rooted →
      KeepsBelow s.collector.cache.root t (filesAfter s t)) ∧
    ∀ (t₀ t : Tree) (g₀ g : Generation) (ids : List ModuleId)
      (answers : List (Except BuildError Unit)), t₀.Rooted →
      Generation.start (new config home workspace project, t₀) = .ok () (g₀, t) →
      ids.mapM (fun id => Step.attempt (visit id)) (g₀, t) = .ok answers (g, t) →
      (∀ name ∈ config.extraCaches.keys, name.utf8ByteSize ≤ nameLimit) →
      ∀ order order' : List Station, order.Perm g.stations → order'.Perm g.stations →
      (∀ u ∈ stages t order ++ stages t order', (config.resolver home workspace project).Clear
        (Below (t.lexical (config.cacheRoot home workspace))) u) →
      (finalizeAll t order).1 = order.map (fun s => (finalizeStation s t).1) ∧
      (finalizeAll t order).2.1 = order.map (fun s => (finalizeStation s t).2.1) ∧
      (finalizeAll t order').2.2.workingDir = (finalizeAll t order).2.2.workingDir ∧
      ∀ place, (finalizeAll t order').2.2.node? place = (finalizeAll t order).2.2.node? place := by
  refine ⟨stations_apart accepted home workspace project, fun g underway s member t rooted => ?_,
    fun t₀ t g₀ g ids answers rooted₀ started ran short order order' perm perm' clear => ?_⟩
  · obtain ⟨log, stations, digested⟩ := underway.stations_eq
    rw [stations] at member
    obtain ⟨shelf, -, rfl⟩ := List.mem_map.mp member
    rw [root_stationOf]
    exact keepsBelow_of_stationOf digested rooted
  · obtain ⟨log, stations, bound⟩ := stations_of_attempts started ran
    obtain ⟨rooted, enters, -⟩ := begins_rooted started rooted₀
    rw [stations] at perm perm'
    have guarded : Guarded config home workspace project log
        (t.lexical (config.cacheRoot home workspace))
        (Below (t.lexical (config.cacheRoot home workspace))) t :=
      ⟨bound, clear t (List.mem_append_left _ (mem_stages t order)), fun _ _ => below_of_touches⟩
    have alone {order : List Station}
        (perm : order.Perm (config.shelves.map (stationOf config home workspace project log)))
        (clear : ∀ u ∈ stages t order, (config.resolver home workspace project).Clear
          (Below (t.lexical (config.cacheRoot home workspace))) u) : Alone t order := by
      obtain ⟨shelves, same, rfl⟩ := exists_shelves perm
      exact guarded.alone rfl rfl enters rooted (same.nodup_iff.mpr config.nodup_shelves)
        (fun shelf member => Config.solid_of_check accepted short shelf (same.mem_iff.mp member)) clear
    have first := alone perm fun u stage => clear u (List.mem_append_left _ stage)
    have second := alone perm' fun u stage => clear u (List.mem_append_right _ stage)
    exact ⟨first.results, first.stations, second.workingDir.trans first.workingDir.symm,
      first.node?_eq second fun s => perm'.mem_iff.trans perm.mem_iff.symm⟩

/-- The jar of one module, on two shelves that the configuration names as well. -/
def pairConfig : Config :=
  { coordinateConfig with
    extraCaches := ((∅ : Table String (List ArtifactKey)).insert "x" [Naming.dashedVersion.key]).insert
      "y" [Naming.dashedVersion.key] }

/-- The beginning of a pass over a module that needs the jar. -/
def pairStart : EStateM.Result BuildError (Generation × Tree) Unit :=
  Generation.start (new pairConfig ⟨"/home"⟩ ⟨"/w"⟩ jarProject, Cache.jarTree)

/-- The visits of that pass. -/
def pairVisits : EStateM.Result BuildError (Generation × Tree) (List (Except BuildError Unit)) :=
  [⟨":app"⟩].mapM (fun id => Step.attempt (visit id)) ((left pairStart).1, (left pairStart).2)

private theorem clear_pair (t : Tree) : (pairConfig.resolver ⟨"/home"⟩ ⟨"/w"⟩ jarProject).Clear
    (Below (Cache.jarTree.lexical (coordinateConfig.cacheRoot ⟨"/home"⟩ ⟨"/w"⟩))) t := by
  have clear := clear_jar t
  intro key p member file place passes below
  exact clear key p member file place passes ⟨_, List.mem_cons_self, below⟩

theorem pair_finalized_in_reverse :
    ∃ g₀ t g answers, pairConfig.check = .ok pairConfig ∧ pairStart = .ok () (g₀, t) ∧
      pairVisits = .ok answers (g, t) ∧
      (new pairConfig ⟨"/home"⟩ ⟨"/w"⟩ jarProject).stations.Pairwise Apart ∧
      (∀ s ∈ g.stations, KeepsBelow s.collector.cache.root t (filesAfter s t)) ∧
      ((finalizeAll t g.stations.reverse).2.1.map fun s => s.collector.cache.copies).sum = 3 ∧
      (finalizeAll t g.stations.reverse).1 =
        g.stations.reverse.map (fun s => (finalizeStation s t).1) ∧
      ∀ place, (finalizeAll t g.stations).2.2.node? place =
        (finalizeAll t g.stations.reverse).2.2.node? place := by
  have begins : (outcome pairStart).isOk = true ∧
      (left pairStart).2.lexical (pairConfig.cacheRoot ⟨"/home"⟩ ⟨"/w"⟩) =
        Cache.jarTree.lexical (coordinateConfig.cacheRoot ⟨"/home"⟩ ⟨"/w"⟩) := by decide +kernel
  have copies : ((finalizeAll (left pairVisits).2 (left pairVisits).1.stations.reverse).2.1.map
      fun s => s.collector.cache.copies).sum = 3 := by decide +kernel
  have accepted : pairConfig.check = .ok pairConfig := rfl
  have short : ∀ name ∈ pairConfig.extraCaches.keys, name.utf8ByteSize ≤ nameLimit := by decide +kernel
  have rooted : Cache.jarTree.Rooted :=
    Rooted.insert rooted_empty (by simp) (by decide +kernel) (Or.inr (by decide +kernel))
  cases started : pairStart with
  | error e s =>
    rw [started] at begins
    cases begins.1
  | ok _ s =>
    obtain ⟨g₀, t⟩ := s
    rw [started] at begins
    have underway : Underway pairConfig ⟨"/home"⟩ ⟨"/w"⟩ jarProject g₀ := .begun started
    obtain ⟨answers, g, -, ran, -⟩ := attempts_resemble underway.accumulates (.refl t g₀) [⟨":app"⟩]
    have visited : pairVisits = .ok answers (g, t) := by
      rw [pairVisits, started]
      exact ran
    rw [visited] at copies
    have clear (u : Tree) : (pairConfig.resolver ⟨"/home"⟩ ⟨"/w"⟩ jarProject).Clear
        (Below (t.lexical (pairConfig.cacheRoot ⟨"/home"⟩ ⟨"/w"⟩))) u := by
      have leads : t.lexical (pairConfig.cacheRoot ⟨"/home"⟩ ⟨"/w"⟩) = _ := begins.2
      rw [leads]
      exact clear_pair u
    obtain ⟨apart, keeps, orders⟩ := finalized_in_any_order accepted ⟨"/home"⟩ ⟨"/w"⟩ jarProject
    obtain ⟨results, -, -, same⟩ := orders Cache.jarTree t g₀ g [⟨":app"⟩] answers rooted started ran short
      g.stations.reverse g.stations (List.reverse_perm _) (.refl _) fun u _ => clear u
    have keeps' := keeps g (underway.attempts ran)
    exact ⟨g₀, t, g, answers, accepted, rfl, visited, apart,
      fun s member => keeps' s member t (begins_rooted started rooted).1, copies, results, same⟩

/-- Two repositories, of which the way to the first one leads through a shelf, and a shelf that the
configuration names. -/
def strayConfig : Config :=
  { detourConfig with
    extraCaches := (∅ : Table String (List ArtifactKey)).insert "x" [Naming.dashedVersion.key] }

/-- Both have the jar, with different contents. -/
def strayTree : Tree :=
  detourTree.insert ["mine", "a", "b", "1-0", "b-1-0.jar"] (.file ⟨#[1]⟩)

/-- The beginning of a pass over a module that needs the jar, which the project does not have itself. -/
def strayStart : EStateM.Result BuildError (Generation × Tree) Unit :=
  Generation.start (new strayConfig ⟨"/home"⟩ ⟨"/w"⟩ { jarProject with artifacts := ∅ }, strayTree)

/-- The visits of that pass. -/
def strayVisits : EStateM.Result BuildError (Generation × Tree) (List (Except BuildError Unit)) :=
  [⟨":app"⟩].mapM (fun id => Step.attempt (visit id)) ((left strayStart).1, (left strayStart).2)

/-- Where the sources of a collector are that was finalized. -/
def sourcesAfter : Except BuildError CollectorReport → List Path
  | .ok report => report.entries.map fun e => e.artifact.source
  | .error _ => []

/-- In another order, a source is found through the root of the cache although it is outside, and other
contents are copied. -/
theorem detour_order_matters :
    ∃ g₀ t g answers, strayConfig.check = .ok strayConfig ∧ strayStart = .ok () (g₀, t) ∧
      strayVisits = .ok answers (g, t) ∧
      (∀ r ∈ (strayConfig.resolver ⟨"/home"⟩ ⟨"/w"⟩ { jarProject with artifacts := ∅ }).repositories,
        ¬ t.lexical g.cacheRoot <+: t.lexical r.root) ∧
      (∀ p ∈ ((finalizeAll t g.stations).1 ++ (finalizeAll t g.stations.reverse).1).flatMap sourcesAfter,
        ¬ t.lexical g.cacheRoot <+: t.lexical p) ∧
      (finalizeAll t g.stations).1.map sourcesAfter ≠
        ((finalizeAll t g.stations.reverse).1.map sourcesAfter).reverse ∧
      (finalizeAll t g.stations).2.2.node? ["c", "extra", "x", "a.b-1-0.jar"] ≠
        (finalizeAll t g.stations.reverse).2.2.node? ["c", "extra", "x", "a.b-1-0.jar"] := by
  have begins : (outcome strayStart).isOk = true := by decide +kernel
  have found : (∀ r ∈ (strayConfig.resolver ⟨"/home"⟩ ⟨"/w"⟩
        { jarProject with artifacts := ∅ }).repositories,
        ¬ (left strayVisits).2.lexical (left strayVisits).1.cacheRoot <+:
          (left strayVisits).2.lexical r.root) ∧
      (∀ p ∈ ((finalizeAll (left strayVisits).2 (left strayVisits).1.stations).1 ++
        (finalizeAll (left strayVisits).2 (left strayVisits).1.stations.reverse).1).flatMap sourcesAfter,
        ¬ (left strayVisits).2.lexical (left strayVisits).1.cacheRoot <+:
          (left strayVisits).2.lexical p) ∧
      (finalizeAll (left strayVisits).2 (left strayVisits).1.stations).1.map sourcesAfter ≠
        ((finalizeAll (left strayVisits).2 (left strayVisits).1.stations.reverse).1.map
          sourcesAfter).reverse ∧
      (finalizeAll (left strayVisits).2 (left strayVisits).1.stations).2.2.node?
          ["c", "extra", "x", "a.b-1-0.jar"] ≠
        (finalizeAll (left strayVisits).2 (left strayVisits).1.stations.reverse).2.2.node?
          ["c", "extra", "x", "a.b-1-0.jar"] := by decide +kernel
  cases started : strayStart with
  | error e s =>
    rw [started] at begins
    cases begins
  | ok _ s =>
    obtain ⟨g₀, t⟩ := s
    have underway : Underway strayConfig ⟨"/home"⟩ ⟨"/w"⟩ { jarProject with artifacts := ∅ } g₀ :=
      .begun started
    obtain ⟨answers, g, -, ran, -⟩ := attempts_resemble underway.accumulates (.refl t g₀) [⟨":app"⟩]
    have visited : strayVisits = .ok answers (g, t) := by
      rw [strayVisits, started]
      exact ran
    rw [visited] at found
    exact ⟨g₀, t, g, answers, rfl, rfl, visited, found⟩

end RuleDepot.Generation
