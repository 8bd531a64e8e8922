import RuleDepot.Proofs.Collector.Targets
import RuleDepot.Proofs.Generation.FailedVisits
/-!
What a pass has registered.  The scopes of the modules that were visited are kept in the memo, and
they are what the collectors were shown, whatever other visits failed in between and however the
files changed.  So the collector of external artifacts serves what these scopes want.
-/

namespace RuleDepot

open Running

namespace ScopeMemo

variable {m m' m'' : ScopeMemo} {t : Tree} {id : ScopeId} {ids : List ScopeId} {scope : Scope}
  {scopes : List Scope}

/-- A memo that learned scopes: what it kept is kept, and what is new was resolved now. -/
structure Learned (t : Tree) (m m' : ScopeMemo) : Prop where
  project : m'.project = m.project
  resolver : m'.resolver = m.resolver
  kept : ∀ (id : ScopeId) (scope : Scope), m.scopes[id]? = some scope → m'.scopes[id]? = some scope
  fresh : ∀ (id : ScopeId) (scope : Scope), m'.scopes[id]? = some scope →
    m.scopes[id]? = some scope ∨ Scope.resolve m.project m.resolver t id = .ok scope

theorem Learned.refl (t : Tree) (m : ScopeMemo) : Learned t m m :=
  ⟨rfl, rfl, fun _ _ held => held, fun _ _ held => Or.inl held⟩

theorem Learned.trans (first : Learned t m m') (second : Learned t m' m'') : Learned t m m'' where
  project := second.project.trans first.project
  resolver := second.resolver.trans first.resolver
  kept id scope held := second.kept id scope (first.kept id scope held)
  fresh id scope held := by
    rcases second.fresh id scope held with former | resolved
    · exact first.fresh id scope former
    · exact Or.inr (first.project ▸ first.resolver ▸ resolved)

private theorem scope_learned (m : ScopeMemo) (t : Tree) (id : ScopeId) :
    Learned t m (m.scope t id).2 ∧
      ∀ scope, (m.scope t id).1 = .ok scope → (m.scope t id).2.scopes[id]? = some scope := by
  unfold ScopeMemo.scope
  cases held : m.scopes[id]? with
  | some kept => exact ⟨.refl t m, fun scope same => by rw [held, Except.ok.inj same]⟩
  | none =>
    cases resolved : Scope.resolve m.project m.resolver t id with
    | error e => exact ⟨⟨rfl, rfl, fun _ _ held => held, fun _ _ held => Or.inl held⟩, nofun⟩
    | ok found =>
      refine ⟨⟨rfl, rfl, fun other scope known => ?_, ?_⟩, fun scope same => ?_⟩
      · have elsewhere : id ≠ other := fun same => by simp [← same, held] at known
        simpa only [Table.getElem?_insert, if_neg elsewhere] using known
      · exact Table.forall_insert (Or.inr resolved) fun _ _ known => Or.inl known
      · simp only [Table.getElem?_insert, if_true, Except.ok.inj same]

private theorem scopeAll_learned (m : ScopeMemo) (t : Tree) (ids : List ScopeId) :
    Learned t m (m.scopeAll t ids).2 ∧ ∀ scopes, (m.scopeAll t ids).1 = .ok scopes →
      scopes.map some = ids.map fun id => (m.scopeAll t ids).2.scopes[id]? := by
  induction ids generalizing m with
  | nil =>
    refine ⟨.refl t m, fun scopes same => ?_⟩
    obtain rfl := Except.ok.inj same
    rfl
  | cons id rest ih =>
    obtain ⟨learned, given⟩ := m.scope_learned t id
    rw [scopeAll]
    cases first : m.scope t id with
    | mk result m' =>
      rw [first] at learned given
      cases result with
      | error e => exact ⟨learned, fun scopes same => (by cases same)⟩
      | ok scope =>
        obtain ⟨later, all⟩ := ih m'
        simp only
        cases ran : m'.scopeAll t rest with
        | mk results m'' =>
          rw [ran] at later all
          cases results with
          | error e => exact ⟨learned.trans later, fun scopes same => (by cases same)⟩
          | ok others =>
            refine ⟨learned.trans later, fun scopes same => ?_⟩
            obtain rfl := Except.ok.inj same
            rw [List.map_cons, List.map_cons, all others rfl, later.kept id scope (given scope rfl)]

private theorem recalled_learned (m : ScopeMemo) (t : Tree) (id : ModuleId) :
    Learned t m (m.recalled t id) ∧ ∀ scopes, m.visitable t id = .ok scopes →
      scopes.map some = (m.idsOf id).map fun sid => (m.recalled t id).scopes[sid]? := by
  obtain ⟨learned, all⟩ := m.scopeAll_learned t (m.idsOf id)
  refine ⟨learned, fun scopes shown => all scopes ?_⟩
  unfold visitable at shown
  split at shown
  · cases shown
  · exact (m.scopeAll_foreseen t (m.idsOf id)).1.trans shown

private theorem Learned.idsOf (learned : Learned t m m') (id : ModuleId) : m'.idsOf id = m.idsOf id := by
  simp only [ScopeMemo.idsOf, learned.project]

end ScopeMemo

namespace Generation

variable {g g₀ : Generation} {t t' : Tree} {log : List Scope}

/-- The scopes of the modules that were visited, as the memo keeps them. -/
def Registered (g : Generation) (scope : Scope) : Prop :=
  ∃ id ∈ g.visited, ∃ sid ∈ g.scopes.idsOf id, g.scopes.scopes[sid]? = some scope

/-- A pass whose collectors were shown a list of scopes, which are those that are registered. -/
structure Showed (g₀ : Generation) (log : List Scope) (g : Generation) : Prop where
  stations : g.stations = g₀.stations.map (·.shown log)
  registered : ∀ scope, scope ∈ log ↔ g.Registered scope
  complete : ∀ id ∈ g.visited, ∀ sid ∈ g.scopes.idsOf id, ∃ scope, g.scopes.scopes[sid]? = some scope
  digested : ∀ (sid : ScopeId) (scope : Scope), g.scopes.scopes[sid]? = some scope → scope.Digested

private theorem Showed.learn (showed : Showed g₀ log g) {m : ScopeMemo}
    (learned : ScopeMemo.Learned t g.scopes m) : Showed g₀ log { g with scopes := m } where
  stations := showed.stations
  registered scope := by
    rw [showed.registered]
    constructor
    · rintro ⟨id, visited, sid, own, held⟩
      exact ⟨id, visited, sid, learned.idsOf id ▸ own, learned.kept sid scope held⟩
    · rintro ⟨id, visited, sid, own, held⟩
      have own : sid ∈ g.scopes.idsOf id := learned.idsOf id ▸ own
      obtain ⟨former, known⟩ := showed.complete id visited sid own
      obtain rfl := Option.some.inj ((learned.kept sid former known).symm.trans held)
      exact ⟨id, visited, sid, own, known⟩
  complete id visited sid own := by
    obtain ⟨scope, held⟩ := showed.complete id visited sid (learned.idsOf id ▸ own)
    exact ⟨scope, learned.kept sid scope held⟩
  digested sid scope held := by
    rcases learned.fresh sid scope held with former | resolved
    · exact showed.digested sid scope former
    · exact (Scope.bound_of_resolve resolved).digested

private theorem Showed.note (showed : Showed g₀ log g) {id : ModuleId} {scopes : List Scope}
    (kept : scopes.map some = (g.scopes.idsOf id).map fun sid => g.scopes.scopes[sid]?) :
    Showed g₀ (log ++ scopes) (g.noted id scopes) := by
  have member {other : ModuleId} : other ∈ g.visited.insert id ↔ other = id ∨ other ∈ g.visited := by
    rw [Std.ExtTreeSet.mem_insert, Std.compare_eq_iff_eq, eq_comm]
  constructor
  · simp [noted, showed.stations, Station.shown_append]
  · intro scope
    rw [List.mem_append, showed.registered]
    have own : scope ∈ scopes ↔ ∃ sid ∈ g.scopes.idsOf id, g.scopes.scopes[sid]? = some scope := by
      have listed : scope ∈ scopes ↔ some scope ∈ scopes.map some := by simp
      rw [listed, kept, List.mem_map]
    rw [own]
    constructor
    · rintro (⟨other, visited, found⟩ | found)
      · exact ⟨other, member.mpr (Or.inr visited), found⟩
      · exact ⟨id, member.mpr (Or.inl rfl), found⟩
    · rintro ⟨other, visited, found⟩
      rcases member.mp visited with rfl | visited
      · exact Or.inr found
      · exact Or.inl ⟨other, visited, found⟩
  · intro other visited sid own
    rcases member.mp visited with rfl | visited
    · have listed : g.scopes.scopes[sid]? ∈ scopes.map some := kept ▸ List.mem_map_of_mem own
      obtain ⟨scope, -, held⟩ := List.mem_map.mp listed
      exact ⟨scope, held.symm⟩
    · exact showed.complete other visited sid own
  · exact showed.digested

private theorem Showed.visit (showed : Showed g₀ log g) (accumulates : Accumulates g)
    (id : ModuleId) (t : Tree) :
    Showed g₀ (log ++ (g.scopes.visitable t id).toOption.getD [])
      (left (Generation.visit id (g, t))).1 := by
  obtain ⟨learned, kept⟩ := g.scopes.recalled_learned t id
  have showed := showed.learn learned
  rw [visit_foreseen accumulates id t]
  cases shown : g.scopes.visitable t id with
  | error e =>
    rw [Except.toOption, Option.getD_none, List.append_nil]
    exact showed
  | ok scopes =>
    exact showed.note ((kept scopes shown).trans (congrArg (List.map _) (learned.idsOf id).symm))

variable {config : Config} {home workspace : Path} {project : Project}

/-- Every call leaves a pass whose collectors were shown what is registered. -/
theorem Underway.showed (underway : Underway config home workspace project g) :
    ∃ log, Showed (new config home workspace project) log g := by
  induction underway with
  | begun started =>
    rw [start_ok started]
    refine ⟨[], by simp, fun scope => ?_, ?_, ?_⟩
    · simp [Registered, new]
    · simp [new]
    · simp [new, ScopeMemo.new]
  | called before id t ih =>
    obtain ⟨log, showed⟩ := ih
    exact ⟨_, showed.visit before.accumulates id t⟩

/-- The collector of external artifacts was shown the scopes that are registered. -/
theorem Underway.dependencies (underway : Underway config home workspace project g) :
    ∃ log, (∀ scope, scope ∈ log ↔ g.Registered scope) ∧ (∀ scope ∈ log, scope.Digested) ∧
      g.collector? "dependencies" =
        some ((Collector.new (.dependencies config.externalPolicy config.forced)
          (config.cacheRoot home workspace) (config.resolver home workspace project)).shown log) := by
  obtain ⟨log, showed⟩ := underway.showed
  refine ⟨log, showed.registered, fun scope member => ?_, ?_⟩
  · obtain ⟨id, -, sid, -, held⟩ := (showed.registered scope).mp member
    exact showed.digested sid scope held
  · rw [collector?, showed.stations]
    rfl

/-- **External artifacts are served.**  Whatever was visited before, when the collector of external
artifacts ends its pass, every coordinate from outside the project that a registered scope wants has
a label, which leads to the rule for the version that wins, and no other rules are written. -/
theorem dependencies_served {c c' : Collector} {report : CollectorReport}
    (underway : Underway config home workspace project g)
    (found : g.collector? "dependencies" = some c)
    (ran : Collector.finalize (c, t) = .ok report (c', t')) (apart : CacheEntry.Apart report.entries) :
    ∃ rules, report.Emits (config.cacheRoot home workspace / "external") t' rules ∧
      Serves config.externalPolicy config.forced (Wanted g.Registered) c' rules := by
  obtain ⟨log, registered, digests, known⟩ := underway.dependencies
  have same : (fun scope => scope ∈ log) = g.Registered :=
    funext fun scope => propext (registered scope)
  obtain rfl := Option.some.inj (known.symm.trans found)
  rw [← same]
  exact Collector.dependencies_serve digests (Collector.register_foldlM rfl log) ran apart

/-- Two modules that want a jar at different versions. -/
def rivalProject : Project where
  modules := ((∅ : Table ModuleId ModuleSnapshot).insert ⟨":old"⟩
      ⟨⟨":old"⟩, ⟨"old"⟩, (∅ : Table ScopeKind SourceSet).insert .main
        (needing Naming.dashedVersion.key)⟩).insert
    ⟨":new"⟩ ⟨⟨":new"⟩, ⟨"new"⟩, (∅ : Table ScopeKind SourceSet).insert .main
      (needing { Naming.dashedVersion.key with version := "2-0", version_ok := by decide })⟩
  artifacts := ((∅ : Table ArtifactKey Path).insert Naming.dashedVersion.key ⟨"/x.jar"⟩).insert
    { Naming.dashedVersion.key with version := "2-0", version_ok := by decide } ⟨"/x.jar"⟩

/-- The beginning of a pass over them. -/
def rivalStart : EStateM.Result BuildError (Generation × Tree) Unit :=
  start (new .default ⟨"/home"⟩ ⟨"/w"⟩ rivalProject, Cache.jarTree)

/-- A pass that visited both modules, and in between one that nobody declared. -/
def rivalPass : Generation :=
  [⟨":old"⟩, ⟨":gone"⟩, ⟨":new"⟩].foldl (fun g id => (left (visit id (g, Cache.jarTree))).1)
    (left rivalStart).1

/-- The end of the pass for external artifacts. -/
def rivalEnd : EStateM.Result BuildError (Collector × Tree) CollectorReport :=
  Collector.finalize
    ((rivalPass.collector? "dependencies").getD (.new (.extra "" []) ⟨""⟩ ⟨∅, [], .content, ⟨""⟩⟩),
      Cache.jarTree)

theorem dependencies_of_rivals_served :
    ∃ c report c' t' rules, rivalPass.collector? "dependencies" = some c ∧
      Collector.finalize (c, Cache.jarTree) = .ok report (c', t') ∧
      report.entries.map CacheEntry.fileName = ["a.b-2-0.jar"] ∧
      c'.targetFor? Naming.dashedVersion.key = some "//.buckforge/cache/external:a.b-2-0" ∧
      report.Emits (Config.default.cacheRoot ⟨"/home"⟩ ⟨"/w"⟩ / "external") t' rules ∧
      Serves .highest [] (Wanted rivalPass.Registered) c' rules := by
  obtain ⟨_, started⟩ : ∃ _, rivalStart = _ := eq_ok_of_isOk (by decide +kernel)
  have underway : Underway .default ⟨"/home"⟩ ⟨"/w"⟩ rivalProject rivalPass :=
    .called (.called (.called (.begun started) ⟨":old"⟩ _) ⟨":gone"⟩ _) ⟨":new"⟩ _
  obtain ⟨log, -, -, found⟩ := underway.dependencies
  have files : (outcome rivalEnd).map (fun report => report.entries.map CacheEntry.fileName) =
      .ok ["a.b-2-0.jar"] := by decide +kernel
  have target : (left rivalEnd).1.targetFor? Naming.dashedVersion.key =
      some "//.buckforge/cache/external:a.b-2-0" := by decide +kernel
  obtain ⟨report, c', t', ran, files⟩ := exists_of_outcome files
  rw [ran] at target
  rw [rivalEnd, found] at ran
  obtain ⟨rules, emits, serves⟩ :=
    dependencies_served underway found ran (CacheEntry.apart_of_alone files)
  exact ⟨_, report, c', t', rules, found, ran, files, target, emits, serves⟩

end Generation

end RuleDepot
