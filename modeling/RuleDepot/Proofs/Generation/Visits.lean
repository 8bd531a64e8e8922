import RuleDepot.Generation.Basic
import RuleDepot.Proofs.Collector.Registering
/-!
What visits come to.  A visit that succeeds resolves the scopes of its module, shows them to every
collector and changes no file.  Over files that stay as they are, the state after a series of visits
is settled by the list of modules, and all of it but the ledgers by the set of them.
-/

namespace RuleDepot

open Running

namespace ScopeMemo

variable {m m' : ScopeMemo} {t : Tree} {ids : List ScopeId} {id : ScopeId} {scope : Scope}

/-- The memo holds exactly the scopes of some identities, all of which can be resolved, and one
attempt was made for each. -/
structure Holds (m : ScopeMemo) (t : Tree) (ids : List ScopeId) : Prop where
  resolved : ∀ id ∈ ids, ∃ scope, Scope.resolve m.project m.resolver t id = .ok scope
  found : ∀ id scope, m.scopes[id]? = some scope ↔
    id ∈ ids ∧ Scope.resolve m.project m.resolver t id = .ok scope
  attempts : m.attempts = m.scopes.size

private theorem scope_ok (holds : m.Holds t ids)
    (resolved : Scope.resolve m.project m.resolver t id = .ok scope) :
    ∃ m', m.scope t id = (.ok scope, m') ∧ m'.project = m.project ∧ m'.resolver = m.resolver ∧
      m'.Holds t (ids ++ [id]) := by
  unfold ScopeMemo.scope
  cases held : m.scopes[id]? with
  | some kept =>
    have known := (holds.found id kept).mp held
    obtain rfl : kept = scope := Except.ok.inj (known.2.symm.trans resolved)
    refine ⟨m, rfl, rfl, rfl, ?_, ?_, holds.attempts⟩
    · intro other member
      rcases List.mem_append.mp member with member | member
      · exact holds.resolved other member
      · exact ⟨kept, List.mem_singleton.mp member ▸ resolved⟩
    · intro other found
      rw [holds.found, List.mem_append, List.mem_singleton]
      refine and_congr_left fun _ => ⟨Or.inl, fun member => ?_⟩
      rcases member with member | rfl
      · exact member
      · exact known.1
  | none =>
    simp only [resolved]
    refine ⟨_, rfl, rfl, rfl, ?_, ?_, ?_⟩
    · intro other member
      rcases List.mem_append.mp member with member | member
      · exact holds.resolved other member
      · exact ⟨scope, List.mem_singleton.mp member ▸ resolved⟩
    · intro other found
      simp only [Table.getElem?_insert, List.mem_append, List.mem_singleton]
      split
      · rename_i same
        subst same
        simp [resolved]
      · rename_i different
        rw [holds.found]
        simp [Ne.symm different]
    · have fresh : id ∉ m.scopes := by simpa using held
      simp [Std.ExtTreeMap.size_insert, fresh, holds.attempts]

private theorem scope_error (holds : m.Holds t ids) {e : BuildError}
    (failed : Scope.resolve m.project m.resolver t id = .error e) :
    m.scope t id = (.error e, { m with attempts := m.attempts + 1 }) := by
  unfold ScopeMemo.scope
  cases held : m.scopes[id]? with
  | some kept =>
    have known := (holds.found id kept).mp held
    rw [failed] at known
    cases known.2
  | none => simp only [failed]

private theorem scopeAll_spec (holds : m.Holds t ids) (more : List ScopeId) :
    (∃ scopes m', more.mapM (Scope.resolve m.project m.resolver t) = .ok scopes ∧
      m.scopeAll t more = (.ok scopes, m') ∧ m'.project = m.project ∧ m'.resolver = m.resolver ∧
      m'.Holds t (ids ++ more)) ∨
    ∃ e m', more.mapM (Scope.resolve m.project m.resolver t) = .error e ∧
      m.scopeAll t more = (.error e, m') := by
  induction more generalizing m ids with
  | nil => exact Or.inl ⟨[], m, rfl, rfl, rfl, rfl, by simpa using holds⟩
  | cons id rest ih =>
    rw [List.mapM_cons, scopeAll]
    cases resolved : Scope.resolve m.project m.resolver t id with
    | error e =>
      rw [scope_error holds resolved]
      exact Or.inr ⟨e, _, rfl, rfl⟩
    | ok scope =>
      obtain ⟨m', ran, project, resolver, later⟩ := scope_ok holds resolved
      simp only [ran]
      rw [← project, ← resolver]
      rcases ih later with ⟨scopes, m'', all, ran', project', resolver', holds'⟩ | ⟨e, m'', failed, ran'⟩
      · refine Or.inl ⟨scope :: scopes, m'', by rw [all]; rfl, by simp only [ran'], project',
          resolver', by simpa using holds'⟩
      · exact Or.inr ⟨e, m'', by rw [failed]; rfl, by simp only [ran']⟩

private theorem Holds.eq {ids' : List ScopeId} (holds : m.Holds t ids) (holds' : m'.Holds t ids')
    (project : m'.project = m.project) (resolver : m'.resolver = m.resolver)
    (same : ∀ id, id ∈ ids ↔ id ∈ ids') : m = m' := by
  have scopes : m.scopes = m'.scopes := by
    apply Std.ExtTreeMap.ext_getElem?
    intro id
    apply Option.ext
    intro scope
    rw [holds.found, holds'.found, project, resolver, same]
  have attempts : m.attempts = m'.attempts := by
    rw [holds.attempts, holds'.attempts, scopes]
  cases m
  cases m'
  simp_all

/-- The identities of the scopes of a module. -/
def idsOf (m : ScopeMemo) (id : ModuleId) : List ScopeId :=
  match m.project.module? id with
  | none => []
  | some snapshot => snapshot.sourceSets.keys.map fun kind => ⟨id, kind⟩

/-- The scopes of a module, as far as they can all be resolved. -/
def scopesOf (m : ScopeMemo) (t : Tree) (id : ModuleId) : List Scope :=
  ((m.idsOf id).mapM (Scope.resolve m.project m.resolver t)).toOption.getD []

/-- A module is known and its scopes can all be resolved. -/
def Resolves (m : ScopeMemo) (t : Tree) (id : ModuleId) : Prop :=
  (m.project.module? id).isSome = true ∧
    ∃ scopes, (m.idsOf id).mapM (Scope.resolve m.project m.resolver t) = .ok scopes

end ScopeMemo

namespace Station

/-- The ledger of the collector is open. -/
def IsOpen (s : Station) : Prop :=
  s.collector.ledger.pending.isSome = true

/-- A station whose collector was shown scopes. -/
def shown (s : Station) (scopes : List Scope) : Station :=
  { s with collector := s.collector.shown scopes }

@[simp] theorem shown_nil (s : Station) : s.shown [] = s := by
  simp [shown]

theorem shown_append (s : Station) (scopes scopes' : List Scope) :
    s.shown (scopes ++ scopes') = (s.shown scopes).shown scopes' := by
  simp [shown, Collector.shown_append]

theorem IsOpen.shown {s : Station} (isOpen : s.IsOpen) (scopes : List Scope) :
    (s.shown scopes).IsOpen := by
  simpa [IsOpen, Station.shown, Collector.shown] using isOpen

end Station

namespace Generation

variable {g g' g₀ : Generation} {t t' : Tree} {ids ids' : List ModuleId} {id : ModuleId}

private theorem registerAll_open (scope : Scope) (stations : List Station)
    (isOpen : ∀ s ∈ stations, s.IsOpen) :
    registerAll scope stations = (.ok (), stations.map (·.shown [scope])) := by
  induction stations with
  | nil => rfl
  | cons s rest ih =>
    obtain ⟨demands, pending⟩ := Option.isSome_iff_exists.mp (isOpen s List.mem_cons_self)
    simp only [registerAll, Collector.register_open pending,
      ih fun s member => isOpen s (List.mem_cons_of_mem _ member)]
    rfl

/-- Open collectors take down every scope of a list. -/
theorem register_forM (scopes : List Scope) (g : Generation) (t : Tree)
    (isOpen : ∀ s ∈ g.stations, s.IsOpen) :
    scopes.forM register (g, t) =
      .ok () ({ g with stations := g.stations.map (·.shown scopes) }, t) := by
  induction scopes generalizing g with
  | nil => simp
  | cons scope rest ih =>
    have registered : register scope (g, t) =
        .ok () ({ g with stations := g.stations.map (·.shown [scope]) }, t) := by
      simp only [register, registerAll_open scope g.stations isOpen]
    change (register scope >>= fun _ => rest.forM register) (g, t) = _
    rw [bind_run, registered]
    simp only
    rw [ih]
    · have split (s : Station) : s.shown (scope :: rest) = (s.shown [scope]).shown rest :=
        s.shown_append [scope] rest
      simp [split]
    · intro s member
      obtain ⟨former, inside, rfl⟩ := List.mem_map.mp member
      exact (isOpen former inside).shown [scope]

/-- A pass that has just begun. -/
structure Begun (g : Generation) : Prop where
  phase : g.phase = .accumulating
  scopes : g.scopes = .new g.scopes.project g.scopes.resolver
  visited : g.visited = ∅
  fresh : ∀ s ∈ g.stations, s.collector.ledger.pending = some ∅

/-- Beginning changes nothing of a pass but its phase. -/
theorem start_ok (ran : start (g, t) = .ok () (g', t')) :
    g' = { g with phase := .accumulating } := by
  rw [start, Step.part_bind] at ran
  split at ran
  · cases ran
  · obtain ⟨-, reset, -, ran⟩ := Step.files_bind_ok ran
    obtain ⟨-, created, -, ran⟩ := Step.files_bind_ok ran
    cases ran
    rfl

/-- A new pass that was begun has begun. -/
theorem begun_of_start {config : Config} {home workspace : Path} {project : Project}
    (started : start (new config home workspace project, t) = .ok () (g, t')) : Begun g := by
  obtain rfl := start_ok started
  refine ⟨rfl, rfl, rfl, fun s member => ?_⟩
  obtain ⟨shelf, -, rfl⟩ := List.mem_map.mp member
  rfl

/-- What a pass has come to from its beginning by visits to modules, over files that stay as they
are. -/
structure Visited (g₀ : Generation) (t : Tree) (ids : List ModuleId) (g : Generation) : Prop where
  workspace : g.workspace = g₀.workspace
  cacheRoot : g.cacheRoot = g₀.cacheRoot
  phase : g.phase = .accumulating
  project : g.scopes.project = g₀.scopes.project
  resolver : g.scopes.resolver = g₀.scopes.resolver
  holds : g.scopes.Holds t (ids.flatMap g₀.scopes.idsOf)
  stations : g.stations = g₀.stations.map (·.shown (ids.flatMap (g₀.scopes.scopesOf t)))
  visited : ∀ id, id ∈ g.visited ↔ id ∈ ids
  resolves : ∀ id ∈ ids, g₀.scopes.Resolves t id

theorem Begun.isOpen (begun : Begun g) : ∀ s ∈ g.stations, s.IsOpen := by
  intro s member
  rw [Station.IsOpen, begun.fresh s member]
  rfl

private theorem Begun.holds (begun : Begun g) : g.scopes.Holds t [] := by
  rw [begun.scopes]
  exact ⟨by simp, by simp [ScopeMemo.new], rfl⟩

private theorem Begun.isVisited (begun : Begun g₀) (t : Tree) : Visited g₀ t [] g₀ where
  workspace := rfl
  cacheRoot := rfl
  phase := begun.phase
  project := rfl
  resolver := rfl
  holds := begun.holds
  stations := by simp
  visited := by simp [begun.visited]
  resolves := by simp

/-- What one more visit comes to whose scopes were all resolved and shown. -/
theorem Visited.extend (visited : Visited g₀ t ids g) {m : ScopeMemo} {scopes : List Scope}
    (resolves : g₀.scopes.Resolves t id)
    (resolved : (g₀.scopes.idsOf id).mapM
      (Scope.resolve g₀.scopes.project g₀.scopes.resolver t) = .ok scopes)
    (project : m.project = g₀.scopes.project) (resolver : m.resolver = g₀.scopes.resolver)
    (holds : m.Holds t (ids.flatMap g₀.scopes.idsOf ++ g₀.scopes.idsOf id)) :
    Visited g₀ t (ids ++ [id])
      { g with
        scopes := m
        stations := g.stations.map (·.shown scopes)
        visited := g.visited.insert id } where
  workspace := visited.workspace
  cacheRoot := visited.cacheRoot
  phase := visited.phase
  project := project
  resolver := resolver
  holds := by simpa using holds
  stations := by
    have noted : g₀.scopes.scopesOf t id = scopes := by
      rw [ScopeMemo.scopesOf, resolved]
      rfl
    change g.stations.map (·.shown scopes) = _
    rw [visited.stations, List.map_map, List.flatMap_append, List.flatMap_singleton, noted]
    simp [Station.shown_append]
  visited other := by
    simp only [Std.ExtTreeSet.mem_insert, visited.visited, List.mem_append, List.mem_singleton,
      Std.compare_eq_iff_eq]
    rw [or_comm, eq_comm]
  resolves other member := by
    rcases List.mem_append.mp member with member | member
    · exact visited.resolves other member
    · exact List.mem_singleton.mp member ▸ resolves

/-- A visit succeeds exactly if the module resolves, and then adds it. -/
theorem Visited.visit (visited : Visited g₀ t ids g) (isOpen : ∀ s ∈ g₀.stations, s.IsOpen)
    (id : ModuleId) :
    (g₀.scopes.Resolves t id ∧ ∃ g', visit id (g, t) = .ok () (g', t) ∧
      Visited g₀ t (ids ++ [id]) g') ∨
    (¬ g₀.scopes.Resolves t id ∧ ∃ e g', Generation.visit id (g, t) = .error e (g', t)) := by
  rw [Generation.visit, Step.part_bind]
  simp only [visited.phase, ne_eq, not_true_eq_false, if_false, visited.project]
  cases known : g₀.scopes.project.module? id with
  | none =>
    refine Or.inr ⟨fun resolves => ?_, _, g, rfl⟩
    simpa [known] using resolves.1
  | some snapshot =>
    have own : g₀.scopes.idsOf id = snapshot.sourceSets.keys.map fun kind => ⟨id, kind⟩ := by
      simp only [ScopeMemo.idsOf, known]
    simp only [← own]
    have all := ScopeMemo.scopeAll_spec visited.holds (g₀.scopes.idsOf id)
    rw [visited.project, visited.resolver] at all
    rcases all with ⟨scopes, m, resolved, ran, project, resolver, holds⟩ | ⟨e, m, failed, ran⟩
    · have resolves : g₀.scopes.Resolves t id := ⟨by simp [known], scopes, resolved⟩
      have found : resolveScopes (g₀.scopes.idsOf id) (g, t) =
          .ok scopes ({ g with scopes := m }, t) := by
        simp only [resolveScopes, ran]
      have open_ : ∀ s ∈ g.stations, s.IsOpen := by
        intro s member
        rw [visited.stations] at member
        obtain ⟨former, inside, rfl⟩ := List.mem_map.mp member
        exact (isOpen former inside).shown _
      have registered := register_forM scopes { g with scopes := m } t open_
      refine Or.inl ⟨resolves, _, ?_, visited.extend resolves resolved project resolver holds⟩
      simp only [bind_run, found, registered]
      rfl
    · refine Or.inr ⟨fun resolves => ?_, e, { g with scopes := m }, ?_⟩
      · obtain ⟨scopes, resolved⟩ := resolves.2
        rw [failed] at resolved
        cases resolved
      · have stopped : resolveScopes (g₀.scopes.idsOf id) (g, t) =
            .error e ({ g with scopes := m }, t) := by
          simp only [resolveScopes, ran]
        simp only [bind_run, stopped]

/-- Visits succeed one after another exactly if all modules resolve, and then add them all. -/
theorem Visited.visit_forM (visited : Visited g₀ t ids g) (isOpen : ∀ s ∈ g₀.stations, s.IsOpen)
    (more : List ModuleId) :
    ((∀ id ∈ more, g₀.scopes.Resolves t id) ∧ ∃ g', more.forM Generation.visit (g, t) =
      .ok () (g', t) ∧ Visited g₀ t (ids ++ more) g') ∨
    ((∃ id ∈ more, ¬ g₀.scopes.Resolves t id) ∧
      ∃ e g', more.forM Generation.visit (g, t) = .error e (g', t)) := by
  induction more generalizing g ids with
  | nil => exact Or.inl ⟨by simp, g, rfl, by simpa using visited⟩
  | cons id rest ih =>
    change (_ ∧ ∃ g', (Generation.visit id >>= fun _ => rest.forM Generation.visit) (g, t) = _ ∧ _) ∨
      (_ ∧ ∃ e g', (Generation.visit id >>= fun _ => rest.forM Generation.visit) (g, t) = _)
    rw [bind_run]
    rcases visited.visit isOpen id with ⟨resolves, g', ran, visited'⟩ | ⟨unresolved, e, g', ran⟩
    · simp only [ran]
      rcases ih visited' with ⟨all, g'', ran', visited''⟩ | ⟨⟨other, member, unresolved⟩, stopped⟩
      · exact Or.inl ⟨List.forall_mem_cons.mpr ⟨resolves, all⟩, g'', ran', by simpa using visited''⟩
      · exact Or.inr ⟨⟨other, List.mem_cons_of_mem _ member, unresolved⟩, stopped⟩
    · simp only [ran]
      exact Or.inr ⟨⟨id, List.mem_cons_self, unresolved⟩, e, g', rfl⟩

/-- What visits come to from the beginning of a pass, if they all succeed. -/
theorem Begun.visited_of_ran (begun : Begun g₀) (ran : ids.forM Generation.visit (g₀, t) =
    .ok () (g, t')) : t' = t ∧ Visited g₀ t ids g := by
  rcases (begun.isVisited t).visit_forM begun.isOpen ids with ⟨-, g', ran', visited⟩ | ⟨-, e, g', ran'⟩
  · rw [ran'] at ran
    cases ran
    exact ⟨rfl, visited⟩
  · rw [ran'] at ran
    cases ran

/-- A round of visits is one to every module of the project. -/
theorem Begun.visited_of_visitAll {n : Nat} (begun : Begun g₀)
    (ran : visitAll (g₀, t) = .ok n (g, t')) :
    t' = t ∧ Visited g₀ t g₀.scopes.project.modules.keys g := by
  rw [visitAll, Step.part_bind] at ran
  obtain ⟨_, after, visits, ran⟩ := bind_ok ran
  cases ran
  exact begun.visited_of_ran visits

/-- Modules that could be visited can be visited from the beginning in any other order. -/
theorem Begun.visits_again (begun : Begun g₀) (visited : Visited g₀ t ids g)
    (known : ∀ id ∈ ids', id ∈ ids) :
    ∃ g', ids'.forM Generation.visit (g₀, t) = .ok () (g', t) ∧ Visited g₀ t ids' g' := by
  rcases (begun.isVisited t).visit_forM begun.isOpen ids' with again | ⟨⟨id, member, unresolved⟩, -⟩
  · exact again.2
  · exact absurd (visited.resolves id (known id member)) unresolved

/-- Visits to the same modules come to the same, up to what collectors took down. -/
theorem Visited.same (visited : Visited g₀ t ids g) (visited' : Visited g₀ t ids' g')
    (same : ∀ id, id ∈ ids ↔ id ∈ ids') : g' = { g with stations := g'.stations } := by
  have scopes : g.scopes = g'.scopes :=
    visited.holds.eq visited'.holds (visited'.project.trans visited.project.symm)
      (visited'.resolver.trans visited.resolver.symm) fun id => by simp only [List.mem_flatMap, same]
  have modules : g'.visited = g.visited := by
    apply Std.ExtTreeSet.ext_mem
    intro id
    rw [visited.visited, visited'.visited, same]
  have workspace := visited'.workspace.trans visited.workspace.symm
  have cacheRoot := visited'.cacheRoot.trans visited.cacheRoot.symm
  have phase := visited'.phase.trans visited.phase.symm
  cases g
  cases g'
  simp_all

end Generation

end RuleDepot
