import RuleDepot.Proofs.Generation.Visits
import RuleDepot.Proofs.Scope.Binding
/-!
One call at a time.  Between two visits anything may happen to the files, and the memo keeps scopes
as they were when they were resolved.  What a visit does is settled by the scopes that the memo would
give: it shows all of them to all collectors, or it fails and changes nothing but the memo, which
goes on to give the same scopes.
-/

namespace RuleDepot

open Running

/-- The failures of a visit: a module that nobody declared, or coordinates without a file. -/
def Refuses (e : BuildError) : Prop :=
  (∃ id who, e = .unknownModule id who) ∨ ∃ coordinates who, e = .unresolvedDependency coordinates who

namespace Scope

variable {p : Project} {r : Resolver} {t : Tree} {e : BuildError}

private theorem refuses_of_resolve {id : ScopeId} (failed : resolve p r t id = .error e) : Refuses e := by
  unfold resolve at failed
  split at failed
  · cases failed
    exact Or.inl ⟨_, _, rfl⟩
  · rename_i snapshot _
    split at failed
    · cases failed
    · rename_i set _
      cases found : p.unknown? set.references with
      | some other =>
        rw [ofSourceSet_of_unknown r t id snapshot.path found] at failed
        cases failed
        exact Or.inl ⟨_, _, rfl⟩
      | none =>
        obtain ⟨scope, -, -, made⟩ := ofSourceSet_of_known r t id snapshot.path found
        rw [made] at failed
        split at failed
        · cases failed
        · cases failed
          exact Or.inr ⟨_, _, rfl⟩

end Scope

namespace ScopeMemo

variable {m m' m'' : ScopeMemo} {t : Tree} {e : BuildError}

/-- The scope that the memo gives: the one it kept, else the one that resolves now. -/
def foreseen (m : ScopeMemo) (t : Tree) (id : ScopeId) : Except BuildError Scope :=
  match m.scopes[id]? with
  | some scope => .ok scope
  | none => Scope.resolve m.project m.resolver t id

/-- Two memos that give the same scopes, although they may not have kept the same. -/
structure Agrees (t : Tree) (m m' : ScopeMemo) : Prop where
  project : m'.project = m.project
  resolver : m'.resolver = m.resolver
  foreseen : ∀ id, m'.foreseen t id = m.foreseen t id

theorem Agrees.refl (t : Tree) (m : ScopeMemo) : Agrees t m m :=
  ⟨rfl, rfl, fun _ => rfl⟩

theorem Agrees.trans (first : Agrees t m m') (second : Agrees t m' m'') : Agrees t m m'' where
  project := second.project.trans first.project
  resolver := second.resolver.trans first.resolver
  foreseen id := (second.foreseen id).trans (first.foreseen id)

theorem Agrees.symm (agrees : Agrees t m m') : Agrees t m' m where
  project := agrees.project.symm
  resolver := agrees.resolver.symm
  foreseen id := (agrees.foreseen id).symm

/-- Asking for a scope gives the one that was foreseen, and keeping it changes nothing that is. -/
theorem scope_foreseen (m : ScopeMemo) (t : Tree) (id : ScopeId) :
    (m.scope t id).1 = m.foreseen t id ∧ Agrees t m (m.scope t id).2 := by
  unfold ScopeMemo.scope
  cases held : m.scopes[id]? with
  | some scope => exact ⟨by simp [foreseen, held], .refl t m⟩
  | none =>
    cases resolved : Scope.resolve m.project m.resolver t id with
    | error e => exact ⟨by simp [foreseen, held, resolved], rfl, rfl, fun _ => rfl⟩
    | ok scope =>
      refine ⟨by simp [foreseen, held, resolved], rfl, rfl, fun other => ?_⟩
      simp only [foreseen, Table.getElem?_insert]
      by_cases same : id = other
      · subst same
        simp [held, resolved]
      · simp [same]

theorem scopeAll_foreseen (m : ScopeMemo) (t : Tree) (ids : List ScopeId) :
    (m.scopeAll t ids).1 = ids.mapM (m.foreseen t) ∧ Agrees t m (m.scopeAll t ids).2 := by
  induction ids generalizing m with
  | nil => exact ⟨rfl, .refl t m⟩
  | cons id rest ih =>
    obtain ⟨given, agrees⟩ := m.scope_foreseen t id
    rw [scopeAll, List.mapM_cons, ← given]
    cases first : m.scope t id with
    | mk result m' =>
      rw [first] at agrees
      cases result with
      | error e => exact ⟨rfl, agrees⟩
      | ok scope =>
        obtain ⟨all, later⟩ := ih m'
        have rest_eq : rest.mapM (m'.foreseen t) = rest.mapM (m.foreseen t) :=
          congrArg (rest.mapM ·) (funext agrees.foreseen)
        rw [rest_eq] at all
        simp only [← all]
        cases ran : m'.scopeAll t rest with
        | mk results m'' =>
          rw [ran] at later
          cases results <;> exact ⟨rfl, agrees.trans later⟩

/-- The memo that a visit to a module leaves behind. -/
def recalled (m : ScopeMemo) (t : Tree) (id : ModuleId) : ScopeMemo :=
  (m.scopeAll t (m.idsOf id)).2

/-- The scopes that a visit to a module shows, or the failure that it ends in. -/
def visitable (m : ScopeMemo) (t : Tree) (id : ModuleId) : Except BuildError (List Scope) :=
  if (m.project.module? id).isNone then .error (.unknownModule id.text "the generation driver")
  else (m.idsOf id).mapM (m.foreseen t)

theorem recalled_agrees (m : ScopeMemo) (t : Tree) (id : ModuleId) : Agrees t m (m.recalled t id) :=
  (m.scopeAll_foreseen t (m.idsOf id)).2

theorem Agrees.visitable (agrees : Agrees t m m') (id : ModuleId) :
    m'.visitable t id = m.visitable t id := by
  have foreseen : m'.foreseen t = m.foreseen t := funext agrees.foreseen
  simp only [ScopeMemo.visitable, idsOf, agrees.project, foreseen]

theorem refuses_of_visitable {id : ModuleId} (failed : m.visitable t id = .error e) :
    Refuses e := by
  unfold visitable at failed
  split at failed
  · cases failed
    exact Or.inl ⟨_, _, rfl⟩
  · obtain ⟨sid, -, refused⟩ := exists_of_mapM_eq_error failed
    unfold foreseen at refused
    split at refused
    · cases refused
    · exact Scope.refuses_of_resolve refused

end ScopeMemo

namespace Generation

variable {g g' : Generation} {t : Tree} {id : ModuleId}

/-- A pass that takes visits: every collector takes down what it is shown. -/
structure Accumulates (g : Generation) : Prop where
  phase : g.phase = .accumulating
  isOpen : ∀ s ∈ g.stations, s.IsOpen

/-- What a pass comes to that is shown the scopes of one more module. -/
def noted (g : Generation) (id : ModuleId) (scopes : List Scope) : Generation :=
  { g with
    stations := g.stations.map (·.shown scopes)
    visited := g.visited.insert id }

theorem Accumulates.remembers (accumulates : Accumulates g) (m : ScopeMemo) :
    Accumulates { g with scopes := m } :=
  ⟨accumulates.phase, accumulates.isOpen⟩

theorem Accumulates.noted (accumulates : Accumulates g) (id : ModuleId) (scopes : List Scope) :
    Accumulates (g.noted id scopes) where
  phase := accumulates.phase
  isOpen s member := by
    obtain ⟨former, inside, rfl⟩ := List.mem_map.mp member
    exact (accumulates.isOpen former inside).shown scopes

/-- A visit shows the scopes that were foreseen, or fails as it was foreseen; whichever it is, no
file is changed. -/
theorem visit_foreseen (accumulates : Accumulates g) (id : ModuleId) (t : Tree) :
    visit id (g, t) = match g.scopes.visitable t id with
      | .error e => .error e ({ g with scopes := g.scopes.recalled t id }, t)
      | .ok scopes =>
        .ok () (({ g with scopes := g.scopes.recalled t id } : Generation).noted id scopes, t) := by
  rw [Generation.visit, Step.part_bind, if_neg (not_not.mpr accumulates.phase)]
  cases known : g.scopes.project.module? id with
  | none =>
    have none : g.scopes.recalled t id = g.scopes := by
      simp only [ScopeMemo.recalled, ScopeMemo.idsOf, known, ScopeMemo.scopeAll]
    simp only [ScopeMemo.visitable, known, none]
    rfl
  | some snapshot =>
    have own : snapshot.sourceSets.keys.map (fun kind => (⟨id, kind⟩ : ScopeId)) =
        g.scopes.idsOf id := by
      simp only [ScopeMemo.idsOf, known]
    have all := (g.scopes.scopeAll_foreseen t (g.scopes.idsOf id)).1
    simp only [own, ScopeMemo.visitable, ScopeMemo.recalled, known, Option.isNone_some,
      Bool.false_eq_true, if_false, ← all]
    cases ran : g.scopes.scopeAll t (g.scopes.idsOf id) with
    | mk result m =>
      cases result with
      | error e =>
        have stopped : resolveScopes (g.scopes.idsOf id) (g, t) =
            .error e ({ g with scopes := m }, t) := by
          simp only [resolveScopes, ran]
        simp only [bind_run, stopped]
      | ok scopes =>
        have found : resolveScopes (g.scopes.idsOf id) (g, t) =
            .ok scopes ({ g with scopes := m }, t) := by
          simp only [resolveScopes, ran]
        have registered := register_forM scopes { g with scopes := m } t accumulates.isOpen
        simp only [bind_run, found, registered]
        rfl

/-- The passes that a start and visits lead to, whatever becomes of the visits and of the files in
between. -/
inductive Underway (config : Config) (home workspace : Path) (project : Project) :
    Generation → Prop where
  | begun {g : Generation} {t₀ t : Tree}
      (started : start (new config home workspace project, t₀) = .ok () (g, t)) :
      Underway config home workspace project g
  | called {g : Generation} (before : Underway config home workspace project g) (id : ModuleId)
      (t : Tree) : Underway config home workspace project (left (visit id (g, t))).1

private theorem Accumulates.visit (accumulates : Accumulates g) (id : ModuleId) (t : Tree) :
    Accumulates (left (visit id (g, t))).1 := by
  rw [visit_foreseen accumulates id t]
  cases g.scopes.visitable t id with
  | error e => exact accumulates.remembers _
  | ok scopes => exact (accumulates.remembers _).noted id scopes

theorem Underway.accumulates {config : Config} {home workspace : Path} {project : Project}
    (underway : Underway config home workspace project g) : Accumulates g := by
  induction underway with
  | begun started =>
    have begun := begun_of_start started
    exact ⟨begun.phase, begun.isOpen⟩
  | called _ id t ih => exact ih.visit id t

/-- A pass that is under way stays where it began. -/
theorem Underway.placed {config : Config} {home workspace : Path} {project : Project}
    (underway : Underway config home workspace project g) :
    g.workspace = workspace ∧ g.cacheRoot = config.cacheRoot home workspace := by
  induction underway with
  | begun started =>
    rw [start_ok started]
    exact ⟨rfl, rfl⟩
  | @called g before id t ih =>
    rw [visit_foreseen before.accumulates id t]
    cases g.scopes.visitable t id <;> exact ih

end Generation

end RuleDepot
