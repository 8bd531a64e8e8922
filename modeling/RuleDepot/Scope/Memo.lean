import RuleDepot.Scope.Basic
/-!
Scopes are resolved once per pass.  A scope that was resolved is given again without looking at the
files; an attempt that failed is not kept, so the next one looks again.
-/

namespace RuleDepot

/-- The scopes resolved so far. -/
structure ScopeMemo where
  project : Project
  resolver : Resolver
  scopes : Table ScopeId Scope
  /-- How many resolutions were tried, failed ones included. -/
  attempts : Nat

namespace ScopeMemo

/-- No scope is resolved yet. -/
def new (project : Project) (resolver : Resolver) : ScopeMemo :=
  ⟨project, resolver, ∅, 0⟩

/-- The scope of a module for a purpose. -/
def scope (m : ScopeMemo) (t : Tree) (id : ScopeId) : Except BuildError Scope × ScopeMemo :=
  match m.scopes[id]? with
  | some scope => (.ok scope, m)
  | none =>
    let tried := { m with attempts := m.attempts + 1 }
    match Scope.resolve m.project m.resolver t id with
    | .ok scope => (.ok scope, { tried with scopes := m.scopes.insert id scope })
    | .error e => (.error e, tried)

/-- The scopes of a list, up to the first that fails. -/
def scopeAll (m : ScopeMemo) (t : Tree) : List ScopeId → Except BuildError (List Scope) × ScopeMemo
  | [] => (.ok [], m)
  | id :: rest =>
    match m.scope t id with
    | (.error e, m) => (.error e, m)
    | (.ok scope, m) =>
      match m.scopeAll t rest with
      | (.error e, m) => (.error e, m)
      | (.ok scopes, m) => (.ok (scope :: scopes), m)

/-- The scopes resolved so far, by module and purpose. -/
def resolved (m : ScopeMemo) : List Scope :=
  m.scopes.values

end ScopeMemo

end RuleDepot
