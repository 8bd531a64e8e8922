/-!
What to do when modules ask for one dependency at several versions, and what to say when a policy
refuses to choose.
-/

namespace RuleDepot

/-- How different requested versions of one dependency are reconciled. -/
inductive ConflictPolicy where
  /-- The greatest version wins. -/
  | highest
  /-- Any disagreement is an error. -/
  | fail
  /-- The greatest version wins if all requests share a major version. -/
  | highestCompatible
  deriving DecidableEq, Repr, Inhabited

namespace ConflictPolicy

def text : ConflictPolicy → String
  | highest => "highest"
  | fail => "fail"
  | highestCompatible => "highest-compatible"

/-- The policy of a name. -/
def named? : String → Option ConflictPolicy
  | "highest" => some highest
  | "fail" => some fail
  | "highest-compatible" => some highestCompatible
  | _ => none

end ConflictPolicy

/-- One requested version and who asked for it. -/
structure VersionRequest where
  version : String
  requestedBy : List String
  deriving DecidableEq, Repr

/-- Requests for one dependency that a policy refused to merge. -/
structure VersionConflict where
  logicalId : String
  policy : ConflictPolicy
  requests : List VersionRequest
  deriving DecidableEq, Repr

namespace VersionConflict

def message (c : VersionConflict) : String :=
  let head := s!"Version conflict for '{c.logicalId}' (policy: {c.policy.text}):"
  c.requests.foldl
    (fun text r => text ++ s!"\n  - {r.version} requested by " ++ ", ".intercalate r.requestedBy)
    head

end VersionConflict

end RuleDepot
