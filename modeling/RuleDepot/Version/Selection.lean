import RuleDepot.Failure
import RuleDepot.Table
import RuleDepot.Version.Order
/-!
Choosing one of the requested versions.  The requests are sorted by version, ties in the order of
their bytes; the last is the choice, and the policy decides whether the others may be overridden.
The order of versions mixes two ways of comparing and is not transitive, so the way of sorting is part of
the rule: each version in turn sinks below the later ones that were placed before it.  This is how up to
twenty versions are sorted.  Where more of them are compared in both ways, as 1.i, 1.i-rc and 1.i.Final are
for seven numbers i, the sort of the program may come to another order, or give up and take the run with it;
where the order is total on the versions at hand, every way of sorting comes to the same.
-/

namespace RuleDepot

/-- The requested versions of one dependency with everyone who asked for each. -/
abbrev VersionRequests : Type :=
  Table String (Roster String)

/-- The chosen version and those that lost to it. -/
structure Selection where
  version : String
  overridden : List String
  deriving DecidableEq, Repr

namespace VersionRequests

/-- Places a version among sorted ones, which are listed from the latest down. -/
def sink (version : String) : List String → List String
  | [] => [version]
  | later :: rest =>
    if Version.order version later = .lt then later :: sink version rest
    else version :: later :: rest

/-- Sorts versions, each being placed behind those that it is not earlier than.  For more than twenty versions
that are not totally ordered, this is one of several possible results. -/
def sortVersions (versions : List String) : List String :=
  (versions.foldl (fun sorted v => sink v sorted) []).reverse

/-- The requested versions, ascending. -/
def ascending (requests : VersionRequests) : List String :=
  sortVersions requests.keys

/-- Who asked for a version. -/
def requesters (requests : VersionRequests) (version : String) : List String :=
  match requests[version]? with
  | some names => names.toList
  | none => []

/-- The refusal to merge. -/
def conflict (requests : VersionRequests) (logicalId : String) (policy : ConflictPolicy) :
    VersionConflict :=
  ⟨logicalId, policy, requests.ascending.map fun v => ⟨v, requests.requesters v⟩⟩

/-- Whether a policy lets the greatest of several versions override the others. -/
def mergeable (policy : ConflictPolicy) (versions : List String) : Bool :=
  match policy with
  | .highest => true
  | .fail => false
  | .highestCompatible =>
    match versions.map Version.major with
    | [] => true
    | first :: rest => rest.all (· == first)

/-- Chooses one version. -/
def select (requests : VersionRequests) (logicalId : String) (policy : ConflictPolicy) :
    Except BuildError Selection :=
  let versions := requests.ascending
  match versions.getLast? with
  | none =>
    .error (.protocolViolation "version selection" s!"no versions requested for '{logicalId}'")
  | some greatest =>
    if versions.length = 1 then .ok ⟨greatest, []⟩
    else if mergeable policy versions then .ok ⟨greatest, versions.dropLast⟩
    else .error (.versionConflict (requests.conflict logicalId policy))

end VersionRequests

end RuleDepot
