import RuleDepot.Version.Selection
/-!
A ledger of requests, by dependency, version and requester.  It is filled while it is open and
closed once; closing hands out everything recorded, and whatever is recorded or closed afterwards
is refused.  Because requests are kept in tables, what a ledger hands out depends on which requests
were recorded and, for the payload of a version, on the first of them, but not on their order.
-/

namespace RuleDepot

/-- Everyone who asked for one version, and what the first of them supplied. -/
structure Requested (α : Type) where
  requesters : Roster String
  payload : α

/-- The requests of a closed ledger, by dependency and version. -/
abbrev Requirements (α : Type) : Type :=
  Table String (Table String (Requested α))

/-- Requests that one component collects. -/
structure Ledger (α : Type) where
  /-- Who keeps the ledger, for messages. -/
  component : String
  /-- What was recorded, as long as the ledger is open. -/
  pending : Option (Requirements α)

/-- One dependency after the versions asked for were merged. -/
structure Selected (α : Type) where
  logicalId : String
  version : String
  /-- Everyone who asked for any version. -/
  requesters : Roster String
  payload : α

namespace Requirements

variable {α : Type}

/-- Adds one request.  The payload of a version is that of its first request. -/
def add (r : Requirements α) (logicalId version requester : String) (payload : α) :
    Requirements α :=
  r.alter logicalId fun versions? =>
    some <| (versions?.getD ∅).alter version fun requested? =>
      let requested := requested?.getD ⟨∅, payload⟩
      some { requested with requesters := requested.requesters.insert requester }

/-- Every dependency and version asked for, in order. -/
def all (r : Requirements α) : List (String × String × Requested α) :=
  r.toList.flatMap fun (id, versions) =>
    versions.toList.map fun (version, requested) => (id, version, requested)

/-- Takes out the requests for one dependency. -/
def take (r : Requirements α) (logicalId : String) :
    Option (Table String (Requested α)) × Requirements α :=
  (r[logicalId]?, r.erase logicalId)

/-- The versions of one dependency with their requesters only. -/
def versionRequests (versions : Table String (Requested α)) : VersionRequests :=
  versions.map fun _ requested => requested.requesters

/-- Everyone who asked for any of the versions. -/
def everyone (versions : Table String (Requested α)) : Roster String :=
  versions.foldl (fun names _ requested => requested.requesters.foldl (·.insert ·) names) ∅

/-- What is reported when one version is chosen over others. -/
def overrideReason (selection : Selection) (policy : ConflictPolicy) : String :=
  let losers := ", ".intercalate selection.overridden
  s!"selected {selection.version} over {losers} (policy: {policy.text})"

/-- Chooses one version of one dependency. -/
def selectOne (policy : ConflictPolicy) (logicalId : String)
    (versions : Table String (Requested α)) :
    Except BuildError (List (Selected α) × List Diagnostic) := do
  let selection ← (versionRequests versions).select logicalId policy
  let diagnostics :=
    if selection.overridden.isEmpty then []
    else [⟨.versionConflict, some logicalId, overrideReason selection policy⟩]
  match versions[selection.version]? with
  | none => return ([], diagnostics)
  | some winner =>
    return ([⟨logicalId, selection.version, everyone versions, winner.payload⟩], diagnostics)

/-- Chooses one version of each dependency, in order, and reports what was overridden. -/
def select (r : Requirements α) (policy : ConflictPolicy) :
    Except BuildError (List (Selected α) × List Diagnostic) := do
  let chosen ← r.toList.mapM fun (id, versions) => selectOne policy id versions
  return (chosen.flatMap (·.1), chosen.flatMap (·.2))

/-- The versions asked for of any dependency. -/
def versions (r : Requirements α) : Roster String :=
  r.all.foldl (fun names (_, version, _) => names.insert version) ∅

/-- Like `select` for a single dependency, but a pinned version wins outright. -/
def selectPinned (r : Requirements α) (policy : ConflictPolicy) (pinned : Option String) :
    Except BuildError (Option String × List Diagnostic) := do
  match pinned with
  | some pin =>
    let losers := r.versions.toList.filter (· != pin)
    return (some pin, losers.map fun version =>
      ⟨.versionConflict, none, s!"requested version {version} replaced by pinned {pin}"⟩)
  | none =>
    let (selected, diagnostics) ← r.select policy
    return (selected.head?.map (·.version), diagnostics)

end Requirements

namespace Ledger

variable {α : Type}

/-- An open ledger without requests. -/
def new (component : String) : Ledger α :=
  ⟨component, some ∅⟩

/-- Records that someone needs a version of a dependency. -/
def record (l : Ledger α) (logicalId version requester : String) (payload : α) :
    Except BuildError (Ledger α) :=
  match l.pending with
  | none => .error (.protocolViolation l.component
      s!"'{logicalId}' registered by {requester} after finalize")
  | some requests =>
    .ok { l with pending := some (requests.add logicalId version requester payload) }

/-- Fails if the ledger is closed; for registrations that need nothing. -/
def ensureOpen (l : Ledger α) (requester : String) : Except BuildError Unit :=
  if l.pending.isSome then .ok ()
  else .error (.protocolViolation l.component s!"register from {requester} after finalize")

/-- Closes the ledger and hands out what was recorded. -/
def close (l : Ledger α) : Except BuildError (Requirements α × Ledger α) :=
  match l.pending with
  | none => .error (.protocolViolation l.component "finalize called more than once")
  | some requests => .ok (requests, { l with pending := none })

end Ledger

end RuleDepot
