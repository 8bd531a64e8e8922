import RuleDepot.Collector.Basic
import RuleDepot.Proofs.Ledger.Recording
import RuleDepot.Proofs.Running
/-!
What a collector takes down.  While its ledger is open, a collector that is shown scopes records
what each of them needs and changes in nothing else, so what it holds is settled by the scopes that
it was shown.
-/

namespace RuleDepot

open Requirements

/-- What a duty records for a scope. -/
def Duty.requests (duty : Duty) (scope : Scope) : List (Request (Option Artifact)) :=
  (duty.needs scope).map fun need =>
    ⟨need.logicalId, need.version, scope.requester, need.artifact⟩

namespace Collector

variable {c c' : Collector} {demands : Demands} {scopes scopes' : List Scope} {t t' : Tree}

/-- A collector that was shown scopes. -/
def shown (c : Collector) (scopes : List Scope) : Collector :=
  { c with
    ledger := { c.ledger with
      pending := c.ledger.pending.map (·.addAll (scopes.flatMap c.duty.requests)) } }

@[simp] theorem shown_nil (c : Collector) : c.shown [] = c := by
  cases c with
  | mk duty cache ledger answers =>
    cases ledger with
    | mk component pending => cases pending <;> rfl

theorem shown_append (c : Collector) (scopes scopes' : List Scope) :
    c.shown (scopes ++ scopes') = (c.shown scopes).shown scopes' := by
  cases pending : c.ledger.pending <;>
    simp [shown, pending, addAll, List.foldl_append]

private theorem record_needs (needs : List Need) (requester : String)
    (l : Ledger (Option Artifact)) (demands : Demands) (isOpen : l.pending = some demands) :
    needs.foldlM (fun (ledger : Ledger (Option Artifact)) need =>
        ledger.record need.logicalId need.version requester need.artifact) l =
      .ok { l with pending := some (demands.addAll (needs.map fun need =>
        ⟨need.logicalId, need.version, requester, need.artifact⟩)) } := by
  have called := Ledger.calls_open isOpen ((needs.map fun need =>
    (⟨need.logicalId, need.version, requester, need.artifact⟩ : Request _)).map .record)
  rwa [Ledger.Call.requests_map_record, List.foldlM_map, List.foldlM_map] at called

/-- An open collector takes down what a scope needs. -/
theorem register_open (isOpen : c.ledger.pending = some demands) (scope : Scope) :
    c.register scope = .ok (c.shown [scope]) := by
  have ensured : c.ledger.ensureOpen scope.requester = .ok () := by
    simp [Ledger.ensureOpen, isOpen]
  have recorded := record_needs (c.duty.needs scope) scope.requester c.ledger demands isOpen
  unfold register
  simp only [ensured, recorded]
  have same : c.shown [scope] = { c with
      ledger := { c.ledger with pending := some (demands.addAll (c.duty.requests scope)) } } := by
    simp [shown, isOpen]
  rw [same]
  split <;> rfl

/-- An open collector takes down all scopes that it is shown. -/
theorem register_foldlM (isOpen : c.ledger.pending = some demands) (scopes : List Scope) :
    scopes.foldlM register c = .ok (c.shown scopes) := by
  induction scopes generalizing c demands with
  | nil => rw [shown_nil]; rfl
  | cons scope rest ih =>
    have still : (c.shown [scope]).ledger.pending = some (demands.addAll ([scope].flatMap c.duty.requests)) := by
      simp [shown, isOpen]
    rw [List.foldlM_cons, register_open isOpen]
    exact (ih still).trans (congrArg Except.ok (c.shown_append [scope] rest).symm)

end Collector

end RuleDepot
