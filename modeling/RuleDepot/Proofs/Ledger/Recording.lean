import RuleDepot.Proofs.Ledger
/-!
What a ledger hands out.  While it is open every call on it succeeds, and closing it hands out each
version of each dependency that was asked for, in order, with everyone who asked for it and with what
the first of them supplied.  Neither the order of the calls nor how often they were made can be told
from that, as long as those who ask for one version supply the same.
-/

namespace RuleDepot

open Std

namespace Requirements

variable {α : Type} {r : Requirements α} {requests : List (Request α)} {id version : String}
  {requested : Requested α}

private theorem mem_about_iff {q : Request α} :
    q ∈ about requests id version ↔ q ∈ requests ∧ q.logicalId = id ∧ q.version = version := by
  simp [about]

/-- Somebody asked for a version of a dependency. -/
def Recorded (requests : List (Request α)) (id version : String) : Prop :=
  ∃ q ∈ requests, q.logicalId = id ∧ q.version = version

/-- What is held for a version that somebody asked for: the names of all who did, and what the first of
them supplied. -/
structure Tells (requests : List (Request α)) (id version : String) (requested : Requested α) :
    Prop where
  requesters : ∀ who, who ∈ requested.requesters ↔
    ∃ q ∈ requests, q.logicalId = id ∧ q.version = version ∧ q.requester = who
  payload : (requests.find? fun q => q.logicalId = id ∧ q.version = version).map Request.payload =
    some requested.payload

/-- A version is held exactly if somebody asked for it. -/
theorem exists_held_iff : (∃ requested, (versionsOf (addAll ∅ requests) id)[version]? = some requested) ↔
    Recorded requests id version := by
  rw [(addAll_spec requests).2]
  constructor
  · rintro ⟨requested, held⟩
    cases asked : about requests id version with
    | nil => simp [asked, merged] at held
    | cons q rest =>
      have member : q ∈ about requests id version := asked ▸ List.mem_cons_self
      exact ⟨q, mem_about_iff.mp member⟩
  · rintro ⟨q, member, own⟩
    have asked := mem_about_iff.mpr ⟨member, own⟩
    cases same : about requests id version with
    | nil => simp [same] at asked
    | cons first rest => exact ⟨_, rfl⟩

theorem mem_versionsOf_iff : version ∈ versionsOf (addAll ∅ requests) id ↔
    Recorded requests id version := by
  rw [← exists_held_iff, ExtTreeMap.mem_iff_isSome_getElem?, Option.isSome_iff_exists]

/-- What is known was asked for at some version. -/
theorem exists_version {versions : Table String (Requested α)}
    (known : (addAll ∅ requests)[id]? = some versions) : ∃ version, version ∈ versions := by
  have asked : id ∈ addAll ∅ requests := by
    rw [ExtTreeMap.mem_iff_isSome_getElem?, known]
    rfl
  obtain ⟨q, member, own⟩ := ((addAll_spec requests).1 id).mp asked
  rw [← versionsOf_eq known]
  exact ⟨q.version, mem_versionsOf_iff.mpr ⟨q, member, own, rfl⟩⟩

theorem tells_of_held (held : (versionsOf (addAll ∅ requests) id)[version]? = some requested) :
    Tells requests id version requested := by
  rw [(addAll_spec requests).2] at held
  constructor
  · intro who
    simp only [mem_requesters_iff held who, mem_about_iff, and_assoc]
  · rw [← payload_merged, held, Option.map_some]

theorem mem_all_iff : (id, version, requested) ∈ r.all ↔
    (versionsOf r id)[version]? = some requested := by
  simp only [all, List.mem_flatMap, List.mem_map, Prod.exists]
  constructor
  · rintro ⟨_, versions, listed, _, _, listed', same⟩
    cases same
    rw [versionsOf_eq (ExtTreeMap.mem_toList_iff_getElem?_eq_some.mp listed)]
    exact ExtTreeMap.mem_toList_iff_getElem?_eq_some.mp listed'
  · intro held
    obtain ⟨versions, known, inside⟩ := known_of_version held
    exact ⟨id, versions, ExtTreeMap.mem_toList_iff_getElem?_eq_some.mpr known, version, requested,
      ExtTreeMap.mem_toList_iff_getElem?_eq_some.mpr inside, rfl⟩

/-- Everything is listed by dependency and version, ascending. -/
theorem all_pairwise (r : Requirements α) : r.all.Pairwise fun entry entry' =>
    entry.1 < entry'.1 ∨ entry.1 = entry'.1 ∧ entry.2.1 < entry'.2.1 := by
  rw [all, List.pairwise_flatMap]
  constructor
  · intro entry _
    rw [List.pairwise_map]
    refine ExtTreeMap.ordered_keys_toList.imp fun before => Or.inr ⟨rfl, ?_⟩
    exact VersionRequests.lt_of_compare before
  · refine ExtTreeMap.ordered_keys_toList.imp fun before x member y member' => Or.inl ?_
    obtain ⟨_, -, rfl⟩ := List.mem_map.mp member
    obtain ⟨_, -, rfl⟩ := List.mem_map.mp member'
    exact VersionRequests.lt_of_compare before

private theorem addAll_append (r : Requirements α) (requests requests' : List (Request α)) :
    r.addAll (requests ++ requests') = (r.addAll requests).addAll requests' :=
  List.foldl_append

end Requirements

namespace Ledger

open Requirements

variable {α : Type} {l : Ledger α} {held : Requirements α} {component component' : String}

/-- What can be asked of a ledger before it is closed. -/
inductive Call (α : Type) where
  | record (request : Request α)
  | ensureOpen (requester : String)

namespace Call

/-- What is recorded by a call. -/
def request? : Call α → Option (Request α)
  | record request => some request
  | ensureOpen _ => none

/-- What is recorded by a series of calls, in order. -/
def requests (calls : List (Call α)) : List (Request α) :=
  calls.filterMap request?

private theorem requests_cons (call : Call α) (calls : List (Call α)) :
    requests (call :: calls) = call.request?.toList ++ requests calls := by
  cases call <;> rfl

theorem requests_map_record (recorded : List (Request α)) :
    requests (recorded.map record) = recorded := by
  rw [requests, List.filterMap_map]
  exact List.filterMap_some

theorem mem_requests_iff {calls : List (Call α)} {q : Request α} :
    q ∈ requests calls ↔ record q ∈ calls := by
  rw [requests, List.mem_filterMap]
  constructor
  · rintro ⟨call, member, same⟩
    cases call with
    | record request =>
      cases same
      exact member
    | ensureOpen requester => cases same
  · intro member
    exact ⟨record q, member, rfl⟩

end Call

/-- Makes a call on a ledger. -/
def call (l : Ledger α) : Call α → Except BuildError (Ledger α)
  | .record q => l.record q.logicalId q.version q.requester q.payload
  | .ensureOpen requester => do
    l.ensureOpen requester
    return l

/-- Makes calls on a fresh ledger one after another and closes it. -/
def closeAfter (component : String) (calls : List (Call α)) :
    Except BuildError (Requirements α × Ledger α) := do
  let l ← calls.foldlM call (.new component)
  l.close

/-- An open ledger takes every call, and records what is to be recorded. -/
theorem call_open (isOpen : l.pending = some held) (c : Call α) :
    l.call c = .ok { l with pending := some (held.addAll c.request?.toList) } := by
  cases c with
  | record q => simp only [call, record, isOpen]; rfl
  | ensureOpen requester =>
    cases l
    cases isOpen
    rfl

theorem calls_open (isOpen : l.pending = some held) (calls : List (Call α)) :
    calls.foldlM call l = .ok { l with pending := some (held.addAll (Call.requests calls)) } := by
  induction calls generalizing l held with
  | nil =>
    cases l
    cases isOpen
    rfl
  | cons c rest ih =>
    rw [List.foldlM_cons, call_open isOpen, Call.requests_cons, addAll_append]
    exact ih rfl

/-- A ledger that is closed after some calls hands out what they recorded. -/
theorem closeAfter_eq (component : String) (calls : List (Call α)) :
    closeAfter component calls = .ok (addAll ∅ (Call.requests calls), ⟨component, none⟩) := by
  unfold closeAfter
  rw [calls_open rfl]
  rfl

/-- **Closed ledgers are told by what was recorded.**  Take two series of calls on fresh ledgers that
record the same, in whatever order and however often, where all who ask for one version of a
dependency supply the same.  All calls succeed, and closing hands out the same; so both list the same,
give out the same for each dependency, and select the same versions with the same failures and
diagnostics, pinned or not. -/
theorem closed_alike {calls calls' : List (Call α)} (component component' : String)
    (same : ∀ q, Call.record q ∈ calls ↔ Call.record q ∈ calls')
    (functional : ∀ q q', Call.record q ∈ calls → Call.record q' ∈ calls →
      q.logicalId = q'.logicalId → q.version = q'.version → q.payload = q'.payload) :
    ∃ r r' l l', closeAfter component calls = .ok (r, l) ∧
      closeAfter component' calls' = .ok (r', l') ∧ r = r' ∧ r.all = r'.all ∧
      (∀ id, r.take id = r'.take id) ∧ (∀ policy, r.select policy = r'.select policy) ∧
      ∀ policy pinned, r.selectPinned policy pinned = r'.selectPinned policy pinned := by
  have one : addAll ∅ (Call.requests calls) = addAll ∅ (Call.requests calls') := by
    apply addAll_congr
    · intro q
      rw [Call.mem_requests_iff, Call.mem_requests_iff, same]
    · intro q member q' member'
      exact functional q q' (Call.mem_requests_iff.mp member) (Call.mem_requests_iff.mp member')
  refine ⟨_, _, _, _, closeAfter_eq component calls, closeAfter_eq component' calls', one, ?_⟩
  rw [one]
  exact ⟨rfl, fun _ => rfl, fun _ => rfl, fun _ _ => rfl⟩

/-- Two modules that ask for one version, and a third for another. -/
def askedThrice : List (Call String) :=
  [.record ⟨"gson", "2.8", ":b (main)", "old"⟩, .record ⟨"gson", "2.9", ":a (main)", "new"⟩,
    .ensureOpen ":c (main)", .record ⟨"gson", "2.8", ":a (main)", "old"⟩]

theorem repeated_calls_closed_alike :
    let calls' := askedThrice.reverse ++ askedThrice
    (∀ q, Call.record q ∈ askedThrice ↔ Call.record q ∈ calls') ∧
      ∃ r r' l l', closeAfter "external" askedThrice = .ok (r, l) ∧
        closeAfter "lint" calls' = .ok (r', l') ∧ r = r' := by
  intro calls'
  have same (q : Request String) : Call.record q ∈ askedThrice ↔ Call.record q ∈ calls' := by
    simp [calls']
  have functional (q q' : Request String) (member : Call.record q ∈ askedThrice)
      (member' : Call.record q' ∈ askedThrice) (_ : q.logicalId = q'.logicalId)
      (versions : q.version = q'.version) : q.payload = q'.payload := by
    simp only [askedThrice, List.mem_cons, Call.record.injEq, reduceCtorEq, List.not_mem_nil,
      or_false, false_or] at member member'
    rcases member with rfl | rfl | rfl <;> rcases member' with rfl | rfl | rfl <;> simp_all
  obtain ⟨r, r', l, l', closed, closed', one, -⟩ :=
    closed_alike "external" "lint" same functional
  exact ⟨same, r, r', l, l', closed, closed', one⟩

end Ledger

end RuleDepot
