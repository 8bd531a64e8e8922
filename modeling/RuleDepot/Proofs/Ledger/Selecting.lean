import RuleDepot.Proofs.Ledger.Recording
import RuleDepot.Proofs.Version.Compatible
/-!
What is selected from a closed ledger.  As long as no two versions of a dependency clash, one version of
each that was asked for is selected, in order, for everyone who asked for any version, and it is reported
of which dependencies there were several; no dependency is lost and none is made up.  Otherwise the first
dependency with versions that clash is refused.
-/

namespace RuleDepot

open Std

namespace ConflictPolicy

/-- Two versions of which a policy lets neither override the other. -/
def Clash : ConflictPolicy → String → String → Prop
  | highest, _, _ => False
  | fail, version, version' => version ≠ version'
  | highestCompatible, version, version' => Version.major version ≠ Version.major version'

private theorem Clash.ne {policy : ConflictPolicy} {version version' : String}
    (clash : policy.Clash version version') : version ≠ version' := by
  rintro rfl
  cases policy with
  | highest => exact clash
  | fail => exact clash rfl
  | highestCompatible => exact clash rfl

end ConflictPolicy

namespace VersionRequests

variable {requests : VersionRequests} {overridden : List String} {id version : String}
  {policy : ConflictPolicy} {selection : Selection}

/-- Two of the requested versions clash. -/
def Clashing (requests : VersionRequests) (policy : ConflictPolicy) : Prop :=
  ∃ version ∈ requests, ∃ version' ∈ requests, policy.Clash version version'

/-- Versions are merged exactly if no two of them clash. -/
theorem merges_iff (sorted : requests.ascending = overridden ++ [version]) :
    (overridden = [] ∨ mergeable policy requests.ascending = true) ↔ ¬ requests.Clashing policy := by
  constructor
  · rintro (alone | merged) ⟨v, asked, v', asked', clash⟩
    · rw [← mem_ascending, sorted, alone, List.nil_append, List.mem_singleton] at asked asked'
      exact clash.ne (asked.trans asked'.symm)
    · cases policy with
      | highest => exact clash
      | fail => cases merged
      | highestCompatible =>
        exact clash (mergeable_highestCompatible_iff.mp merged v (mem_ascending.mpr asked) v'
          (mem_ascending.mpr asked'))
  · intro agree
    cases policy with
    | highest => exact Or.inr rfl
    | fail =>
      left
      cases overridden with
      | nil => rfl
      | cons first rest =>
        have single := nodup_ascending requests
        rw [sorted, List.nodup_append] at single
        obtain ⟨-, -, apart⟩ := single
        refine absurd ⟨first, ?_, version, ?_, ?_⟩ agree
        · rw [← mem_ascending, sorted]
          exact List.mem_cons_self
        · rw [← mem_ascending, sorted]
          exact List.mem_append_right _ List.mem_cons_self
        · exact apart first List.mem_cons_self version List.mem_cons_self
    | highestCompatible =>
      right
      rw [mergeable_highestCompatible_iff]
      intro v listed v' listed'
      by_contra differ
      exact agree ⟨v, mem_ascending.mp listed, v', mem_ascending.mp listed', differ⟩

private theorem exists_select (asked : version ∈ requests) (agree : ¬ requests.Clashing policy)
    (id : String) :
    ∃ selection, requests.select id policy = .ok selection := by
  obtain ⟨overridden, chosen, sorted⟩ := exists_ascending asked
  rw [select_of_ascending sorted, if_pos ((merges_iff sorted).mpr agree)]
  exact ⟨_, rfl⟩

/-- Versions two of which clash are all told. -/
theorem select_of_clashing (clashing : requests.Clashing policy) (id : String) :
    requests.select id policy = .error (.versionConflict (requests.conflict id policy)) := by
  have ⟨version, asked, _⟩ := clashing
  obtain ⟨overridden, chosen, sorted⟩ := exists_ascending asked
  rw [select_of_ascending sorted, if_neg]
  intro merged
  exact (merges_iff sorted).mp merged clashing

end VersionRequests

namespace Requirements

variable {α : Type} {r : Requirements α} {requests : List (Request α)} {id version : String}
  {versions : Table String (Requested α)} {policy : ConflictPolicy}
  {selected : List (Selected α)} {diagnostics : List Diagnostic}

/-- Whoever asked for one of the versions is among everyone who did. -/
theorem mem_everyone_iff {who : String} : who ∈ everyone versions ↔
    ∃ (version : String) (requested : Requested α),
      versions[version]? = some requested ∧ who ∈ requested.requesters := by
  have each (entries : List (String × Requested α)) (names : Roster String) :
      who ∈ entries.foldl (fun names entry => entry.2.requesters.foldl (·.insert ·) names) names ↔
        who ∈ names ∨ ∃ entry ∈ entries, who ∈ entry.2.requesters := by
    induction entries generalizing names with
    | nil => simp
    | cons entry rest ih =>
      have own : who ∈ entry.2.requesters.foldl (·.insert ·) names ↔
          who ∈ names ∨ who ∈ entry.2.requesters := by
        rw [ExtTreeSet.foldl_eq_foldl_toList]
        simpa using Roster.mem_foldl_insert entry.2.requesters.toList fun name => name
      rw [List.foldl_cons, ih, own, or_assoc, List.exists_mem_cons_iff]
  rw [everyone, ExtTreeMap.foldl_eq_foldl_toList, each]
  simp [ExtTreeMap.mem_toList_iff_getElem?_eq_some]

/-- The dependencies that were asked for at several versions, in order. -/
def disputed (r : Requirements α) : List String :=
  (r.toList.filter fun entry => 1 < entry.2.size).map Prod.fst

private theorem disputed_pairwise (r : Requirements α) : r.disputed.Pairwise (· < ·) := by
  rw [disputed, List.pairwise_map]
  exact (ExtTreeMap.ordered_keys_toList.filter _).imp VersionRequests.lt_of_compare

private theorem mem_disputed_iff : id ∈ r.disputed ↔
    ∃ version ∈ versionsOf r id, ∃ version' ∈ versionsOf r id, version ≠ version' := by
  rw [← Table.one_lt_size_iff, disputed, List.mem_map]
  constructor
  · rintro ⟨entry, listed, rfl⟩
    obtain ⟨member, several⟩ := List.mem_filter.mp listed
    rw [versionsOf_eq (ExtTreeMap.mem_toList_iff_getElem?_eq_some.mp member)]
    exact of_decide_eq_true several
  · intro several
    cases held : r[id]? with
    | none => simp [versionsOf, held] at several
    | some versions =>
      rw [versionsOf_eq held] at several
      refine ⟨(id, versions), List.mem_filter.mpr ⟨?_, decide_eq_true several⟩, rfl⟩
      exact ExtTreeMap.mem_toList_iff_getElem?_eq_some.mpr held

/-- What is told is which dependencies were asked for at several versions. -/
theorem reported_of_select (ran : r.select policy = .ok (selected, diagnostics)) :
    diagnostics.map Diagnostic.coordinate = r.disputed.map some := by
  obtain ⟨results, chosen, done⟩ := Running.ok_of_bind ran
  cases done
  have each (entry : String × Table String (Requested α)) (one : List (Selected α) × List Diagnostic)
      (ran : selectOne policy entry.1 entry.2 = .ok one) : one.2.map Diagnostic.coordinate =
        (Option.guard (1 < ·.2.size) entry).toList.map fun entry => some entry.1 := by
    obtain ⟨selection, _, picked, -, rfl⟩ := selectOne_ok ran
    have size := VersionRequests.length_overridden picked
    rw [versionRequests, ExtTreeMap.size_map] at size
    cases lost : selection.overridden with
    | nil =>
      have alone : ¬ 1 < entry.2.size := by simp [← size, lost]
      simp [Option.guard, alone]
    | cons first rest =>
      have several : 1 < entry.2.size := by simp [← size, lost]
      simp [Option.guard, several]
  rw [List.map_flatMap, Running.flatMap_of_mapM chosen each, ← List.map_flatMap,
    ← List.filterMap_eq_flatMap_toList, List.filterMap_eq_filter, disputed, List.map_map]
  rfl

/-- Nothing is merged of a selection that fails but the dependencies before the first that clashes. -/
theorem first_of_select_error {e : BuildError} (failed : r.select policy = .error e) :
    ∃ id versions, r[id]? = some versions ∧ (versionRequests versions).select id policy = .error e ∧
      ∀ id' versions', r[id']? = some versions' → id' < id →
        ∃ selection, (versionRequests versions').select id' policy = .ok selection := by
  have refused := Running.error_of_bind_first (fun _ => ⟨_, rfl⟩) failed
  obtain ⟨⟨id, versions⟩, found, refused⟩ := Running.find?_of_mapM_eq_error refused
  obtain ⟨held, -, least⟩ := Table.find?_toList_eq_some_iff.mp found
  refine ⟨id, versions, held, selectOne_error_iff.mp refused, fun id' versions' held' before => ?_⟩
  cases picked : (versionRequests versions').select id' policy with
  | ok selection => exact ⟨selection, rfl⟩
  | error e' =>
    refine absurd (compareOfLessAndEq_eq_lt.mpr before) (least id' versions' held' ?_)
    change (!(selectOne policy id' versions').isOk) = true
    rw [selectOne_error_iff.mpr picked]
    rfl

/-- Two versions of a dependency were asked for of which neither may override the other. -/
def Conflicting (requests : List (Request α)) (policy : ConflictPolicy) (id : String) : Prop :=
  ∃ version, Recorded requests id version ∧
    ∃ version', Recorded requests id version' ∧ policy.Clash version version'

private theorem conflicting_iff (held : (addAll ∅ requests)[id]? = some versions) :
    Conflicting requests policy id ↔ (versionRequests versions).Clashing policy := by
  simp only [Conflicting, ← mem_versionsOf_iff, versionsOf_eq held, VersionRequests.Clashing,
    mem_versionRequests]

private theorem Conflicting.known (conflicting : Conflicting requests policy id) :
    ∃ versions, (addAll ∅ requests)[id]? = some versions := by
  obtain ⟨_, recorded, -⟩ := conflicting
  obtain ⟨_, held⟩ := exists_held_iff.mpr recorded
  obtain ⟨versions, known, -⟩ := known_of_version held
  exact ⟨versions, known⟩

/-- A list of everything that was asked for: each version of each dependency once, in order, with what
is held for it. -/
structure Recounts (requests : List (Request α)) (entries : List (String × String × Requested α)) :
    Prop where
  ascending : entries.Pairwise fun entry entry' =>
    entry.1 < entry'.1 ∨ entry.1 = entry'.1 ∧ entry.2.1 < entry'.2.1
  versions : ∀ id version, (∃ requested, (id, version, requested) ∈ entries) ↔
    Recorded requests id version
  tells : ∀ id version requested, (id, version, requested) ∈ entries → Tells requests id version requested

/-- A selection in which nothing is lost and nothing is made up: one version of each dependency that was
asked for, in order, for everyone who asked for any version of it, and a diagnostic for each dependency
of which several versions were asked for. -/
structure Settles (requests : List (Request α)) (policy : ConflictPolicy) (selected : List (Selected α))
    (diagnostics : List Diagnostic) : Prop where
  merged : ∀ id, ¬ Conflicting requests policy id
  ascending : (selected.map Selected.logicalId).Pairwise (· < ·)
  dependencies : ∀ id, (∃ s ∈ selected, s.logicalId = id) ↔ ∃ version, Recorded requests id version
  versions : ∀ s ∈ selected, Recorded requests s.logicalId s.version
  payloads : ∀ s ∈ selected,
    (requests.find? fun q => q.logicalId = s.logicalId ∧ q.version = s.version).map Request.payload =
      some s.payload
  requesters : ∀ s ∈ selected, ∀ who, who ∈ s.requesters ↔
    ∃ q ∈ requests, q.logicalId = s.logicalId ∧ q.requester = who
  overrides : ∃ ids : List String, diagnostics.map Diagnostic.coordinate = ids.map some ∧
    ids.Pairwise (· < ·) ∧ ∀ id, id ∈ ids ↔
      ∃ version, Recorded requests id version ∧
        ∃ version', Recorded requests id version' ∧ version ≠ version'

/-- A refusal of the first dependency that cannot be merged, with each version of it that was asked for
and everyone who asked for that. -/
structure FirstConflict (requests : List (Request α)) (conflict : VersionConflict) : Prop where
  conflicting : Conflicting requests conflict.policy conflict.logicalId
  first : ∀ id, Conflicting requests conflict.policy id → ¬ id < conflict.logicalId
  nodup : (conflict.requests.map VersionRequest.version).Nodup
  versions : ∀ version, version ∈ conflict.requests.map VersionRequest.version ↔
    Recorded requests conflict.logicalId version
  requesters : ∀ request ∈ conflict.requests, ∀ who, who ∈ request.requestedBy ↔
    ∃ q ∈ requests, q.logicalId = conflict.logicalId ∧ q.version = request.version ∧ q.requester = who

private theorem recounts_all (requests : List (Request α)) : Recounts requests (addAll ∅ requests).all := by
  constructor
  · exact all_pairwise _
  · intro id version
    simp only [mem_all_iff, exists_held_iff]
  · intro id version requested listed
    exact tells_of_held (mem_all_iff.mp listed)

/-- What is held for the versions of a dependency names everyone who asked for any of them. -/
theorem mem_everyone_of_held (held : (addAll ∅ requests)[id]? = some versions) {who : String} :
    who ∈ everyone versions ↔ ∃ q ∈ requests, q.logicalId = id ∧ q.requester = who := by
  rw [mem_everyone_iff]
  constructor
  · rintro ⟨version, requested, inside, named⟩
    rw [← versionsOf_eq held] at inside
    obtain ⟨q, asked, own, -, name⟩ := ((tells_of_held inside).requesters who).mp named
    exact ⟨q, asked, own, name⟩
  · rintro ⟨q, asked, own, name⟩
    obtain ⟨requested, inside⟩ := exists_held_iff.mpr ⟨q, asked, own, rfl⟩
    have named := ((tells_of_held inside).requesters who).mpr ⟨q, asked, own, rfl, name⟩
    rw [versionsOf_eq held] at inside
    exact ⟨q.version, requested, inside, named⟩

private theorem settles_of_select (ran : (addAll ∅ requests).select policy = .ok (selected, diagnostics)) :
    Settles requests policy selected diagnostics := by
  have keys := selected_keys ran
  constructor
  · intro id conflicting
    obtain ⟨versions, held⟩ := conflicting.known
    have refused := VersionRequests.select_of_clashing ((conflicting_iff held).mp conflicting) id
    obtain ⟨selection, _, picked, -⟩ := exists_selected ran held
    rw [refused] at picked
    cases picked
  · rw [keys]
    exact ExtTreeMap.ordered_keys.imp VersionRequests.lt_of_compare
  · intro id
    rw [← List.mem_map, keys, ExtTreeMap.mem_keys, (addAll_spec requests).1]
    constructor
    · rintro ⟨q, member, same⟩
      exact ⟨q.version, q, member, same, rfl⟩
    · rintro ⟨version, q, member, same, -⟩
      exact ⟨q, member, same⟩
  · intro s member
    obtain ⟨winner, won, -⟩ := Option.map_eq_some_iff.mp (payload_of_mem_select ran member)
    exact exists_held_iff.mp ⟨winner, won⟩
  · intro s member
    obtain ⟨winner, won, paid⟩ := Option.map_eq_some_iff.mp (payload_of_mem_select ran member)
    rw [(tells_of_held won).payload, paid]
  · intro s member who
    obtain ⟨id, versions, _, _, held, -, -, rfl⟩ := (mem_select_iff ran).mp member
    exact mem_everyone_of_held held
  · refine ⟨_, reported_of_select ran, disputed_pairwise _, fun id => ?_⟩
    simp only [mem_disputed_iff, mem_versionsOf_iff]

private theorem firstConflict_of_select {e : BuildError}
    (failed : (addAll ∅ requests).select policy = .error e) :
    ∃ conflict, e = .versionConflict conflict ∧ conflict.policy = policy ∧ FirstConflict requests conflict := by
  obtain ⟨id, versions, held, refused, before⟩ := first_of_select_error failed
  obtain ⟨version, asked⟩ := exists_version held
  have clashing : (versionRequests versions).Clashing policy := by
    by_contra agree
    obtain ⟨selection, picked⟩ := VersionRequests.exists_select (mem_versionRequests.mpr asked) agree id
    rw [picked] at refused
    cases refused
  rw [VersionRequests.select_of_clashing clashing] at refused
  refine ⟨_, (Except.error.inj refused).symm, rfl, ?_⟩
  constructor
  · exact (conflicting_iff held).mpr clashing
  · intro id' conflicting less
    obtain ⟨versions', held'⟩ := conflicting.known
    obtain ⟨selection, picked⟩ := before id' versions' held' less
    have clashing' : (versionRequests versions').Clashing policy :=
      (conflicting_iff held').mp conflicting
    rw [VersionRequests.select_of_clashing clashing'] at picked
    cases picked
  · rw [VersionRequests.versions_conflict]
    exact VersionRequests.nodup_ascending _
  · intro v
    rw [VersionRequests.versions_conflict, VersionRequests.mem_ascending, mem_versionRequests,
      ← versionsOf_eq held, mem_versionsOf_iff]
    rfl
  · intro request told who
    obtain ⟨names, inside, listed⟩ := VersionRequests.requesters_conflict told
    rw [getElem?_versionRequests, Option.map_eq_some_iff] at inside
    obtain ⟨requested, inside, rfl⟩ := inside
    rw [← versionsOf_eq held] at inside
    rw [listed, ExtTreeSet.mem_toList, (tells_of_held inside).requesters]
    rfl

end Requirements

namespace Ledger

open Requirements

variable {α : Type}

/-- **Requests are accounted for.**  However a fresh ledger is filled, it can be closed, and then lists
each version of each dependency that was asked for, in order, with everyone who asked for it and what the
first of them supplied.  Under every policy, either one version of each dependency is selected and it is
reported of which others were overridden, or the first dependency whose versions the policy does not merge
is refused. -/
theorem requests_are_accounted_for (component : String) (calls : List (Call α)) :
    ∃ r l, closeAfter component calls = .ok (r, l) ∧ Recounts (Call.requests calls) r.all ∧
      ∀ policy,
        (∃ selected diagnostics, r.select policy = .ok (selected, diagnostics) ∧
          Settles (Call.requests calls) policy selected diagnostics) ∨
        ∃ conflict, r.select policy = .error (.versionConflict conflict) ∧ conflict.policy = policy ∧
          FirstConflict (Call.requests calls) conflict := by
  refine ⟨_, _, closeAfter_eq component calls, recounts_all _, fun policy => ?_⟩
  cases ran : (addAll ∅ (Call.requests calls)).select policy with
  | ok result =>
    obtain ⟨selected, diagnostics⟩ := result
    exact Or.inl ⟨selected, diagnostics, rfl, settles_of_select ran⟩
  | error e =>
    obtain ⟨conflict, rfl, told⟩ := firstConflict_of_select ran
    exact Or.inr ⟨conflict, rfl, told⟩

/-- Of a dependency that was asked for at two versions one is selected and reported, or it is refused. -/
theorem rivals_are_accounted_for :
    ∃ r l, closeAfter "external" askedThrice = .ok (r, l) ∧
      (∃ selected diagnostics, r.select .highest = .ok (selected, diagnostics) ∧
        (∃ s ∈ selected, s.logicalId = "gson") ∧
        some "gson" ∈ diagnostics.map Diagnostic.coordinate) ∧
      ∃ conflict, r.select .fail = .error (.versionConflict conflict) ∧ conflict.logicalId = "gson" := by
  have old : Recorded (Call.requests askedThrice) "gson" "2.8" := ⟨_, List.mem_cons_self, rfl, rfl⟩
  have new : Recorded (Call.requests askedThrice) "gson" "2.9" :=
    ⟨_, List.mem_cons_of_mem _ List.mem_cons_self, rfl, rfl⟩
  have differ : "2.8" ≠ "2.9" := by decide
  obtain ⟨r, l, closed, -, outcome⟩ := requests_are_accounted_for "external" askedThrice
  refine ⟨r, l, closed, ?_, ?_⟩
  · rcases outcome .highest with ⟨selected, diagnostics, ran, settles⟩ | ⟨conflict, -, policy, told⟩
    · obtain ⟨ids, reported, -, several⟩ := settles.overrides
      refine ⟨selected, diagnostics, ran, (settles.dependencies "gson").mpr ⟨_, old⟩, ?_⟩
      rw [reported]
      exact List.mem_map_of_mem ((several "gson").mpr ⟨_, old, _, new, differ⟩)
    · obtain ⟨_, -, _, -, clash⟩ := told.conflicting
      rw [policy] at clash
      exact clash.elim
  · rcases outcome .fail with ⟨_, _, -, settles⟩ | ⟨conflict, ran, -, told⟩
    · exact absurd ⟨_, old, _, new, differ⟩ (settles.merged "gson")
    · obtain ⟨_, ⟨q, asked, own, -⟩, -⟩ := told.conflicting
      have same : q.logicalId = "gson" := by
        rw [Call.mem_requests_iff] at asked
        simp only [askedThrice, List.mem_cons, Call.record.injEq, reduceCtorEq, List.not_mem_nil,
          or_false, false_or] at asked
        rcases asked with rfl | rfl | rfl <;> rfl
      exact ⟨conflict, ran, own.symm.trans same⟩

end Ledger

end RuleDepot
